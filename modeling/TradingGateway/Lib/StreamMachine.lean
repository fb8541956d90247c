/-
# `Lib.StreamMachine` — a machine that reads a framed stream and may stop

A machine `g` reads an item in a state, gives one answer, and goes on to the
next state or stops for good.  On a list of items that is

    run g s items          the answers, and the state, or `none` once stopped

and on a stream of fixed-size frames, decoded by `f` as in `Lib.StreamDecoder`,

    answers n f g s stream     the answers to the frames, up to the first frame
                               that `f` refuses or the first item `g` stops at
    Ends n f g s stream        one of these two is in the stream

A program that is fed the stream in pieces, and takes frames off its buffer
whenever it likes, stands at `Reads n f g s stream outs rest state`.  Feeding and
stepping keep the relation; the answers given are a prefix of the reference
(`Reads.prefix_answers`), all of it when no frame is left
(`Reads.eq_answers`), and what comes after the end changes nothing
(`Reads.refused`, `Reads.stopped`).  So the answers depend on the bytes alone,
not on how they were cut.
-/
import TradingGateway.Lib.StreamDecoder

namespace Lib.StreamMachine

open Lib.StreamDecoder

variable {β ρ σ ω : Type*} {n : Nat} {f : List β → Option ρ} {g : σ → ρ → ω × Option σ}

/-! ## On a list of items -/

/-- The answers to a list of items, and the state behind them. -/
def run (g : σ → ρ → ω × Option σ) : σ → List ρ → List ω × Option σ
  | s, [] => ([], some s)
  | s, r :: rs =>
      match g s r with
      | (o, none) => ([o], none)
      | (o, some s') => (o :: (run g s' rs).1, (run g s' rs).2)

theorem run_cons_next {s t : σ} {r : ρ} {o : ω} (h : g s r = (o, some t)) (rs : List ρ) :
    run g s (r :: rs) = (o :: (run g t rs).1, (run g t rs).2) := by
  rw [run, h]

theorem run_cons_stopped {s : σ} {r : ρ} {o : ω} (h : g s r = (o, none)) (rs : List ρ) :
    run g s (r :: rs) = ([o], none) := by
  rw [run, h]

theorem run_append {rs : List ρ} (qs : List ρ) :
    ∀ {s s' : σ} {os : List ω}, run g s rs = (os, some s') →
      run g s (rs ++ qs) = (os ++ (run g s' qs).1, (run g s' qs).2) := by
  induction rs with
  | nil =>
      intro s s' os h
      cases h
      rfl
  | cons r rs ih =>
      intro s s' os h
      rcases hg : g s r with ⟨o, _ | t⟩
      · rw [run_cons_stopped hg] at h
        cases h
      · rw [run_cons_next hg] at h
        obtain ⟨rfl, hstate⟩ := Prod.mk.inj h
        rw [List.cons_append, run_cons_next hg, ih (Prod.ext rfl hstate)]
        rfl

theorem run_append_of_stopped {rs : List ρ} (qs : List ρ) :
    ∀ {s : σ} {os : List ω}, run g s rs = (os, none) → run g s (rs ++ qs) = (os, none) := by
  induction rs with
  | nil =>
      intro s os h
      cases h
  | cons r rs ih =>
      intro s os h
      rcases hg : g s r with ⟨o, _ | t⟩
      · rw [run_cons_stopped hg] at h
        rw [List.cons_append, run_cons_stopped hg, h]
      · rw [run_cons_next hg] at h
        obtain ⟨rfl, hstate⟩ := Prod.mk.inj h
        rw [List.cons_append, run_cons_next hg, ih (Prod.ext rfl hstate)]

theorem run_snoc {rs : List ρ} {s s' : σ} {os : List ω} (h : run g s rs = (os, some s')) (r : ρ) :
    run g s (rs ++ [r]) = (os ++ [(g s' r).1], (g s' r).2) := by
  rw [run_append [r] h, run]
  rcases g s' r with ⟨o, _ | t⟩
  · rfl
  · rfl

/-! ## On a stream -/

/-- The answers to the frames of a stream. -/
def answers (n : Nat) (f : List β → Option ρ) (g : σ → ρ → ω × Option σ) (s : σ)
    (stream : List β) : List ω :=
  (run g s (decodeStream n f stream)).1

/-- The stream holds a frame that is refused, or an item the machine stops at. -/
def Ends (n : Nat) (f : List β → Option ρ) (g : σ → ρ → ω × Option σ) (s : σ)
    (stream : List β) : Prop :=
  (run g s (decodeStream n f stream)).2 = none ∨
    n * (decodeStream n f stream).length + n ≤ stream.length

/-- Of the stream, the answers `outs` were given, `rest` is not looked at yet, and
the machine is in `state`. -/
def Reads (n : Nat) (f : List β → Option ρ) (g : σ → ρ → ω × Option σ) (s : σ)
    (stream : List β) (outs : List ω) (rest : List β) (state : σ) : Prop :=
  ∃ items, Decoded n f stream items rest ∧ run g s items = (outs, some state)

namespace Reads

variable {s state : σ} {stream rest : List β} {outs : List ω}

theorem start : Reads n f g s ([] : List β) [] [] s :=
  ⟨[], Decoded.start, rfl⟩

theorem of_nil (h : Reads n f g s ([] : List β) outs rest state) (hn : 0 < n) :
    outs = [] ∧ rest = [] ∧ state = s := by
  obtain ⟨items, hdec, hrun⟩ := h
  have hlen := hdec.length_eq
  rw [List.length_nil] at hlen
  have hitems : items = [] := by
    refine List.length_eq_zero_iff.mp ((Nat.mul_eq_zero.mp ?_).resolve_left (Nat.ne_of_gt hn))
    exact Nat.le_zero.mp (hlen ▸ Nat.le_add_right _ _)
  have hrest : rest = [] :=
    List.length_eq_zero_iff.mp (Nat.le_zero.mp (hlen ▸ Nat.le_add_left _ _))
  subst hitems
  cases hrun
  exact ⟨rfl, hrest, rfl⟩

theorem feed (h : Reads n f g s stream outs rest state) (chunk : List β) :
    Reads n f g s (stream ++ chunk) outs (rest ++ chunk) state := by
  obtain ⟨items, hdec, hrun⟩ := h
  exact ⟨items, hdec.feed chunk, hrun⟩

theorem step (h : Reads n f g s stream outs rest state) {r : ρ} {o : ω} {state' : σ}
    (hlen : n ≤ rest.length) (hr : f (rest.take n) = some r) (hg : g state r = (o, some state')) :
    Reads n f g s stream (outs ++ [o]) (rest.drop n) state' := by
  obtain ⟨items, hdec, hrun⟩ := h
  refine ⟨items ++ [r], hdec.take hlen hr, ?_⟩
  rw [run_snoc hrun, hg]

theorem prefix_answers (h : Reads n f g s stream outs rest state) (hn : 0 < n) :
    outs <+: answers n f g s stream := by
  obtain ⟨items, hdec, hrun⟩ := h
  rw [answers, hdec.decodeStream_eq hn, run_append _ hrun]
  exact List.prefix_append _ _

/-- Where no frame is left, it is the reference, and the stream has not ended. -/
theorem eq_answers (h : Reads n f g s stream outs rest state) (hn : 0 < n)
    (hshort : rest.length < n) : outs = answers n f g s stream ∧ ¬ Ends n f g s stream := by
  obtain ⟨items, hdec, hrun⟩ := h
  have hall := hdec.eq_decodeStream hn (Or.inl hshort)
  have hlen := hdec.length_eq
  rw [answers, Ends, ← hall, hrun]
  refine ⟨rfl, ?_⟩
  rintro (hnone | hle)
  · cases hnone
  · rw [hlen] at hle
    exact absurd (Nat.le_of_add_le_add_left hle) (Nat.not_le.mpr hshort)

/-- The next frame is refused: nothing that comes later is answered. -/
theorem refused (h : Reads n f g s stream outs rest state) (hn : 0 < n) (hlen : n ≤ rest.length)
    (hr : f (rest.take n) = none) (more : List β) :
    answers n f g s (stream ++ more) = outs ∧ Ends n f g s (stream ++ more) := by
  obtain ⟨items, hdec, hrun⟩ := h
  have hfeed := hdec.feed more
  have htake : (rest ++ more).take n = rest.take n := List.take_append_of_le_length hlen
  have hall := hfeed.eq_decodeStream hn (Or.inr (htake ▸ hr))
  rw [answers, Ends, ← hall, hrun, hfeed.length_eq]
  refine ⟨rfl, Or.inr (Nat.add_le_add_left ?_ _)⟩
  rw [List.length_append]
  exact Nat.le_trans hlen (Nat.le_add_right _ _)

theorem stopped (h : Reads n f g s stream outs rest state) (hn : 0 < n) {r : ρ} {o : ω}
    (hlen : n ≤ rest.length) (hr : f (rest.take n) = some r) (hg : g state r = (o, none))
    (more : List β) :
    answers n f g s (stream ++ more) = outs ++ [o] ∧ Ends n f g s (stream ++ more) := by
  obtain ⟨items, hdec, hrun⟩ := h
  have hstop : run g s (items ++ [r]) = (outs ++ [o], none) := by
    rw [run_snoc hrun, hg]
  have hrun' := run_append_of_stopped (decodeStream n f (rest.drop n ++ more)) hstop
  rw [answers, Ends, ((hdec.take hlen hr).feed more).decodeStream_eq hn, hrun']
  exact ⟨rfl, Or.inl rfl⟩

end Reads

end Lib.StreamMachine
