/-
# `Lib.QueueMachine` — a shared queue whose calls are made of single accesses

One producer and one consumer share a queue.  A call is entered, goes on by single
accesses and is answered at its last one; between two accesses of one side the other
side may take any number.  A `Machine` is such a queue as a program has it, and
`Lawful` is what it takes to be a queue: an invariant that every access keeps, the
contents behind it, and a rank that says how many accesses a call still needs.

| law | says |
| :-- | :-- |
| `sound` | an access changes the contents as the bounded queue may |
| `turn` | a call is entered by an idle side, goes on, and is answered as it asked |
| `frame` | neither side sees the other's calls |
| `unblocked` | a call waits at most for a call of the other side, which can go on |

Three things follow for every lawful machine: it is a FIFO (`Lawful.fifo`), a call
takes at most as many accesses as its rank says (`Lawful.bounded`), and calls under way
can be finished, with an honest answer where nobody else is inside
(`Lawful.settles`, `Lawful.finishes`).  A machine whose calls never wait is `WaitFree`.
-/
import TradingGateway.Lib.BoundedFifo

namespace Lib.QueueMachine

open BoundedFifo

/-! ## Machines -/

/-- An end of the queue. -/
inductive Side where
  | producer
  | consumer
deriving DecidableEq, Repr

def Side.other : Side → Side
  | .producer => .consumer
  | .consumer => .producer

theorem Side.eq_or_eq_other (d e : Side) : d = e ∨ d = e.other := by
  cases d <;> cases e <;> simp [Side.other]

theorem Side.ne_other (d : Side) : d ≠ d.other := by
  cases d <;> simp [Side.other]

/-- The end a call is made at. -/
def callSide {α : Type*} : Call α → Side
  | .push _ => .producer
  | .pop => .consumer

/-- The answers that a call may get. -/
inductive Answers {α : Type*} : Call α → Answer α → Prop
  | pushed (v : α) : Answers (.push v) (.pushed v)
  | refused (v : α) : Answers (.push v) (.refused v)
  | popped (v : α) : Answers .pop (.popped v)
  | empty : Answers .pop .empty

/-- A queue as a program has it: `access` is one access, `entry` says which accesses are
the entry into a call, and `pending` which call a side is inside of. -/
structure Machine (σ ι α : Type*) where
  fresh : σ
  side : ι → Side
  entry : ι → Option (Call α)
  access : σ → ι → Option (σ × Option (Answer α))
  pending : σ → Side → Option (Call α)

variable {σ ι α : Type*}

namespace Machine

/-- The steps of a machine, each with its access and its answer. -/
def Step (M : Machine σ ι α) (s : σ) (l : ι × Option (Answer α)) (s' : σ) : Prop :=
  M.access s l.1 = some (s', l.2)

/-- `s` is reached by accesses from the fresh queue. -/
def Reached (M : Machine σ ι α) (s : σ) : Prop := Reachable (· = M.fresh) M.Step s

theorem reached_fresh (M : Machine σ ι α) : M.Reached M.fresh := ⟨[], .start rfl⟩

theorem Reached.access {M : Machine σ ι α} {s s' : σ} {l : Option (Answer α)} (h : M.Reached s)
    (i : ι) (hi : M.access s i = some (s', l)) : M.Reached s' := by
  obtain ⟨ts, hts⟩ := h
  exact ⟨_, hts.next (l := (i, l)) hi⟩

/-- An access of the side `d` inside a call. -/
def Own (M : Machine σ ι α) (d : Side) (s : σ) (l : Option (Answer α)) (s' : σ) : Prop :=
  ∃ i, M.side i = d ∧ M.entry i = none ∧ M.access s i = some (s', l)

/-- The accesses of the side `d` along a run. -/
def ownAccesses (M : Machine σ ι α) (d : Side)
    (ts : List (Taken σ (ι × Option (Answer α)))) : Nat :=
  ts.countP fun t => M.side t.label.1 = d

/-- Accesses of the side `d` up to its answer. -/
inductive Finishes (M : Machine σ ι α) (d : Side) : σ → Answer α → σ → Prop
  | last {s s' : σ} {a : Answer α} : M.Own d s (some a) s' → Finishes M d s a s'
  | more {s s' s'' : σ} {a : Answer α} : M.Own d s none s' → Finishes M d s' a s'' →
      Finishes M d s a s''

/-- Accesses inside the calls under way, until there are none. -/
inductive Settles (M : Machine σ ι α) : σ → σ → Prop
  | settled {s : σ} : (∀ d, M.pending s d = none) → Settles M s s
  | more {s s' s'' : σ} {d : Side} {l : Option (Answer α)} : M.Own d s l s' → Settles M s' s'' →
      Settles M s s''

/-- Every call that was entered can always go on, and is answered with its `bound`-th
access at the latest, whatever the other side does. -/
structure WaitFree (M : Machine σ ι α) (bound : Nat) : Prop where
  enabled : ∀ {s d}, M.Reached s → M.pending s d ≠ none → ∃ l s', M.Own d s l s'
  bounded : ∀ {s ts s' d}, M.Reached s → Run (· = s) M.Step ts s' → M.pending s d ≠ none →
    (∀ t ∈ ts, M.pending t.dst d ≠ none) → M.ownAccesses d ts < bound

end Machine

/-! ## Laws -/

/-- What an access of the side `d` does to its call: it enters it, brings it nearer to its
end, or answers it. -/
inductive Turn (rank : σ → Side → Nat) (pending : σ → Side → Option (Call α)) (d : Side)
    (s : σ) : Option (Call α) → Option (Answer α) → σ → Prop
  | enter {c : Call α} {s' : σ} : pending s d = none → pending s' d = some c →
      Turn rank pending d s (some c) none s'
  | onward {c : Call α} {s' : σ} : pending s d = some c → pending s' d = some c →
      rank s' d < rank s d → Turn rank pending d s none none s'
  | answered {c : Call α} {a : Answer α} {s' : σ} : pending s d = some c → Answers c a →
      pending s' d = none → Turn rank pending d s none (some a) s'

/-- What it takes for a machine to be the queue of `bound` values. -/
structure Lawful (M : Machine σ ι α) (bound : Nat) (honest : Bool) where
  Inv : σ → Prop
  contents : σ → List α
  rank : σ → Side → Nat
  inv_fresh : Inv M.fresh
  contents_fresh : contents M.fresh = []
  pending_fresh : ∀ d, M.pending M.fresh d = none
  entry_side : ∀ {i c}, M.entry i = some c → M.side i = callSide c
  pending_side : ∀ {s d c}, M.pending s d = some c → callSide c = d
  sound : ∀ {s i l s'}, Inv s → M.access s i = some (s', l) →
    Inv s' ∧ Step bound honest (contents s) l (contents s')
  enter : ∀ {s} c, M.pending s (callSide c) = none →
    ∃ i s', M.entry i = some c ∧ M.access s i = some (s', none)
  turn : ∀ {s i l s'}, M.access s i = some (s', l) →
    Turn rank M.pending (M.side i) s (M.entry i) l s'
  frame : ∀ {s i l s' d}, M.access s i = some (s', l) → d ≠ M.side i →
    M.pending s' d = M.pending s d ∧ rank s' d = rank s d
  /-- What can go on is honest. -/
  unblocked : ∀ {s d}, Inv s → M.pending s d ≠ none →
    ∃ e, (e = d ∨ e = d.other ∧ M.pending s e ≠ none) ∧
      ∃ l s', M.Own e s l s' ∧ Step bound true (contents s) l (contents s')

namespace Lawful

variable {M : Machine σ ι α} {bound : Nat} {honest : Bool} (L : Lawful M bound honest)

theorem inv_of_run {ts : List (Taken σ (ι × Option (Answer α)))} {s s' : σ} (hs : L.Inv s)
    (h : Run (· = s) M.Step ts s') : L.Inv s' := by
  refine h.invariant_state ?_ ?_
  · rintro _ rfl
    exact hs
  · intro t l t' ht hstep
    exact (L.sound ht hstep).1

theorem inv_of_reached {s : σ} (h : M.Reached s) : L.Inv s := by
  obtain ⟨ts, hts⟩ := h
  exact L.inv_of_run L.inv_fresh hts

theorem goes {s s' : σ} {i : ι} {l : Option (Answer α)} (hentry : M.entry i = none)
    (h : M.access s i = some (s', l)) : Turn L.rank M.pending (M.side i) s none l s' :=
  hentry ▸ L.turn h

include L in
theorem enters {s s' : σ} {i : ι} {c : Call α} {l : Option (Answer α)} (hentry : M.entry i = some c)
    (h : M.access s i = some (s', l)) :
    l = none ∧ M.pending s (M.side i) = none ∧ M.pending s' (M.side i) = some c := by
  have hturn := L.turn h
  rw [hentry] at hturn
  cases hturn with
  | enter hp hp' => exact ⟨rfl, hp, hp'⟩

/-! ### A queue -/

/-- The answers along a run. -/
def answers (ts : List (Taken σ (ι × Option (Answer α)))) : List (Taken σ (Option (Answer α))) :=
  ts.map fun t => ⟨t.src, t.label.2, t.dst⟩

include L in
/-- **A lawful machine is a FIFO**, whatever the interleaving. -/
theorem fifo {ts : List (Taken σ (ι × Option (Answer α)))} {s : σ}
    (h : Run (· = M.fresh) M.Step ts s) :
    pushes (answers ts) = pops (answers ts) ++ L.contents s ∧ (L.contents s).length ≤ bound := by
  have hlaw : L.Inv s ∧ ∃ us, Run Fresh (BoundedFifo.Step bound honest) us (L.contents s) ∧
      us.map Taken.label = (answers ts).map Taken.label := by
    induction h with
    | start h =>
        subst h
        exact ⟨L.inv_fresh, [], .start L.contents_fresh, rfl⟩
    | @next ts s s' l h hstep ih =>
        obtain ⟨hinv, us, hus, hlabels⟩ := ih
        obtain ⟨hinv', hqueue⟩ := L.sound hinv hstep
        refine ⟨hinv', _, hus.next hqueue, ?_⟩
        rw [List.map_append, hlabels, answers, answers, List.map_append, List.map_append]
        rfl
  obtain ⟨-, us, hus, hlabels⟩ := hlaw
  obtain ⟨hlaw, hle⟩ := BoundedFifo.Run.history hus
  rw [pushes_eq_of_labels hlabels, pops_eq_of_labels hlabels] at hlaw
  exact ⟨hlaw, hle⟩

/-- An honest machine refuses only at a full queue, and has nothing only at an empty one. -/
theorem honest_answers (L : Lawful M bound true) {ts : List (Taken σ (ι × Option (Answer α)))} {s : σ}
    (h : Run (· = M.fresh) M.Step ts s) {t : Taken σ (ι × Option (Answer α))} (ht : t ∈ ts) :
    (∀ v, t.label.2 = some (.refused v) → (L.contents t.src).length = bound) ∧
      (t.label.2 = some .empty → L.contents t.src = []) := by
  obtain ⟨hreached, hstep⟩ := h.of_mem ht
  have hqueue := (L.sound (L.inv_of_reached hreached) hstep).2
  constructor
  · intro v hl
    rw [hl] at hqueue
    exact hqueue.full
  · intro hl
    rw [hl] at hqueue
    exact hqueue.nil

/-! ### How long a call takes -/

/-- While a side stays inside, each of its accesses costs it one rank; those of the
other side cost it nothing. -/
theorem ownAccesses_add_rank_le {ts : List (Taken σ (ι × Option (Answer α)))} {s s' : σ} {d : Side}
    (h : Run (· = s) M.Step ts s') (inside : M.pending s d ≠ none)
    (stays : ∀ t ∈ ts, M.pending t.dst d ≠ none) :
    M.ownAccesses d ts + L.rank s' d ≤ L.rank s d := by
  induction h with
  | start h =>
      subst h
      exact Nat.le_of_eq (Nat.zero_add _)
  | @next ts t t' l h hstep ih =>
      obtain ⟨i, l⟩ := l
      have hih := ih fun x hx => stays x (List.mem_append_left _ hx)
      have hlast : M.pending t' d ≠ none :=
        stays _ (List.mem_append_right _ List.mem_cons_self)
      rw [Machine.ownAccesses, List.countP_append, List.countP_singleton]
      by_cases hd : M.side i = d
      · have hbefore : M.pending t d ≠ none := h.at_end (P := fun x => M.pending x d ≠ none)
          (by rintro _ rfl; exact inside) fun x hx => stays x (List.mem_append_left _ hx)
        have hentry : M.entry i = none := by
          rw [Option.eq_none_iff_forall_ne_some]
          intro c hc
          exact hbefore (hd ▸ (L.enters hc hstep).2.1)
        have hrank : L.rank t' d < L.rank t d := by
          have hgoes := L.goes hentry hstep
          rw [hd] at hgoes
          cases hgoes with
          | onward _ _ hlt => exact hlt
          | answered _ _ hnone => exact absurd hnone hlast
        rw [if_pos (by simpa using hd)]
        rw [Machine.ownAccesses] at hih
        omega
      · obtain ⟨-, hrank⟩ := L.frame hstep (Ne.symm hd)
        rw [if_neg (by simpa using hd), hrank]
        exact hih

/-- **A call is answered with its `K`-th access at the latest**, where no rank exceeds
`K` and the rank of a call under way is positive. -/
theorem bounded {K : Nat} (le : ∀ s d, L.rank s d ≤ K)
    (pos : ∀ {s d}, M.pending s d ≠ none → 0 < L.rank s d)
    {ts : List (Taken σ (ι × Option (Answer α)))} {s s' : σ} {d : Side}
    (h : Run (· = s) M.Step ts s') (inside : M.pending s d ≠ none)
    (stays : ∀ t ∈ ts, M.pending t.dst d ≠ none) : M.ownAccesses d ts < K := by
  have hcount := L.ownAccesses_add_rank_le h inside stays
  have hend : M.pending s' d ≠ none := h.at_end (P := fun x => M.pending x d ≠ none)
    (by rintro _ rfl; exact inside) stays
  have := pos hend
  have := le s d
  omega

/-! ### Calls can be finished -/

/-- How much the calls under way still need. -/
def work (s : σ) (d : Side) : Nat :=
  match M.pending s d with
  | none => 0
  | some _ => L.rank s d + 1

theorem work_of_none {s : σ} {d : Side} (h : M.pending s d = none) : L.work s d = 0 := by
  rw [work, h]

theorem work_of_some {s : σ} {d : Side} {c : Call α} (h : M.pending s d = some c) :
    L.work s d = L.rank s d + 1 := by
  rw [work, h]

/-- An access inside a call takes from its own work and leaves the other's. -/
theorem work_lt {s s' : σ} {d : Side} {l : Option (Answer α)} (h : M.Own d s l s') :
    L.work s' d < L.work s d ∧ L.work s' d.other = L.work s d.other := by
  obtain ⟨i, rfl, hentry, haccess⟩ := h
  constructor
  · cases L.goes hentry haccess with
    | onward hp hp' hlt =>
        rw [L.work_of_some hp, L.work_of_some hp']
        exact Nat.succ_lt_succ hlt
    | answered hp _ hp' =>
        rw [L.work_of_some hp, L.work_of_none hp']
        exact Nat.succ_pos _
  · obtain ⟨hpending, hrank⟩ := L.frame haccess (M.side i).ne_other.symm
    rw [work, work, hpending, hrank]

/-- **Calls under way can be finished.** -/
theorem settles {s : σ} (h : L.Inv s) : ∃ s', M.Settles s s' := by
  induction hn : L.work s .producer + L.work s .consumer using Nat.strongRecOn
    generalizing s with
  | ind n ih =>
      subst hn
      by_cases hidle : ∀ d, M.pending s d = none
      · exact ⟨s, .settled hidle⟩
      · obtain ⟨d, hd⟩ := not_forall.mp hidle
        obtain ⟨e, -, l, s₁, hown, -⟩ := L.unblocked h hd
        have hinv : L.Inv s₁ := by
          obtain ⟨i, -, -, haccess⟩ := hown
          exact (L.sound h haccess).1
        obtain ⟨hlt, heq⟩ := L.work_lt hown
        have hless : L.work s₁ .producer + L.work s₁ .consumer
            < L.work s .producer + L.work s .consumer := by
          cases e with
          | producer => exact Nat.add_lt_add_of_lt_of_le hlt (Nat.le_of_eq heq)
          | consumer => exact Nat.add_lt_add_of_le_of_lt (Nat.le_of_eq heq) hlt
        obtain ⟨s', hs'⟩ := ih _ hless hinv rfl
        exact ⟨s', .more hown hs'⟩

/-- **A call that is alone can be finished**, and its answer is honest. -/
theorem finishes {s : σ} {d : Side} {c : Call α} (h : L.Inv s) (hc : M.pending s d = some c)
    (alone : M.pending s d.other = none) :
    ∃ a s', M.Finishes d s a s' ∧ Answers c a ∧
      BoundedFifo.Step bound true (L.contents s) (some a) (L.contents s') ∧
      ∀ e, M.pending s' e = none := by
  induction hn : L.rank s d using Nat.strongRecOn generalizing s with
  | ind n ih =>
      subst hn
      obtain ⟨e, he, l, s₁, hown, hqueue⟩ := L.unblocked h (by rw [hc]; nofun : M.pending s d ≠ none)
      have hed : e = d := by
        rcases he with rfl | ⟨rfl, hinside⟩
        · rfl
        · exact absurd alone hinside
      subst hed
      have hown' := hown
      obtain ⟨i, rfl, hentry, haccess⟩ := hown'
      have hframe := (L.frame haccess (M.side i).ne_other.symm).1.trans alone
      cases L.goes hentry haccess with
      | onward hp hp' hlt =>
          obtain rfl := Option.some.inj (hc.symm.trans hp)
          obtain ⟨a, s', hfin, ha, hstep, hidle⟩ := ih _ hlt (L.sound h haccess).1 hp' hframe rfl
          refine ⟨a, s', .more hown hfin, ha, ?_, hidle⟩
          rw [hqueue.eq_of_silent] at hstep
          exact hstep
      | answered hp ha hp' =>
          obtain rfl := Option.some.inj (hc.symm.trans hp)
          refine ⟨_, s₁, .last hown, ha, hqueue, fun e => ?_⟩
          rcases Side.eq_or_eq_other e (M.side i) with rfl | rfl
          · exact hp'
          · exact hframe

theorem inv_of_finishes {s s' : σ} {d : Side} {a : Answer α} (h : M.Finishes d s a s')
    (hs : L.Inv s) : L.Inv s' := by
  induction h with
  | last hown =>
      obtain ⟨i, -, -, haccess⟩ := hown
      exact (L.sound hs haccess).1
  | more hown _ ih =>
      obtain ⟨i, -, -, haccess⟩ := hown
      exact ih (L.sound hs haccess).1

theorem waitFree {K : Nat} (le : ∀ s d, L.rank s d ≤ K)
    (pos : ∀ {s d}, M.pending s d ≠ none → 0 < L.rank s d)
    (own : ∀ {s d}, L.Inv s → M.pending s d ≠ none → ∃ l s', M.Own d s l s') :
    M.WaitFree K where
  enabled := fun hs hd => own (L.inv_of_reached hs) hd
  bounded := fun _ h inside stays => L.bounded le pos h inside stays

end Lawful

end Lib.QueueMachine
