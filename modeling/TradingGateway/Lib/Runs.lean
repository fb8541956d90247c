/-
# `Lib.Runs` — labelled transition systems and their finite runs

A system is an initial condition and a labelled step relation.  A run is the
list of steps taken, oldest first, each step with the state before it, its
label and the state after it; so a statement about a run can speak about the
labels, about the states in between, or about both.

    Run.invariant     what holds at the start and is kept by every step holds
                      after every run (the invariant may read the run so far)
    Run.of_mem        every step of a run was taken from a state that a prefix
                      of the run reached
    Run.back          what holds at the end and is carried back over the last steps
                      holds before each of them
    Run.conserve      what went into a channel is what came out of it followed
                      by what is still in it
    Run.simulate      a forward simulation carries runs to runs, label for label
    Run.ranked        a rank bounds how often it can go down
    Run.append        a run and one from where it ended are one
    Run.replay        a system that can be executed, run on a list of inputs

Nothing here knows what the states or the labels are.
-/
import Mathlib.Algebra.Group.Nat.Defs
import Mathlib.Data.List.Basic
import Mathlib.Data.List.Induction

namespace Lib

/-- One step as it was taken. -/
structure Taken (σ ℓ : Type*) where
  src : σ
  label : ℓ
  dst : σ

/-- `Run init step ts s`: starting in a state that satisfies `init`, the steps
`ts` were taken in this order, and `s` is the state after them. -/
inductive Run {σ ℓ : Type*} (init : σ → Prop) (step : σ → ℓ → σ → Prop) :
    List (Taken σ ℓ) → σ → Prop
  | start {s : σ} : init s → Run init step [] s
  | next {ts : List (Taken σ ℓ)} {s s' : σ} {l : ℓ} :
      Run init step ts s → step s l s' → Run init step (ts ++ [⟨s, l, s'⟩]) s'

/-- `s` is the last state of some run. -/
def Reachable {σ ℓ : Type*} (init : σ → Prop) (step : σ → ℓ → σ → Prop) (s : σ) : Prop :=
  ∃ ts : List (Taken σ ℓ), Run init step ts s

namespace Run

variable {σ ℓ : Type*} {init : σ → Prop} {step : σ → ℓ → σ → Prop}

/-- The induction over runs, once.  The step case also knows that the state
before it is reached, so an invariant proved earlier can be used in it. -/
theorem invariant {I : List (Taken σ ℓ) → σ → Prop} (hinit : ∀ s, init s → I [] s)
    (hstep : ∀ ts s l s', Run init step ts s → I ts s → step s l s' → I (ts ++ [⟨s, l, s'⟩]) s')
    {ts : List (Taken σ ℓ)} {s : σ} (h : Run init step ts s) : I ts s := by
  induction h with
  | start h => exact hinit _ h
  | next h hs ih => exact hstep _ _ _ _ h ih hs

theorem invariant_state {I : σ → Prop} (hinit : ∀ s, init s → I s)
    (hstep : ∀ s l s', I s → step s l s' → I s')
    {ts : List (Taken σ ℓ)} {s : σ} (h : Run init step ts s) : I s :=
  invariant (I := fun _ s => I s) hinit (fun _ _ _ _ _ hi hs => hstep _ _ _ hi hs) h

theorem last {us : List (Taken σ ℓ)} {t : Taken σ ℓ} {s : σ} (h : Run init step (us ++ [t]) s) :
    Run init step us t.src ∧ step t.src t.label t.dst ∧ t.dst = s := by
  generalize hts : us ++ [t] = ts at h
  cases h with
  | start _ => simp at hts
  | next h hs =>
      obtain ⟨rfl, ht⟩ := List.append_inj' hts rfl
      obtain rfl := List.singleton_injective ht
      exact ⟨h, hs, rfl⟩

theorem at_end {P : σ → Prop} {ts : List (Taken σ ℓ)} {s : σ} (h : Run init step ts s)
    (hinit : ∀ s, init s → P s) (hall : ∀ t ∈ ts, P t.dst) : P s := by
  cases h with
  | start h => exact hinit _ h
  | next h hs => exact hall _ (List.mem_append_right _ List.mem_cons_self)

theorem cut {s : σ} {t : Taken σ ℓ} :
    ∀ {us vs : List (Taken σ ℓ)}, Run init step (us ++ t :: vs) s →
      Run init step us t.src ∧ step t.src t.label t.dst ∧ Run init step (us ++ [t]) t.dst := by
  intro us vs h
  generalize hts : us ++ t :: vs = ts at h
  induction h generalizing vs with
  | start _ => simp at hts
  | @next ts s s' l h hs ih =>
      rcases List.eq_nil_or_concat vs with rfl | ⟨ws, w, rfl⟩
      · obtain ⟨rfl, hw⟩ := List.append_inj' hts rfl
        obtain rfl := List.singleton_injective hw
        exact ⟨h, hs, h.next hs⟩
      · have hts' : (us ++ t :: ws) ++ [w] = ts ++ [⟨s, l, s'⟩] := by simpa using hts
        exact ih (List.append_inj' hts' rfl).1

/-- Every step of a run is a step of the system, taken from a state that a
prefix of the run reached. -/
theorem of_mem {ts : List (Taken σ ℓ)} {s : σ} (h : Run init step ts s) {t : Taken σ ℓ}
    (ht : t ∈ ts) : Reachable init step t.src ∧ step t.src t.label t.dst := by
  obtain ⟨us, vs, rfl⟩ := List.append_of_mem ht
  exact ⟨⟨us, h.cut.1⟩, h.cut.2.1⟩

/-- Along the last steps of a run, what holds at the end and is carried back over each of
them holds before each of them. -/
theorem back {R : σ → Prop} {us vs : List (Taken σ ℓ)} {s : σ} (h : Run init step (us ++ vs) s)
    (hback : ∀ t ∈ vs, step t.src t.label t.dst → R t.dst → R t.src) (hend : R s) :
    ∀ t ∈ vs, R t.src := by
  induction vs using List.reverseRecOn generalizing s with
  | nil => exact List.forall_mem_nil _
  | append_singleton vs t ih =>
      rw [← List.append_assoc] at h
      obtain ⟨hrun, hstep, rfl⟩ := h.last
      have hsrc := hback t (List.mem_append_right _ List.mem_cons_self) hstep hend
      have hrest := ih hrun (fun x hx => hback x (List.mem_append_left _ hx)) hsrc
      intro x hx
      rcases List.mem_append.mp hx with hx | hx
      · exact hrest x hx
      · rw [List.mem_singleton.mp hx]
        exact hsrc

/-- A channel that neither loses nor reorders nor repeats: if every step keeps the
content and what it puts in equal to what it takes out and the content then, the run
does. -/
theorem conserve {α : Type*} (content : σ → List α) (put got : ℓ → List α)
    (hinit : ∀ s, init s → content s = [])
    (hstep : ∀ ts s l s', Run init step ts s → step s l s' →
      content s ++ put l = got l ++ content s')
    {ts : List (Taken σ ℓ)} {s : σ} (h : Run init step ts s) :
    (ts.flatMap fun t => put t.label) = (ts.flatMap fun t => got t.label) ++ content s := by
  induction h with
  | start h => exact (hinit _ h).symm
  | @next ts s s' l h hs ih =>
      rw [List.flatMap_append, List.flatMap_append, List.flatMap_singleton, List.flatMap_singleton,
        ih, List.append_assoc, hstep _ _ _ _ h hs, List.append_assoc]

/-- A forward simulation: related initial states, and every step of the first
system matched by a step of the second with the same label. -/
theorem simulate {σ' : Type*} {init' : σ' → Prop} {step' : σ' → ℓ → σ' → Prop}
    {R : List (Taken σ ℓ) → σ → σ' → Prop}
    (hinit : ∀ s, init s → ∃ a, init' a ∧ R [] s a)
    (hstep : ∀ ts s l s' a, Run init step ts s → R ts s a → step s l s' →
      ∃ a', step' a l a' ∧ R (ts ++ [⟨s, l, s'⟩]) s' a')
    {ts : List (Taken σ ℓ)} {s : σ} (h : Run init step ts s) :
    ∃ us a, Run init' step' us a ∧ us.map Taken.label = ts.map Taken.label ∧ R ts s a := by
  induction h with
  | start h =>
      obtain ⟨a, ha, hr⟩ := hinit _ h
      exact ⟨[], a, .start ha, rfl, hr⟩
  | next h hs ih =>
      obtain ⟨us, a, hus, hl, hr⟩ := ih
      obtain ⟨a', hs', hr'⟩ := hstep _ _ _ _ a h hr hs
      exact ⟨_, a', hus.next hs', by simp [hl], hr'⟩

theorem append {ts us : List (Taken σ ℓ)} {s s' : σ} (h : Run init step ts s)
    (h' : Run (· = s) step us s') : Run init step (ts ++ us) s' := by
  induction h' with
  | start heq =>
      rw [heq, List.append_nil]
      exact h
  | next _ hstep ih =>
      rw [← List.append_assoc]
      exact ih.next hstep

theorem cons {ts : List (Taken σ ℓ)} {s₀ s s' : σ} {l : ℓ} (hstep : step s₀ l s)
    (h : Run (· = s) step ts s') : Run (· = s₀) step (⟨s₀, l, s⟩ :: ts) s' := by
  have hstart : Run (· = s₀) step [] s₀ := .start rfl
  exact (hstart.next hstep).append h

/-- Where no step raises the rank, and those that count lower it, the rank at the start
bounds how many count. -/
theorem ranked (rank : σ → Nat) (counts : ℓ → Bool) {s₀ s : σ} {ts : List (Taken σ ℓ)}
    (h : Run (· = s₀) step ts s)
    (hall : ∀ t ∈ ts, rank t.dst + (counts t.label).toNat ≤ rank t.src) :
    (ts.countP fun t => counts t.label) + rank s ≤ rank s₀ := by
  induction h with
  | start heq => exact Nat.le_of_eq ((Nat.zero_add _).trans (congrArg rank heq))
  | @next ts s s' l _ _ ih =>
      have hrest := ih fun t ht => hall t (List.mem_append_left _ ht)
      have hlast : rank s' + (counts l).toNat ≤ rank s :=
        hall _ (List.mem_append_right _ List.mem_cons_self)
      rw [List.countP_append, List.countP_singleton]
      dsimp only
      cases hl : counts l with
      | true =>
          rw [hl, Bool.toNat_true] at hlast
          rw [if_pos rfl]
          omega
      | false =>
          rw [hl, Bool.toNat_false] at hlast
          rw [if_neg Bool.false_ne_true]
          omega

end Run

/-! ## Systems that can be executed

A system given by a partial function on inputs can be run on a list of them. -/

section Replay

variable {σ ι ℓ : Type*}

/-- Take the inputs one after the other; `none` as soon as one is refused. -/
def replay (f : σ → ι → Option (σ × ℓ)) : σ → List ι → Option (List (Taken σ ℓ) × σ)
  | s, [] => some ([], s)
  | s, i :: is =>
      match f s i with
      | none => none
      | some (s', l) =>
          match replay f s' is with
          | none => none
          | some (ts, s'') => some (⟨s, l, s'⟩ :: ts, s'')

theorem Run.replay {init : σ → Prop} {step : σ → ℓ → σ → Prop} {f : σ → ι → Option (σ × ℓ)}
    (hf : ∀ s i s' l, f s i = some (s', l) → step s l s') :
    ∀ {is : List ι} {ts us : List (Taken σ ℓ)} {s s' : σ}, Run init step ts s →
      Lib.replay f s is = some (us, s') → Run init step (ts ++ us) s' := by
  intro is
  induction is with
  | nil =>
      intro ts us s s' h hr
      cases hr
      rwa [List.append_nil]
  | cons i is ih =>
      intro ts us s s' h hr
      rw [Lib.replay] at hr
      split at hr
      next => cases hr
      next s₁ l hi =>
        split at hr
        next => cases hr
        next us' s₂ hr' =>
          cases hr
          have := ih (h.next (hf _ _ _ _ hi)) hr'
          rwa [List.append_assoc] at this

end Replay

end Lib
