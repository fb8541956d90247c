/-
# `Lib.BoundedFifo` — what a bounded queue is for

The abstract queue is a list of at most `bound` values.  A call answers at one
instant: `pushed v` appends, `popped v` takes the head, `refused v` and `empty`
change nothing.  When the queue is `honest`, `refused` is answered only at a
full queue and `empty` only at an empty one; a queue whose callers may look at
an old picture of the other side can answer them early, and `honest = false`
allows that.

`Run.history` is the law of a queue: what was pushed is what was popped
followed by what is still there.

A queue used by one caller at a time is a `Sequential`, a pair of functions;
`bounded` is the abstract queue in that form, and `Simulates` is what it takes for
two such queues to answer every list of calls alike.
-/
import TradingGateway.Lib.Runs

namespace Lib.BoundedFifo

/-- What a call on the queue answered. -/
inductive Answer (α : Type*) where
  | pushed (v : α)
  | refused (v : α)
  | popped (v : α)
  | empty
deriving DecidableEq, Repr

/-- The value a step put in, if it put one in. -/
def Answer.pushed? {α : Type*} : Option (Answer α) → Option α
  | some (.pushed v) => some v
  | _ => none

/-- The value a step took out, if it took one out. -/
def Answer.popped? {α : Type*} : Option (Answer α) → Option α
  | some (.popped v) => some v
  | _ => none

/-- The values pushed along a run, in order. -/
def pushes {σ α : Type*} (ts : List (Taken σ (Option (Answer α)))) : List α :=
  ts.filterMap fun t => Answer.pushed? t.label

/-- The values popped along a run, in order. -/
def pops {σ α : Type*} (ts : List (Taken σ (Option (Answer α)))) : List α :=
  ts.filterMap fun t => Answer.popped? t.label

section

variable {σ α : Type*} (ts : List (Taken σ (Option (Answer α)))) (s s' : σ)

@[simp] theorem pushes_nil : pushes ([] : List (Taken σ (Option (Answer α)))) = [] := rfl

@[simp] theorem pops_nil : pops ([] : List (Taken σ (Option (Answer α)))) = [] := rfl

@[simp] theorem pushes_snoc (l : Option (Answer α)) :
    pushes (ts ++ [⟨s, l, s'⟩]) = pushes ts ++ (Answer.pushed? l).toList := by
  cases h : Answer.pushed? l <;> simp [pushes, h]

@[simp] theorem pops_snoc (l : Option (Answer α)) :
    pops (ts ++ [⟨s, l, s'⟩]) = pops ts ++ (Answer.popped? l).toList := by
  cases h : Answer.popped? l <;> simp [pops, h]

theorem pushes_append (us : List (Taken σ (Option (Answer α)))) :
    pushes (ts ++ us) = pushes ts ++ pushes us := List.filterMap_append ..

theorem pops_append (us : List (Taken σ (Option (Answer α)))) :
    pops (ts ++ us) = pops ts ++ pops us := List.filterMap_append ..

end

/-- One instant of the abstract queue; `none` is a step nobody is answered at. -/
inductive Step {α : Type*} (bound : Nat) (honest : Bool) :
    List α → Option (Answer α) → List α → Prop
  | silent (xs : List α) : Step bound honest xs none xs
  | pushed (xs : List α) (v : α) : xs.length < bound →
      Step bound honest xs (some (.pushed v)) (xs ++ [v])
  | refused (xs : List α) (v : α) : (honest = true → xs.length = bound) →
      Step bound honest xs (some (.refused v)) xs
  | popped (v : α) (xs : List α) : Step bound honest (v :: xs) (some (.popped v)) xs
  | empty (xs : List α) : (honest = true → xs = []) →
      Step bound honest xs (some .empty) xs

/-- The fresh queue. -/
def Fresh {α : Type*} (xs : List α) : Prop := xs = []

variable {α : Type*} {bound : Nat} {honest : Bool}

theorem Step.length_le {xs ys : List α} {l : Option (Answer α)}
    (h : Step bound honest xs l ys) (hx : xs.length ≤ bound) : ys.length ≤ bound := by
  cases h with
  | silent => exact hx
  | pushed xs v hlt =>
      rw [List.length_append, List.length_singleton]
      omega
  | refused v _ => exact hx
  | popped v xs =>
      simp only [List.length_cons] at hx
      omega
  | empty _ => exact hx

theorem Step.full {xs ys : List α} {v : α} (h : Step bound true xs (some (.refused v)) ys) :
    xs.length = bound := by
  cases h with
  | refused _ _ hfull => exact hfull rfl

theorem Step.nil {xs ys : List α} (h : Step bound true xs (some .empty) ys) : xs = [] := by
  cases h with
  | empty _ hempty => exact hempty rfl

theorem Step.eq_of_silent {xs ys : List α} (h : Step bound honest xs none ys) : ys = xs := by
  cases h with
  | silent => rfl

theorem Step.eq_of_pushed {xs ys : List α} {v : α}
    (h : Step bound honest xs (some (.pushed v)) ys) : ys = xs ++ [v] := by
  cases h with
  | pushed => rfl

theorem Step.eq_of_popped {xs ys : List α} {v : α}
    (h : Step bound honest xs (some (.popped v)) ys) : xs = v :: ys := by
  cases h with
  | popped => rfl

/-- An answer that may be early is honest where it happens not to be. -/
theorem Step.to_honest {xs ys : List α} {l : Option (Answer α)} (h : Step bound false xs l ys)
    (full : ∀ v, l = some (.refused v) → xs.length = bound) (nil : l = some .empty → xs = []) :
    Step bound true xs l ys := by
  cases h with
  | silent => exact .silent _
  | pushed xs v hlt => exact .pushed _ _ hlt
  | refused _ v _ => exact .refused _ _ fun _ => full v rfl
  | popped v xs => exact .popped _ _
  | empty _ => exact .empty _ fun _ => nil rfl

theorem Step.room {xs ys : List α} {v : α} (h : Step bound honest xs (some (.pushed v)) ys) :
    ys.length ≤ bound := by
  cases h with
  | pushed _ _ hlt =>
      rw [List.length_append, List.length_singleton]
      exact hlt

/-- One step keeps "pushed so far = popped so far, then the contents". -/
theorem Step.history {xs ys : List α} {l : Option (Answer α)} (h : Step bound honest xs l ys) :
    xs ++ (Answer.pushed? l).toList = (Answer.popped? l).toList ++ ys := by
  cases h <;> simp [Answer.pushed?, Answer.popped?]

/-- **The law of the queue.**  Nothing is lost, duplicated or reordered, and the
bound is kept. -/
theorem Run.history {ts : List (Taken (List α) (Option (Answer α)))} {xs : List α}
    (h : Run Fresh (Step bound honest) ts xs) :
    pushes ts = pops ts ++ xs ∧ xs.length ≤ bound := by
  induction h with
  | start h => subst h; simp
  | next _ hs ih =>
      refine ⟨?_, hs.length_le ih.2⟩
      rw [pushes_snoc, pops_snoc, ih.1, List.append_assoc, hs.history, List.append_assoc]

/-- The values along a run depend on the answers only. -/
theorem pushes_eq_of_labels {σ τ : Type*} {ts : List (Taken σ (Option (Answer α)))}
    {us : List (Taken τ (Option (Answer α)))} (h : us.map Taken.label = ts.map Taken.label) :
    pushes us = pushes ts := by
  have hp := congrArg (List.filterMap Answer.pushed?) h
  simpa only [pushes, List.filterMap_map, Function.comp_def] using hp

theorem pops_eq_of_labels {σ τ : Type*} {ts : List (Taken σ (Option (Answer α)))}
    {us : List (Taken τ (Option (Answer α)))} (h : us.map Taken.label = ts.map Taken.label) :
    pops us = pops ts := by
  have hp := congrArg (List.filterMap Answer.popped?) h
  simpa only [pops, List.filterMap_map, Function.comp_def] using hp

/-! ## Calls one after the other -/

/-- A call of a queue. -/
inductive Call (α : Type*) where
  | push (v : α)
  | pop

/-- A queue whose calls do not overlap. -/
structure Sequential (σ α : Type*) where
  push : σ → α → Bool × σ
  pop : σ → Option α × σ

namespace Sequential

variable {σ τ : Type*}

/-- One call, and what it answers. -/
def call (Q : Sequential σ α) (s : σ) : Call α → Answer α × σ
  | .push v => (if (Q.push s v).1 then .pushed v else .refused v, (Q.push s v).2)
  | .pop => (((Q.pop s).1.map .popped).getD .empty, (Q.pop s).2)

/-- The answers to a list of calls. -/
def answers (Q : Sequential σ α) : σ → List (Call α) → List (Answer α)
  | _, [] => []
  | s, c :: cs => (Q.call s c).1 :: answers Q (Q.call s c).2 cs

/-- The state behind a list of calls. -/
def after (Q : Sequential σ α) (s : σ) (cs : List (Call α)) : σ :=
  cs.foldl (fun s c => (Q.call s c).2) s

end Sequential

/-- The queue of at most `bound` values. -/
def bounded (α : Type*) (bound : Nat) : Sequential (List α) α where
  push xs v := if xs.length < bound then (true, xs ++ [v]) else (false, xs)
  pop xs := (xs.head?, xs.tail)

section Bounded

variable {xs : List α} {bound : Nat}

theorem bounded_push_of_lt (h : xs.length < bound) (v : α) :
    (bounded α bound).push xs v = (true, xs ++ [v]) :=
  if_pos h

theorem bounded_push_of_not_lt (h : ¬ xs.length < bound) (v : α) :
    (bounded α bound).push xs v = (false, xs) :=
  if_neg h

theorem bounded_push_eq_false_iff (v : α) :
    ((bounded α bound).push xs v).1 = false ↔ bound ≤ xs.length := by
  by_cases h : xs.length < bound
  · rw [bounded_push_of_lt h]
    exact iff_of_false nofun (Nat.not_le.mpr h)
  · rw [bounded_push_of_not_lt h]
    exact iff_of_true rfl (Nat.not_lt.mp h)

/-! What an answer of an honest queue says is what the calls compute. -/

theorem Step.bounded_pushed {ys : List α} {v : α} (h : Step bound true xs (some (.pushed v)) ys) :
    (bounded α bound).push xs v = (true, ys) := by
  cases h with
  | pushed _ _ hlt => exact bounded_push_of_lt hlt v

theorem Step.bounded_refused {ys : List α} {v : α}
    (h : Step bound true xs (some (.refused v)) ys) :
    (bounded α bound).push xs v = (false, ys) := by
  cases h with
  | refused _ _ hfull => exact bounded_push_of_not_lt (Nat.not_lt.mpr (Nat.le_of_eq (hfull rfl).symm)) v

theorem Step.bounded_popped {ys : List α} {v : α} (h : Step bound true xs (some (.popped v)) ys) :
    (bounded α bound).pop xs = (some v, ys) := by
  cases h with
  | popped => rfl

theorem Step.bounded_empty {ys : List α} (h : Step bound true xs (some .empty) ys) :
    (bounded α bound).pop xs = (none, ys) := by
  cases h with
  | empty _ hempty =>
      obtain rfl := hempty rfl
      rfl

end Bounded

/-- Related states answer every call alike and stay related. -/
structure Simulates {σ τ : Type*} (Q : Sequential σ α) (Q' : Sequential τ α)
    (R : σ → τ → Prop) : Prop where
  push : ∀ {s t}, R s t → ∀ v,
    (Q.push s v).1 = (Q'.push t v).1 ∧ R (Q.push s v).2 (Q'.push t v).2
  pop : ∀ {s t}, R s t → (Q.pop s).1 = (Q'.pop t).1 ∧ R (Q.pop s).2 (Q'.pop t).2

namespace Simulates

variable {σ τ : Type*} {Q : Sequential σ α} {Q' : Sequential τ α} {R : σ → τ → Prop} {s : σ} {t : τ}

theorem call (h : Simulates Q Q' R) (hr : R s t) (c : Call α) :
    (Q.call s c).1 = (Q'.call t c).1 ∧ R (Q.call s c).2 (Q'.call t c).2 := by
  cases c with
  | push v =>
      obtain ⟨hfst, hsnd⟩ := h.push hr v
      exact ⟨by rw [Sequential.call, Sequential.call, hfst], hsnd⟩
  | pop =>
      obtain ⟨hfst, hsnd⟩ := h.pop hr
      exact ⟨by rw [Sequential.call, Sequential.call, hfst], hsnd⟩

/-- **Simulated queues answer alike.** -/
theorem answers (h : Simulates Q Q' R) (cs : List (Call α)) :
    ∀ {s t}, R s t → Q.answers s cs = Q'.answers t cs := by
  induction cs with
  | nil =>
      intro s t _
      rfl
  | cons c cs ih =>
      intro s t hr
      obtain ⟨hanswer, hnext⟩ := h.call hr c
      show _ :: Q.answers _ cs = _ :: Q'.answers _ cs
      rw [hanswer, ih hnext]

theorem after (h : Simulates Q Q' R) (cs : List (Call α)) :
    ∀ {s t}, R s t → R (Q.after s cs) (Q'.after t cs) := by
  induction cs with
  | nil =>
      intro s t hr
      exact hr
  | cons c cs ih =>
      intro s t hr
      exact ih (h.call hr c).2

end Simulates

end Lib.BoundedFifo
