/-
# `Lib.InstantQueue` — queues whose calls are instants, and machines that are one

An `Instant` queue says what a call may answer and what it leaves behind.  Where it leaves
no choice it is a `Sequential` queue (`Instant.of`); where it does, the answer may depend on
more than what is stored.

`Serves M P p₀` is what it takes for the queue machine `M` to be the instant queue `P`, from
`p₀` on, in both directions:

| | |
| :-- | :-- |
| `sound` | an access inside a call leaves the instant queue, its last one is a call of it |
| `finishes` | a call of the instant queue is one of the machine, by its own accesses |

A machine that is lawful and honest is the bounded queue, or one that it simulates
(`Lawful.serves`).  One whose sides look at each other only when they must is `pictured`.
-/
import TradingGateway.Lib.QueueMachine

namespace Lib.QueueMachine

open BoundedFifo

/-! ## Instant queues -/

/-- A queue whose calls are instants; a call may have more than one way to go. -/
structure Instant (π α : Type*) where
  push : π → α → Bool → π → Prop
  pop : π → Option α → π → Prop

section Instant

variable {π α : Type*}

/-- What is answered at one instant, if anything is. -/
def Instant.Step (P : Instant π α) (p : π) : Option (Answer α) → π → Prop
  | none, p' => p' = p
  | some (.pushed v), p' => P.push p v true p'
  | some (.refused v), p' => P.push p v false p'
  | some (.popped v), p' => P.pop p (some v) p'
  | some .empty, p' => P.pop p none p'

/-- A queue that computes its answers. -/
def Instant.of (P : Sequential π α) : Instant π α where
  push p v b p' := P.push p v = (b, p')
  pop p o p' := P.pop p = (o, p')

end Instant

/-! ## Machines that are one -/

variable {σ ι α π : Type*}

/-- The accesses of a call change the instant queue once, at the answer. -/
theorem Machine.Finishes.instant {M : Machine σ ι α} {P : Instant π α} {Sim : σ → π → Prop}
    (sound : ∀ {s i l s' p}, Sim s p → M.access s i = some (s', l) →
      ∃ p', P.Step p l p' ∧ Sim s' p')
    {d : Side} {s s' : σ} {a : Answer α} (h : M.Finishes d s a s') {p : π} (hs : Sim s p) :
    ∃ p', P.Step p (some a) p' ∧ Sim s' p' := by
  induction h with
  | last hown =>
      obtain ⟨i, -, -, haccess⟩ := hown
      exact sound hs haccess
  | more hown _ ih =>
      obtain ⟨i, -, -, haccess⟩ := hown
      obtain ⟨p', rfl, hs'⟩ := sound hs haccess
      exact ih hs'

/-- The machine `M` is the instant queue `P`, which starts as `p₀`. -/
structure Serves (M : Machine σ ι α) (P : Instant π α) (p₀ : π) where
  Sim : σ → π → Prop
  rank : σ → Side → Nat
  fresh : Sim M.fresh p₀
  pending_fresh : ∀ d, M.pending M.fresh d = none
  entry_side : ∀ {i c}, M.entry i = some c → M.side i = callSide c
  sound : ∀ {s i l s' p}, Sim s p → M.access s i = some (s', l) → ∃ p', P.Step p l p' ∧ Sim s' p'
  turn : ∀ {s i l s'}, M.access s i = some (s', l) →
    Turn rank M.pending (M.side i) s (M.entry i) l s'
  frame : ∀ {s i l s' d}, M.access s i = some (s', l) → d ≠ M.side i →
    M.pending s' d = M.pending s d
  /-- A call that nobody else is inside of is answered by its own accesses, in every way the
  instant queue may answer it. -/
  finishes : ∀ {s p c a p'}, Sim s p → (∀ d, M.pending s d = none) → Answers c a →
    P.Step p (some a) p' →
    ∃ i s₁ s', M.entry i = some c ∧ M.access s i = some (s₁, none) ∧
      M.Finishes (callSide c) s₁ a s' ∧ Sim s' p' ∧ ∀ d, M.pending s' d = none

/-! ## Honest machines -/

variable {M : Machine σ ι α} {bound : Nat} {P : Sequential π α} {R : π → List α → Prop}

theorem answer_of_step {xs ys : List α} {a b : Answer α} {c : Call α} {p p' : π}
    (hP : Simulates P (bounded α bound) R) (hr : R p xs) (ha : Answers c a) (hb : Answers c b)
    (hstep : (Instant.of P).Step p (some a) p') (hqueue : Step bound true xs (some b) ys) :
    a = b ∧ R p' ys := by
  cases ha with
  | pushed v =>
      obtain ⟨hanswer, hnext⟩ := hP.push hr v
      rw [show P.push p v = _ from hstep] at hanswer hnext
      cases hb with
      | pushed =>
          rw [hqueue.bounded_pushed] at hnext
          exact ⟨rfl, hnext⟩
      | refused =>
          rw [hqueue.bounded_refused] at hanswer
          cases hanswer
  | refused v =>
      obtain ⟨hanswer, hnext⟩ := hP.push hr v
      rw [show P.push p v = _ from hstep] at hanswer hnext
      cases hb with
      | pushed =>
          rw [hqueue.bounded_pushed] at hanswer
          cases hanswer
      | refused =>
          rw [hqueue.bounded_refused] at hnext
          exact ⟨rfl, hnext⟩
  | popped v =>
      obtain ⟨hanswer, hnext⟩ := hP.pop hr
      rw [show P.pop p = _ from hstep] at hanswer hnext
      cases hb with
      | popped =>
          rw [hqueue.bounded_popped] at hanswer hnext
          exact ⟨congrArg _ (Option.some.inj hanswer), hnext⟩
      | empty =>
          rw [hqueue.bounded_empty] at hanswer
          cases hanswer
  | empty =>
      obtain ⟨hanswer, hnext⟩ := hP.pop hr
      rw [show P.pop p = _ from hstep] at hanswer hnext
      cases hb with
      | popped =>
          rw [hqueue.bounded_popped] at hanswer
          cases hanswer
      | empty =>
          rw [hqueue.bounded_empty] at hnext
          exact ⟨rfl, hnext⟩

/-- What an honest queue does in one step, a queue that simulates it does. -/
theorem step_of_queue {xs ys : List α} {l : Option (Answer α)} {p : π}
    (hP : Simulates P (bounded α bound) R) (hr : R p xs) (hqueue : Step bound true xs l ys) :
    ∃ p', (Instant.of P).Step p l p' ∧ R p' ys := by
  have pushed : ∀ {v b}, (bounded α bound).push xs v = (b, ys) →
      ∃ p', P.push p v = (b, p') ∧ R p' ys := by
    intro v b hpush
    obtain ⟨hanswer, hnext⟩ := hP.push hr v
    rw [hpush] at hanswer hnext
    exact ⟨_, Prod.ext hanswer rfl, hnext⟩
  have popped : ∀ {o}, (bounded α bound).pop xs = (o, ys) →
      ∃ p', P.pop p = (o, p') ∧ R p' ys := by
    intro o hpop
    obtain ⟨hanswer, hnext⟩ := hP.pop hr
    rw [hpop] at hanswer hnext
    exact ⟨_, Prod.ext hanswer rfl, hnext⟩
  cases l with
  | none => exact ⟨p, rfl, hqueue.eq_of_silent ▸ hr⟩
  | some a =>
      cases a with
      | pushed v => exact pushed hqueue.bounded_pushed
      | refused v => exact pushed hqueue.bounded_refused
      | popped v => exact popped hqueue.bounded_popped
      | empty => exact popped hqueue.bounded_empty

/-- **An honest machine is a queue** that the bounded queue is simulated by. -/
def Lawful.serves (L : Lawful M bound true) (hP : Simulates P (BoundedFifo.bounded α bound) R)
    {p₀ : π} (hp : R p₀ []) : Serves M (Instant.of P) p₀ where
  Sim := fun s p => L.Inv s ∧ R p (L.contents s)
  rank := L.rank
  fresh := ⟨L.inv_fresh, L.contents_fresh ▸ hp⟩
  pending_fresh := L.pending_fresh
  entry_side := L.entry_side
  sound := by
    rintro s i l s' p ⟨hinv, hr⟩ haccess
    obtain ⟨hinv', hqueue⟩ := L.sound hinv haccess
    obtain ⟨p', hstep, hr'⟩ := step_of_queue hP hr hqueue
    exact ⟨p', hstep, hinv', hr'⟩
  turn := L.turn
  frame := fun haccess hd => (L.frame haccess hd).1
  finishes := by
    rintro s p c a p' ⟨hinv, hr⟩ idle ha hstep
    obtain ⟨i, s₁, hentry, haccess⟩ := L.enter c (idle _)
    have hside := L.entry_side hentry
    obtain ⟨hinv₁, hqueue₁⟩ := L.sound hinv haccess
    obtain ⟨-, -, hpending⟩ := L.enters hentry haccess
    rw [hside] at hpending
    have alone : M.pending s₁ (callSide c).other = none := by
      refine (L.frame haccess ?_).1.trans (idle _)
      rw [hside]
      exact (Side.ne_other _).symm
    obtain ⟨b, s', hfin, hb, hqueue, hidle⟩ := L.finishes hinv₁ hpending alone
    rw [hqueue₁.eq_of_silent] at hqueue
    obtain ⟨rfl, hr'⟩ := answer_of_step hP hr ha hb hstep hqueue
    exact ⟨i, s₁, s', hentry, haccess, hfin, ⟨L.inv_of_finishes hfin hinv₁, hr'⟩, hidle⟩

/-! ## Pictures

A producer that looks at the consumer's end only when the picture it has of it shows a full
queue, and a consumer that does the same at the other end.  A look need not see everything:
it sees some of what happened since the last one, or nothing, and then the call fails, full
or empty though the queue may not be. -/

/-- What is stored, and what either side has not seen yet of the other. -/
structure Pictured (α : Type*) where
  items : List α
  popsUnseen : Nat
  pushesUnseen : Nat

def Pictured.fresh : Pictured α := ⟨[], 0, 0⟩

/-- A push, where at most `bound` values are stored; `j` is how many pops a look sees. -/
inductive Pictured.Push (bound : Nat) (p : Pictured α) (v : α) : Bool → Pictured α → Prop
  | room : p.items.length + p.popsUnseen < bound →
      Push bound p v true ⟨p.items ++ [v], p.popsUnseen, p.pushesUnseen + 1⟩
  | looked {j : Nat} : p.items.length + p.popsUnseen = bound → 0 < j → j ≤ p.popsUnseen →
      Push bound p v true ⟨p.items ++ [v], p.popsUnseen - j, p.pushesUnseen + 1⟩
  | refused : p.items.length + p.popsUnseen = bound → Push bound p v false p

/-- A pop; `j` is how many pushes a look sees. -/
inductive Pictured.Pop (p : Pictured α) : Option α → Pictured α → Prop
  | seen {v : α} {vs : List α} : p.items = v :: vs → p.pushesUnseen < p.items.length →
      Pop p (some v) ⟨vs, p.popsUnseen + 1, p.pushesUnseen⟩
  | looked {v : α} {vs : List α} {j : Nat} : p.items = v :: vs →
      p.pushesUnseen = p.items.length → 0 < j → j ≤ p.pushesUnseen →
      Pop p (some v) ⟨vs, p.popsUnseen + 1, p.pushesUnseen - j⟩
  | empty : p.pushesUnseen = p.items.length → Pop p none p

/-- The queue whose sides go by pictures of each other. -/
def pictured (α : Type*) (bound : Nat) : Instant (Pictured α) α where
  push := Pictured.Push bound
  pop := Pictured.Pop

/-- What a look saw is all that two pushes can differ in. -/
theorem Pictured.Push.unique {bound : Nat} {p p' p'' : Pictured α} {v : α} {b : Bool}
    (h : Push bound p v b p') (h' : Push bound p v b p'') (heq : p'.popsUnseen = p''.popsUnseen) :
    p' = p'' := by
  cases h <;> cases h' <;> simp_all

theorem Pictured.Pop.head {p p' : Pictured α} {v : α} (h : Pop p (some v) p') :
    p.items.head? = some v := by
  cases h with
  | seen hitems => rw [hitems, List.head?_cons]
  | looked hitems => rw [hitems, List.head?_cons]

theorem Pictured.Pop.unique {p p' p'' : Pictured α} {o : Option α} (h : Pop p o p')
    (h' : Pop p o p'') (heq : p'.pushesUnseen = p''.pushesUnseen) : p' = p'' := by
  cases h <;> cases h' <;> simp_all

end Lib.QueueMachine
