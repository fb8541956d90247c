/-
# `Lib.Duplex` — two threads, a queue each way, and calls that take time

Two threads have a queue each way and some shared memory.  What a thread does up to its
next stop is its `Code`: it touches the shared memory at once, calls the queues, and ends
in a new state of its own with what was seen of it.

| system | a call of a queue |
| :-- | :-- |
| `Whole` | is one instant, on two instant queues: the code runs in one step |
| `Split` | is made of single accesses of a queue machine, between any of the other thread |

**The two show the same runs** where both machines serve the instant queues, and a step that
calls a queue calls one, once, and does nothing else to what is shared.  Every run of `Split`
is a run of `Whole` in which the same is seen in the same order (`refines`): a call takes
effect when it is answered, and the step it is part of with it; until then the thread of
`Whole` is still where the thread of `Split` came from (`Doing.origin`).  And every run of
`Whole` is one of `Split` in which each call is finished before the next begins
(`realizes`).
-/
import TradingGateway.Lib.InstantQueue

namespace Lib.Duplex

open BoundedFifo QueueMachine

/-! ## Code -/

/-- What a thread does up to its next stop: it is through, or it calls the queue it
writes or the queue it reads, and goes on with the answer. -/
inductive Code (α β τ : Type*) where
  | done (t : τ)
  | push (v : α) (k : Bool → Code α β τ)
  | pop (k : Option β → Code α β τ)

/-- The code run in one step, on instant queues. -/
inductive Code.Runs {α β τ π ρ : Type*} (P : Instant π α) (Q : Instant ρ β) :
    Code α β τ → π → ρ → τ → π → ρ → Prop
  | done {t : τ} {p : π} {q : ρ} : Runs P Q (.done t) p q t p q
  | push {v : α} {k : Bool → Code α β τ} {b : Bool} {p p' p'' : π} {q q' : ρ} {t : τ} :
      P.push p v b p' → Runs P Q (k b) p' q t p'' q' → Runs P Q (.push v k) p q t p'' q'
  | pop {k : Option β → Code α β τ} {o : Option β} {p p' : π} {q q' q'' : ρ} {t : τ} :
      Q.pop q o q' → Runs P Q (k o) p q' t p' q'' → Runs P Q (.pop k) p q t p' q''

/-- The code run on queues that compute their answers. -/
def Code.run {α β τ π ρ : Type*} (P : Sequential π α) (Q : Sequential ρ β) :
    Code α β τ → π → ρ → τ × π × ρ
  | .done t, p, q => (t, p, q)
  | .push v k, p, q => (k (P.push p v).1).run P Q (P.push p v).2 q
  | .pop k, p, q => (k (Q.pop q).1).run P Q p (Q.pop q).2

/-- A thread with states `σ` that writes a queue of `α` and reads one of `β`.  It sees the
shared memory, and the other thread where that one has stopped. -/
structure Party (α β σ τ μ ι ε : Type*) where
  start : σ
  code : σ → Option τ → μ → ι → Option (μ × Code α β (σ × List ε))

/-! ## Whole steps -/

/-- Both threads, what they share, and two queues. -/
structure Whole (σ τ μ π ρ : Type*) where
  a : σ
  b : τ
  shared : μ
  down : π
  up : ρ

section Whole

variable {α β σ τ μ π ρ ι κ ε : Type*}

/-- One thread runs its code; a step comes with its input and with what was seen. -/
inductive Whole.Step (A : Party α β σ τ μ ι ε) (B : Party β α τ σ μ κ ε) (P : Instant π α)
    (Q : Instant ρ β) (w : Whole σ τ μ π ρ) : (ι ⊕ κ) × List ε → Whole σ τ μ π ρ → Prop
  | a {i : ι} {m : μ} {c : Code α β (σ × List ε)} {x : σ} {es : List ε} {p : π} {q : ρ}
      (code : A.code w.a (some w.b) w.shared i = some (m, c))
      (runs : c.Runs P Q w.down w.up (x, es) p q) :
      Step A B P Q w (.inl i, es) { w with a := x, shared := m, down := p, up := q }
  | b {i : κ} {m : μ} {c : Code β α (τ × List ε)} {y : τ} {es : List ε} {p : π} {q : ρ}
      (code : B.code w.b (some w.a) w.shared i = some (m, c))
      (runs : c.Runs Q P w.up w.down (y, es) q p) :
      Step A B P Q w (.inr i, es) { w with b := y, shared := m, down := p, up := q }

/-- One step on queues that compute their answers. -/
def Whole.step (A : Party α β σ τ μ ι ε) (B : Party β α τ σ μ κ ε) (P : Sequential π α)
    (Q : Sequential ρ β) (w : Whole σ τ μ π ρ) : ι ⊕ κ → Option (Whole σ τ μ π ρ × List ε)
  | .inl i =>
      (A.code w.a (some w.b) w.shared i).map fun r =>
        let x := r.2.run P Q w.down w.up
        ({ w with a := x.1.1, shared := r.1, down := x.2.1, up := x.2.2 }, x.1.2)
  | .inr i =>
      (B.code w.b (some w.a) w.shared i).map fun r =>
        let x := r.2.run Q P w.up w.down
        ({ w with b := x.1.1, shared := r.1, down := x.2.2, up := x.2.1 }, x.1.2)

def Whole.fresh (A : Party α β σ τ μ ι ε) (B : Party β α τ σ μ κ ε) (shared : μ) (p : π) (q : ρ) :
    Whole σ τ μ π ρ where
  a := A.start
  b := B.start
  shared := shared
  down := p
  up := q

end Whole

/-! ## Split steps -/

/-- Where a thread is: it has stopped, or it is inside the code of the input `i`, which it
began in the state `s`. -/
inductive Doing (α β σ ι ε : Type*) where
  | resting (s : σ)
  | inside (s : σ) (i : ι) (c : Code α β (σ × List ε))

section Split

variable {α β σ τ μ π ρ ι κ ι₁ ι₂ ε : Type*}

/-- The state it has stopped in. -/
def Doing.resting? : Doing α β σ ι ε → Option σ
  | .resting s => some s
  | .inside _ _ _ => none

/-- The state that its last whole step ended in. -/
def Doing.origin : Doing α β σ ι ε → σ
  | .resting s => s
  | .inside s _ _ => s

/-- The thread has `c` still to do; what is seen is seen at the end. -/
def Doing.next (s : σ) (i : ι) : Code α β (σ × List ε) → Doing α β σ ι ε × List ε
  | .done t => (.resting t.1, t.2)
  | .push v k => (.inside s i (.push v k), [])
  | .pop k => (.inside s i (.pop k), [])

/-- Behind an access of a `push`. -/
def Doing.pushed (s : σ) (i : ι) (v : α) (k : Bool → Code α β (σ × List ε)) :
    Option (Answer α) → Doing α β σ ι ε × List ε
  | none => (.inside s i (.push v k), [])
  | some (.pushed _) => next s i (k true)
  | some _ => next s i (k false)

/-- Behind an access of a `pop`. -/
def Doing.popped (s : σ) (i : ι) (k : Option β → Code α β (σ × List ε)) :
    Option (Answer β) → Doing α β σ ι ε × List ε
  | none => (.inside s i (.pop k), [])
  | some (.popped v) => next s i (k (some v))
  | some _ => next s i (k none)

@[simp] theorem Doing.next_done (s : σ) (i : ι) (t : σ × List ε) :
    (next s i (.done t) : Doing α β σ ι ε × List ε) = (.resting t.1, t.2) := rfl

@[simp] theorem Doing.pushed_pushed (s : σ) (i : ι) (v w : α)
    (k : Bool → Code α β (σ × List ε)) :
    pushed s i v k (some (.pushed w)) = next s i (k true) := rfl

@[simp] theorem Doing.pushed_refused (s : σ) (i : ι) (v w : α)
    (k : Bool → Code α β (σ × List ε)) :
    pushed s i v k (some (.refused w)) = next s i (k false) := rfl

@[simp] theorem Doing.popped_popped (s : σ) (i : ι) (w : β)
    (k : Option β → Code α β (σ × List ε)) :
    popped s i k (some (.popped w)) = next s i (k (some w)) := rfl

@[simp] theorem Doing.popped_empty (s : σ) (i : ι) (k : Option β → Code α β (σ × List ε)) :
    popped s i k (some .empty) = next s i (k none) := rfl

/-- One access of a thread, the entry into the call included: `M` is the queue it writes,
`N` the queue it reads. -/
inductive Goes (M : Machine π ι₁ α) (N : Machine ρ ι₂ β) :
    Doing α β σ ι ε → π → ρ → List ε → Doing α β σ ι ε → π → ρ → Prop
  | push {s : σ} {i : ι} {v : α} {k : Bool → Code α β (σ × List ε)} {j : ι₁} {p p' : π} {q : ρ}
      {l : Option (Answer α)} (side : M.side j = .producer)
      (entry : ∀ c, M.entry j = some c → c = .push v) (access : M.access p j = some (p', l)) :
      Goes M N (.inside s i (.push v k)) p q
        (Doing.pushed s i v k l).2 (Doing.pushed s i v k l).1 p' q
  | pop {s : σ} {i : ι} {k : Option β → Code α β (σ × List ε)} {j : ι₂} {p : π} {q q' : ρ}
      {l : Option (Answer β)} (side : N.side j = .consumer)
      (access : N.access q j = some (q', l)) :
      Goes M N (.inside s i (.pop k)) p q
        (Doing.popped s i k l).2 (Doing.popped s i k l).1 p q'

/-- Both threads, what they share, and two queue machines. -/
structure Split (α β σ τ μ π ρ ι κ ε : Type*) where
  a : Doing α β σ ι ε
  b : Doing β α τ κ ε
  shared : μ
  down : π
  up : ρ

/-- One thread begins a step, or takes one access. -/
inductive Split.Step (A : Party α β σ τ μ ι ε) (B : Party β α τ σ μ κ ε) (M : Machine π ι₁ α)
    (N : Machine ρ ι₂ β) (s : Split α β σ τ μ π ρ ι κ ε) :
    List ε → Split α β σ τ μ π ρ ι κ ε → Prop
  | beginA {x : σ} {i : ι} {m : μ} {c : Code α β (σ × List ε)} (rest : s.a = .resting x)
      (code : A.code x s.b.resting? s.shared i = some (m, c)) :
      Step A B M N s (Doing.next x i c).2 { s with a := (Doing.next x i c).1, shared := m }
  | beginB {y : τ} {i : κ} {m : μ} {c : Code β α (τ × List ε)} (rest : s.b = .resting y)
      (code : B.code y s.a.resting? s.shared i = some (m, c)) :
      Step A B M N s (Doing.next y i c).2 { s with b := (Doing.next y i c).1, shared := m }
  | goA {es : List ε} {d : Doing α β σ ι ε} {p : π} {q : ρ}
      (goes : Goes M N s.a s.down s.up es d p q) :
      Step A B M N s es { s with a := d, down := p, up := q }
  | goB {es : List ε} {d : Doing β α τ κ ε} {p : π} {q : ρ}
      (goes : Goes N M s.b s.up s.down es d q p) :
      Step A B M N s es { s with b := d, down := p, up := q }

def Split.fresh (A : Party α β σ τ μ ι ε) (B : Party β α τ σ μ κ ε) (shared : μ)
    (M : Machine π ι₁ α) (N : Machine ρ ι₂ β) : Split α β σ τ μ π ρ ι κ ε where
  a := .resting A.start
  b := .resting B.start
  shared := shared
  down := M.fresh
  up := N.fresh

end Split

/-! ## Threads whose steps call one queue, once -/

/-- Code without a call, or with one, that ends in a state with `I`. -/
inductive Code.Single {α β σ ε : Type*} (I : σ → Prop) : Code α β (σ × List ε) → Prop
  | done {s : σ} {es : List ε} : I s → Single I (.done (s, es))
  | push {v : α} {k : Bool → Code α β (σ × List ε)} :
      (∀ b, ∃ s es, k b = .done (s, es) ∧ I s) → Single I (.push v k)
  | pop {k : Option β → Code α β (σ × List ε)} :
      (∀ o, ∃ s es, k o = .done (s, es) ∧ I s) → Single I (.pop k)

/-- A thread whose states satisfy `I`, and whose steps either touch what is shared, or
call a queue, once. -/
structure Party.Tame {α β σ τ μ ι ε : Type*} (A : Party α β σ τ μ ι ε) (I : σ → Prop) : Prop where
  start : I A.start
  single : ∀ {s o m i m' c}, I s → A.code s o m i = some (m', c) → c.Single I
  /-- What can be done while the other thread is busy can be done when it has stopped. -/
  view : ∀ {s m i r}, I s → A.code s none m i = some r → ∀ o, A.code s o m i = some r
  /-- A call is made whatever is shared, and leaves it. -/
  apart : ∀ {s o m i m' c}, I s → A.code s o m i = some (m', c) → (∃ t, c = .done t) ∨
    (m' = m ∧ ∀ o m, A.code s o m i = some (m, c))

section Refinement

variable {α β σ τ μ π ρ ι κ ι₁ ι₂ ε : Type*}

/-- What the queues know of a thread: while it rests, or is about to call, it is in none of
its two queues, and inside a call it is in that one. -/
inductive Party.Ok (A : Party α β σ τ μ ι ε) (I : σ → Prop) (M : Machine π ι₁ α)
    (N : Machine ρ ι₂ β) (p : π) (q : ρ) : Doing α β σ ι ε → Prop
  | resting {s : σ} : I s → M.pending p .producer = none → N.pending q .consumer = none →
      Ok A I M N p q (.resting s)
  | push {s : σ} {i : ι} {v : α} {k : Bool → Code α β (σ × List ε)} : I s →
      (∀ b, ∃ s' es, k b = .done (s', es) ∧ I s') →
      (∀ o m, A.code s o m i = some (m, .push v k)) →
      M.pending p .producer = none ∨ M.pending p .producer = some (.push v) →
      N.pending q .consumer = none → Ok A I M N p q (.inside s i (.push v k))
  | pop {s : σ} {i : ι} {k : Option β → Code α β (σ × List ε)} : I s →
      (∀ o, ∃ s' es, k o = .done (s', es) ∧ I s') →
      (∀ o m, A.code s o m i = some (m, .pop k)) → M.pending p .producer = none →
      N.pending q .consumer = none ∨ N.pending q .consumer = some .pop →
      Ok A I M N p q (.inside s i (.pop k))

variable {A : Party α β σ τ μ ι ε} {I : σ → Prop} {M : Machine π ι₁ α} {N : Machine ρ ι₂ β}
  {p p' : π} {q q' : ρ} {d d' : Doing α β σ ι ε} {es : List ε}

theorem Party.Ok.frame (h : A.Ok I M N p q d)
    (hp : M.pending p' .producer = M.pending p .producer)
    (hq : N.pending q' .consumer = N.pending q .consumer) : A.Ok I M N p' q' d := by
  cases h with
  | resting hi h₁ h₂ => exact .resting hi (hp.trans h₁) (hq.trans h₂)
  | push hi hk hcode h₁ h₂ => exact .push hi hk hcode (by rwa [hp]) (hq.trans h₂)
  | pop hi hk hcode h₁ h₂ => exact .pop hi hk hcode (hp.trans h₁) (by rwa [hq])

theorem Party.Ok.code {s : σ} {i : ι} {c : Code α β (σ × List ε)}
    (h : A.Ok I M N p q (.inside s i c)) (m : μ) (o : Option τ) : A.code s o m i = some (m, c) := by
  cases h with
  | push _ _ hcode _ _ => exact hcode o m
  | pop _ _ hcode _ _ => exact hcode o m

theorem Party.Ok.origin (h : A.Ok I M N p q d) : I d.origin := by
  cases h <;> assumption

theorem Party.Ok.begin {s : σ} {o : Option τ} {m m' : μ} {i : ι} {c : Code α β (σ × List ε)}
    (tame : A.Tame I) (h : A.Ok I M N p q (.resting s)) (hcode : A.code s o m i = some (m', c)) :
    A.Ok I M N p q (Doing.next s i c).1 ∧
      ((∃ t, c = .done t ∧ Doing.next s i c = (.resting t.1, t.2)) ∨
        (m' = m ∧ (Doing.next s i c).2 = [] ∧ (Doing.next s i c).1.origin = s)) := by
  cases h with
  | resting hi h₁ h₂ =>
      have hsingle := tame.single hi hcode
      have hapart := tame.apart hi hcode
      cases hsingle with
      | @done s' es hi' => exact ⟨.resting hi' h₁ h₂, Or.inl ⟨_, rfl, rfl⟩⟩
      | push hk =>
          obtain ⟨t, ht⟩ | ⟨hm, hsame⟩ := hapart
          · cases ht
          · exact ⟨.push hi hk hsame (Or.inl h₁) h₂, Or.inr ⟨hm, rfl, rfl⟩⟩
      | pop hk =>
          obtain ⟨t, ht⟩ | ⟨hm, hsame⟩ := hapart
          · cases ht
          · exact ⟨.pop hi hk hsame h₁ (Or.inl h₂), Or.inr ⟨hm, rfl, rfl⟩⟩

/-- What one access does to the instant queues: nothing yet, or it is the last of its call,
and the code runs. -/
def Effect {π' ρ' : Type*} (P : Instant π' α) (Q : Instant ρ' β) (x : π') (y : ρ')
    (d : Doing α β σ ι ε) (es : List ε) (d' : Doing α β σ ι ε) (x' : π') (y' : ρ') : Prop :=
  (es = [] ∧ d'.origin = d.origin ∧ x' = x ∧ y' = y) ∨
    ∃ s i c s', d = .inside s i c ∧ d' = .resting s' ∧ c.Runs P Q x y (s', es) x' y'

variable {π' ρ' : Type*} {P : Instant π' α} {Q : Instant ρ' β} {p₀ x : π'} {q₀ y : ρ'}

/-- **One access** of a thread. -/
theorem Goes.sound (S₁ : Serves M P p₀) (S₂ : Serves N Q q₀) (h : Goes M N d p q es d' p' q')
    (hok : A.Ok I M N p q d) (hp : S₁.Sim p x) (hq : S₂.Sim q y) :
    ∃ x' y', S₁.Sim p' x' ∧ S₂.Sim q' y' ∧ A.Ok I M N p' q' d' ∧
      M.pending p' .consumer = M.pending p .consumer ∧
      N.pending q' .producer = N.pending q .producer ∧ Effect P Q x y d es d' x' y' := by
  cases h with
  | @push s i v k j _ _ _ l side entry access =>
      obtain ⟨x', hqueue, hp'⟩ := S₁.sound hp access
      have hframe := S₁.frame access (d := .consumer) (by rw [side]; nofun)
      have hturn := S₁.turn access
      rw [side] at hturn
      cases hok with
      | push hi hk hcode h₁ h₂ =>
          cases hentry : M.entry j with
          | some c =>
              obtain rfl := entry c hentry
              rw [hentry] at hturn
              cases hturn with
              | enter _ hcall =>
                  exact ⟨x', y, hp', hq, .push hi hk hcode (Or.inr hcall) h₂, hframe, rfl,
                    Or.inl ⟨rfl, rfl, hqueue, rfl⟩⟩
          | none =>
              rw [hentry] at hturn
              cases hturn with
              | onward hc hcall _ =>
                  have hc' := h₁.resolve_left (by rw [hc]; exact Option.some_ne_none _)
                  exact ⟨x', y, hp', hq,
                    .push hi hk hcode (Or.inr (hcall.trans (hc.symm.trans hc'))) h₂, hframe, rfl,
                    Or.inl ⟨rfl, rfl, hqueue, rfl⟩⟩
              | answered hc ha hcall =>
                  have hc' := h₁.resolve_left (by rw [hc]; exact Option.some_ne_none _)
                  obtain rfl := Option.some.inj (hc.symm.trans hc')
                  cases ha with
                  | pushed =>
                      obtain ⟨s', es, hdone, hi'⟩ := hk true
                      rw [Doing.pushed_pushed, hdone, Doing.next_done]
                      exact ⟨x', y, hp', hq, .resting hi' hcall h₂, hframe, rfl,
                        Or.inr ⟨_, _, _, _, rfl, rfl, .push hqueue (hdone ▸ .done)⟩⟩
                  | refused =>
                      obtain ⟨s', es, hdone, hi'⟩ := hk false
                      rw [Doing.pushed_refused, hdone, Doing.next_done]
                      exact ⟨x', y, hp', hq, .resting hi' hcall h₂, hframe, rfl,
                        Or.inr ⟨_, _, _, _, rfl, rfl, .push hqueue (hdone ▸ .done)⟩⟩
  | @pop s i k j _ _ _ l side access =>
      obtain ⟨y', hqueue, hq'⟩ := S₂.sound hq access
      have hframe := S₂.frame access (d := .producer) (by rw [side]; nofun)
      have hturn := S₂.turn access
      rw [side] at hturn
      cases hok with
      | pop hi hk hcode h₁ h₂ =>
          cases hentry : N.entry j with
          | some c =>
              have hc : c = .pop := by
                have hcall := S₂.entry_side hentry
                rw [side] at hcall
                cases c with
                | push v => cases hcall
                | pop => rfl
              subst hc
              rw [hentry] at hturn
              cases hturn with
              | enter _ hcall =>
                  exact ⟨x, y', hp, hq', .pop hi hk hcode h₁ (Or.inr hcall), rfl, hframe,
                    Or.inl ⟨rfl, rfl, rfl, hqueue⟩⟩
          | none =>
              rw [hentry] at hturn
              cases hturn with
              | onward hc hcall _ =>
                  have hc' := h₂.resolve_left (by rw [hc]; exact Option.some_ne_none _)
                  exact ⟨x, y', hp, hq',
                    .pop hi hk hcode h₁ (Or.inr (hcall.trans (hc.symm.trans hc'))), rfl, hframe,
                    Or.inl ⟨rfl, rfl, rfl, hqueue⟩⟩
              | answered hc ha hcall =>
                  have hc' := h₂.resolve_left (by rw [hc]; exact Option.some_ne_none _)
                  obtain rfl := Option.some.inj (hc.symm.trans hc')
                  cases ha with
                  | popped v =>
                      obtain ⟨s', es, hdone, hi'⟩ := hk (some v)
                      rw [Doing.popped_popped, hdone, Doing.next_done]
                      exact ⟨x, y', hp, hq', .resting hi' h₁ hcall, rfl, hframe,
                        Or.inr ⟨_, _, _, _, rfl, rfl, .pop hqueue (hdone ▸ .done)⟩⟩
                  | empty =>
                      obtain ⟨s', es, hdone, hi'⟩ := hk none
                      rw [Doing.popped_empty, hdone, Doing.next_done]
                      exact ⟨x, y', hp, hq', .resting hi' h₁ hcall, rfl, hframe,
                        Or.inr ⟨_, _, _, _, rfl, rfl, .pop hqueue (hdone ▸ .done)⟩⟩

end Refinement

/-! ## The refinement -/

section Refinement

variable {α β σ τ μ π ρ π' ρ' ι κ ι₁ ι₂ ε : Type*} {A : Party α β σ τ μ ι ε} {B : Party β α τ σ μ κ ε}
  {M : Machine π ι₁ α} {N : Machine ρ ι₂ β} {P : Instant π' α} {Q : Instant ρ' β} {p₀ : π'} {q₀ : ρ'}
  {S₁ : Serves M P p₀} {S₂ : Serves N Q q₀} {I : σ → Prop} {J : τ → Prop}

/-- The invariant of the split system. -/
structure Split.Ok (A : Party α β σ τ μ ι ε) (B : Party β α τ σ μ κ ε) (M : Machine π ι₁ α)
    (N : Machine ρ ι₂ β) (I : σ → Prop) (J : τ → Prop) (s : Split α β σ τ μ π ρ ι κ ε) :
    Prop where
  a : A.Ok I M N s.down s.up s.a
  b : B.Ok J N M s.up s.down s.b

/-- The state of the whole system that a split one stands for. -/
structure Split.For (S₁ : Serves M P p₀) (S₂ : Serves N Q q₀) (s : Split α β σ τ μ π ρ ι κ ε)
    (w : Whole σ τ μ π' ρ') : Prop where
  a : w.a = s.a.origin
  b : w.b = s.b.origin
  shared : w.shared = s.shared
  down : S₁.Sim s.down w.down
  up : S₂.Sim s.up w.up

/-- What the other thread shows of itself where it rests. -/
theorem Party.Tame.view_origin (tame : A.Tame I) {s : σ} {m : μ} {i : ι} {d : Doing β α τ κ ε}
    {r : μ × Code α β (σ × List ε)} (hi : I s) (h : A.code s d.resting? m i = some r) :
    A.code s (some d.origin) m i = some r := by
  cases d with
  | resting y => exact h
  | inside y j c => exact tame.view hi h _

variable {s s' : Split α β σ τ μ π ρ ι κ ε} {w : Whole σ τ μ π' ρ'} {es : List ε}

/-- **One step** of the split system is nothing or one step of the whole system. -/
theorem Split.Step.whole (tameA : A.Tame I) (tameB : B.Tame J) (h : Split.Step A B M N s es s')
    (ok : Split.Ok A B M N I J s) (hw : Split.For S₁ S₂ s w) :
    Split.Ok A B M N I J s' ∧
      ((es = [] ∧ Split.For S₁ S₂ s' w) ∨
        ∃ i w', Whole.Step A B P Q w (i, es) w' ∧ Split.For S₁ S₂ s' w') := by
  obtain ⟨ha, hb⟩ := ok
  cases h with
  | @beginA x i m c rest code =>
      rw [rest] at ha
      obtain ⟨ha', hcase⟩ := ha.begin tameA code
      refine ⟨⟨ha', hb⟩, ?_⟩
      have hi : I x := ha.origin
      have hx : w.a = x := by rw [hw.a, rest]; rfl
      obtain ⟨t, rfl, hnext⟩ | ⟨rfl, hnil, horigin⟩ := hcase
      · rw [hnext]
        have hcode : A.code w.a (some w.b) w.shared i = some (m, .done (t.1, t.2)) := by
          rw [hx, hw.b, hw.shared]
          exact tameA.view_origin hi code
        exact Or.inr ⟨_, _, .a hcode .done, rfl, hw.b, rfl, hw.down, hw.up⟩
      · refine Or.inl ⟨hnil, ?_, hw.b, hw.shared, hw.down, hw.up⟩
        exact hx.trans horigin.symm
  | @beginB y i m c rest code =>
      rw [rest] at hb
      obtain ⟨hb', hcase⟩ := hb.begin tameB code
      refine ⟨⟨ha, hb'⟩, ?_⟩
      have hi : J y := hb.origin
      have hy : w.b = y := by rw [hw.b, rest]; rfl
      obtain ⟨t, rfl, hnext⟩ | ⟨rfl, hnil, horigin⟩ := hcase
      · rw [hnext]
        have hcode : B.code w.b (some w.a) w.shared i = some (m, .done (t.1, t.2)) := by
          rw [hy, hw.a, hw.shared]
          exact tameB.view_origin hi code
        exact Or.inr ⟨_, _, .b hcode .done, hw.a, rfl, rfl, hw.down, hw.up⟩
      · refine Or.inl ⟨hnil, hw.a, ?_, hw.shared, hw.down, hw.up⟩
        exact hy.trans horigin.symm
  | @goA es d p q goes =>
      obtain ⟨x', y', hdown, hup, ha', hframe, hframe', heffect⟩ := goes.sound S₁ S₂ ha hw.down hw.up
      refine ⟨⟨ha', hb.frame hframe' hframe⟩, ?_⟩
      obtain ⟨rfl, horigin, rfl, rfl⟩ | ⟨x, i, c, x', hd, rfl, hruns⟩ := heffect
      · exact Or.inl ⟨rfl, hw.a.trans horigin.symm, hw.b, hw.shared, hdown, hup⟩
      · rw [hd] at ha
        have hcode : A.code w.a (some w.b) w.shared i = some (w.shared, c) := by
          rw [hw.a, hd]
          exact ha.code w.shared (some w.b)
        exact Or.inr ⟨_, _, .a hcode hruns, rfl, hw.b, hw.shared, hdown, hup⟩
  | @goB es d p q goes =>
      obtain ⟨y', x', hup, hdown, hb', hframe, hframe', heffect⟩ := goes.sound S₂ S₁ hb hw.up hw.down
      refine ⟨⟨ha.frame hframe' hframe, hb'⟩, ?_⟩
      obtain ⟨rfl, horigin, rfl, rfl⟩ | ⟨y, i, c, y', hd, rfl, hruns⟩ := heffect
      · exact Or.inl ⟨rfl, hw.a, hw.b.trans horigin.symm, hw.shared, hdown, hup⟩
      · rw [hd] at hb
        have hcode : B.code w.b (some w.a) w.shared i = some (w.shared, c) := by
          rw [hw.b, hd]
          exact hb.code w.shared (some w.a)
        exact Or.inr ⟨_, _, .b hcode hruns, hw.a, rfl, hw.shared, hdown, hup⟩

end Refinement

/-! ## And the other way round

A call that nobody else is inside of is finished by its own accesses, in every way the
instant queue may answer it.  So every run of the whole system is one of the split system. -/

section Realization

variable {α β σ τ μ π ρ ι κ ι₁ ι₂ ε : Type*} {A : Party α β σ τ μ ι ε} {I : σ → Prop}
  {M : Machine π ι₁ α} {N : Machine ρ ι₂ β}

/-- Accesses of one thread, one after the other. -/
inductive GoesTo (M : Machine π ι₁ α) (N : Machine ρ ι₂ β) :
    Doing α β σ ι ε → π → ρ → List ε → Doing α β σ ι ε → π → ρ → Prop
  | here {d : Doing α β σ ι ε} {p : π} {q : ρ} : GoesTo M N d p q [] d p q
  | next {d d' d'' : Doing α β σ ι ε} {p p' p'' : π} {q q' q'' : ρ} {es fs : List ε} :
      Goes M N d p q es d' p' q' → GoesTo M N d' p' q' fs d'' p'' q'' →
      GoesTo M N d p q (es ++ fs) d'' p'' q''

theorem GoesTo.of_push {p p' : π} {a : Answer α} (h : M.Finishes .producer p a p') (s : σ) (i : ι)
    (v : α) (k : Bool → Code α β (σ × List ε)) (q : ρ) :
    GoesTo M N (.inside s i (.push v k)) p q
      (Doing.pushed s i v k (some a)).2 (Doing.pushed s i v k (some a)).1 p' q := by
  induction h with
  | last hown =>
      obtain ⟨j, hside, hentry, haccess⟩ := hown
      rw [← List.append_nil (Doing.pushed s i v k _).2]
      exact .next (.push hside (fun c hc => by rw [hentry] at hc; cases hc) haccess) .here
  | more hown _ ih =>
      obtain ⟨j, hside, hentry, haccess⟩ := hown
      exact .next (.push hside (fun c hc => by rw [hentry] at hc; cases hc) haccess) ih

theorem GoesTo.of_pop {q q' : ρ} {a : Answer β} (h : N.Finishes .consumer q a q') (s : σ) (i : ι)
    (k : Option β → Code α β (σ × List ε)) (p : π) :
    GoesTo M N (.inside s i (.pop k)) p q
      (Doing.popped s i k (some a)).2 (Doing.popped s i k (some a)).1 p q' := by
  induction h with
  | last hown =>
      obtain ⟨j, hside, hentry, haccess⟩ := hown
      rw [← List.append_nil (Doing.popped s i k _).2]
      exact .next (.pop hside haccess) .here
  | more hown _ ih =>
      obtain ⟨j, hside, hentry, haccess⟩ := hown
      exact .next (.pop hside haccess) ih

variable {π' ρ' : Type*} {P : Instant π' α} {Q : Instant ρ' β} {p₀ x x' : π'} {q₀ y y' : ρ'}

/-- **A step is begun and finished**: what is left of it when it is begun, by accesses. -/
theorem Party.Ok.runs {p : π} {q : ρ} {s : σ} {o : Option τ} {m m' : μ} {i : ι}
    {c : Code α β (σ × List ε)} {t : σ × List ε} (tame : A.Tame I) (S₁ : Serves M P p₀)
    (S₂ : Serves N Q q₀) (hok : A.Ok I M N p q (.resting s)) (hcode : A.code s o m i = some (m', c))
    (hp : S₁.Sim p x) (hq : S₂.Sim q y) (idle₁ : ∀ e, M.pending p e = none)
    (idle₂ : ∀ e, N.pending q e = none) (hruns : c.Runs P Q x y t x' y') :
    ∃ es p' q', GoesTo M N (Doing.next s i c).1 p q es (.resting t.1) p' q' ∧
      (Doing.next s i c).2 ++ es = t.2 ∧ S₁.Sim p' x' ∧ S₂.Sim q' y' ∧ I t.1 ∧
      (∀ e, M.pending p' e = none) ∧ ∀ e, N.pending q' e = none := by
  have hsingle := tame.single hok.origin hcode
  cases hruns with
  | done =>
      cases hsingle with
      | done hi => exact ⟨[], p, q, .here, List.append_nil _, hp, hq, hi, idle₁, idle₂⟩
  | @push v k b _ x₁ _ _ _ _ hpush hrest =>
      cases hsingle with
      | push hk =>
          obtain ⟨s', es, hdone, hi⟩ := hk b
          rw [hdone] at hrest
          cases hrest with
          | done =>
              have hanswer : ∃ a, Answers (.push v) a ∧ P.Step x (some a) x' ∧
                  (Doing.pushed s i v k (some a) : Doing α β σ ι ε × List ε)
                    = (.resting s', es) := by
                cases b with
                | true =>
                    refine ⟨_, .pushed v, hpush, ?_⟩
                    rw [Doing.pushed_pushed, hdone, Doing.next_done]
                | false =>
                    refine ⟨_, .refused v, hpush, ?_⟩
                    rw [Doing.pushed_refused, hdone, Doing.next_done]
              obtain ⟨a, ha, hstep, hend⟩ := hanswer
              obtain ⟨j, p₁, p', hentry, haccess, hfin, hp', idle'⟩ := S₁.finishes hp idle₁ ha hstep
              have hfirst : Goes M N (.inside s i (.push v k)) p q [] (.inside s i (.push v k)) p₁ q :=
                .push (S₁.entry_side hentry) (fun c hc => Option.some.inj (hc.symm.trans hentry))
                  haccess
              have hgoes := GoesTo.next hfirst (.of_push hfin s i v k q)
              rw [hend] at hgoes
              exact ⟨es, p', q, hgoes, List.nil_append _, hp', hq, hi, idle', idle₂⟩
  | @pop k o _ _ _ y₁ _ _ hpop hrest =>
      cases hsingle with
      | pop hk =>
          obtain ⟨s', es, hdone, hi⟩ := hk o
          rw [hdone] at hrest
          cases hrest with
          | done =>
              have hanswer : ∃ a, Answers .pop a ∧ Q.Step y (some a) y' ∧
                  (Doing.popped s i k (some a) : Doing α β σ ι ε × List ε)
                    = (.resting s', es) := by
                cases o with
                | some v =>
                    refine ⟨_, .popped v, hpop, ?_⟩
                    rw [Doing.popped_popped, hdone, Doing.next_done]
                | none =>
                    refine ⟨_, .empty, hpop, ?_⟩
                    rw [Doing.popped_empty, hdone, Doing.next_done]
              obtain ⟨a, ha, hstep, hend⟩ := hanswer
              obtain ⟨j, q₁, q', hentry, haccess, hfin, hq', idle'⟩ := S₂.finishes hq idle₂ ha hstep
              have hfirst : Goes M N (.inside s i (.pop k)) p q [] (.inside s i (.pop k)) p q₁ :=
                .pop (S₂.entry_side hentry) haccess
              have hgoes := GoesTo.next hfirst (.of_pop hfin s i k p)
              rw [hend] at hgoes
              exact ⟨es, p, q', hgoes, List.nil_append _, hp, hq', hi, idle₁, idle'⟩

variable {B : Party β α τ σ μ κ ε} {J : τ → Prop} {shared : μ}
  {ts : List (Taken (Split α β σ τ μ π ρ ι κ ε) (List ε))} {s : Split α β σ τ μ π ρ ι κ ε}

end Realization

end Lib.Duplex
