/-
# `Spsc.Ladder` — the optimisation ladder, call by call

`spsc_ring_buffer.hpp` builds its queue in steps.  Behind the locks, the memory
orders and the padding, the first three steps are one algorithm; the fourth is
`Spsc.RingBuffer`.

| step | class | what a call does |
| :-- | :-- | :-- |
| 0 | `SpscRingBufferMutex` | both indices under the lock |
| 1 | `SpscRingBufferAtomicV1` | loads its own index and the other side's |
| 2 | `SpscRingBufferAtomicV2` | the same, padded, with weaker orders |
| 3 | `SpscRingBufferAtomicV3` | loads the other side's index only when its cached copy is used up |

When calls do not overlap, an index loaded is the index last stored, so steps 0
to 2 are `IndexRing`.  An `IndexRing` is a `V3` ring whose caches are up to date
(`IndexRing.cached`), and with that the facts about `V3` in `Spsc.RingBuffer`
speak about all four: each is the bounded queue of `Capacity - 1` values.
-/
import TradingGateway.Spsc.RingBuffer

namespace TradingGateway.Spsc

open Lib.BoundedFifo Lib.Cyclic

variable {α : Type*} {C : Capacity}

/-! ## Steps 0 to 2 -/

/-- The members that the first three classes share. -/
structure IndexRing (α : Type*) (C : Capacity) where
  buffer : Vector α C.value
  head : Nat
  tail : Nat

namespace IndexRing

def fresh [Inhabited α] : IndexRing α C where
  buffer := Vector.replicate C.value default
  head := 0
  tail := 0

def push (q : IndexRing α C) (value : α) : Bool × IndexRing α C :=
  let next := increment C q.head
  if next = q.tail then (false, q)
  else (true, { q with buffer := q.buffer.setIfInBounds q.head value, head := next })

def pop [Inhabited α] (q : IndexRing α C) : Option α × IndexRing α C :=
  if q.tail = q.head then (none, q)
  else (some (cells q.buffer q.tail), { q with tail := increment C q.tail })

end IndexRing

/-- `SpscRingBufferMutex<T, Capacity>`: a call is one critical section. -/
abbrev SpscRingBufferMutex (α : Type*) (C : Capacity) := IndexRing α C

/-- `SpscRingBufferAtomicV1<T, Capacity>`: `head_` and `tail_` are atomics. -/
abbrev SpscRingBufferAtomicV1 (α : Type*) (C : Capacity) := IndexRing α C

/-- `SpscRingBufferAtomicV2<T, Capacity>`: the atomics are padded. -/
abbrev SpscRingBufferAtomicV2 (α : Type*) (C : Capacity) := IndexRing α C

section Calls

variable [Inhabited α]

def SpscRingBufferMutex.calls : Sequential (SpscRingBufferMutex α C) α :=
  ⟨IndexRing.push, IndexRing.pop⟩

def SpscRingBufferAtomicV1.calls : Sequential (SpscRingBufferAtomicV1 α C) α :=
  ⟨IndexRing.push, IndexRing.pop⟩

def SpscRingBufferAtomicV2.calls : Sequential (SpscRingBufferAtomicV2 α C) α :=
  ⟨IndexRing.push, IndexRing.pop⟩

/-! ## Step 3 -/

/-- A call of `SpscRingBufferAtomicV3`, which has two ways to push. -/
inductive V3Call (α Args : Type*) where
  | push (value : α)
  | emplace (args : Args)
  | pop

/-- The call that an `emplace` stands for. -/
def V3Call.plain {Args : Type*} (construct : Args → α) : V3Call α Args → Call α
  | .push value => .push value
  | .emplace args => .push (construct args)
  | .pop => .pop

namespace SpscRingBufferAtomicV3

variable {Args : Type*} (construct : Args → α)

/-- One call, and what it answers. -/
def call (q : SpscRingBufferAtomicV3 α C) : V3Call α Args → Answer α × SpscRingBufferAtomicV3 α C
  | .push value =>
      (if (q.push value).1 then .pushed value else .refused value, (q.push value).2)
  | .emplace args =>
      (if (q.emplace construct args).1 then .pushed (construct args) else .refused (construct args),
        (q.emplace construct args).2)
  | .pop => ((q.pop.1.map .popped).getD .empty, q.pop.2)

def answers : SpscRingBufferAtomicV3 α C → List (V3Call α Args) → List (Answer α)
  | _, [] => []
  | q, c :: cs => (q.call construct c).1 :: answers (q.call construct c).2 cs

def calls : Sequential (SpscRingBufferAtomicV3 α C) α := ⟨push, pop⟩

/-- An `emplace` does what the push of the constructed value does. -/
theorem call_plain (q : SpscRingBufferAtomicV3 α C) (c : V3Call α Args) :
    q.call construct c = calls.call q (c.plain construct) := by
  cases c with
  | push value => rfl
  | emplace args => rfl
  | pop => rfl

theorem answers_plain (cs : List (V3Call α Args)) :
    ∀ q : SpscRingBufferAtomicV3 α C,
      q.answers construct cs = calls.answers q (cs.map (V3Call.plain construct)) := by
  induction cs with
  | nil =>
      intro q
      rfl
  | cons c cs ih =>
      intro q
      show _ :: answers construct _ cs = _ :: calls.answers _ _
      rw [call_plain, ih]

/-- **`V3` is the bounded queue of `Capacity - 1` values.** -/
theorem simulates_bounded :
    Simulates (calls : Sequential (SpscRingBufferAtomicV3 α C) α) (bounded α (C.value - 1))
      fun q xs => q.WellFormed ∧ q.contents = xs where
  push := by
    rintro q xs ⟨hw, rfl⟩ v
    have hpos := C.pos
    obtain ⟨hw', ⟨hanswer, hroom, hcontents⟩ | ⟨hanswer, hfull, hcontents⟩⟩ := push_spec hw v
    · have hlt : q.contents.length < C.value - 1 := by omega
      rw [bounded_push_of_lt hlt v]
      exact ⟨hanswer, hw', hcontents⟩
    · have hge : ¬ q.contents.length < C.value - 1 := by omega
      rw [bounded_push_of_not_lt hge v]
      exact ⟨hanswer, hw', hcontents⟩
  pop := by
    rintro q xs ⟨hw, rfl⟩
    obtain ⟨hw', ⟨v, hanswer, hcontents⟩ | ⟨hanswer, hnil, hcontents⟩⟩ := pop_spec hw
    · show q.pop.1 = q.contents.head? ∧ q.pop.2.WellFormed ∧ q.pop.2.contents = q.contents.tail
      rw [hcontents]
      exact ⟨hanswer, hw', rfl⟩
    · show q.pop.1 = q.contents.head? ∧ q.pop.2.WellFormed ∧ q.pop.2.contents = q.contents.tail
      rw [hnil]
      exact ⟨hanswer, hw', hcontents⟩

end SpscRingBufferAtomicV3

/-! ## An uncached ring as a cached one -/

namespace IndexRing

open SpscRingBufferAtomicV3 (WellFormed Linked)

omit [Inhabited α] in
/-- The `V3` ring whose caches are up to date. -/
def cached (q : IndexRing α C) : SpscRingBufferAtomicV3 α C where
  buffer := q.buffer
  head := q.head
  tail := q.tail
  producerTailCache := q.tail
  consumerHeadCache := q.head

omit [Inhabited α] in
/-- Refreshing both caches of a ring changes neither its indices nor its slots. -/
theorem wellFormed_cached {r : SpscRingBufferAtomicV3 α C} (h : r.WellFormed) :
    (cached ⟨r.buffer, r.head, r.tail⟩).WellFormed := by
  obtain ⟨n, hn⟩ := h
  exact ⟨_, hn.refreshTail_now.refreshHead_now⟩

omit [Inhabited α] in
theorem cached_push (q : IndexRing α C) (v : α) :
    (q.cached.push v).1 = (q.push v).1 ∧
      (q.push v).2 = ⟨(q.cached.push v).2.buffer, (q.cached.push v).2.head, (q.cached.push v).2.tail⟩ := by
  unfold push SpscRingBufferAtomicV3.push
  dsimp only [cached]
  split
  next => exact ⟨rfl, rfl⟩
  next => exact ⟨rfl, rfl⟩

theorem cached_pop (q : IndexRing α C) :
    q.cached.pop.1 = q.pop.1 ∧
      q.pop.2 = ⟨q.cached.pop.2.buffer, q.cached.pop.2.head, q.cached.pop.2.tail⟩ := by
  unfold pop SpscRingBufferAtomicV3.pop
  dsimp only [cached]
  split
  next => exact ⟨rfl, rfl⟩
  next => exact ⟨rfl, rfl⟩

/-- **So is each of the first three steps.** -/
theorem simulates_bounded :
    Simulates (⟨push, pop⟩ : Sequential (IndexRing α C) α) (bounded α (C.value - 1))
      fun q xs => q.cached.WellFormed ∧ q.cached.contents = xs where
  push := by
    rintro q xs h v
    obtain ⟨hanswer, hw, hcontents⟩ := SpscRingBufferAtomicV3.simulates_bounded.push h v
    obtain ⟨hfst, hsnd⟩ := q.cached_push v
    refine ⟨hfst.symm.trans hanswer, ?_⟩
    show WellFormed (cached (q.push v).2) ∧ _
    rw [hsnd]
    exact ⟨wellFormed_cached hw, hcontents⟩
  pop := by
    rintro q xs h
    obtain ⟨hanswer, hw, hcontents⟩ := SpscRingBufferAtomicV3.simulates_bounded.pop h
    obtain ⟨hfst, hsnd⟩ := q.cached_pop
    refine ⟨hfst.symm.trans hanswer, ?_⟩
    show WellFormed (cached q.pop.2) ∧ _
    rw [hsnd]
    exact ⟨wellFormed_cached hw, hcontents⟩

theorem cached_fresh :
    (cached (fresh : IndexRing α C)).WellFormed ∧ (cached (fresh : IndexRing α C)).contents = [] :=
  ⟨SpscRingBufferAtomicV3.wellFormed_fresh, SpscRingBufferAtomicV3.contents_fresh⟩

end IndexRing

/-! ## The ladder -/

/-- **Every step of the ladder answers every list of calls as the bounded queue of
`Capacity - 1` values does.** -/
theorem ladder_agrees {Args : Type*} (construct : Args → α) (cs : List (V3Call α Args)) :
    SpscRingBufferMutex.calls.answers (IndexRing.fresh : SpscRingBufferMutex α C)
        (cs.map (V3Call.plain construct))
      = (bounded α (C.value - 1)).answers [] (cs.map (V3Call.plain construct)) ∧
    SpscRingBufferAtomicV1.calls.answers (IndexRing.fresh : SpscRingBufferAtomicV1 α C)
        (cs.map (V3Call.plain construct))
      = (bounded α (C.value - 1)).answers [] (cs.map (V3Call.plain construct)) ∧
    SpscRingBufferAtomicV2.calls.answers (IndexRing.fresh : SpscRingBufferAtomicV2 α C)
        (cs.map (V3Call.plain construct))
      = (bounded α (C.value - 1)).answers [] (cs.map (V3Call.plain construct)) ∧
    (SpscRingBufferAtomicV3.fresh : SpscRingBufferAtomicV3 α C).answers construct cs
      = (bounded α (C.value - 1)).answers [] (cs.map (V3Call.plain construct)) := by
  have hindex := IndexRing.simulates_bounded.answers (cs.map (V3Call.plain construct))
    (IndexRing.cached_fresh (α := α) (C := C))
  refine ⟨hindex, hindex, hindex, ?_⟩
  rw [SpscRingBufferAtomicV3.answers_plain]
  exact SpscRingBufferAtomicV3.simulates_bounded.answers _
    ⟨SpscRingBufferAtomicV3.wellFormed_fresh, SpscRingBufferAtomicV3.contents_fresh⟩

end Calls

end TradingGateway.Spsc
