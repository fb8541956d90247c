/-
# `Spsc.RingBuffer` — the queue between the two threads

`SpscRingBufferAtomicV3` of `spsc_ring_buffer.hpp`, each call as one function:
the index that a side owns is loaded, compared with the cached index of the
other side, and only when that comparison fails is the other side's index
loaded and the cache refreshed.  `Spsc.Interleaving` splits the same calls into their
single accesses.

Indices are `std::size_t` values below `Capacity`, and `Capacity` is at most
`2^63`, so `index + 1` never wraps and they are plain naturals here.
-/
import TradingGateway.Lib.BoundedFifo
import TradingGateway.Lib.Cyclic

namespace TradingGateway.Spsc

open Lib.Cyclic

/-- `is_power_of_two`. -/
def isPowerOfTwo (value : Nat) : Bool :=
  value != 0 && (value &&& (value - 1)) == 0

theorem isPowerOfTwo_iff {value : Nat} : isPowerOfTwo value = true ↔ value.isPowerOfTwo := by
  rw [← Nat.ne_zero_and_sub_one_eq_zero_iff_isPowerOfTwo]
  simp [isPowerOfTwo]

/-- Masking with a power of two less one is the remainder. -/
theorem and_sub_one_eq_mod {value : Nat} (h : isPowerOfTwo value = true) (i : Nat) :
    i &&& (value - 1) = i % value := by
  obtain ⟨k, rfl⟩ := isPowerOfTwo_iff.mp h
  exact Nat.and_two_pow_sub_one_eq_mod i k

/-- The template parameter `Capacity` with the two `static_assert`s on it. -/
structure Capacity where
  value : Nat
  two_le : 2 ≤ value
  powerOfTwo : isPowerOfTwo value = true

theorem Capacity.pos (C : Capacity) : 0 < C.value :=
  Nat.lt_of_lt_of_le Nat.two_pos C.two_le

/-- `increment`: the next index, by mask. -/
def increment (C : Capacity) (index : Nat) : Nat :=
  (index + 1) &&& (C.value - 1)

theorem increment_eq (C : Capacity) (index : Nat) :
    increment C index = (index + 1) % C.value :=
  and_sub_one_eq_mod C.powerOfTwo _

theorem increment_mod (C : Capacity) (n : Nat) :
    increment C (n % C.value) = (n + 1) % C.value := by
  rw [increment_eq, Nat.mod_add_mod]

/-- `SpscRingBufferAtomicV3<T, Capacity>`.  `head` and `tail` are the values last
stored in the two atomics; each cache belongs to one thread. -/
structure SpscRingBufferAtomicV3 (α : Type*) (C : Capacity) where
  buffer : Vector α C.value
  head : Nat
  tail : Nat
  producerTailCache : Nat
  consumerHeadCache : Nat

namespace SpscRingBufferAtomicV3

variable {α : Type*} [Inhabited α] {C : Capacity}

/-- The fresh queue: every member value-initialised. -/
def fresh : SpscRingBufferAtomicV3 α C where
  buffer := Vector.replicate C.value default
  head := 0
  tail := 0
  producerTailCache := 0
  consumerHeadCache := 0

/-- The slot write and the release store that end a successful `push`. -/
def commitPush (q : SpscRingBufferAtomicV3 α C) (head next : Nat) (value : α) :
    SpscRingBufferAtomicV3 α C :=
  { q with buffer := q.buffer.setIfInBounds head value, head := next }

/-- `push`. -/
def push (q : SpscRingBufferAtomicV3 α C) (value : α) : Bool × SpscRingBufferAtomicV3 α C :=
  let head := q.head
  let next := increment C head
  if next = q.producerTailCache then
    let q := { q with producerTailCache := q.tail }
    if next = q.producerTailCache then (false, q)
    else (true, q.commitPush head next value)
  else (true, q.commitPush head next value)

/-- `emplace`: the same text as `push`, with `T(std::forward<Args>(args)...)`
written to the slot. -/
def emplace {Args : Type*} (construct : Args → α) (q : SpscRingBufferAtomicV3 α C) (args : Args) :
    Bool × SpscRingBufferAtomicV3 α C :=
  q.push (construct args)

/-- The slot read and the release store that end a successful `pop`. -/
def commitPop (q : SpscRingBufferAtomicV3 α C) (tail : Nat) : α × SpscRingBufferAtomicV3 α C :=
  (cells q.buffer tail, { q with tail := increment C tail })

/-- `pop`: `none` stands for `false`, with `out` untouched. -/
def pop (q : SpscRingBufferAtomicV3 α C) : Option α × SpscRingBufferAtomicV3 α C :=
  let tail := q.tail
  if tail = q.consumerHeadCache then
    let q := { q with consumerHeadCache := q.head }
    if tail = q.consumerHeadCache then (none, q)
    else ((q.commitPop tail).map some id)
  else ((q.commitPop tail).map some id)

/-- The slots from `tail_` up to `head_`, cyclically. -/
def contents (q : SpscRingBufferAtomicV3 α C) : List α :=
  window (cells q.buffer) C.value q.tail ((q.head + C.value - q.tail) % C.value)

end SpscRingBufferAtomicV3

namespace SpscRingBufferAtomicV3

variable {α : Type*} {C : Capacity}

/-! ## The counts behind the indices

Every index is a count modulo `Capacity`: how many values were pushed, how many
were popped, how many pops the producer has seen and how many pushes the
consumer has seen.  `Linked` is the relation between the counts that no single
call states and every call needs: a cache lags behind its index, but never by
so much that a full lap could be mistaken for an empty distance. -/

/-- How often each index has moved, and how much of that the other side saw. -/
structure Counts where
  pushed : Nat
  popped : Nat
  tailSeen : Nat
  headSeen : Nat

/-- The indices of `q` are the counts `n`, and the counts are in order. -/
structure Linked (q : SpscRingBufferAtomicV3 α C) (n : Counts) : Prop where
  head_eq : q.head = n.pushed % C.value
  tail_eq : q.tail = n.popped % C.value
  producerTailCache_eq : q.producerTailCache = n.tailSeen % C.value
  consumerHeadCache_eq : q.consumerHeadCache = n.headSeen % C.value
  tailSeen_le : n.tailSeen ≤ n.popped
  pushed_lt : n.pushed < n.tailSeen + C.value
  popped_le : n.popped ≤ n.headSeen
  headSeen_le : n.headSeen ≤ n.pushed

namespace Linked

variable {q : SpscRingBufferAtomicV3 α C} {n : Counts}

/-- The producer's comparison is decided by the counts: at the cached tail the
ring looks full exactly when it is a lap less one ahead of it. -/
theorem next_eq_cache_iff (h : Linked q n) :
    increment C q.head = q.producerTailCache ↔ n.pushed + 1 = n.tailSeen + C.value := by
  rw [h.head_eq, increment_mod, h.producerTailCache_eq]
  have h1 := h.tailSeen_le
  have h2 := h.pushed_lt
  have h3 := h.popped_le
  have h4 := h.headSeen_le
  constructor
  · intro he
    rcases eq_or_eq_add_of_mod_eq (by omega) (by omega) he.symm with he | he <;> omega
  · intro he
    rw [he, Nat.add_mod_right]

/-- The consumer's comparison: at the cached head the ring looks empty exactly
when everything seen has been popped. -/
theorem tail_eq_cache_iff (h : Linked q n) :
    q.tail = q.consumerHeadCache ↔ n.popped = n.headSeen := by
  rw [h.tail_eq, h.consumerHeadCache_eq]
  have h1 := h.tailSeen_le
  have h2 := h.pushed_lt
  have h3 := h.popped_le
  have h4 := h.headSeen_le
  constructor
  · intro he
    rcases eq_or_eq_add_of_mod_eq h3 (by omega) he with he | he <;> omega
  · intro he
    rw [he]

theorem refreshTail (h : Linked q n) {k : Nat} (hk : n.tailSeen ≤ k) (hk' : k ≤ n.popped) :
    Linked { q with producerTailCache := k % C.value } { n with tailSeen := k } where
  head_eq := h.head_eq
  tail_eq := h.tail_eq
  producerTailCache_eq := rfl
  consumerHeadCache_eq := h.consumerHeadCache_eq
  tailSeen_le := hk'
  pushed_lt := by
    have := h.pushed_lt
    show n.pushed < k + C.value
    omega
  popped_le := h.popped_le
  headSeen_le := h.headSeen_le

theorem refreshHead (h : Linked q n) {k : Nat} (hk : n.headSeen ≤ k) (hk' : k ≤ n.pushed) :
    Linked { q with consumerHeadCache := k % C.value } { n with headSeen := k } where
  head_eq := h.head_eq
  tail_eq := h.tail_eq
  producerTailCache_eq := h.producerTailCache_eq
  consumerHeadCache_eq := rfl
  tailSeen_le := h.tailSeen_le
  pushed_lt := h.pushed_lt
  popped_le := h.popped_le.trans hk
  headSeen_le := hk'

theorem refreshTail_now (h : Linked q n) :
    Linked { q with producerTailCache := q.tail } { n with tailSeen := n.popped } := by
  have := h.refreshTail h.tailSeen_le le_rfl
  rwa [← h.tail_eq] at this

theorem refreshHead_now (h : Linked q n) :
    Linked { q with consumerHeadCache := q.head } { n with headSeen := n.pushed } := by
  have := h.refreshHead h.headSeen_le le_rfl
  rwa [← h.head_eq] at this

theorem writeSlot (h : Linked q n) (v : α) :
    Linked { q with buffer := q.buffer.setIfInBounds (n.pushed % C.value) v } n :=
  ⟨h.head_eq, h.tail_eq, h.producerTailCache_eq, h.consumerHeadCache_eq, h.tailSeen_le,
    h.pushed_lt, h.popped_le, h.headSeen_le⟩

/-- The release store of `head_` publishes the slot before it. -/
theorem storeHead (h : Linked q n) (hroom : n.pushed + 1 < n.tailSeen + C.value) :
    Linked { q with head := (n.pushed + 1) % C.value } { n with pushed := n.pushed + 1 } where
  head_eq := rfl
  tail_eq := h.tail_eq
  producerTailCache_eq := h.producerTailCache_eq
  consumerHeadCache_eq := h.consumerHeadCache_eq
  tailSeen_le := h.tailSeen_le
  pushed_lt := hroom
  popped_le := h.popped_le
  headSeen_le := h.headSeen_le.trans (Nat.le_succ _)

theorem storeTail (h : Linked q n) (hsome : n.popped < n.headSeen) :
    Linked { q with tail := (n.popped + 1) % C.value } { n with popped := n.popped + 1 } where
  head_eq := h.head_eq
  tail_eq := rfl
  producerTailCache_eq := h.producerTailCache_eq
  consumerHeadCache_eq := h.consumerHeadCache_eq
  tailSeen_le := h.tailSeen_le.trans (Nat.le_succ _)
  pushed_lt := h.pushed_lt
  popped_le := hsome
  headSeen_le := h.headSeen_le

variable [Inhabited α]

theorem contents_eq (h : Linked q n) :
    q.contents = window (cells q.buffer) C.value n.popped (n.pushed - n.popped) := by
  have h1 := h.tailSeen_le
  have h2 := h.pushed_lt
  have h3 := h.popped_le
  have h4 := h.headSeen_le
  rw [contents, h.head_eq, h.tail_eq, distance_mod (by omega) (by omega), window_mod]

theorem length_contents (h : Linked q n) : q.contents.length = n.pushed - n.popped := by
  rw [h.contents_eq, length_window]

theorem contents_writeSlot (h : Linked q n) (v : α) :
    contents { q with buffer := q.buffer.setIfInBounds (n.pushed % C.value) v } = q.contents := by
  have h1 := h.tailSeen_le
  have h2 := h.pushed_lt
  have h3 := h.popped_le
  have h4 := h.headSeen_le
  rw [(h.writeSlot v).contents_eq, h.contents_eq]
  show window (cells (q.buffer.setIfInBounds (n.pushed % C.value) v)) _ _ _ = _
  rw [cells_set _ (Nat.mod_lt _ C.pos)]
  exact window_update v fun i hi => mod_ne_of_lt (by omega) (by omega)

theorem contents_storeHead (h : Linked q n) (hroom : n.pushed + 1 < n.tailSeen + C.value) :
    contents { q with head := (n.pushed + 1) % C.value }
      = q.contents ++ [cells q.buffer (n.pushed % C.value)] := by
  have h3 := h.popped_le
  have h4 := h.headSeen_le
  rw [(h.storeHead hroom).contents_eq, h.contents_eq]
  show window (cells q.buffer) C.value n.popped (n.pushed + 1 - n.popped) = _
  rw [Nat.succ_sub (by omega), window_succ, Nat.add_sub_of_le (by omega)]

theorem contents_storeTail (h : Linked q n) (hsome : n.popped < n.headSeen) :
    q.contents = cells q.buffer (n.popped % C.value)
      :: contents { q with tail := (n.popped + 1) % C.value } := by
  have h4 := h.headSeen_le
  rw [(h.storeTail hsome).contents_eq, h.contents_eq]
  show _ = _ :: window (cells q.buffer) C.value (n.popped + 1) (n.pushed - (n.popped + 1))
  rw [← window_cons, Nat.sub_add_eq, Nat.sub_add_cancel (by omega)]

end Linked

variable [Inhabited α]

theorem linked_fresh : Linked (fresh : SpscRingBufferAtomicV3 α C) ⟨0, 0, 0, 0⟩ := by
  have := C.pos
  constructor <;> simp [fresh, C.pos]

/-! ## Calls that do not overlap -/

/-- The indices come from counts. -/
def WellFormed (q : SpscRingBufferAtomicV3 α C) : Prop :=
  ∃ n : Counts, Linked q n

theorem wellFormed_fresh : WellFormed (fresh : SpscRingBufferAtomicV3 α C) :=
  ⟨_, linked_fresh⟩

@[simp] theorem contents_fresh : (fresh : SpscRingBufferAtomicV3 α C).contents = [] := by
  rw [linked_fresh.contents_eq]
  rfl

theorem WellFormed.length_lt {q : SpscRingBufferAtomicV3 α C} (h : q.WellFormed) :
    q.contents.length < C.value := by
  obtain ⟨n, hn⟩ := h
  have := hn.tailSeen_le
  have := hn.pushed_lt
  have := C.pos
  rw [hn.length_contents]
  omega

theorem Linked.commitPush {q : SpscRingBufferAtomicV3 α C} {n : Counts} (h : Linked q n)
    (hroom : n.pushed + 1 < n.tailSeen + C.value) (v : α) :
    WellFormed (q.commitPush q.head (increment C q.head) v) ∧
      (q.commitPush q.head (increment C q.head) v).contents = q.contents ++ [v] := by
  have hw := h.writeSlot v
  have heq : q.commitPush q.head (increment C q.head) v =
      { { q with buffer := q.buffer.setIfInBounds (n.pushed % C.value) v } with
        head := (n.pushed + 1) % C.value } := by
    rw [SpscRingBufferAtomicV3.commitPush, h.head_eq, increment_mod]
  refine ⟨⟨_, heq ▸ hw.storeHead hroom⟩, ?_⟩
  rw [heq, hw.contents_storeHead hroom, h.contents_writeSlot]
  show q.contents ++ [cells (q.buffer.setIfInBounds (n.pushed % C.value) v) _] = _
  rw [cells_set _ (Nat.mod_lt _ C.pos), Function.update_self]

theorem Linked.commitPop {q : SpscRingBufferAtomicV3 α C} {n : Counts} (h : Linked q n)
    (hsome : n.popped < n.headSeen) :
    WellFormed (q.commitPop q.tail).2 ∧
      q.contents = (q.commitPop q.tail).1 :: (q.commitPop q.tail).2.contents := by
  have heq : (q.commitPop q.tail).2 = { q with tail := (n.popped + 1) % C.value } := by
    rw [SpscRingBufferAtomicV3.commitPop, h.tail_eq, increment_mod]
  refine ⟨⟨_, heq ▸ h.storeTail hsome⟩, ?_⟩
  rw [heq, h.contents_storeTail hsome, SpscRingBufferAtomicV3.commitPop, h.tail_eq]

/-- **`push`, by what it does to the contents**: one place always stays free. -/
theorem push_spec {q : SpscRingBufferAtomicV3 α C} (h : q.WellFormed) (v : α) :
    (q.push v).2.WellFormed ∧
      (((q.push v).1 = true ∧ q.contents.length + 1 < C.value ∧
          (q.push v).2.contents = q.contents ++ [v]) ∨
        ((q.push v).1 = false ∧ q.contents.length + 1 = C.value ∧
          (q.push v).2.contents = q.contents)) := by
  obtain ⟨n, hn⟩ := h
  have h1 := hn.tailSeen_le
  have h2 := hn.pushed_lt
  have h3 := hn.popped_le
  have h4 := hn.headSeen_le
  have hlen := hn.length_contents
  by_cases hfast : increment C q.head = q.producerTailCache
  · have hr := hn.refreshTail_now
    have hr_contents : contents { q with producerTailCache := q.tail } = q.contents := rfl
    by_cases hslow : increment C q.head = q.tail
    · have hfull := hr.next_eq_cache_iff.mp hslow
      simp only at hfull
      simp only [push, if_pos hfast, if_pos hslow]
      exact ⟨⟨_, hr⟩, Or.inr ⟨trivial, by omega, hr_contents⟩⟩
    · have hroom : n.pushed + 1 < n.popped + C.value := by
        have := mt hr.next_eq_cache_iff.mpr hslow
        simp only at this
        omega
      have hc := hr.commitPush hroom v
      simp only [push, if_pos hfast, if_neg hslow]
      exact ⟨hc.1, Or.inl ⟨trivial, by omega, hc.2.trans (by rw [hr_contents])⟩⟩
  · have hroom : n.pushed + 1 < n.tailSeen + C.value := by
      have := mt hn.next_eq_cache_iff.mpr hfast
      omega
    have hc := hn.commitPush hroom v
    simp only [push, if_neg hfast]
    exact ⟨hc.1, Or.inl ⟨trivial, by omega, hc.2⟩⟩

/-- **`pop`, by what it does to the contents.** -/
theorem pop_spec {q : SpscRingBufferAtomicV3 α C} (h : q.WellFormed) :
    q.pop.2.WellFormed ∧
      ((∃ v, q.pop.1 = some v ∧ q.contents = v :: q.pop.2.contents) ∨
        (q.pop.1 = none ∧ q.contents = [] ∧ q.pop.2.contents = [])) := by
  obtain ⟨n, hn⟩ := h
  have h3 := hn.popped_le
  have h4 := hn.headSeen_le
  by_cases hfast : q.tail = q.consumerHeadCache
  · have hr := hn.refreshHead_now
    have hr_contents : contents { q with consumerHeadCache := q.head } = q.contents := rfl
    by_cases hslow : q.tail = q.head
    · have hempty := hr.tail_eq_cache_iff.mp hslow
      simp only at hempty
      have hnil : q.contents = [] := by
        rw [← List.length_eq_zero_iff, hn.length_contents, hempty, Nat.sub_self]
      simp only [pop, if_pos hfast, if_pos hslow]
      exact ⟨⟨_, hr⟩, Or.inr ⟨trivial, hnil, hr_contents.trans hnil⟩⟩
    · have hsome : n.popped < n.pushed := by
        have := mt hr.tail_eq_cache_iff.mpr hslow
        simp only at this
        omega
      have hc := hr.commitPop hsome
      simp only [pop, if_pos hfast, if_neg hslow]
      exact ⟨hc.1, Or.inl ⟨_, rfl, hr_contents.symm.trans hc.2⟩⟩
  · have hsome : n.popped < n.headSeen := by
      have := mt hn.tail_eq_cache_iff.mpr hfast
      omega
    have hc := hn.commitPop hsome
    simp only [pop, if_neg hfast]
    exact ⟨hc.1, Or.inl ⟨_, rfl, hc.2⟩⟩

end SpscRingBufferAtomicV3

/-! ## A queue whose indices are always linked

What a thread that owns one end of a queue holds: the ring together with the
fact that its indices come from counts.  `push` and `pop` keep it, so no later
proof has to. -/

/-- A ring buffer in a state its calls can produce. -/
structure Queue (α : Type*) [Inhabited α] (C : Capacity) where
  ring : SpscRingBufferAtomicV3 α C
  wellFormed : ring.WellFormed

namespace Queue

variable {α : Type*} [Inhabited α] {C : Capacity}

def fresh : Queue α C :=
  ⟨SpscRingBufferAtomicV3.fresh, SpscRingBufferAtomicV3.wellFormed_fresh⟩

def push (q : Queue α C) (v : α) : Bool × Queue α C :=
  ((q.ring.push v).1, ⟨(q.ring.push v).2, (SpscRingBufferAtomicV3.push_spec q.wellFormed v).1⟩)

def pop (q : Queue α C) : Option α × Queue α C :=
  (q.ring.pop.1, ⟨q.ring.pop.2, (SpscRingBufferAtomicV3.pop_spec q.wellFormed).1⟩)

/-- The values in the queue, oldest first. -/
def items (q : Queue α C) : List α := q.ring.contents

/-- There is room for one more value: one of the `Capacity` slots stays free. -/
def HasRoom (q : Queue α C) : Prop := q.items.length + 1 < C.value

instance (q : Queue α C) : Decidable q.HasRoom := by
  unfold HasRoom
  infer_instance

@[simp] theorem items_fresh : (fresh : Queue α C).items = [] :=
  SpscRingBufferAtomicV3.contents_fresh

theorem push_fst (q : Queue α C) (v : α) : (q.push v).1 = decide q.HasRoom := by
  rcases (SpscRingBufferAtomicV3.push_spec q.wellFormed v).2 with ⟨h, hlt, -⟩ | ⟨h, heq, -⟩
  · exact h.trans (decide_eq_true hlt).symm
  · exact h.trans (decide_eq_false (fun hr => absurd heq (Nat.ne_of_lt hr))).symm

theorem push_snd (q : Queue α C) (v : α) :
    (q.push v).2.items = if q.HasRoom then q.items ++ [v] else q.items := by
  rcases (SpscRingBufferAtomicV3.push_spec q.wellFormed v).2 with ⟨-, hlt, h⟩ | ⟨-, heq, h⟩
  · exact h.trans (if_pos hlt).symm
  · exact h.trans (if_neg (fun hr => absurd heq (Nat.ne_of_lt hr))).symm

theorem items_push_iff (q : Queue α C) (v : α) :
    (q.push v).2.items = q.items ++ [v] ↔ q.HasRoom := by
  rw [push_snd]
  by_cases hroom : q.HasRoom
  · exact iff_of_true (if_pos hroom) hroom
  · rw [if_neg hroom]
    refine iff_of_false (fun heq => ?_) hroom
    have hlength := congrArg List.length heq
    rw [List.length_append] at hlength
    exact absurd hlength (Nat.ne_of_lt (Nat.lt_succ_self _))

theorem pop_fst (q : Queue α C) : q.pop.1 = q.items.head? := by
  rcases (SpscRingBufferAtomicV3.pop_spec q.wellFormed).2 with ⟨v, h, hc⟩ | ⟨h, hc, -⟩
  · exact h.trans (congrArg List.head? hc).symm
  · exact h.trans (congrArg List.head? hc).symm

theorem pop_snd (q : Queue α C) : q.pop.2.items = q.items.tail := by
  rcases (SpscRingBufferAtomicV3.pop_spec q.wellFormed).2 with ⟨v, -, hc⟩ | ⟨-, hc, h⟩
  · exact (congrArg List.tail hc).symm
  · exact h.trans (congrArg List.tail hc).symm

end Queue

end TradingGateway.Spsc
