/-
# `Spsc.RingBufferV4` — the ring whose counters only grow

`SpscRingBufferAtomicV4` of `spsc_ring_buffer.hpp`, each call as one function.
Every side keeps a private copy of both counters and publishes its own; a counter
is a `std::size_t` that wraps, and the slot of a value is its counter masked.

| counter | written by | stands for |
| :-- | :-- | :-- |
| `producerHead`, `head` | the producer | values pushed |
| `producerTail` | the producer | pops it has seen |
| `consumerTail`, `tail` | the consumer | values popped |
| `consumerHead` | the consumer | pushes it has seen |

No slot is kept free: a full ring and an empty one have the same indices and
differ only in how far the counters are apart.  `Linked` puts a count behind each
counter, and says that no two of them are ever more than `Capacity` apart, which
is less than the word can hold; so differences mean what they say across the wrap.
-/
import TradingGateway.Lib.Counters
import TradingGateway.Spsc.RingBuffer

namespace TradingGateway.Spsc

open Lib.BoundedFifo Lib.Counters Lib.Cyclic

open SpscRingBufferAtomicV3 (Counts)

/-- A power of two that is a `std::size_t`. -/
structure CounterCapacity extends Capacity where
  le : value ≤ 2 ^ 63

/-- `SpscRingBufferAtomicV4<T, Capacity>`. -/
structure SpscRingBufferAtomicV4 (α : Type*) (C : CounterCapacity) where
  buffer : Vector α C.value
  head : UInt64
  tail : UInt64
  producerHead : UInt64
  producerTail : UInt64
  consumerHead : UInt64
  consumerTail : UInt64

/-- `idx_of`. -/
def idxOf (C : CounterCapacity) (counter : UInt64) : Nat :=
  (counter &&& UInt64.ofNat (C.value - 1)).toNat

namespace CounterCapacity

variable (C : CounterCapacity)

theorem lt_size : C.value < 2 ^ 64 := Nat.lt_of_le_of_lt C.le (by decide)

theorem idxOf_ofNat (n : Nat) : idxOf C (UInt64.ofNat n) = n % C.value :=
  toNat_and_mask (isPowerOfTwo_iff.mp C.powerOfTwo) (Nat.le_of_lt C.lt_size) n

end CounterCapacity

namespace SpscRingBufferAtomicV4

variable {α : Type*} {C : CounterCapacity}

/-- An empty queue whose counters all stand at `start`; the fresh one is at 0. -/
def startingAt [Inhabited α] (start : UInt64) : SpscRingBufferAtomicV4 α C where
  buffer := Vector.replicate C.value default
  head := start
  tail := start
  producerHead := start
  producerTail := start
  consumerHead := start
  consumerTail := start

/-- The producer's view is that all slots are in use. -/
def LooksFull (q : SpscRingBufferAtomicV4 α C) : Prop :=
  q.producerHead - q.producerTail = UInt64.ofNat C.value

instance (q : SpscRingBufferAtomicV4 α C) : Decidable q.LooksFull :=
  inferInstanceAs (Decidable (_ = _))

/-- The consumer's view is that there is nothing. -/
def LooksEmpty (q : SpscRingBufferAtomicV4 α C) : Prop := q.consumerHead = q.consumerTail

instance (q : SpscRingBufferAtomicV4 α C) : Decidable q.LooksEmpty :=
  inferInstanceAs (Decidable (_ = _))

/-- `buffer_[idx_of(producer_head_.value)] = value`. -/
def writeSlot (q : SpscRingBufferAtomicV4 α C) (value : α) : SpscRingBufferAtomicV4 α C :=
  { q with buffer := q.buffer.setIfInBounds (idxOf C q.producerHead) value }

/-- `++producer_head_.value`, and its release store. -/
def storeHead (q : SpscRingBufferAtomicV4 α C) : SpscRingBufferAtomicV4 α C :=
  { q with producerHead := q.producerHead + 1, head := q.producerHead + 1 }

/-- `buffer_[idx_of(consumer_tail_.value)]`. -/
def readSlot [Inhabited α] (q : SpscRingBufferAtomicV4 α C) : α :=
  cells q.buffer (idxOf C q.consumerTail)

/-- `++consumer_tail_.value`, and its release store. -/
def storeTail (q : SpscRingBufferAtomicV4 α C) : SpscRingBufferAtomicV4 α C :=
  { q with consumerTail := q.consumerTail + 1, tail := q.consumerTail + 1 }

/-- `push`. -/
def push (q : SpscRingBufferAtomicV4 α C) (value : α) : Bool × SpscRingBufferAtomicV4 α C :=
  if q.LooksFull then
    let q := { q with producerTail := q.tail }
    if q.LooksFull then (false, q) else (true, (q.writeSlot value).storeHead)
  else (true, (q.writeSlot value).storeHead)

/-- `pop`: `none` stands for `false`, with `out` untouched. -/
def pop [Inhabited α] (q : SpscRingBufferAtomicV4 α C) : Option α × SpscRingBufferAtomicV4 α C :=
  if q.LooksEmpty then
    let q := { q with consumerHead := q.head }
    if q.LooksEmpty then (none, q) else (some q.readSlot, q.storeTail)
  else (some q.readSlot, q.storeTail)

/-- The queue with calls that do not overlap. -/
def calls [Inhabited α] : Sequential (SpscRingBufferAtomicV4 α C) α := ⟨push, pop⟩

/-- The slots of the stored values, oldest first. -/
def storedSlots (q : SpscRingBufferAtomicV4 α C) : List Nat :=
  (List.range (q.head - q.tail).toNat).map fun i => idxOf C (q.tail + UInt64.ofNat i)

/-- The stored values, oldest first. -/
def contents [Inhabited α] (q : SpscRingBufferAtomicV4 α C) : List α :=
  q.storedSlots.map (cells q.buffer)

/-! ## The counts behind the counters -/

/-- The counters of `q` stand for the counts `n`, and the counts are in order. -/
structure Linked (q : SpscRingBufferAtomicV4 α C) (n : Counts) : Prop where
  head_eq : q.head = UInt64.ofNat n.pushed
  tail_eq : q.tail = UInt64.ofNat n.popped
  producerHead_eq : q.producerHead = UInt64.ofNat n.pushed
  producerTail_eq : q.producerTail = UInt64.ofNat n.tailSeen
  consumerHead_eq : q.consumerHead = UInt64.ofNat n.headSeen
  consumerTail_eq : q.consumerTail = UInt64.ofNat n.popped
  tailSeen_le : n.tailSeen ≤ n.popped
  pushed_le : n.pushed ≤ n.tailSeen + C.value
  popped_le : n.popped ≤ n.headSeen
  headSeen_le : n.headSeen ≤ n.pushed

namespace Linked

variable {q : SpscRingBufferAtomicV4 α C} {n : Counts}

theorem tailSeen_le_pushed (h : Linked q n) : n.tailSeen ≤ n.pushed :=
  h.tailSeen_le.trans (h.popped_le.trans h.headSeen_le)

theorem pushed_le_popped (h : Linked q n) : n.pushed ≤ n.popped + C.value :=
  h.pushed_le.trans (Nat.add_le_add_right h.tailSeen_le _)

/-- A producer that has seen room and a consumer that has seen a value are at different
slots. -/
theorem slots_ne (h : Linked q n) (hroom : n.pushed < n.tailSeen + C.value)
    (hsome : n.popped < n.headSeen) : n.popped % C.value ≠ n.pushed % C.value := by
  refine mod_ne_of_lt ?_ ?_
  · exact Nat.lt_of_lt_of_le hsome h.headSeen_le
  · exact Nat.lt_of_lt_of_le hroom (Nat.add_le_add_right h.tailSeen_le _)

/-- The distance of two counts fits the word with room to spare. -/
theorem lt_size {a b : Nat} (h : b ≤ a + C.value) : b < a + 2 ^ 64 :=
  Nat.lt_of_le_of_lt h (Nat.add_lt_add_left C.lt_size a)

/-- The producer's comparison is decided by the counts. -/
theorem looksFull_iff (h : Linked q n) : q.LooksFull ↔ n.pushed = n.tailSeen + C.value := by
  rw [LooksFull, h.producerHead_eq, h.producerTail_eq]
  exact sub_ofNat_eq_iff h.tailSeen_le_pushed (lt_size h.pushed_le) C.lt_size

theorem looksEmpty_iff (h : Linked q n) : q.LooksEmpty ↔ n.popped = n.headSeen := by
  rw [LooksEmpty, h.consumerHead_eq, h.consumerTail_eq]
  exact eq_comm.trans
    (ofNat_eq_iff h.popped_le (lt_size (h.headSeen_le.trans h.pushed_le_popped)))

theorem refreshTail (h : Linked q n) {k : Nat} (hk : n.tailSeen ≤ k) (hk' : k ≤ n.popped) :
    Linked { q with producerTail := UInt64.ofNat k } { n with tailSeen := k } where
  head_eq := h.head_eq
  tail_eq := h.tail_eq
  producerHead_eq := h.producerHead_eq
  producerTail_eq := rfl
  consumerHead_eq := h.consumerHead_eq
  consumerTail_eq := h.consumerTail_eq
  tailSeen_le := hk'
  pushed_le := h.pushed_le.trans (Nat.add_le_add_right hk _)
  popped_le := h.popped_le
  headSeen_le := h.headSeen_le

theorem refreshHead (h : Linked q n) {k : Nat} (hk : n.headSeen ≤ k) (hk' : k ≤ n.pushed) :
    Linked { q with consumerHead := UInt64.ofNat k } { n with headSeen := k } where
  head_eq := h.head_eq
  tail_eq := h.tail_eq
  producerHead_eq := h.producerHead_eq
  producerTail_eq := h.producerTail_eq
  consumerHead_eq := rfl
  consumerTail_eq := h.consumerTail_eq
  tailSeen_le := h.tailSeen_le
  pushed_le := h.pushed_le
  popped_le := h.popped_le.trans hk
  headSeen_le := hk'

theorem refreshTail_now (h : Linked q n) :
    Linked { q with producerTail := q.tail } { n with tailSeen := n.popped } :=
  h.tail_eq ▸ h.refreshTail h.tailSeen_le le_rfl

theorem refreshHead_now (h : Linked q n) :
    Linked { q with consumerHead := q.head } { n with headSeen := n.pushed } :=
  h.head_eq ▸ h.refreshHead h.headSeen_le le_rfl

theorem writeSlot (h : Linked q n) (v : α) : Linked (q.writeSlot v) n :=
  ⟨h.head_eq, h.tail_eq, h.producerHead_eq, h.producerTail_eq, h.consumerHead_eq,
    h.consumerTail_eq, h.tailSeen_le, h.pushed_le, h.popped_le, h.headSeen_le⟩

theorem storeHead (h : Linked q n) (hroom : n.pushed < n.tailSeen + C.value) :
    Linked q.storeHead { n with pushed := n.pushed + 1 } where
  head_eq := by
    show q.producerHead + 1 = _
    rw [h.producerHead_eq, ofNat_succ]
  tail_eq := h.tail_eq
  producerHead_eq := by
    show q.producerHead + 1 = _
    rw [h.producerHead_eq, ofNat_succ]
  producerTail_eq := h.producerTail_eq
  consumerHead_eq := h.consumerHead_eq
  consumerTail_eq := h.consumerTail_eq
  tailSeen_le := h.tailSeen_le
  pushed_le := hroom
  popped_le := h.popped_le
  headSeen_le := h.headSeen_le.trans (Nat.le_succ _)

theorem storeTail (h : Linked q n) (hsome : n.popped < n.headSeen) :
    Linked q.storeTail { n with popped := n.popped + 1 } where
  head_eq := h.head_eq
  tail_eq := by
    show q.consumerTail + 1 = _
    rw [h.consumerTail_eq, ofNat_succ]
  producerHead_eq := h.producerHead_eq
  producerTail_eq := h.producerTail_eq
  consumerHead_eq := h.consumerHead_eq
  consumerTail_eq := by
    show q.consumerTail + 1 = _
    rw [h.consumerTail_eq, ofNat_succ]
  tailSeen_le := h.tailSeen_le.trans (Nat.le_succ _)
  pushed_le := h.pushed_le
  popped_le := hsome
  headSeen_le := h.headSeen_le

theorem storedSlots_eq (h : Linked q n) :
    q.storedSlots = (List.range (n.pushed - n.popped)).map fun i => (n.popped + i) % C.value := by
  have hdist := toNat_sub_ofNat (h.popped_le.trans h.headSeen_le) (lt_size h.pushed_le_popped)
  rw [storedSlots, h.head_eq, h.tail_eq, hdist]
  refine List.map_congr_left fun i _ => ?_
  rw [← UInt64.ofNat_add, C.idxOf_ofNat]

/-- While a slot is free, the producer's next one is. -/
theorem idxOf_not_mem (h : Linked q n) (hroom : n.pushed < n.tailSeen + C.value) :
    idxOf C q.producerHead ∉ q.storedSlots := by
  rw [h.storedSlots_eq, h.producerHead_eq, C.idxOf_ofNat]
  intro hmem
  obtain ⟨i, hi, heq⟩ := List.mem_map.mp hmem
  have hlt := List.mem_range.mp hi
  have hseen := h.tailSeen_le
  exact mod_ne_of_lt (by omega) (by omega) heq

variable [Inhabited α]

theorem contents_eq (h : Linked q n) :
    q.contents = window (cells q.buffer) C.value n.popped (n.pushed - n.popped) := by
  rw [contents, h.storedSlots_eq, List.map_map]
  rfl

theorem length_contents (h : Linked q n) : q.contents.length = n.pushed - n.popped := by
  rw [h.contents_eq, length_window]

theorem contents_writeSlot (h : Linked q n) (hroom : n.pushed < n.tailSeen + C.value) (v : α) :
    (q.writeSlot v).contents = q.contents := by
  show q.storedSlots.map (cells (q.buffer.setIfInBounds (idxOf C q.producerHead) v)) = _
  have hlt : idxOf C q.producerHead < C.value := by
    rw [h.producerHead_eq, C.idxOf_ofNat]
    exact Nat.mod_lt _ C.pos
  rw [cells_set _ hlt]
  refine List.map_congr_left fun i hi => Function.update_of_ne ?_ _ _
  intro heq
  exact h.idxOf_not_mem hroom (heq ▸ hi)

theorem cells_writeSlot (h : Linked q n) (v : α) :
    cells (q.writeSlot v).buffer = Function.update (cells q.buffer) (n.pushed % C.value) v := by
  show cells (q.buffer.setIfInBounds (idxOf C q.producerHead) v) = _
  rw [h.producerHead_eq, C.idxOf_ofNat]
  exact cells_set _ (Nat.mod_lt _ C.pos) v

theorem contents_storeHead (h : Linked q n) (hroom : n.pushed < n.tailSeen + C.value) :
    q.storeHead.contents = q.contents ++ [cells q.buffer (n.pushed % C.value)] := by
  have hle := h.popped_le.trans h.headSeen_le
  rw [(h.storeHead hroom).contents_eq, h.contents_eq]
  show window (cells q.buffer) C.value n.popped (n.pushed + 1 - n.popped) = _
  rw [Nat.succ_sub hle, window_succ, Nat.add_sub_of_le hle]

theorem readSlot_eq (h : Linked q n) : q.readSlot = cells q.buffer (n.popped % C.value) := by
  rw [readSlot, h.consumerTail_eq, C.idxOf_ofNat]

theorem contents_storeTail (h : Linked q n) (hsome : n.popped < n.headSeen) :
    q.contents = q.readSlot :: q.storeTail.contents := by
  have hlt : n.popped < n.pushed := Nat.lt_of_lt_of_le hsome h.headSeen_le
  rw [h.readSlot_eq, (h.storeTail hsome).contents_eq, h.contents_eq]
  show _ = _ :: window (cells q.buffer) C.value (n.popped + 1) (n.pushed - (n.popped + 1))
  rw [← window_cons, Nat.sub_add_eq, Nat.sub_add_cancel (Nat.sub_pos_of_lt hlt)]

end Linked

theorem linked_startingAt [Inhabited α] (start : UInt64) :
    Linked (startingAt start : SpscRingBufferAtomicV4 α C)
      ⟨start.toNat, start.toNat, start.toNat, start.toNat⟩ := by
  have hstart : start = UInt64.ofNat start.toNat := (UInt64.ofNat_toNat).symm
  exact ⟨hstart, hstart, hstart, hstart, hstart, hstart, le_rfl, Nat.le_add_right _ _, le_rfl, le_rfl⟩

/-! ## Calls that do not overlap -/

variable [Inhabited α]

omit [Inhabited α] in
/-- The counters come from counts. -/
def WellFormed (q : SpscRingBufferAtomicV4 α C) : Prop := ∃ n : Counts, Linked q n

theorem WellFormed.length_le {q : SpscRingBufferAtomicV4 α C} (h : q.WellFormed) :
    q.contents.length ≤ C.value := by
  obtain ⟨n, hn⟩ := h
  rw [hn.length_contents]
  exact Nat.sub_le_of_le_add (Nat.add_comm n.popped _ ▸ hn.pushed_le_popped)

theorem Linked.commitPush {q : SpscRingBufferAtomicV4 α C} {n : Counts} (h : Linked q n)
    (hroom : n.pushed < n.tailSeen + C.value) (v : α) :
    (q.writeSlot v).storeHead.WellFormed ∧
      (q.writeSlot v).storeHead.contents = q.contents ++ [v] := by
  have hw := h.writeSlot v
  refine ⟨⟨_, hw.storeHead hroom⟩, ?_⟩
  rw [hw.contents_storeHead hroom, h.contents_writeSlot hroom, h.cells_writeSlot,
    Function.update_self]

/-- **`push` and `pop` are those of the queue of exactly `Capacity` values.** -/
theorem simulates_bounded :
    Simulates (calls : Sequential (SpscRingBufferAtomicV4 α C) α) (bounded α C.value)
      fun q xs => q.WellFormed ∧ q.contents = xs where
  push := by
    rintro q xs ⟨⟨n, hn⟩, rfl⟩ v
    have hlen := hn.length_contents
    have hle := hn.popped_le.trans hn.headSeen_le
    have hseen := hn.tailSeen_le
    have hmost := hn.pushed_le
    have commit : ∀ {r : SpscRingBufferAtomicV4 α C} {m : Counts}, Linked r m →
        r.contents = q.contents → m.pushed = n.pushed → m.popped = n.popped → m.tailSeen ≤ n.popped →
        m.pushed ≠ m.tailSeen + C.value →
        true = ((bounded α C.value).push q.contents v).1 ∧ (r.writeSlot v).storeHead.WellFormed ∧
          (r.writeSlot v).storeHead.contents = ((bounded α C.value).push q.contents v).2 := by
      intro r m hm hcontents hpushed hpopped hle' hne
      have hroom : m.pushed < m.tailSeen + C.value := Nat.lt_of_le_of_ne hm.pushed_le hne
      have hlt : q.contents.length < C.value := by omega
      obtain ⟨hw, hc⟩ := hm.commitPush hroom v
      rw [bounded_push_of_lt hlt]
      exact ⟨rfl, hw, hc.trans (by rw [hcontents])⟩
    show (q.push v).1 = _ ∧ (q.push v).2.WellFormed ∧ (q.push v).2.contents = _
    unfold push
    split
    next =>
      have hr := hn.refreshTail_now
      dsimp only
      split
      next hfull =>
        have hfull := hr.looksFull_iff.mp hfull
        dsimp only at hfull
        have hge : ¬ q.contents.length < C.value := by omega
        rw [bounded_push_of_not_lt hge]
        exact ⟨rfl, ⟨_, hr⟩, rfl⟩
      next hroom => exact commit hr rfl rfl rfl le_rfl (mt hr.looksFull_iff.mpr hroom)
    next hroom => exact commit hn rfl rfl rfl hseen (mt hn.looksFull_iff.mpr hroom)
  pop := by
    rintro q xs ⟨⟨n, hn⟩, rfl⟩
    have commit : ∀ {r : SpscRingBufferAtomicV4 α C} {m : Counts}, Linked r m →
        r.contents = q.contents → m.popped ≠ m.headSeen →
        some r.readSlot = q.contents.head? ∧ r.storeTail.WellFormed ∧
          r.storeTail.contents = q.contents.tail := by
      intro r m hm hcontents hne
      have hsome : m.popped < m.headSeen := Nat.lt_of_le_of_ne hm.popped_le hne
      rw [← hcontents, hm.contents_storeTail hsome]
      exact ⟨rfl, ⟨_, hm.storeTail hsome⟩, rfl⟩
    show q.pop.1 = q.contents.head? ∧ q.pop.2.WellFormed ∧ q.pop.2.contents = q.contents.tail
    unfold pop
    split
    next =>
      have hr := hn.refreshHead_now
      dsimp only
      split
      next hempty =>
        have hempty := hr.looksEmpty_iff.mp hempty
        have hnil : q.contents = [] := by
          rw [← List.length_eq_zero_iff, hn.length_contents]
          exact Nat.sub_eq_zero_of_le (Nat.le_of_eq hempty.symm)
        rw [hnil]
        exact ⟨rfl, ⟨_, hr⟩, hnil⟩
      next hsome => exact commit hr rfl (mt hr.looksEmpty_iff.mpr hsome)
    next hsome => exact commit hn rfl (mt hn.looksEmpty_iff.mpr hsome)

/-- A push fails exactly when `Capacity` values are stored, a pop exactly when none
is. -/
theorem fails_iff {q : SpscRingBufferAtomicV4 α C} (h : q.WellFormed) :
    (∀ value, (q.push value).1 = false ↔ q.contents.length = C.value) ∧
      (q.pop.1 = none ↔ q.contents = []) := by
  constructor
  · intro value
    have hpush : (q.push value).1 = ((bounded α C.value).push q.contents value).1 :=
      (simulates_bounded.push ⟨h, rfl⟩ value).1
    rw [hpush, bounded_push_eq_false_iff]
    exact ⟨fun hge => Nat.le_antisymm h.length_le hge, fun heq => Nat.le_of_eq heq.symm⟩
  · have hpop : q.pop.1 = q.contents.head? := (simulates_bounded.pop ⟨h, rfl⟩).1
    rw [hpop]
    exact List.head?_eq_none_iff

theorem startingAt_spec (start : UInt64) :
    (startingAt start : SpscRingBufferAtomicV4 α C).WellFormed ∧
      (startingAt start : SpscRingBufferAtomicV4 α C).contents = [] := by
  have hlinked := linked_startingAt (α := α) (C := C) start
  refine ⟨⟨_, hlinked⟩, ?_⟩
  rw [← List.length_eq_zero_iff, hlinked.length_contents]
  exact Nat.sub_self _

end SpscRingBufferAtomicV4

end TradingGateway.Spsc
