/-
# `Spsc.FifoV4` — the calls of `SpscRingBufferAtomicV4`, one access at a time

As in `Spsc.Interleaving`, one producer runs `push` calls and one consumer runs
`pop` calls; a step is one access of one of them, and between two steps of one side
the other may take any number.

    producer                               consumer
      enter push                             enter pop
      compare its own two counters           compare its own two counters
      load tail_   (slow path, acquire)      load head_   (slow path, acquire)
      write the slot                         read the slot
      store head_  (release)                 store tail_  (release)

The comparison reads members of the calling side only.  `headStores` and
`tailStores` are the modification orders of the two atomics behind their common
starting value, and a slow-path load may observe any entry that is not older than
the one observed last.

`Inv` puts counts behind all of it (`RingBufferV4`).  Every access keeps it and
changes the contents as the queue of `Capacity` values may (`Move.sound`), wherever
the counters started, so the wrap is nowhere a special case.
-/
import TradingGateway.Spsc.Fifo
import TradingGateway.Spsc.RingBufferV4

namespace TradingGateway.Spsc.InterleavingV4

open Lib Lib.BoundedFifo Lib.Counters Lib.Cyclic SpscRingBufferAtomicV4

open SpscRingBufferAtomicV3 (Counts)

/-! ## States and accesses -/

/-- Where the producer is: its next access. -/
inductive ProducerPc (α : Type*) where
  | idle
  | compare (value : α)
  | loadTail (value : α)
  | writeSlot (value : α)
  | storeHead (value : α)
deriving DecidableEq

/-- Where the consumer is: its next access. -/
inductive ConsumerPc (α : Type*) where
  | idle
  | compare
  | loadHead
  | readSlot
  | storeTail (out : α)
deriving DecidableEq

structure State (α : Type*) (C : CounterCapacity) where
  ring : SpscRingBufferAtomicV4 α C
  start : UInt64
  headStores : List UInt64
  tailStores : List UInt64
  tailSeen : Nat
  headSeen : Nat
  producer : ProducerPc α
  consumer : ConsumerPc α

/-- One access, or the entry into a call. -/
inductive Access (α : Type*) where
  | enterPush (value : α)
  | producerCompare
  | producerLoadTail (k : Nat)
  | producerWriteSlot
  | producerStoreHead
  | enterPop
  | consumerCompare
  | consumerLoadHead (k : Nat)
  | consumerReadSlot
  | consumerStoreTail

variable {α : Type*} {C : CounterCapacity}

/-- The `k`-th value of an atomic: the starting value, then the stores in order. -/
def published (start : UInt64) (stores : List UInt64) (k : Nat) : Option UInt64 :=
  (start :: stores)[k]?

/-- An empty queue whose counters stand at `start`, both sides outside any call. -/
def State.startingAt [Inhabited α] (start : UInt64) : State α C where
  ring := SpscRingBufferAtomicV4.startingAt start
  start := start
  headStores := []
  tailStores := []
  tailSeen := 0
  headSeen := 0
  producer := .idle
  consumer := .idle

/-- One access.  `none` when the side is not at it, or when a slow-path load asks for
a store that is older than the last one observed or does not exist. -/
def access [Inhabited α] (s : State α C) : Access α → Option (State α C × Option (Answer α))
  | .enterPush value =>
      match s.producer with
      | .idle => some ({ s with producer := .compare value }, none)
      | _ => none
  | .producerCompare =>
      match s.producer with
      | .compare value =>
          if s.ring.LooksFull then some ({ s with producer := .loadTail value }, none)
          else some ({ s with producer := .writeSlot value }, none)
      | _ => none
  | .producerLoadTail k =>
      match s.producer, published s.start s.tailStores k with
      | .loadTail value, some tail =>
          if k < s.tailSeen then none
          else
            let s := { s with ring := { s.ring with producerTail := tail }, tailSeen := k }
            if s.ring.LooksFull then some ({ s with producer := .idle }, some (.refused value))
            else some ({ s with producer := .writeSlot value }, none)
      | _, _ => none
  | .producerWriteSlot =>
      match s.producer with
      | .writeSlot value =>
          some ({ s with ring := s.ring.writeSlot value, producer := .storeHead value }, none)
      | _ => none
  | .producerStoreHead =>
      match s.producer with
      | .storeHead value =>
          some ({ s with
            ring := s.ring.storeHead
            headStores := s.headStores ++ [s.ring.storeHead.head]
            producer := .idle }, some (.pushed value))
      | _ => none
  | .enterPop =>
      match s.consumer with
      | .idle => some ({ s with consumer := .compare }, none)
      | _ => none
  | .consumerCompare =>
      match s.consumer with
      | .compare =>
          if s.ring.LooksEmpty then some ({ s with consumer := .loadHead }, none)
          else some ({ s with consumer := .readSlot }, none)
      | _ => none
  | .consumerLoadHead k =>
      match s.consumer, published s.start s.headStores k with
      | .loadHead, some head =>
          if k < s.headSeen then none
          else
            let s := { s with ring := { s.ring with consumerHead := head }, headSeen := k }
            if s.ring.LooksEmpty then some ({ s with consumer := .idle }, some .empty)
            else some ({ s with consumer := .readSlot }, none)
      | _, _ => none
  | .consumerReadSlot =>
      match s.consumer with
      | .readSlot => some ({ s with consumer := .storeTail s.ring.readSlot }, none)
      | _ => none
  | .consumerStoreTail =>
      match s.consumer with
      | .storeTail out =>
          some ({ s with
            ring := s.ring.storeTail
            tailStores := s.tailStores ++ [s.ring.storeTail.tail]
            consumer := .idle }, some (.popped out))
      | _ => none

/-- The step relation. -/
def Step [Inhabited α] (s : State α C) (l : Option (Answer α)) (s' : State α C) : Prop :=
  ∃ a : Access α, access s a = some (s', l)

/-! ## What one access can do -/

section Moves

variable [Inhabited α]

/-- Every way an access can go, with the comparison it made. -/
inductive Move (s : State α C) : Option (Answer α) → State α C → Prop
  | enterPush (value : α) (pc : s.producer = .idle) :
      Move s none { s with producer := .compare value }
  | compareFull {value : α} (pc : s.producer = .compare value) :
      Move s none { s with producer := .loadTail value }
  | compareRoom {value : α} (pc : s.producer = .compare value) (room : ¬ s.ring.LooksFull) :
      Move s none { s with producer := .writeSlot value }
  | tailFull {value : α} {tail : UInt64} {k : Nat} (pc : s.producer = .loadTail value)
      (load : published s.start s.tailStores k = some tail) (seen : s.tailSeen ≤ k) :
      Move s (some (.refused value))
        { s with ring := { s.ring with producerTail := tail }, tailSeen := k, producer := .idle }
  | tailRoom {value : α} {tail : UInt64} {k : Nat} (pc : s.producer = .loadTail value)
      (load : published s.start s.tailStores k = some tail) (seen : s.tailSeen ≤ k)
      (room : ¬ LooksFull { s.ring with producerTail := tail }) :
      Move s none
        { s with ring := { s.ring with producerTail := tail }, tailSeen := k,
                 producer := .writeSlot value }
  | writeSlot {value : α} (pc : s.producer = .writeSlot value) :
      Move s none { s with ring := s.ring.writeSlot value, producer := .storeHead value }
  | storeHead {value : α} (pc : s.producer = .storeHead value) :
      Move s (some (.pushed value))
        { s with ring := s.ring.storeHead, headStores := s.headStores ++ [s.ring.storeHead.head],
                 producer := .idle }
  | enterPop (pc : s.consumer = .idle) : Move s none { s with consumer := .compare }
  | compareEmpty (pc : s.consumer = .compare) : Move s none { s with consumer := .loadHead }
  | compareSome (pc : s.consumer = .compare) (some_ : ¬ s.ring.LooksEmpty) :
      Move s none { s with consumer := .readSlot }
  | headEmpty {head : UInt64} {k : Nat} (pc : s.consumer = .loadHead)
      (load : published s.start s.headStores k = some head) (seen : s.headSeen ≤ k) :
      Move s (some .empty)
        { s with ring := { s.ring with consumerHead := head }, headSeen := k, consumer := .idle }
  | headSome {head : UInt64} {k : Nat} (pc : s.consumer = .loadHead)
      (load : published s.start s.headStores k = some head) (seen : s.headSeen ≤ k)
      (some_ : ¬ LooksEmpty { s.ring with consumerHead := head }) :
      Move s none
        { s with ring := { s.ring with consumerHead := head }, headSeen := k,
                 consumer := .readSlot }
  | readSlot (pc : s.consumer = .readSlot) :
      Move s none { s with consumer := .storeTail s.ring.readSlot }
  | storeTail {out : α} (pc : s.consumer = .storeTail out) :
      Move s (some (.popped out))
        { s with ring := s.ring.storeTail, tailStores := s.tailStores ++ [s.ring.storeTail.tail],
                 consumer := .idle }

theorem Step.move {s s' : State α C} {l : Option (Answer α)} (h : Step s l s') : Move s l s' := by
  obtain ⟨a, h⟩ := h
  cases a with
  | enterPush value =>
      simp only [access] at h
      split at h
      next pc => cases h; exact .enterPush value pc
      next => cases h
  | producerCompare =>
      simp only [access] at h
      split at h
      next pc =>
        split at h
        next => cases h; exact .compareFull pc
        next room => cases h; exact .compareRoom pc room
      next => cases h
  | producerLoadTail k =>
      simp only [access] at h
      split at h
      next pc load =>
        split at h
        next => cases h
        next seen =>
          split at h
          next => cases h; exact .tailFull pc load (not_lt.mp seen)
          next room => cases h; exact .tailRoom pc load (not_lt.mp seen) room
      next => cases h
  | producerWriteSlot =>
      simp only [access] at h
      split at h
      next pc => cases h; exact .writeSlot pc
      next => cases h
  | producerStoreHead =>
      simp only [access] at h
      split at h
      next pc => cases h; exact .storeHead pc
      next => cases h
  | enterPop =>
      simp only [access] at h
      split at h
      next pc => cases h; exact .enterPop pc
      next => cases h
  | consumerCompare =>
      simp only [access] at h
      split at h
      next pc =>
        split at h
        next => cases h; exact .compareEmpty pc
        next some_ => cases h; exact .compareSome pc some_
      next => cases h
  | consumerLoadHead k =>
      simp only [access] at h
      split at h
      next pc load =>
        split at h
        next => cases h
        next seen =>
          split at h
          next => cases h; exact .headEmpty pc load (not_lt.mp seen)
          next some_ => cases h; exact .headSome pc load (not_lt.mp seen) some_
      next => cases h
  | consumerReadSlot =>
      simp only [access] at h
      split at h
      next pc => cases h; exact .readSlot pc
      next => cases h
  | consumerStoreTail =>
      simp only [access] at h
      split at h
      next pc => cases h; exact .storeTail pc
      next => cases h

end Moves

/-! ## The invariant -/

/-- The counts of a state: all start where the counters did. -/
def State.counts (s : State α C) : Counts :=
  ⟨s.start.toNat + s.headStores.length, s.start.toNat + s.tailStores.length,
    s.start.toNat + s.tailSeen, s.start.toNat + s.headSeen⟩

/-- An atomic publishes its counts one after the other. -/
def Publishes (start : UInt64) (stores : List UInt64) : Prop :=
  ∀ k v, published start stores k = some v →
    v = UInt64.ofNat (start.toNat + k) ∧ k ≤ stores.length

theorem publishes_nil (start : UInt64) : Publishes start [] := by
  intro k v h
  cases k with
  | zero =>
      cases h
      exact ⟨UInt64.ofNat_toNat.symm, le_rfl⟩
  | succ k => cases h

theorem Publishes.snoc {start : UInt64} {stores : List UInt64} (h : Publishes start stores) :
    Publishes start (stores ++ [UInt64.ofNat (start.toNat + stores.length + 1)]) := by
  intro k v hk
  rw [published, ← List.cons_append] at hk
  rw [List.length_append, List.length_singleton]
  rcases Nat.lt_or_ge k (stores.length + 1) with hlt | hge
  · rw [List.getElem?_append_left hlt] at hk
    obtain ⟨hv, hle⟩ := h k v hk
    exact ⟨hv, Nat.le_succ_of_le hle⟩
  · rw [List.getElem?_append_right hge] at hk
    obtain ⟨hlt, rfl⟩ := List.getElem?_eq_some_iff.mp hk
    obtain rfl : k = stores.length + 1 :=
      Nat.le_antisymm (Nat.le_of_sub_eq_zero (Nat.lt_one_iff.mp hlt)) hge
    exact ⟨List.getElem_singleton _, le_rfl⟩

/-- What the producer carries from its comparison to its stores. -/
def ProducerOk (N : Nat) (n : Counts) (slots : Nat → α) : ProducerPc α → Prop
  | .idle | .compare _ | .loadTail _ => True
  | .writeSlot _ => n.pushed < n.tailSeen + N
  | .storeHead value => n.pushed < n.tailSeen + N ∧ slots (n.pushed % N) = value

/-- What the consumer carries. -/
def ConsumerOk (N : Nat) (n : Counts) (slots : Nat → α) : ConsumerPc α → Prop
  | .idle | .compare | .loadHead => True
  | .readSlot => n.popped < n.headSeen
  | .storeTail out => n.popped < n.headSeen ∧ slots (n.popped % N) = out

theorem ConsumerOk.frame {N : Nat} {n m : Counts} {slots slots' : Nat → α} {pc : ConsumerPc α}
    (h : ConsumerOk N n slots pc) (hpopped : m.popped = n.popped) (hseen : m.headSeen = n.headSeen)
    (hslot : n.popped < n.headSeen → slots' (n.popped % N) = slots (n.popped % N)) :
    ConsumerOk N m slots' pc := by
  cases pc with
  | idle => trivial
  | compare => trivial
  | loadHead => trivial
  | readSlot =>
      show m.popped < m.headSeen
      rw [hpopped, hseen]
      exact h
  | storeTail out =>
      show m.popped < m.headSeen ∧ slots' (m.popped % N) = out
      rw [hpopped, hseen, hslot h.1]
      exact h

theorem ProducerOk.frame {N : Nat} {n m : Counts} {slots : Nat → α} {pc : ProducerPc α}
    (h : ProducerOk N n slots pc) (hpushed : m.pushed = n.pushed) (hseen : m.tailSeen = n.tailSeen) :
    ProducerOk N m slots pc := by
  cases pc with
  | idle => trivial
  | compare value => trivial
  | loadTail value => trivial
  | writeSlot value =>
      show m.pushed < m.tailSeen + N
      rw [hpushed, hseen]
      exact h
  | storeHead value =>
      show m.pushed < m.tailSeen + N ∧ slots (m.pushed % N) = value
      rw [hpushed, hseen]
      exact h

variable [Inhabited α]

/-- The invariant of the two threads. -/
structure Inv (s : State α C) : Prop where
  linked : Linked s.ring s.counts
  headPublishes : Publishes s.start s.headStores
  tailPublishes : Publishes s.start s.tailStores
  producer : ProducerOk C.value s.counts (cells s.ring.buffer) s.producer
  consumer : ConsumerOk C.value s.counts (cells s.ring.buffer) s.consumer

theorem inv_startingAt (start : UInt64) : Inv (State.startingAt start : State α C) where
  linked := linked_startingAt start
  headPublishes := publishes_nil start
  tailPublishes := publishes_nil start
  producer := trivial
  consumer := trivial

/-- **One access**: the invariant is kept, and the contents change as the queue of
`Capacity` values may. -/
theorem Move.sound {s s' : State α C} {l : Option (Answer α)} (hm : Move s l s') (hi : Inv s) :
    Inv s' ∧ BoundedFifo.Step C.value false s.ring.contents l s'.ring.contents := by
  obtain ⟨hlinked, hhead, htail, hprod, hcons⟩ := hi
  have hlen := hlinked.length_contents
  cases hm with
  | enterPush value pc => exact ⟨⟨hlinked, hhead, htail, trivial, hcons⟩, .silent _⟩
  | compareFull pc => exact ⟨⟨hlinked, hhead, htail, trivial, hcons⟩, .silent _⟩
  | compareRoom pc room =>
      have hroom := Nat.lt_of_le_of_ne hlinked.pushed_le (mt hlinked.looksFull_iff.mpr room)
      exact ⟨⟨hlinked, hhead, htail, hroom, hcons⟩, .silent _⟩
  | @tailFull value tail k pc load seen =>
      obtain ⟨rfl, hk⟩ := htail k tail load
      have hr := hlinked.refreshTail (Nat.add_le_add_left seen _) (Nat.add_le_add_left hk _)
      exact ⟨⟨hr, hhead, htail, trivial, hcons.frame rfl rfl fun _ => rfl⟩, .refused _ _ nofun⟩
  | @tailRoom value tail k pc load seen room =>
      obtain ⟨rfl, hk⟩ := htail k tail load
      have hr := hlinked.refreshTail (Nat.add_le_add_left seen _) (Nat.add_le_add_left hk _)
      have hroom := Nat.lt_of_le_of_ne hr.pushed_le (mt hr.looksFull_iff.mpr room)
      exact ⟨⟨hr, hhead, htail, hroom, hcons.frame rfl rfl fun _ => rfl⟩, .silent _⟩
  | @writeSlot value pc =>
      rw [pc] at hprod
      have hcells := hlinked.cells_writeSlot value
      refine ⟨⟨hlinked.writeSlot value, hhead, htail, ⟨hprod, ?_⟩, hcons.frame rfl rfl ?_⟩, ?_⟩
      · rw [hcells]
        exact Function.update_self _ _ _
      · intro hsome
        rw [hcells]
        exact Function.update_of_ne (hlinked.slots_ne hprod hsome) _ _
      · show BoundedFifo.Step _ _ _ _ (s.ring.writeSlot value).contents
        rw [hlinked.contents_writeSlot hprod]
        exact .silent _
  | @storeHead value pc =>
      rw [pc] at hprod
      obtain ⟨hroom, hslot⟩ := hprod
      have hstore := hlinked.storeHead hroom
      have hcounts : State.counts { s with
            ring := s.ring.storeHead, headStores := s.headStores ++ [s.ring.storeHead.head],
            producer := .idle } = { s.counts with pushed := s.counts.pushed + 1 } := by
        simp [State.counts, Nat.add_assoc]
      have hpublish : Publishes s.start (s.headStores ++ [s.ring.storeHead.head]) :=
        hstore.head_eq ▸ hhead.snoc
      refine ⟨⟨hcounts ▸ hstore, hpublish, htail, trivial, ?_⟩, ?_⟩
      · rw [hcounts]
        exact hcons.frame rfl rfl fun _ => rfl
      · show BoundedFifo.Step _ _ _ _ s.ring.storeHead.contents
        rw [hlinked.contents_storeHead hroom, hslot]
        refine .pushed _ _ ?_
        have hseen := hlinked.tailSeen_le
        have hpos := C.pos
        omega
  | enterPop pc => exact ⟨⟨hlinked, hhead, htail, hprod, trivial⟩, .silent _⟩
  | compareEmpty pc => exact ⟨⟨hlinked, hhead, htail, hprod, trivial⟩, .silent _⟩
  | compareSome pc some_ =>
      have hsome := Nat.lt_of_le_of_ne hlinked.popped_le (mt hlinked.looksEmpty_iff.mpr some_)
      exact ⟨⟨hlinked, hhead, htail, hprod, hsome⟩, .silent _⟩
  | @headEmpty head k pc load seen =>
      obtain ⟨rfl, hk⟩ := hhead k head load
      have hr := hlinked.refreshHead (Nat.add_le_add_left seen _) (Nat.add_le_add_left hk _)
      exact ⟨⟨hr, hhead, htail, hprod.frame rfl rfl, trivial⟩, .empty _ nofun⟩
  | @headSome head k pc load seen some_ =>
      obtain ⟨rfl, hk⟩ := hhead k head load
      have hr := hlinked.refreshHead (Nat.add_le_add_left seen _) (Nat.add_le_add_left hk _)
      have hsome := Nat.lt_of_le_of_ne hr.popped_le (mt hr.looksEmpty_iff.mpr some_)
      exact ⟨⟨hr, hhead, htail, hprod.frame rfl rfl, hsome⟩, .silent _⟩
  | readSlot pc =>
      rw [pc] at hcons
      refine ⟨⟨hlinked, hhead, htail, hprod, ⟨hcons, ?_⟩⟩, .silent _⟩
      exact hlinked.readSlot_eq.symm
  | @storeTail out pc =>
      rw [pc] at hcons
      obtain ⟨hsome, hslot⟩ := hcons
      have hstore := hlinked.storeTail hsome
      have hcounts : State.counts { s with
            ring := s.ring.storeTail, tailStores := s.tailStores ++ [s.ring.storeTail.tail],
            consumer := .idle } = { s.counts with popped := s.counts.popped + 1 } := by
        simp [State.counts, Nat.add_assoc]
      have hpublish : Publishes s.start (s.tailStores ++ [s.ring.storeTail.tail]) :=
        hstore.tail_eq ▸ htail.snoc
      have hread : s.ring.readSlot = out := hlinked.readSlot_eq.trans hslot
      refine ⟨⟨hcounts ▸ hstore, hhead, hpublish, ?_, trivial⟩, ?_⟩
      · rw [hcounts]
        exact hprod.frame rfl rfl
      · rw [hlinked.contents_storeTail hsome, hread]
        exact .popped _ _

/-! ## Runs -/

variable {start : UInt64} {ts : List (Taken (State α C) (Option (Answer α)))} {s : State α C}

/-- Every reachable state satisfies the invariant, and the accesses so far are a run
of the abstract queue with the same answers. -/
theorem simulates (h : Run (· = State.startingAt start) Step ts s) :
    Inv s ∧ ∃ us, Run BoundedFifo.Fresh (BoundedFifo.Step C.value false) us s.ring.contents ∧
      us.map Taken.label = ts.map Taken.label := by
  have hinit : ∀ s : State α C, s = State.startingAt start →
      ∃ xs, BoundedFifo.Fresh xs ∧ Inv s ∧ s.ring.contents = xs := by
    rintro s rfl
    exact ⟨_, (startingAt_spec start).2, inv_startingAt start, rfl⟩
  have hstep : ∀ (ts : List (Taken (State α C) (Option (Answer α)))) s l s' xs,
      Run (· = State.startingAt start) Step ts s → Inv s ∧ s.ring.contents = xs → Step s l s' →
      ∃ xs', BoundedFifo.Step C.value false xs l xs' ∧ Inv s' ∧ s'.ring.contents = xs' := by
    rintro ts s l s' xs - ⟨hinv, rfl⟩ hs
    obtain ⟨hinv', hqueue⟩ := hs.move.sound hinv
    exact ⟨_, hqueue, hinv', rfl⟩
  obtain ⟨us, xs, hus, hl, hinv, rfl⟩ := h.simulate hinit hstep
  exact ⟨hinv, us, hus, hl⟩

/-- **A FIFO of exactly `Capacity` slots, wherever the counters stand.**  At every
point of every interleaving what was popped is a prefix of what was pushed, at most
`Capacity` values are stored, and the slot about to be written holds none of them;
and when whole calls do not overlap, they answer as the queue of `Capacity` values
does. -/
theorem fifo_across_wrap (h : Run (· = State.startingAt start) Step ts s) :
    (pops ts <+: pushes ts ∧ (pushes ts).length ≤ (pops ts).length + C.value ∧
      ∀ value, s.producer = .writeSlot value → idxOf C s.ring.producerHead ∉ s.ring.storedSlots) ∧
    ∀ cs : List (Call α),
      calls.answers (SpscRingBufferAtomicV4.startingAt start : SpscRingBufferAtomicV4 α C) cs
          = (bounded α C.value).answers [] cs ∧
        let q := calls.after (SpscRingBufferAtomicV4.startingAt start : SpscRingBufferAtomicV4 α C) cs
        (∀ value, (q.push value).1 = false ↔ q.contents.length = C.value) ∧
          (q.pop.1 = none ↔ q.contents = []) := by
  obtain ⟨hinv, us, hus, hl⟩ := simulates h
  refine ⟨⟨?_, ?_, ?_⟩, ?_⟩
  · obtain ⟨hlaw, -⟩ := BoundedFifo.Run.history hus
    rw [pushes_eq_of_labels hl, pops_eq_of_labels hl] at hlaw
    exact ⟨_, hlaw.symm⟩
  · obtain ⟨hlaw, hle⟩ := BoundedFifo.Run.history hus
    rw [pushes_eq_of_labels hl, pops_eq_of_labels hl] at hlaw
    rw [hlaw, List.length_append]
    exact Nat.add_le_add_left hle _
  · intro value pc
    have hprod := hinv.producer
    rw [pc] at hprod
    exact hinv.linked.idxOf_not_mem hprod
  · intro cs
    have hstart := startingAt_spec (α := α) (C := C) start
    exact ⟨simulates_bounded.answers cs hstart, fails_iff (simulates_bounded.after cs hstart).1⟩

theorem run_of_replay (start : UInt64) (as : List (Access α))
    {r : List (Taken (State α C) (Option (Answer α))) × State α C}
    (h : replay access (State.startingAt start) as = some r) :
    Run (· = State.startingAt start) Step r.1 r.2 := by
  have hstart : Run (· = State.startingAt start) Step [] (State.startingAt start : State α C) :=
    .start rfl
  exact hstart.replay (fun _ a _ _ h => ⟨a, h⟩) h

/-- The smallest ring. -/
def CounterCapacity.two : CounterCapacity := ⟨Interleaving.Capacity.two, by decide⟩

/-- Two values fill the ring while the counters wrap; a third push finds it full, and
one value is popped. -/
def wrapping : List (Access Nat) :=
  [.enterPush 7, .producerCompare, .producerWriteSlot, .producerStoreHead,
   .enterPop, .consumerCompare,
   .enterPush 8, .producerCompare, .producerWriteSlot, .producerStoreHead,
   .enterPush 9, .producerCompare, .producerLoadTail 0,
   .consumerLoadHead 1, .consumerReadSlot, .consumerStoreTail]

theorem fifo_across_wrap_wrapping :
    ∃ ts s, Run (· = State.startingAt (C := CounterCapacity.two) (-1)) Step ts s ∧
      pushes ts = [7, 8] ∧ pops ts = [7] ∧ pops ts <+: pushes ts ∧
      (pushes ts).length ≤ (pops ts).length + 2 := by
  have hplayed : (replay (access (C := CounterCapacity.two)) (State.startingAt (-1)) wrapping).map
      (fun r => (pushes r.1, pops r.1)) = some ([7, 8], [7]) := by decide +kernel
  obtain ⟨⟨ts, s⟩, hr, heq⟩ := Option.map_eq_some_iff.mp hplayed
  obtain ⟨hpushes, hpops⟩ := Prod.mk.inj heq
  have hrun := run_of_replay (-1) wrapping hr
  obtain ⟨hfront, hlen, -⟩ := (fifo_across_wrap hrun).1
  exact ⟨ts, s, hrun, hpushes, hpops, hfront, hlen⟩

end TradingGateway.Spsc.InterleavingV4
