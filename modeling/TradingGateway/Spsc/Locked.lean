/-
# `Spsc.Locked` — the calls of `SpscRingBufferMutex`, one access at a time

Step 0 of the ladder.  A call is a critical section of plain accesses to both indices
and a slot:

    producer                      consumer
      enter push                    enter pop
      lock                          lock
      compare next with tail_       compare tail_ with head_
      write the slot                read the slot
      store head_, unlock           store tail_, unlock

A call that fails unlocks at its comparison.  The unlock is one access with the last
plain one before it, since nobody looks in between.  `lock_guard` waits at `lock` while
the other side holds the mutex, which is the one place where a call of the ladder can be
held up by the other side (`machine_not_waitFree`); it is never held up for good,
because the holder can go on (`Lawful.unblocked`).
-/
import TradingGateway.Lib.QueueMachine
import TradingGateway.Spsc.Ladder

namespace TradingGateway.Spsc

open Lib Lib.BoundedFifo Lib.QueueMachine Lib.Cyclic

open SpscRingBufferAtomicV3 (Linked WellFormed)

namespace IndexRing

variable {α : Type*} {C : Capacity} {q : IndexRing α C}

/-- The counts behind the indices, with caches that are up to date. -/
theorem linked_of_wellFormed (h : q.cached.WellFormed) :
    ∃ n m, Linked q.cached ⟨n, m, m, n⟩ := by
  obtain ⟨n, hn⟩ := h
  exact ⟨n.pushed, n.popped, hn.refreshTail_now.refreshHead_now⟩

end IndexRing

namespace Locked

/-! ## States and accesses -/

/-- Where the producer is: its next access. -/
inductive ProducerPc (α : Type*) where
  | idle
  | lock (value : α)
  | compare (value : α)
  | writeSlot (value : α) (next : Nat)
  | storeHead (value : α) (next : Nat)

/-- Where the consumer is: its next access. -/
inductive ConsumerPc (α : Type*) where
  | idle
  | lock
  | compare
  | readSlot
  | storeTail (out : α)

/-- Memory, the holder of `mutex_`, and both program counters. -/
structure State (α : Type*) (C : Capacity) where
  ring : IndexRing α C
  holder : Option Side
  producer : ProducerPc α
  consumer : ConsumerPc α

/-- One access, or the entry into a call. -/
inductive Access (α : Type*) where
  | enterPush (value : α)
  | producerLock
  | producerCompare
  | producerWriteSlot
  | producerStoreHead
  | enterPop
  | consumerLock
  | consumerCompare
  | consumerReadSlot
  | consumerStoreTail

variable {α : Type*} [Inhabited α] {C : Capacity}

def State.fresh : State α C where
  ring := IndexRing.fresh
  holder := none
  producer := .idle
  consumer := .idle

/-- One access.  `none` when the side is not at it, or when the mutex is taken. -/
def access (s : State α C) : Access α → Option (State α C × Option (Answer α))
  | .enterPush value =>
      match s.producer with
      | .idle => some ({ s with producer := .lock value }, none)
      | _ => none
  | .producerLock =>
      match s.producer, s.holder with
      | .lock value, none =>
          some ({ s with holder := some .producer, producer := .compare value }, none)
      | _, _ => none
  | .producerCompare =>
      match s.producer with
      | .compare value =>
          let next := increment C s.ring.head
          if next = s.ring.tail then
            some ({ s with holder := none, producer := .idle }, some (.refused value))
          else some ({ s with producer := .writeSlot value next }, none)
      | _ => none
  | .producerWriteSlot =>
      match s.producer with
      | .writeSlot value next =>
          some ({ s with
            ring := { s.ring with buffer := s.ring.buffer.setIfInBounds s.ring.head value }
            producer := .storeHead value next }, none)
      | _ => none
  | .producerStoreHead =>
      match s.producer with
      | .storeHead value next =>
          some ({ s with
            ring := { s.ring with head := next }
            holder := none
            producer := .idle }, some (.pushed value))
      | _ => none
  | .enterPop =>
      match s.consumer with
      | .idle => some ({ s with consumer := .lock }, none)
      | _ => none
  | .consumerLock =>
      match s.consumer, s.holder with
      | .lock, none => some ({ s with holder := some .consumer, consumer := .compare }, none)
      | _, _ => none
  | .consumerCompare =>
      match s.consumer with
      | .compare =>
          if s.ring.tail = s.ring.head then
            some ({ s with holder := none, consumer := .idle }, some .empty)
          else some ({ s with consumer := .readSlot }, none)
      | _ => none
  | .consumerReadSlot =>
      match s.consumer with
      | .readSlot =>
          some ({ s with consumer := .storeTail (cells s.ring.buffer s.ring.tail) }, none)
      | _ => none
  | .consumerStoreTail =>
      match s.consumer with
      | .storeTail out =>
          some ({ s with
            ring := { s.ring with tail := increment C s.ring.tail }
            holder := none
            consumer := .idle }, some (.popped out))
      | _ => none

/-! ## What one access can do -/

/-- Every way an access can go, with the comparison it made. -/
inductive Move (s : State α C) : Access α → Option (Answer α) → State α C → Prop
  | enterPush {value : α} (pc : s.producer = .idle) :
      Move s (.enterPush value) none { s with producer := .lock value }
  | lockPush {value : α} (pc : s.producer = .lock value) (free : s.holder = none) :
      Move s .producerLock none
        { s with holder := some .producer, producer := .compare value }
  | full {value : α} (pc : s.producer = .compare value)
      (full : increment C s.ring.head = s.ring.tail) :
      Move s .producerCompare (some (.refused value))
        { s with holder := none, producer := .idle }
  | room {value : α} (pc : s.producer = .compare value)
      (room : increment C s.ring.head ≠ s.ring.tail) :
      Move s .producerCompare none
        { s with producer := .writeSlot value (increment C s.ring.head) }
  | writeSlot {value : α} {next : Nat} (pc : s.producer = .writeSlot value next) :
      Move s .producerWriteSlot none
        { s with ring := { s.ring with buffer := s.ring.buffer.setIfInBounds s.ring.head value },
                 producer := .storeHead value next }
  | storeHead {value : α} {next : Nat} (pc : s.producer = .storeHead value next) :
      Move s .producerStoreHead (some (.pushed value))
        { s with ring := { s.ring with head := next }, holder := none, producer := .idle }
  | enterPop (pc : s.consumer = .idle) : Move s .enterPop none { s with consumer := .lock }
  | lockPop (pc : s.consumer = .lock) (free : s.holder = none) :
      Move s .consumerLock none { s with holder := some .consumer, consumer := .compare }
  | empty (pc : s.consumer = .compare) (empty : s.ring.tail = s.ring.head) :
      Move s .consumerCompare (some .empty) { s with holder := none, consumer := .idle }
  | some (pc : s.consumer = .compare) (some : s.ring.tail ≠ s.ring.head) :
      Move s .consumerCompare none { s with consumer := .readSlot }
  | readSlot (pc : s.consumer = .readSlot) :
      Move s .consumerReadSlot none
        { s with consumer := .storeTail (cells s.ring.buffer s.ring.tail) }
  | storeTail {out : α} (pc : s.consumer = .storeTail out) :
      Move s .consumerStoreTail (some (.popped out))
        { s with ring := { s.ring with tail := increment C s.ring.tail }, holder := none,
                 consumer := .idle }

theorem access_move {s s' : State α C} {a : Access α} {l : Option (Answer α)}
    (h : access s a = some (s', l)) : Move s a l s' := by
  cases a with
  | enterPush value =>
      simp only [access] at h
      split at h
      next pc => cases h; exact .enterPush pc
      next => cases h
  | producerLock =>
      simp only [access] at h
      split at h
      next pc free => cases h; exact .lockPush pc free
      next => cases h
  | producerCompare =>
      simp only [access] at h
      split at h
      next pc =>
        split at h
        next hc => cases h; exact .full pc hc
        next hc => cases h; exact .room pc hc
      next => cases h
  | producerWriteSlot =>
      simp only [access] at h
      split at h
      next pc => cases h; exact .writeSlot pc
      next => cases h
  | producerStoreHead =>
      simp only [access] at h
      split at h
      next pc => cases h; exact .storeHead pc
      next => cases h
  | enterPop =>
      simp only [access] at h
      split at h
      next pc => cases h; exact .enterPop pc
      next => cases h
  | consumerLock =>
      simp only [access] at h
      split at h
      next pc free => cases h; exact .lockPop pc free
      next => cases h
  | consumerCompare =>
      simp only [access] at h
      split at h
      next pc =>
        split at h
        next hc => cases h; exact .empty pc hc
        next hc => cases h; exact .some pc hc
      next => cases h
  | consumerReadSlot =>
      simp only [access] at h
      split at h
      next pc => cases h; exact .readSlot pc
      next => cases h
  | consumerStoreTail =>
      simp only [access] at h
      split at h
      next pc => cases h; exact .storeTail pc
      next => cases h

/-! ## The invariant -/

/-- The producer is in its critical section. -/
def ProducerPc.Inside : ProducerPc α → Prop
  | .idle | .lock _ => False
  | .compare _ | .writeSlot _ _ | .storeHead _ _ => True

/-- The consumer is in its critical section. -/
def ConsumerPc.Inside : ConsumerPc α → Prop
  | .idle | .lock => False
  | .compare | .readSlot | .storeTail _ => True

/-- What the producer carries through its critical section. -/
def ProducerOk (q : IndexRing α C) : ProducerPc α → Prop
  | .idle | .lock _ | .compare _ => True
  | .writeSlot _ next => next = increment C q.head ∧ next ≠ q.tail
  | .storeHead value next =>
      next = increment C q.head ∧ next ≠ q.tail ∧ cells q.buffer q.head = value

/-- What the consumer carries. -/
def ConsumerOk (q : IndexRing α C) : ConsumerPc α → Prop
  | .idle | .lock | .compare => True
  | .readSlot => q.tail ≠ q.head
  | .storeTail out => q.tail ≠ q.head ∧ cells q.buffer q.tail = out

omit [Inhabited α] in
theorem ProducerOk.of_outside [Inhabited α] {q : IndexRing α C} {pc : ProducerPc α}
    (h : ¬ pc.Inside) : ProducerOk q pc := by
  cases pc with
  | idle | lock => trivial
  | _ => exact absurd trivial h

omit [Inhabited α] in
theorem ConsumerOk.of_outside [Inhabited α] {q : IndexRing α C} {pc : ConsumerPc α}
    (h : ¬ pc.Inside) : ConsumerOk q pc := by
  cases pc with
  | idle | lock => trivial
  | _ => exact absurd trivial h

/-- The invariant of the two threads: who is inside holds the mutex. -/
structure Inv (s : State α C) : Prop where
  wellFormed : s.ring.cached.WellFormed
  producerHolds : s.producer.Inside ↔ s.holder = some .producer
  consumerHolds : s.consumer.Inside ↔ s.holder = some .consumer
  producer : ProducerOk s.ring s.producer
  consumer : ConsumerOk s.ring s.consumer

/-- **Mutual exclusion.** -/
theorem Inv.exclusive {s : State α C} (h : Inv s) : ¬ (s.producer.Inside ∧ s.consumer.Inside) := by
  rintro ⟨hp, hc⟩
  cases (h.producerHolds.mp hp).symm.trans (h.consumerHolds.mp hc)

theorem inv_fresh : Inv (State.fresh : State α C) where
  wellFormed := IndexRing.cached_fresh.1
  producerHolds := iff_of_false id nofun
  consumerHolds := iff_of_false id nofun
  producer := trivial
  consumer := trivial

/-- **One access**: the invariant is kept, and the contents change as those of the queue
of `Capacity - 1` values do. -/
theorem Move.sound {s s' : State α C} {a : Access α} {l : Option (Answer α)}
    (hm : Move s a l s') (hi : Inv s) :
    Inv s' ∧ BoundedFifo.Step (C.value - 1) true s.ring.cached.contents l
      s'.ring.cached.contents := by
  obtain ⟨n, m, hn⟩ := IndexRing.linked_of_wellFormed hi.wellFormed
  have hhead : s.ring.head = n % C.value := hn.head_eq
  have htail : s.ring.tail = m % C.value := hn.tail_eq
  have hlen : s.ring.cached.contents.length = n - m := hn.length_contents
  have hfull : increment C s.ring.head = s.ring.tail ↔ n + 1 = m + C.value := hn.next_eq_cache_iff
  have hempty : s.ring.tail = s.ring.head ↔ m = n := hn.tail_eq_cache_iff
  have hlt : n < m + C.value := hn.pushed_lt
  have hle : m ≤ n := hn.popped_le
  have hwf := hi.wellFormed
  -- while one side is inside, the other is not, so it carries nothing
  have noConsumer : s.producer.Inside → ¬ s.consumer.Inside := fun hp hc => hi.exclusive ⟨hp, hc⟩
  have noProducer : s.consumer.Inside → ¬ s.producer.Inside := fun hc hp => hi.exclusive ⟨hp, hc⟩
  cases hm with
  | enterPush pc =>
      have hout : ¬ s.producer.Inside := by rw [pc]; exact id
      exact ⟨⟨hwf, iff_of_false id (mt hi.producerHolds.mpr hout), hi.consumerHolds, trivial,
        hi.consumer⟩, .silent _⟩
  | lockPush pc free =>
      have hc : ¬ s.consumer.Inside := fun hc => by cases free.symm.trans (hi.consumerHolds.mp hc)
      exact ⟨⟨hwf, iff_of_true trivial rfl, iff_of_false hc nofun, trivial, hi.consumer⟩, .silent _⟩
  | full pc full =>
      have hp : s.producer.Inside := by rw [pc]; trivial
      refine ⟨⟨hwf, iff_of_false id nofun, iff_of_false (noConsumer hp) nofun, trivial,
        hi.consumer⟩, .refused _ _ fun _ => ?_⟩
      have := hfull.mp full
      omega
  | room pc room =>
      have hp : s.producer.Inside := by rw [pc]; trivial
      exact ⟨⟨hwf, iff_of_true trivial (hi.producerHolds.mp hp), hi.consumerHolds, ⟨rfl, room⟩,
        hi.consumer⟩, .silent _⟩
  | @writeSlot value next pc =>
      have hp : s.producer.Inside := by rw [pc]; trivial
      have hok := hi.producer
      rw [pc] at hok
      obtain ⟨hnext, hroom⟩ := hok
      refine ⟨⟨?_, iff_of_true trivial (hi.producerHolds.mp hp), hi.consumerHolds,
        ⟨hnext, hroom, ?_⟩, ConsumerOk.of_outside (noConsumer hp)⟩, ?_⟩
      · rw [hhead]
        exact ⟨_, hn.writeSlot value⟩
      · show cells (s.ring.buffer.setIfInBounds s.ring.head value) s.ring.head = value
        rw [hhead, cells_set _ (Nat.mod_lt _ C.pos)]
        exact Function.update_self _ _ _
      · let q : IndexRing α C :=
          { s.ring with buffer := s.ring.buffer.setIfInBounds s.ring.head value }
        have hsame : q.cached.contents = s.ring.cached.contents := by
          have hwrite := hn.contents_writeSlot value
          rw [← hhead] at hwrite
          exact hwrite
        show BoundedFifo.Step _ _ _ _ q.cached.contents
        rw [hsame]
        exact .silent _
  | @storeHead value next pc =>
      have hp : s.producer.Inside := by rw [pc]; trivial
      have hok := hi.producer
      rw [pc] at hok
      obtain ⟨hnext, hroom, hslot⟩ := hok
      have hlap : n + 1 < m + C.value := by
        have := mt hfull.mpr (hnext ▸ hroom)
        omega
      rw [hhead, increment_mod] at hnext
      subst hnext
      refine ⟨⟨IndexRing.wellFormed_cached ⟨_, hn.storeHead hlap⟩, iff_of_false id nofun,
        iff_of_false (noConsumer hp) nofun, trivial, ConsumerOk.of_outside (noConsumer hp)⟩, ?_⟩
      let q : IndexRing α C := { s.ring with head := (n + 1) % C.value }
      have hpushed : q.cached.contents = s.ring.cached.contents ++ [value] := by
        rw [← hslot, hhead]
        exact hn.contents_storeHead hlap
      show BoundedFifo.Step _ _ _ _ q.cached.contents
      rw [hpushed]
      exact .pushed _ _ (by omega)
  | enterPop pc =>
      have hout : ¬ s.consumer.Inside := by rw [pc]; exact id
      exact ⟨⟨hwf, hi.producerHolds, iff_of_false id (mt hi.consumerHolds.mpr hout), hi.producer,
        trivial⟩, .silent _⟩
  | lockPop pc free =>
      have hp : ¬ s.producer.Inside := fun hp => by cases free.symm.trans (hi.producerHolds.mp hp)
      exact ⟨⟨hwf, iff_of_false hp nofun, iff_of_true trivial rfl, hi.producer, trivial⟩, .silent _⟩
  | empty pc empty =>
      have hc : s.consumer.Inside := by rw [pc]; trivial
      refine ⟨⟨hwf, iff_of_false (noProducer hc) nofun, iff_of_false id nofun, hi.producer,
        trivial⟩, .empty _ fun _ => ?_⟩
      have := hempty.mp empty
      exact List.length_eq_zero_iff.mp (by omega)
  | some pc some =>
      have hc : s.consumer.Inside := by rw [pc]; trivial
      exact ⟨⟨hwf, hi.producerHolds, iff_of_true trivial (hi.consumerHolds.mp hc), hi.producer,
        some⟩, .silent _⟩
  | readSlot pc =>
      have hc : s.consumer.Inside := by rw [pc]; trivial
      have hok := hi.consumer
      rw [pc] at hok
      exact ⟨⟨hwf, hi.producerHolds, iff_of_true trivial (hi.consumerHolds.mp hc), hi.producer,
        ⟨hok, rfl⟩⟩, .silent _⟩
  | @storeTail out pc =>
      have hc : s.consumer.Inside := by rw [pc]; trivial
      have hok := hi.consumer
      rw [pc] at hok
      obtain ⟨hsome, rfl⟩ := hok
      have hlt' : m < n := by
        have := mt hempty.mpr hsome
        omega
      rw [htail, increment_mod]
      refine ⟨⟨IndexRing.wellFormed_cached ⟨_, hn.storeTail hlt'⟩, iff_of_false (noProducer hc)
        nofun, iff_of_false id nofun, ProducerOk.of_outside (noProducer hc), trivial⟩, ?_⟩
      rw [hn.contents_storeTail hlt']
      exact .popped _ _

/-! ## The machine -/

def ProducerPc.call : ProducerPc α → Option (Call α)
  | .idle => none
  | .lock value | .compare value | .writeSlot value _ | .storeHead value _ => some (.push value)

def ConsumerPc.call : ConsumerPc α → Option (Call α)
  | .idle => none
  | .lock | .compare | .readSlot | .storeTail _ => some .pop

def ProducerPc.rank : ProducerPc α → Nat
  | .idle => 0
  | .lock _ => 4
  | .compare _ => 3
  | .writeSlot _ _ => 2
  | .storeHead _ _ => 1

def ConsumerPc.rank : ConsumerPc α → Nat
  | .idle => 0
  | .lock => 4
  | .compare => 3
  | .readSlot => 2
  | .storeTail _ => 1

def Access.side : Access α → Side
  | .enterPush _ | .producerLock | .producerCompare | .producerWriteSlot | .producerStoreHead =>
      .producer
  | .enterPop | .consumerLock | .consumerCompare | .consumerReadSlot | .consumerStoreTail =>
      .consumer

def Access.entry : Access α → Option (Call α)
  | .enterPush value => some (.push value)
  | .enterPop => some .pop
  | _ => none

def State.pending (s : State α C) : Side → Option (Call α)
  | .producer => s.producer.call
  | .consumer => s.consumer.call

def State.rank (s : State α C) : Side → Nat
  | .producer => s.producer.rank
  | .consumer => s.consumer.rank

omit [Inhabited α] in
theorem State.rank_le (s : State α C) (d : Side) : s.rank d ≤ 4 := by
  cases d with
  | producer => cases h : s.producer <;> simp [rank, h, ProducerPc.rank]
  | consumer => cases h : s.consumer <;> simp [rank, h, ConsumerPc.rank]

omit [Inhabited α] in
theorem State.rank_pos {s : State α C} {d : Side} (h : s.pending d ≠ none) : 0 < s.rank d := by
  cases d with
  | producer =>
      cases hp : s.producer with
      | idle => exact absurd (congrArg ProducerPc.call hp) h
      | _ => simp [rank, hp, ProducerPc.rank]
  | consumer =>
      cases hc : s.consumer with
      | idle => exact absurd (congrArg ConsumerPc.call hc) h
      | _ => simp [rank, hc, ConsumerPc.rank]

/-- `SpscRingBufferMutex` as a queue machine. -/
def machine : Machine (State α C) (Access α) α where
  fresh := State.fresh
  side := Access.side
  entry := Access.entry
  access := access
  pending := State.pending

theorem Move.turn {s s' : State α C} {a : Access α} {l : Option (Answer α)} (h : Move s a l s') :
    Turn State.rank State.pending a.side s a.entry l s' ∧
      ∀ d ≠ a.side, s'.pending d = s.pending d ∧ s'.rank d = s.rank d := by
  have producer : ∀ {pc}, s.producer = pc → s.pending .producer = pc.call :=
    fun hp => congrArg ProducerPc.call hp
  have consumer : ∀ {pc}, s.consumer = pc → s.pending .consumer = pc.call :=
    fun hc => congrArg ConsumerPc.call hc
  have lessP : ∀ {pc} {t : State α C}, s.producer = pc → t.producer.rank < pc.rank →
      t.rank .producer < s.rank .producer :=
    fun hp hlt => Nat.lt_of_lt_of_eq hlt (congrArg ProducerPc.rank hp).symm
  have lessC : ∀ {pc} {t : State α C}, s.consumer = pc → t.consumer.rank < pc.rank →
      t.rank .consumer < s.rank .consumer :=
    fun hc hlt => Nat.lt_of_lt_of_eq hlt (congrArg ConsumerPc.rank hc).symm
  have frameP : ∀ {t : State α C}, t.consumer = s.consumer →
      ∀ d ≠ Side.producer, t.pending d = s.pending d ∧ t.rank d = s.rank d := by
    rintro t heq (_ | _) hd
    · exact absurd rfl hd
    · exact ⟨congrArg ConsumerPc.call heq, congrArg ConsumerPc.rank heq⟩
  have frameC : ∀ {t : State α C}, t.producer = s.producer →
      ∀ d ≠ Side.consumer, t.pending d = s.pending d ∧ t.rank d = s.rank d := by
    rintro t heq (_ | _) hd
    · exact ⟨congrArg ProducerPc.call heq, congrArg ProducerPc.rank heq⟩
    · exact absurd rfl hd
  cases h with
  | enterPush pc => exact ⟨.enter (producer pc) rfl, frameP rfl⟩
  | full pc => exact ⟨.answered (producer pc) (.refused _) rfl, frameP rfl⟩
  | storeHead pc => exact ⟨.answered (producer pc) (.pushed _) rfl, frameP rfl⟩
  | lockPush pc | room pc | writeSlot pc =>
      exact ⟨.onward (producer pc) rfl (lessP pc (by simp [ProducerPc.rank])), frameP rfl⟩
  | enterPop pc => exact ⟨.enter (consumer pc) rfl, frameC rfl⟩
  | empty pc => exact ⟨.answered (consumer pc) .empty rfl, frameC rfl⟩
  | storeTail pc => exact ⟨.answered (consumer pc) (.popped _) rfl, frameC rfl⟩
  | lockPop pc | some pc | readSlot pc =>
      exact ⟨.onward (consumer pc) rfl (lessC pc (by simp [ConsumerPc.rank])), frameC rfl⟩

theorem producer_can {s : State α C} (inside : s.producer.call ≠ none)
    (free : s.producer.Inside ∨ s.holder = none) :
    ∃ a, a.side = .producer ∧ a.entry = none ∧ (access s a).isSome := by
  cases hp : s.producer with
  | idle => exact absurd (congrArg ProducerPc.call hp) inside
  | lock value =>
      rw [hp] at free
      exact ⟨.producerLock, rfl, rfl, by simp only [access, hp, free.resolve_left id]; rfl⟩
  | compare value =>
      refine ⟨.producerCompare, rfl, rfl, ?_⟩
      simp only [access, hp]
      split <;> rfl
  | writeSlot value next => exact ⟨.producerWriteSlot, rfl, rfl, by simp only [access, hp]; rfl⟩
  | storeHead value next => exact ⟨.producerStoreHead, rfl, rfl, by simp only [access, hp]; rfl⟩

theorem consumer_can {s : State α C} (inside : s.consumer.call ≠ none)
    (free : s.consumer.Inside ∨ s.holder = none) :
    ∃ a, a.side = .consumer ∧ a.entry = none ∧ (access s a).isSome := by
  cases hc : s.consumer with
  | idle => exact absurd (congrArg ConsumerPc.call hc) inside
  | lock =>
      rw [hc] at free
      exact ⟨.consumerLock, rfl, rfl, by simp only [access, hc, free.resolve_left id]; rfl⟩
  | compare =>
      refine ⟨.consumerCompare, rfl, rfl, ?_⟩
      simp only [access, hc]
      split <;> rfl
  | readSlot => exact ⟨.consumerReadSlot, rfl, rfl, by simp only [access, hc]; rfl⟩
  | storeTail out => exact ⟨.consumerStoreTail, rfl, rfl, by simp only [access, hc]; rfl⟩

omit [Inhabited α] in
theorem ProducerPc.Inside.call {pc : ProducerPc α} (h : pc.Inside) : pc.call ≠ none := by
  cases pc with
  | idle | lock => exact h.elim
  | _ => exact Option.some_ne_none _

omit [Inhabited α] in
theorem ConsumerPc.Inside.call {pc : ConsumerPc α} (h : pc.Inside) : pc.call ≠ none := by
  cases pc with
  | idle | lock => exact h.elim
  | _ => exact Option.some_ne_none _

theorem can_access {s : State α C} (hi : Inv s) {d : Side} (inside : s.pending d ≠ none)
    (free : s.holder = some d ∨ s.holder = none) :
    ∃ a, a.side = d ∧ a.entry = none ∧ (access s a).isSome := by
  cases d with
  | producer => exact producer_can inside (free.imp hi.producerHolds.mpr id)
  | consumer => exact consumer_can inside (free.imp hi.consumerHolds.mpr id)

theorem Inv.inside_of_holder {s : State α C} (hi : Inv s) {d : Side} (h : s.holder = some d) :
    s.pending d ≠ none := by
  cases d with
  | producer => exact (hi.producerHolds.mpr h).call
  | consumer => exact (hi.consumerHolds.mpr h).call

theorem can_go {s : State α C} (hi : Inv s) {d : Side} (inside : s.pending d ≠ none)
    (free : s.holder = some d ∨ s.holder = none) :
    ∃ l s', machine.Own d s l s' ∧
      BoundedFifo.Step (C.value - 1) true s.ring.cached.contents l s'.ring.cached.contents := by
  obtain ⟨a, hside, hentry, hsome⟩ := can_access hi inside free
  obtain ⟨⟨s', l⟩, haccess⟩ := Option.isSome_iff_exists.mp hsome
  exact ⟨l, s', ⟨a, hside, hentry, haccess⟩, ((access_move haccess).sound hi).2⟩

/-- `SpscRingBufferMutex` is the queue of `Capacity - 1` values, and honest. -/
def lawful : Lawful (machine : Machine (State α C) _ α) (C.value - 1) true where
  Inv := Inv
  contents := fun s => s.ring.cached.contents
  rank := State.rank
  inv_fresh := inv_fresh
  contents_fresh := IndexRing.cached_fresh.2
  pending_fresh := by
    intro d
    cases d <;> rfl
  entry_side := by
    intro a c h
    cases a with
    | enterPush value | enterPop =>
        obtain rfl := Option.some.inj h
        rfl
    | _ => cases h
  pending_side := by
    intro s d c h
    cases d with
    | producer =>
        have hp : s.producer.call = some c := h
        cases hpc : s.producer <;> rw [hpc] at hp <;> cases hp <;> rfl
    | consumer =>
        have hc : s.consumer.call = some c := h
        cases hpc : s.consumer <;> rw [hpc] at hc <;> cases hc <;> rfl
  sound := fun hi h => (access_move h).sound hi
  enter := by
    intro s c hidle
    cases c with
    | push v =>
        cases hp : s.producer with
        | idle => exact ⟨.enterPush v, _, rfl, by simp only [machine, access, hp]; rfl⟩
        | _ => cases (congrArg ProducerPc.call hp).symm.trans hidle
    | pop =>
        cases hc : s.consumer with
        | idle => exact ⟨.enterPop, _, rfl, by simp only [machine, access, hc]; rfl⟩
        | _ => cases (congrArg ConsumerPc.call hc).symm.trans hidle
  turn := fun h => (access_move h).turn.1
  frame := fun h hd => (access_move h).turn.2 _ hd
  unblocked := by
    intro s d hi inside
    rcases hholder : s.holder with _ | e
    · exact ⟨d, Or.inl rfl, can_go hi inside (Or.inr hholder)⟩
    · have hinside := hi.inside_of_holder hholder
      have he : e = d ∨ e = d.other := Side.eq_or_eq_other e d
      exact ⟨e, he.imp id fun h => ⟨h, hinside⟩, can_go hi hinside (Or.inl hholder)⟩

/-- **`SpscRingBufferMutex` is not wait-free**: a push can be held up by a pop that holds
the mutex. -/
theorem machine_not_waitFree (K : Nat) :
    ¬ (machine : Machine (State α C) _ α).WaitFree K := by
  intro hfree
  let s : State α C :=
    { State.fresh with holder := some .consumer, producer := .lock default, consumer := .compare }
  have hreached : (machine : Machine (State α C) _ α).Reached s :=
    ((machine.reached_fresh.access .enterPop rfl).access .consumerLock rfl).access
      (.enterPush default) rfl
  obtain ⟨l, s', a, hside, hentry, haccess⟩ :=
    hfree.enabled (d := .producer) hreached (Option.some_ne_none _)
  cases a with
  | enterPush value => cases hentry
  | producerLock | producerCompare | producerWriteSlot | producerStoreHead => cases haccess
  | enterPop | consumerLock | consumerCompare | consumerReadSlot | consumerStoreTail => cases hside

end Locked

end TradingGateway.Spsc
