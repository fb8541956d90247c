/-
# `Spsc.Machines` — the two cached rings as queue machines

`Spsc.Interleaving` and `Spsc.FifoV4` split the calls of `SpscRingBufferAtomicV3` and
`SpscRingBufferAtomicV4` into accesses.  Here the same accesses are read as those of a
queue machine of `Lib.QueueMachine`: which of them enter a call, which call a side is
inside of, and how many accesses it still needs.

    accesses left      V3 producer    V3 consumer    V4 producer    V4 consumer
    4                  load head_     load tail_     compare        compare
    3                  load tail_     load head_     load tail_     load head_
    2                  write slot     read slot      write slot     read slot
    1                  store head_    store tail_    store head_    store tail_

A slow path that is not taken skips its row, so no call needs more than four.  The
machines are lawful because every access is sound (`Move.sound`), and they are
wait-free: at each row something can be done, whatever the other side is at
(`machine_waitFree`).
-/
import TradingGateway.Lib.QueueMachine
import TradingGateway.Spsc.Answers

namespace TradingGateway.Spsc

open Lib Lib.BoundedFifo Lib.QueueMachine Lib.Cyclic

/-! ## `SpscRingBufferAtomicV3` -/

namespace Interleaving

variable {α Args : Type*} {C : Capacity}

/-- The call the producer is inside of. -/
def ProducerPc.call (construct : Args → α) : ProducerPc α Args → Option (Call α)
  | .idle => none
  | .loadHead call => some (.push (call.value construct))
  | .loadTail value _ _ | .writeSlot value _ _ | .storeHead value _ => some (.push value)

/-- The call the consumer is inside of. -/
def ConsumerPc.call : ConsumerPc α → Option (Call α)
  | .idle => none
  | .loadTail | .loadHead _ | .readSlot _ | .storeTail _ _ => some .pop

/-- The accesses that the producer's call still needs, at most. -/
def ProducerPc.rank : ProducerPc α Args → Nat
  | .idle => 0
  | .loadHead _ => 4
  | .loadTail _ _ _ => 3
  | .writeSlot _ _ _ => 2
  | .storeHead _ _ => 1

/-- The accesses that the consumer's call still needs, at most. -/
def ConsumerPc.rank : ConsumerPc α → Nat
  | .idle => 0
  | .loadTail => 4
  | .loadHead _ => 3
  | .readSlot _ => 2
  | .storeTail _ _ => 1

theorem ProducerPc.rank_le (pc : ProducerPc α Args) : pc.rank ≤ 4 := by
  cases pc <;> simp [rank]

theorem ConsumerPc.rank_le (pc : ConsumerPc α) : pc.rank ≤ 4 := by
  cases pc <;> simp [rank]

theorem ProducerPc.rank_pos {construct : Args → α} {pc : ProducerPc α Args}
    (h : pc.call construct ≠ none) : 0 < pc.rank := by
  cases pc with
  | idle => exact absurd rfl h
  | _ => simp [rank]

theorem ConsumerPc.rank_pos {pc : ConsumerPc α} (h : pc.call ≠ none) : 0 < pc.rank := by
  cases pc with
  | idle => exact absurd rfl h
  | _ => simp [rank]

theorem ProducerPc.call_eq_none {construct : Args → α} {pc : ProducerPc α Args}
    (h : pc.call construct = none) : pc = .idle := by
  cases pc with
  | idle => rfl
  | _ => cases h

theorem ConsumerPc.call_eq_none {pc : ConsumerPc α} (h : pc.call = none) : pc = .idle := by
  cases pc with
  | idle => rfl
  | _ => cases h

theorem ProducerPc.call_side {construct : Args → α} {pc : ProducerPc α Args} {c : Call α}
    (h : pc.call construct = some c) : callSide c = .producer := by
  cases pc with
  | idle => cases h
  | _ =>
      obtain rfl := Option.some.inj h
      rfl

theorem ConsumerPc.call_side {pc : ConsumerPc α} {c : Call α} (h : pc.call = some c) :
    callSide c = .consumer := by
  cases pc with
  | idle => cases h
  | _ =>
      obtain rfl := Option.some.inj h
      rfl

/-- Whose access it is. -/
def Access.side : Access α Args → Side
  | .enterPush _ | .producerLoadHead | .producerLoadTail _ | .producerWriteSlot
  | .producerStoreHead => .producer
  | .enterPop | .consumerLoadTail | .consumerLoadHead _ | .consumerReadSlot
  | .consumerStoreTail => .consumer

/-- The call that the access enters. -/
def Access.entry (construct : Args → α) : Access α Args → Option (Call α)
  | .enterPush call => some (.push (call.value construct))
  | .enterPop => some .pop
  | _ => none

theorem Access.entry_side {construct : Args → α} {a : Access α Args} {c : Call α}
    (h : a.entry construct = some c) : a.side = callSide c := by
  cases a with
  | enterPush call | enterPop =>
      obtain rfl := Option.some.inj h
      rfl
  | _ => cases h

/-- The call a side is inside of. -/
def State.pending (construct : Args → α) (s : State α Args C) : Side → Option (Call α)
  | .producer => s.producer.call construct
  | .consumer => s.consumer.call

/-- The accesses it still needs, at most. -/
def State.rank (s : State α Args C) : Side → Nat
  | .producer => s.producer.rank
  | .consumer => s.consumer.rank

theorem State.pending_side {construct : Args → α} {s : State α Args C} {d : Side} {c : Call α}
    (h : s.pending construct d = some c) : callSide c = d := by
  cases d with
  | producer => exact ProducerPc.call_side h
  | consumer => exact ConsumerPc.call_side h

theorem State.rank_le (s : State α Args C) (d : Side) : s.rank d ≤ 4 := by
  cases d with
  | producer => exact s.producer.rank_le
  | consumer => exact s.consumer.rank_le

theorem State.rank_pos {construct : Args → α} {s : State α Args C} {d : Side}
    (h : s.pending construct d ≠ none) : 0 < s.rank d := by
  cases d with
  | producer => exact ProducerPc.rank_pos h
  | consumer => exact ConsumerPc.rank_pos h

/-- The consumer does not see what the producer does at its own program counter. -/
theorem State.frame_producer {construct : Args → α} {s s' : State α Args C}
    (h : s'.consumer = s.consumer) :
    ∀ d ≠ Side.producer, s'.pending construct d = s.pending construct d ∧ s'.rank d = s.rank d := by
  rintro (_ | _) hd
  · exact absurd rfl hd
  · exact ⟨congrArg ConsumerPc.call h, congrArg ConsumerPc.rank h⟩

theorem State.frame_consumer {construct : Args → α} {s s' : State α Args C}
    (h : s'.producer = s.producer) :
    ∀ d ≠ Side.consumer, s'.pending construct d = s.pending construct d ∧ s'.rank d = s.rank d := by
  rintro (_ | _) hd
  · exact ⟨congrArg (ProducerPc.call construct) h, congrArg ProducerPc.rank h⟩
  · exact absurd rfl hd

theorem State.rank_lt_producer {s s' : State α Args C} {pc : ProducerPc α Args}
    (hp : s.producer = pc) (h : s'.producer.rank < pc.rank) :
    s'.rank .producer < s.rank .producer :=
  Nat.lt_of_lt_of_eq h (congrArg ProducerPc.rank hp).symm

theorem State.rank_lt_consumer {s s' : State α Args C} {pc : ConsumerPc α}
    (hc : s.consumer = pc) (h : s'.consumer.rank < pc.rank) :
    s'.rank .consumer < s.rank .consumer :=
  Nat.lt_of_lt_of_eq h (congrArg ConsumerPc.rank hc).symm

variable [Inhabited α]

theorem access_turn {construct : Args → α} {s s' : State α Args C} {a : Access α Args}
    {l : Option (Answer α)} (h : access construct s a = some (s', l)) :
    Turn State.rank (State.pending construct) a.side s (a.entry construct) l s' ∧
      ∀ d ≠ a.side, s'.pending construct d = s.pending construct d ∧ s'.rank d = s.rank d := by
  have producer : ∀ {pc}, s.producer = pc → s.pending construct .producer = pc.call construct :=
    fun hp => congrArg (ProducerPc.call construct) hp
  have consumer : ∀ {pc}, s.consumer = pc → s.pending construct .consumer = pc.call :=
    fun hc => congrArg ConsumerPc.call hc
  cases a with
  | enterPush call =>
      simp only [access] at h
      split at h
      next hp => cases h; exact ⟨.enter (producer hp) rfl, State.frame_producer rfl⟩
      next => cases h
  | producerLoadHead =>
      simp only [access] at h
      split at h
      next hp =>
        split at h
        all_goals
          cases h
          exact ⟨.onward (producer hp) rfl (State.rank_lt_producer hp (by simp [ProducerPc.rank])),
            State.frame_producer rfl⟩
      next => cases h
  | producerLoadTail k =>
      simp only [access] at h
      split at h
      next hp _ =>
        split at h
        next => cases h
        next =>
          split at h
          next => cases h; exact ⟨.answered (producer hp) (.refused _) rfl, State.frame_producer rfl⟩
          next =>
            cases h
            exact ⟨.onward (producer hp) rfl (State.rank_lt_producer hp (by simp [ProducerPc.rank])),
              State.frame_producer rfl⟩
      next => cases h
  | producerWriteSlot =>
      simp only [access] at h
      split at h
      next hp =>
        cases h
        exact ⟨.onward (producer hp) rfl (State.rank_lt_producer hp (by simp [ProducerPc.rank])),
          State.frame_producer rfl⟩
      next => cases h
  | producerStoreHead =>
      simp only [access] at h
      split at h
      next hp =>
        cases h
        exact ⟨.answered (producer hp) (.pushed _) rfl, State.frame_producer rfl⟩
      next => cases h
  | enterPop =>
      simp only [access] at h
      split at h
      next hc => cases h; exact ⟨.enter (consumer hc) rfl, State.frame_consumer rfl⟩
      next => cases h
  | consumerLoadTail =>
      simp only [access] at h
      split at h
      next hc =>
        split at h
        all_goals
          cases h
          exact ⟨.onward (consumer hc) rfl (State.rank_lt_consumer hc (by simp [ConsumerPc.rank])),
            State.frame_consumer rfl⟩
      next => cases h
  | consumerLoadHead k =>
      simp only [access] at h
      split at h
      next hc _ =>
        split at h
        next => cases h
        next =>
          split at h
          next => cases h; exact ⟨.answered (consumer hc) .empty rfl, State.frame_consumer rfl⟩
          next =>
            cases h
            exact ⟨.onward (consumer hc) rfl (State.rank_lt_consumer hc (by simp [ConsumerPc.rank])),
              State.frame_consumer rfl⟩
      next => cases h
  | consumerReadSlot =>
      simp only [access] at h
      split at h
      next hc =>
        cases h
        exact ⟨.onward (consumer hc) rfl (State.rank_lt_consumer hc (by simp [ConsumerPc.rank])),
          State.frame_consumer rfl⟩
      next => cases h
  | consumerStoreTail =>
      simp only [access] at h
      split at h
      next hc =>
        cases h
        exact ⟨.answered (consumer hc) (.popped _) rfl, State.frame_consumer rfl⟩
      next => cases h

/-- `SpscRingBufferAtomicV3` as a queue machine. -/
def machine (construct : Args → α) : Machine (State α Args C) (Access α Args) α where
  fresh := State.fresh
  side := Access.side
  entry := Access.entry construct
  access := access construct
  pending := State.pending construct

omit [Inhabited α] in
theorem published_length (stores : List Nat) : ∃ v, published stores stores.length = some v :=
  ⟨_, List.getElem?_eq_getElem (Nat.lt_succ_self stores.length)⟩

theorem can_access {construct : Args → α} {s : State α Args C} (hi : Inv s) {d : Side}
    (inside : s.pending construct d ≠ none) :
    ∃ a, a.side = d ∧ a.entry construct = none ∧ a.Latest s ∧ (access construct s a).isSome := by
  cases d with
  | producer =>
      have hpc : s.producer.call construct ≠ none := inside
      cases hp : s.producer with
      | idle =>
          rw [hp] at hpc
          exact absurd rfl hpc
      | loadHead call =>
          refine ⟨.producerLoadHead, rfl, rfl, trivial, ?_⟩
          simp only [access, hp]
          split <;> rfl
      | loadTail value head next =>
          obtain ⟨tail, hload⟩ := published_length s.tailStores
          have hseen : ¬ s.tailStores.length < s.tailSeen := Nat.not_lt.mpr hi.linked.tailSeen_le
          refine ⟨.producerLoadTail s.tailStores.length, rfl, rfl, rfl, ?_⟩
          simp only [access, hp, hload, if_neg hseen]
          split <;> rfl
      | writeSlot value head next =>
          exact ⟨.producerWriteSlot, rfl, rfl, trivial, by simp only [access, hp]; rfl⟩
      | storeHead value next =>
          exact ⟨.producerStoreHead, rfl, rfl, trivial, by simp only [access, hp]; rfl⟩
  | consumer =>
      have hpc : s.consumer.call ≠ none := inside
      cases hc : s.consumer with
      | idle =>
          rw [hc] at hpc
          exact absurd rfl hpc
      | loadTail =>
          refine ⟨.consumerLoadTail, rfl, rfl, trivial, ?_⟩
          simp only [access, hc]
          split <;> rfl
      | loadHead tail =>
          obtain ⟨head, hload⟩ := published_length s.headStores
          have hseen : ¬ s.headStores.length < s.headSeen := Nat.not_lt.mpr hi.linked.headSeen_le
          refine ⟨.consumerLoadHead s.headStores.length, rfl, rfl, rfl, ?_⟩
          simp only [access, hc, hload, if_neg hseen]
          split <;> rfl
      | readSlot tail =>
          exact ⟨.consumerReadSlot, rfl, rfl, trivial, by simp only [access, hc]; rfl⟩
      | storeTail tail out =>
          exact ⟨.consumerStoreTail, rfl, rfl, trivial, by simp only [access, hc]; rfl⟩

theorem can_go {construct : Args → α} {s : State α Args C} (hi : Inv s) {d : Side}
    (inside : s.pending construct d ≠ none) :
    ∃ l s', (machine construct).Own d s l s' ∧
      BoundedFifo.Step (C.value - 1) true s.ring.contents l s'.ring.contents := by
  obtain ⟨a, hside, hentry, hlatest, hsome⟩ := can_access hi inside
  obtain ⟨⟨s', l⟩, haccess⟩ := Option.isSome_iff_exists.mp hsome
  have hstep : Step construct true s l s' := ⟨a, fun _ => hlatest, haccess⟩
  exact ⟨l, s', ⟨a, hside, hentry, haccess⟩, (hstep.move.sound hi).2⟩

theorem pending_fresh (construct : Args → α) (d : Side) :
    (State.fresh : State α Args C).pending construct d = none := by
  cases d <;> rfl

theorem turn_of_access (construct : Args → α) {s s' : State α Args C} {a : Access α Args}
    {l : Option (Answer α)} (h : (machine construct).access s a = some (s', l)) :
    Turn State.rank (State.pending construct) a.side s (Access.entry construct a) l s' :=
  (access_turn h).1

/-- `SpscRingBufferAtomicV3` is the queue of `Capacity - 1` values. -/
def lawful (construct : Args → α) :
    Lawful (machine construct : Machine (State α Args C) _ α) (C.value - 1) false where
  Inv := Inv
  contents := fun s => s.ring.contents
  rank := State.rank
  inv_fresh := inv_fresh
  contents_fresh := SpscRingBufferAtomicV3.contents_fresh
  pending_fresh := pending_fresh construct
  entry_side := Access.entry_side
  pending_side := State.pending_side
  sound := fun {s i l s'} hi h =>
    have hstep : Step construct false s l s' := ⟨i, fun hl => absurd hl Bool.false_ne_true, h⟩
    hstep.move.sound hi
  enter := by
    intro s c hidle
    cases c with
    | push v =>
        have hp : s.producer = .idle := ProducerPc.call_eq_none hidle
        exact ⟨.enterPush (.push v), _, rfl, by simp only [machine, access, hp]; rfl⟩
    | pop =>
        have hc : s.consumer = .idle := ConsumerPc.call_eq_none hidle
        exact ⟨.enterPop, _, rfl, by simp only [machine, access, hc]; rfl⟩
  turn := turn_of_access construct
  frame := fun h hd => (access_turn h).2 _ hd
  unblocked := fun hi inside => ⟨_, Or.inl rfl, can_go hi inside⟩

/-- **`SpscRingBufferAtomicV3` is wait-free**: four accesses a call. -/
theorem machine_waitFree (construct : Args → α) :
    (machine construct : Machine (State α Args C) _ α).WaitFree 4 := by
  refine (lawful construct).waitFree State.rank_le State.rank_pos ?_
  intro s d hi inside
  obtain ⟨l, s', hown, -⟩ := can_go hi inside
  exact ⟨l, s', hown⟩

/-! With loads that are up to date, its answers are honest as well. -/

end Interleaving

/-! ## `SpscRingBufferAtomicV4` -/

namespace InterleavingV4

variable {α : Type*} {C : CounterCapacity}

def ProducerPc.call : ProducerPc α → Option (Call α)
  | .idle => none
  | .compare value | .loadTail value | .writeSlot value | .storeHead value => some (.push value)

def ConsumerPc.call : ConsumerPc α → Option (Call α)
  | .idle => none
  | .compare | .loadHead | .readSlot | .storeTail _ => some .pop

def ProducerPc.rank : ProducerPc α → Nat
  | .idle => 0
  | .compare _ => 4
  | .loadTail _ => 3
  | .writeSlot _ => 2
  | .storeHead _ => 1

def ConsumerPc.rank : ConsumerPc α → Nat
  | .idle => 0
  | .compare => 4
  | .loadHead => 3
  | .readSlot => 2
  | .storeTail _ => 1

def Access.side : Access α → Side
  | .enterPush _ | .producerCompare | .producerLoadTail _ | .producerWriteSlot
  | .producerStoreHead => .producer
  | .enterPop | .consumerCompare | .consumerLoadHead _ | .consumerReadSlot
  | .consumerStoreTail => .consumer

def Access.entry : Access α → Option (Call α)
  | .enterPush value => some (.push value)
  | .enterPop => some .pop
  | _ => none

theorem Access.entry_side {a : Access α} {c : Call α} (h : a.entry = some c) :
    a.side = callSide c := by
  cases a with
  | enterPush value | enterPop =>
      obtain rfl := Option.some.inj h
      rfl
  | _ => cases h

def State.pending (s : State α C) : Side → Option (Call α)
  | .producer => s.producer.call
  | .consumer => s.consumer.call

def State.rank (s : State α C) : Side → Nat
  | .producer => s.producer.rank
  | .consumer => s.consumer.rank

theorem State.pending_side {s : State α C} {d : Side} {c : Call α} (h : s.pending d = some c) :
    callSide c = d := by
  cases d with
  | producer =>
      have hp : s.producer.call = some c := h
      cases hpc : s.producer <;> rw [hpc] at hp <;> cases hp <;> rfl
  | consumer =>
      have hc : s.consumer.call = some c := h
      cases hpc : s.consumer <;> rw [hpc] at hc <;> cases hc <;> rfl

theorem State.rank_le (s : State α C) (d : Side) : s.rank d ≤ 4 := by
  cases d with
  | producer => cases h : s.producer <;> simp [rank, h, ProducerPc.rank]
  | consumer => cases h : s.consumer <;> simp [rank, h, ConsumerPc.rank]

theorem State.rank_pos {s : State α C} {d : Side} (h : s.pending d ≠ none) : 0 < s.rank d := by
  cases d with
  | producer =>
      cases hp : s.producer with
      | idle => exact absurd (congrArg ProducerPc.call hp) h
      | _ => simp [rank, hp, ProducerPc.rank]
  | consumer =>
      cases hc : s.consumer with
      | idle => exact absurd (congrArg ConsumerPc.call hc) h
      | _ => simp [rank, hc, ConsumerPc.rank]

theorem State.frame_producer {s s' : State α C} (h : s'.consumer = s.consumer) :
    ∀ d ≠ Side.producer, s'.pending d = s.pending d ∧ s'.rank d = s.rank d := by
  rintro (_ | _) hd
  · exact absurd rfl hd
  · exact ⟨congrArg ConsumerPc.call h, congrArg ConsumerPc.rank h⟩

theorem State.frame_consumer {s s' : State α C} (h : s'.producer = s.producer) :
    ∀ d ≠ Side.consumer, s'.pending d = s.pending d ∧ s'.rank d = s.rank d := by
  rintro (_ | _) hd
  · exact ⟨congrArg ProducerPc.call h, congrArg ProducerPc.rank h⟩
  · exact absurd rfl hd

theorem State.rank_lt_producer {s s' : State α C} {pc : ProducerPc α}
    (hp : s.producer = pc) (h : s'.producer.rank < pc.rank) :
    s'.rank .producer < s.rank .producer :=
  Nat.lt_of_lt_of_eq h (congrArg ProducerPc.rank hp).symm

theorem State.rank_lt_consumer {s s' : State α C} {pc : ConsumerPc α}
    (hc : s.consumer = pc) (h : s'.consumer.rank < pc.rank) :
    s'.rank .consumer < s.rank .consumer :=
  Nat.lt_of_lt_of_eq h (congrArg ConsumerPc.rank hc).symm

variable [Inhabited α]

theorem access_turn {s s' : State α C} {a : Access α} {l : Option (Answer α)}
    (h : access s a = some (s', l)) :
    Turn State.rank State.pending a.side s a.entry l s' ∧
      ∀ d ≠ a.side, s'.pending d = s.pending d ∧ s'.rank d = s.rank d := by
  have producer : ∀ {pc}, s.producer = pc → s.pending .producer = pc.call :=
    fun hp => congrArg ProducerPc.call hp
  have consumer : ∀ {pc}, s.consumer = pc → s.pending .consumer = pc.call :=
    fun hc => congrArg ConsumerPc.call hc
  cases a with
  | enterPush value =>
      simp only [access] at h
      split at h
      next hp => cases h; exact ⟨.enter (producer hp) rfl, State.frame_producer rfl⟩
      next => cases h
  | producerCompare =>
      simp only [access] at h
      split at h
      next hp =>
        split at h
        all_goals
          cases h
          exact ⟨.onward (producer hp) rfl (State.rank_lt_producer hp (by simp [ProducerPc.rank])),
            State.frame_producer rfl⟩
      next => cases h
  | producerLoadTail k =>
      simp only [access] at h
      split at h
      next hp _ =>
        split at h
        next => cases h
        next =>
          split at h
          next => cases h; exact ⟨.answered (producer hp) (.refused _) rfl, State.frame_producer rfl⟩
          next =>
            cases h
            exact ⟨.onward (producer hp) rfl
              (State.rank_lt_producer hp (by simp [ProducerPc.rank])), State.frame_producer rfl⟩
      next => cases h
  | producerWriteSlot =>
      simp only [access] at h
      split at h
      next hp =>
        cases h
        exact ⟨.onward (producer hp) rfl (State.rank_lt_producer hp (by simp [ProducerPc.rank])),
          State.frame_producer rfl⟩
      next => cases h
  | producerStoreHead =>
      simp only [access] at h
      split at h
      next hp => cases h; exact ⟨.answered (producer hp) (.pushed _) rfl, State.frame_producer rfl⟩
      next => cases h
  | enterPop =>
      simp only [access] at h
      split at h
      next hc => cases h; exact ⟨.enter (consumer hc) rfl, State.frame_consumer rfl⟩
      next => cases h
  | consumerCompare =>
      simp only [access] at h
      split at h
      next hc =>
        split at h
        all_goals
          cases h
          exact ⟨.onward (consumer hc) rfl (State.rank_lt_consumer hc (by simp [ConsumerPc.rank])),
            State.frame_consumer rfl⟩
      next => cases h
  | consumerLoadHead k =>
      simp only [access] at h
      split at h
      next hc _ =>
        split at h
        next => cases h
        next =>
          split at h
          next => cases h; exact ⟨.answered (consumer hc) .empty rfl, State.frame_consumer rfl⟩
          next =>
            cases h
            exact ⟨.onward (consumer hc) rfl
              (State.rank_lt_consumer hc (by simp [ConsumerPc.rank])), State.frame_consumer rfl⟩
      next => cases h
  | consumerReadSlot =>
      simp only [access] at h
      split at h
      next hc =>
        cases h
        exact ⟨.onward (consumer hc) rfl (State.rank_lt_consumer hc (by simp [ConsumerPc.rank])),
          State.frame_consumer rfl⟩
      next => cases h
  | consumerStoreTail =>
      simp only [access] at h
      split at h
      next hc => cases h; exact ⟨.answered (consumer hc) (.popped _) rfl, State.frame_consumer rfl⟩
      next => cases h

/-- `SpscRingBufferAtomicV4` as a queue machine, its counters at `start`. -/
def machine (start : UInt64) : Machine (State α C) (Access α) α where
  fresh := State.startingAt start
  side := Access.side
  entry := Access.entry
  access := access
  pending := State.pending

omit [Inhabited α] in
theorem published_length (start : UInt64) (stores : List UInt64) :
    ∃ v, published start stores stores.length = some v :=
  ⟨_, List.getElem?_eq_getElem (Nat.lt_succ_self stores.length)⟩

omit [Inhabited α] in
theorem seen_le {s : State α C} (h : SpscRingBufferAtomicV4.Linked s.ring s.counts) :
    s.tailSeen ≤ s.tailStores.length ∧ s.headSeen ≤ s.headStores.length :=
  ⟨Nat.le_of_add_le_add_left h.tailSeen_le, Nat.le_of_add_le_add_left h.headSeen_le⟩

/-- With the latest `tail_` a ring that looks full is. -/
theorem full_of_latest {s : State α C} (hi : Inv s) {tail : UInt64}
    (load : published s.start s.tailStores s.tailStores.length = some tail)
    (full : SpscRingBufferAtomicV4.LooksFull { s.ring with producerTail := tail }) :
    s.ring.contents.length = C.value := by
  obtain ⟨rfl, -⟩ := hi.tailPublishes _ tail load
  have hr := hi.linked.refreshTail (Nat.add_le_add_left (seen_le hi.linked).1 _) le_rfl
  have hlap : s.counts.pushed = s.counts.popped + C.value := hr.looksFull_iff.mp full
  rw [hi.linked.length_contents, hlap, Nat.add_sub_cancel_left]

theorem empty_of_latest {s : State α C} (hi : Inv s) {head : UInt64}
    (load : published s.start s.headStores s.headStores.length = some head)
    (empty : SpscRingBufferAtomicV4.LooksEmpty { s.ring with consumerHead := head }) :
    s.ring.contents = [] := by
  obtain ⟨rfl, -⟩ := hi.headPublishes _ head load
  have hr := hi.linked.refreshHead (Nat.add_le_add_left (seen_le hi.linked).2 _) le_rfl
  have hsame : s.counts.popped = s.counts.pushed := hr.looksEmpty_iff.mp empty
  rw [← List.length_eq_zero_iff, hi.linked.length_contents, hsame, Nat.sub_self]

/-- An access of an honest kind: it answers neither that the ring is full nor that it is
empty. -/
theorem can_access_of {s s' : State α C} {a : Access α} {l : Option (Answer α)} {d : Side}
    (side : a.side = d) (entry : a.entry = none) (h : access s a = some (s', l))
    (full : ∀ v, l ≠ some (.refused v)) (empty : l ≠ some .empty) :
    ∃ a s' l, a.side = d ∧ a.entry = none ∧ access s a = some (s', l) ∧
      (∀ v, l = some (.refused v) → s.ring.contents.length = C.value) ∧
      (l = some .empty → s.ring.contents = []) :=
  ⟨a, s', l, side, entry, h, fun v hv => absurd hv (full v), fun hl => absurd hl empty⟩

theorem can_access {s : State α C} (hi : Inv s) {d : Side} (inside : s.pending d ≠ none) :
    ∃ a s' l, a.side = d ∧ a.entry = none ∧ access s a = some (s', l) ∧
      (∀ v, l = some (.refused v) → s.ring.contents.length = C.value) ∧
      (l = some .empty → s.ring.contents = []) := by
  cases d with
  | producer =>
      cases hp : s.producer with
      | idle => exact absurd (congrArg ProducerPc.call hp) inside
      | compare value =>
          by_cases h : s.ring.LooksFull
          · exact can_access_of (a := .producerCompare) (l := none) rfl rfl
              (by simp only [access, hp, if_pos h]; rfl) (by simp) (by simp)
          · exact can_access_of (a := .producerCompare) (l := none) rfl rfl
              (by simp only [access, hp, if_neg h]; rfl) (by simp) (by simp)
      | loadTail value =>
          obtain ⟨tail, hload⟩ := published_length s.start s.tailStores
          have hseen := Nat.not_lt.mpr (seen_le hi.linked).1
          by_cases hfull : SpscRingBufferAtomicV4.LooksFull { s.ring with producerTail := tail }
          · refine ⟨.producerLoadTail s.tailStores.length, _, some (.refused value), rfl, rfl,
              by simp only [access, hp, hload, if_neg hseen, if_pos hfull]; rfl, ?_, by simp⟩
            exact fun _ _ => full_of_latest hi hload hfull
          · exact can_access_of (a := .producerLoadTail s.tailStores.length) (l := none) rfl rfl
              (by simp only [access, hp, hload, if_neg hseen, if_neg hfull]; rfl) (by simp) (by simp)
      | writeSlot value =>
          exact can_access_of (a := .producerWriteSlot) (l := none) rfl rfl
            (by simp only [access, hp]; rfl) (by simp) (by simp)
      | storeHead value =>
          exact can_access_of (a := .producerStoreHead) (l := some (.pushed value)) rfl rfl
            (by simp only [access, hp]; rfl) (by simp) (by simp)
  | consumer =>
      cases hc : s.consumer with
      | idle => exact absurd (congrArg ConsumerPc.call hc) inside
      | compare =>
          by_cases h : s.ring.LooksEmpty
          · exact can_access_of (a := .consumerCompare) (l := none) rfl rfl
              (by simp only [access, hc, if_pos h]; rfl) (by simp) (by simp)
          · exact can_access_of (a := .consumerCompare) (l := none) rfl rfl
              (by simp only [access, hc, if_neg h]; rfl) (by simp) (by simp)
      | loadHead =>
          obtain ⟨head, hload⟩ := published_length s.start s.headStores
          have hseen := Nat.not_lt.mpr (seen_le hi.linked).2
          by_cases hempty : SpscRingBufferAtomicV4.LooksEmpty { s.ring with consumerHead := head }
          · refine ⟨.consumerLoadHead s.headStores.length, _, some .empty, rfl, rfl,
              by simp only [access, hc, hload, if_neg hseen, if_pos hempty]; rfl, by simp, ?_⟩
            exact fun _ => empty_of_latest hi hload hempty
          · exact can_access_of (a := .consumerLoadHead s.headStores.length) (l := none) rfl rfl
              (by simp only [access, hc, hload, if_neg hseen, if_neg hempty]; rfl) (by simp) (by simp)
      | readSlot =>
          exact can_access_of (a := .consumerReadSlot) (l := none) rfl rfl
            (by simp only [access, hc]; rfl) (by simp) (by simp)
      | storeTail out =>
          exact can_access_of (a := .consumerStoreTail) (l := some (.popped out)) rfl rfl
            (by simp only [access, hc]; rfl) (by simp) (by simp)

theorem can_go (start : UInt64) {s : State α C} (hi : Inv s) {d : Side}
    (inside : s.pending d ≠ none) :
    ∃ l s', (machine start).Own d s l s' ∧
      BoundedFifo.Step C.value true s.ring.contents l s'.ring.contents := by
  obtain ⟨a, s', l, hside, hentry, haccess, hfull, hempty⟩ := can_access hi inside
  have hstep : Step s l s' := ⟨a, haccess⟩
  exact ⟨l, s', ⟨a, hside, hentry, haccess⟩, (hstep.move.sound hi).2.to_honest hfull hempty⟩

/-- `SpscRingBufferAtomicV4` is the queue of `Capacity` values. -/
def lawful (start : UInt64) : Lawful (machine start : Machine (State α C) _ α) C.value false where
  Inv := Inv
  contents := fun s => s.ring.contents
  rank := State.rank
  inv_fresh := inv_startingAt start
  contents_fresh := (SpscRingBufferAtomicV4.startingAt_spec start).2
  pending_fresh := by
    intro d
    cases d <;> rfl
  entry_side := Access.entry_side
  pending_side := State.pending_side
  sound := fun {s i l s'} hi h =>
    have hstep : Step s l s' := ⟨i, h⟩
    hstep.move.sound hi
  enter := by
    intro s c hidle
    cases c with
    | push v =>
        cases hp : s.producer with
        | idle => exact ⟨.enterPush v, _, rfl, by simp only [machine, access, hp]; rfl⟩
        | _ => cases (congrArg ProducerPc.call hp).symm.trans hidle
    | pop =>
        cases hc : s.consumer with
        | idle => exact ⟨.enterPop, _, rfl, by simp only [machine, access, hc]; rfl⟩
        | _ => cases (congrArg ConsumerPc.call hc).symm.trans hidle
  turn := fun h => (access_turn h).1
  frame := fun h hd => (access_turn h).2 _ hd
  unblocked := fun hi inside => ⟨_, Or.inl rfl, can_go start hi inside⟩

/-- **`SpscRingBufferAtomicV4` is wait-free**: four accesses a call. -/
theorem machine_waitFree (start : UInt64) :
    (machine start : Machine (State α C) _ α).WaitFree 4 := by
  refine (lawful start).waitFree State.rank_le State.rank_pos ?_
  intro s d hi inside
  obtain ⟨l, s', hown, -⟩ := can_go start hi inside
  exact ⟨l, s', hown⟩

end InterleavingV4

end TradingGateway.Spsc
