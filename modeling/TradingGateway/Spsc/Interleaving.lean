/-
# `Spsc.Interleaving` — the calls of `SpscRingBufferAtomicV3`, one access at a time

One producer runs `push`/`emplace` calls, one consumer runs `pop` calls, and a
step of the system is one access of one of them:

    producer                            consumer
      enter push / emplace                enter pop
      load head_    (own, relaxed)        load tail_    (own, relaxed)
      load tail_    (slow path)           load head_    (slow path)
      write the slot                      read the slot
      store head_   (release)             store tail_   (release)

Between two steps of one side the other side may take any number of steps.

**The atomics.**  `headStores` and `tailStores` are the modification orders of
`head_` and `tail_`: every value stored after the initial 0, oldest first.  A
slow-path load may observe any entry that is not older than the one this side
observed last (`tailSeen`, `headSeen` are the positions observed); a side's own
index is only written by itself, so loading it gives the last value stored.
Slots are plain memory: a slot write before a release store is visible to the
acquire load that observes that store or a later one, and `Spsc.Fifo` shows
that no slot is written while it may be read.
-/
import TradingGateway.Spsc.RingBuffer

namespace TradingGateway.Spsc.Interleaving

open Lib Lib.BoundedFifo Lib.Cyclic SpscRingBufferAtomicV3

/-- A call of the producer: `push(value)` or `emplace(args...)`. -/
inductive PushCall (α Args : Type*) where
  | push (value : α)
  | emplace (args : Args)

/-- The value a call writes to its slot; `construct` is `T(args...)`. -/
def PushCall.value {α Args : Type*} (construct : Args → α) : PushCall α Args → α
  | .push value => value
  | .emplace args => construct args

/-- Where the producer is: its next access. -/
inductive ProducerPc (α Args : Type*) where
  | idle
  | loadHead (call : PushCall α Args)
  | loadTail (value : α) (head next : Nat)
  | writeSlot (value : α) (head next : Nat)
  | storeHead (value : α) (next : Nat)

/-- Where the consumer is: its next access. -/
inductive ConsumerPc (α : Type*) where
  | idle
  | loadTail
  | loadHead (tail : Nat)
  | readSlot (tail : Nat)
  | storeTail (tail : Nat) (out : α)

/-- Memory, the two modification orders, and both program counters. -/
structure State (α Args : Type*) (C : Capacity) where
  ring : SpscRingBufferAtomicV3 α C
  headStores : List Nat
  tailStores : List Nat
  tailSeen : Nat
  headSeen : Nat
  producer : ProducerPc α Args
  consumer : ConsumerPc α

/-- The `k`-th value of an atomic: the initial 0, then the stores in order. -/
def published (stores : List Nat) (k : Nat) : Option Nat :=
  (0 :: stores)[k]?

/-- One access, or the entry into a call. -/
inductive Access (α Args : Type*) where
  | enterPush (call : PushCall α Args)
  | producerLoadHead
  | producerLoadTail (k : Nat)
  | producerWriteSlot
  | producerStoreHead
  | enterPop
  | consumerLoadTail
  | consumerLoadHead (k : Nat)
  | consumerReadSlot
  | consumerStoreTail

variable {α Args : Type*} [Inhabited α] {C : Capacity}

/-- The fresh queue, both sides outside any call. -/
def State.fresh : State α Args C where
  ring := SpscRingBufferAtomicV3.fresh
  headStores := []
  tailStores := []
  tailSeen := 0
  headSeen := 0
  producer := .idle
  consumer := .idle

/-- One access.  `none` when the side is not at it, or when the store a slow
path load wants to observe is older than the last one observed or does not
exist.  The answer is given at the last access of a call. -/
def access (construct : Args → α) (s : State α Args C) :
    Access α Args → Option (State α Args C × Option (Answer α))
  | .enterPush call =>
      match s.producer with
      | .idle => some ({ s with producer := .loadHead call }, none)
      | _ => none
  | .producerLoadHead =>
      match s.producer with
      | .loadHead call =>
          let head := s.ring.head
          let next := increment C head
          let value := call.value construct
          if next = s.ring.producerTailCache then
            some ({ s with producer := .loadTail value head next }, none)
          else
            some ({ s with producer := .writeSlot value head next }, none)
      | _ => none
  | .producerLoadTail k =>
      match s.producer, published s.tailStores k with
      | .loadTail value head next, some tail =>
          if k < s.tailSeen then none
          else
            let s := { s with ring := { s.ring with producerTailCache := tail }, tailSeen := k }
            if next = tail then some ({ s with producer := .idle }, some (.refused value))
            else some ({ s with producer := .writeSlot value head next }, none)
      | _, _ => none
  | .producerWriteSlot =>
      match s.producer with
      | .writeSlot value head next =>
          some ({ s with
            ring := { s.ring with buffer := s.ring.buffer.setIfInBounds head value }
            producer := .storeHead value next }, none)
      | _ => none
  | .producerStoreHead =>
      match s.producer with
      | .storeHead value next =>
          some ({ s with
            ring := { s.ring with head := next }
            headStores := s.headStores ++ [next]
            producer := .idle }, some (.pushed value))
      | _ => none
  | .enterPop =>
      match s.consumer with
      | .idle => some ({ s with consumer := .loadTail }, none)
      | _ => none
  | .consumerLoadTail =>
      match s.consumer with
      | .loadTail =>
          let tail := s.ring.tail
          if tail = s.ring.consumerHeadCache then
            some ({ s with consumer := .loadHead tail }, none)
          else
            some ({ s with consumer := .readSlot tail }, none)
      | _ => none
  | .consumerLoadHead k =>
      match s.consumer, published s.headStores k with
      | .loadHead tail, some head =>
          if k < s.headSeen then none
          else
            let s := { s with ring := { s.ring with consumerHeadCache := head }, headSeen := k }
            if tail = head then some ({ s with consumer := .idle }, some .empty)
            else some ({ s with consumer := .readSlot tail }, none)
      | _, _ => none
  | .consumerReadSlot =>
      match s.consumer with
      | .readSlot tail =>
          some ({ s with consumer := .storeTail tail (cells s.ring.buffer tail) }, none)
      | _ => none
  | .consumerStoreTail =>
      match s.consumer with
      | .storeTail tail out =>
          some ({ s with
            ring := { s.ring with tail := increment C tail }
            tailStores := s.tailStores ++ [increment C tail]
            consumer := .idle }, some (.popped out))
      | _ => none

/-- A slow-path load that observes the latest store. -/
def Access.Latest (s : State α Args C) : Access α Args → Prop
  | .producerLoadTail k => k = s.tailStores.length
  | .consumerLoadHead k => k = s.headStores.length
  | _ => True

/-- The step relation; with `latest` set, slow-path loads are up to date. -/
def Step (construct : Args → α) (latest : Bool) (s : State α Args C) (l : Option (Answer α))
    (s' : State α Args C) : Prop :=
  ∃ a : Access α Args, (latest = true → a.Latest s) ∧ access construct s a = some (s', l)

/-- The start of every run. -/
def Fresh (s : State α Args C) : Prop := s = State.fresh

end TradingGateway.Spsc.Interleaving
