/-
# `Spsc.Uncached` — the calls of `SpscRingBufferAtomicV1` and `V2`, one access at a time

The first two lock-free steps of the ladder have no caches: a call loads its own index
and then always the other side's.

    producer                      consumer
      enter push                    enter pop
      load head_                    load tail_
      load tail_                    load head_
      write the slot                read the slot
      store head_                   store tail_

The two classes differ in the orders of their loads and stores.

| | loads of the other side's index |
| :-- | :-- |
| `SpscRingBufferAtomicV1` | sequentially consistent: the latest store |
| `SpscRingBufferAtomicV2` | acquire: any store not older than the one observed last |

`State.cached` reads a state as one of `SpscRingBufferAtomicV3` whose caches hold what
each side observed last.  With it an access is one of the moves of `Spsc.Fifo`, but for
the load of the own index, which here never skips the other load (`Step.cases`); so the
invariant of the two threads is the one proved there, and with `V1`'s loads the answers
are honest.
-/
import TradingGateway.Spsc.Ladder
import TradingGateway.Spsc.Machines

namespace TradingGateway.Spsc.Uncached

open Lib Lib.BoundedFifo Lib.QueueMachine Lib.Cyclic

open Interleaving (ProducerPc ConsumerPc published)

/-- The accesses; there is no `emplace`. -/
abbrev Access (α : Type*) := Interleaving.Access α Empty

/-- Memory, the two modification orders, and both program counters. -/
structure State (α : Type*) (C : Capacity) where
  ring : IndexRing α C
  headStores : List Nat
  tailStores : List Nat
  tailSeen : Nat
  headSeen : Nat
  producer : ProducerPc α Empty
  consumer : ConsumerPc α

variable {α : Type*} [Inhabited α] {C : Capacity}

def State.fresh : State α C where
  ring := IndexRing.fresh
  headStores := []
  tailStores := []
  tailSeen := 0
  headSeen := 0
  producer := .idle
  consumer := .idle

omit [Inhabited α] in
/-- The state as one of `SpscRingBufferAtomicV3`. -/
def State.cached (s : State α C) : Interleaving.State α Empty C where
  ring := {
    buffer := s.ring.buffer
    head := s.ring.head
    tail := s.ring.tail
    producerTailCache := s.tailSeen % C.value
    consumerHeadCache := s.headSeen % C.value }
  headStores := s.headStores
  tailStores := s.tailStores
  tailSeen := s.tailSeen
  headSeen := s.headSeen
  producer := s.producer
  consumer := s.consumer

/-- One access.  `none` when the side is not at it, or when a load wants to observe a
store that is older than the last one observed or does not exist. -/
def access (s : State α C) : Access α → Option (State α C × Option (Answer α))
  | .enterPush call =>
      match s.producer with
      | .idle => some ({ s with producer := .loadHead call }, none)
      | _ => none
  | .producerLoadHead =>
      match s.producer with
      | .loadHead call =>
          let head := s.ring.head
          some ({ s with
            producer := .loadTail (call.value Empty.elim) head (increment C head) }, none)
      | _ => none
  | .producerLoadTail k =>
      match s.producer, published s.tailStores k with
      | .loadTail value head next, some tail =>
          if k < s.tailSeen then none
          else
            let s := { s with tailSeen := k }
            if next = tail then some ({ s with producer := .idle }, some (.refused value))
            else some ({ s with producer := .writeSlot value head next }, none)
      | _, _ => none
  | .producerWriteSlot =>
      match s.producer with
      | .writeSlot value head next =>
          some ({ s with
            ring := { s.ring with buffer := s.ring.buffer.setIfInBounds head value }
            producer := .storeHead value next }, none)
      | _ => none
  | .producerStoreHead =>
      match s.producer with
      | .storeHead value next =>
          some ({ s with
            ring := { s.ring with head := next }
            headStores := s.headStores ++ [next]
            producer := .idle }, some (.pushed value))
      | _ => none
  | .enterPop =>
      match s.consumer with
      | .idle => some ({ s with consumer := .loadTail }, none)
      | _ => none
  | .consumerLoadTail =>
      match s.consumer with
      | .loadTail => some ({ s with consumer := .loadHead s.ring.tail }, none)
      | _ => none
  | .consumerLoadHead k =>
      match s.consumer, published s.headStores k with
      | .loadHead tail, some head =>
          if k < s.headSeen then none
          else
            let s := { s with headSeen := k }
            if tail = head then some ({ s with consumer := .idle }, some .empty)
            else some ({ s with consumer := .readSlot tail }, none)
      | _, _ => none
  | .consumerReadSlot =>
      match s.consumer with
      | .readSlot tail =>
          some ({ s with consumer := .storeTail tail (cells s.ring.buffer tail) }, none)
      | _ => none
  | .consumerStoreTail =>
      match s.consumer with
      | .storeTail tail out =>
          some ({ s with
            ring := { s.ring with tail := increment C tail }
            tailStores := s.tailStores ++ [increment C tail]
            consumer := .idle }, some (.popped out))
      | _ => none

omit [Inhabited α] in
/-- A load of the other side's index that observes the latest store. -/
def Latest (s : State α C) (a : Access α) : Prop := a.Latest s.cached

omit [Inhabited α] in
instance (s : State α C) (a : Access α) : Decidable (Latest s a) :=
  match a with
  | .producerLoadTail k => inferInstanceAs (Decidable (k = s.tailStores.length))
  | .consumerLoadHead k => inferInstanceAs (Decidable (k = s.headStores.length))
  | .enterPush _ | .producerLoadHead | .producerWriteSlot | .producerStoreHead | .enterPop
  | .consumerLoadTail | .consumerReadSlot | .consumerStoreTail => isTrue trivial

/-- One access of `SpscRingBufferAtomicV1` or, with `latest` unset, of
`SpscRingBufferAtomicV2`. -/
def accessAt (latest : Bool) (s : State α C) (a : Access α) :
    Option (State α C × Option (Answer α)) :=
  if latest = true ∧ ¬ Latest s a then none else access s a

theorem accessAt_eq {latest : Bool} {s : State α C} {a : Access α}
    {r : State α C × Option (Answer α)} (h : accessAt latest s a = some r) :
    access s a = some r ∧ (latest = true → Latest s a) := by
  unfold accessAt at h
  split at h
  next => cases h
  next hne => exact ⟨h, fun hl => not_not.mp fun hn => hne ⟨hl, hn⟩⟩

/-! ## What one access can do -/

/-- The invariant of the two threads. -/
def Inv (s : State α C) : Prop := Interleaving.Inv s.cached

/-- An access is a move of `SpscRingBufferAtomicV3`, or the load of an own index, behind
which the other side's is loaded in any case. -/
theorem access_cases {latest : Bool} {s s' : State α C} {a : Access α} {l : Option (Answer α)}
    (hi : Inv s) (h : access s a = some (s', l)) (up : latest = true → Latest s a) :
    Interleaving.Move Empty.elim latest s.cached l s'.cached ∨
      (l = none ∧ ∃ value, s'.cached = { s.cached with
        producer := .loadTail value s.ring.head (increment C s.ring.head) }) ∨
      (l = none ∧ s'.cached = { s.cached with consumer := .loadHead s.ring.tail }) := by
  cases a with
  | enterPush call =>
      simp only [access] at h
      split at h
      next hp => cases h; exact Or.inl (.enterPush call hp)
      next => cases h
  | producerLoadHead =>
      simp only [access] at h
      split at h
      next => cases h; exact Or.inr (Or.inl ⟨rfl, _, rfl⟩)
      next => cases h
  | producerLoadTail k =>
      simp only [access] at h
      split at h
      next hp hk =>
        obtain ⟨rfl, -⟩ := hi.tailPublishes k _ hk
        split at h
        next => cases h
        next hseen =>
          split at h
          next hfull =>
            subst hfull
            cases h
            exact Or.inl (.tailFull hp hk (not_lt.mp hseen) up)
          next hroom => cases h; exact Or.inl (.tailRoom hp hk (not_lt.mp hseen) hroom)
      next => cases h
  | producerWriteSlot =>
      simp only [access] at h
      split at h
      next hp => cases h; exact Or.inl (.writeSlot hp)
      next => cases h
  | producerStoreHead =>
      simp only [access] at h
      split at h
      next hp => cases h; exact Or.inl (.storeHead hp)
      next => cases h
  | enterPop =>
      simp only [access] at h
      split at h
      next hc => cases h; exact Or.inl (.enterPop hc)
      next => cases h
  | consumerLoadTail =>
      simp only [access] at h
      split at h
      next => cases h; exact Or.inr (Or.inr ⟨rfl, rfl⟩)
      next => cases h
  | consumerLoadHead k =>
      simp only [access] at h
      split at h
      next hc hk =>
        obtain ⟨rfl, -⟩ := hi.headPublishes k _ hk
        split at h
        next => cases h
        next hseen =>
          split at h
          next hempty =>
            subst hempty
            cases h
            exact Or.inl (.headEmpty hc hk (not_lt.mp hseen) up)
          next hsome => cases h; exact Or.inl (.headSome hc hk (not_lt.mp hseen) hsome)
      next => cases h
  | consumerReadSlot =>
      simp only [access] at h
      split at h
      next hc => cases h; exact Or.inl (.readSlot hc)
      next => cases h
  | consumerStoreTail =>
      simp only [access] at h
      split at h
      next hc => cases h; exact Or.inl (.storeTail hc)
      next => cases h

/-- **One access**: the invariant is kept, and the slots from `tail_` up to `head_` change
as the abstract queue says. -/
theorem access_sound {latest : Bool} {s s' : State α C} {a : Access α} {l : Option (Answer α)}
    (hi : Inv s) (h : accessAt latest s a = some (s', l)) :
    Inv s' ∧ BoundedFifo.Step (C.value - 1) latest s.cached.ring.contents l
      s'.cached.ring.contents := by
  obtain ⟨haccess, up⟩ := accessAt_eq h
  have hlinked := Interleaving.Inv.linked hi
  have hhead : s.ring.head = s.cached.counts.pushed % C.value := hlinked.head_eq
  have htail : s.ring.tail = s.cached.counts.popped % C.value := hlinked.tail_eq
  rcases access_cases hi haccess up with hmove | ⟨rfl, value, heq⟩ | ⟨rfl, heq⟩
  · exact hmove.sound hi
  · rw [Inv, heq]
    refine ⟨⟨hlinked, hi.headPublishes, hi.tailPublishes, ⟨hhead, ?_⟩, hi.consumer⟩, .silent _⟩
    rw [hhead, increment_mod]
    rfl
  · rw [Inv, heq]
    exact ⟨⟨hlinked, hi.headPublishes, hi.tailPublishes, hi.producer, htail⟩, .silent _⟩

/-! ## The two machines -/

omit [Inhabited α] in
def State.pending (s : State α C) : Side → Option (Call α) := s.cached.pending Empty.elim

omit [Inhabited α] in
def State.rank (s : State α C) : Side → Nat := s.cached.rank

theorem access_turn {s s' : State α C} {a : Access α} {l : Option (Answer α)}
    (h : access s a = some (s', l)) :
    Turn State.rank State.pending a.side s (a.entry Empty.elim) l s' ∧
      ∀ d ≠ a.side, s'.pending d = s.pending d ∧ s'.rank d = s.rank d := by
  have producer : ∀ {pc}, s.producer = pc → s.pending .producer = pc.call Empty.elim :=
    fun hp => congrArg (ProducerPc.call Empty.elim) hp
  have consumer : ∀ {pc}, s.consumer = pc → s.pending .consumer = pc.call :=
    fun hc => congrArg ConsumerPc.call hc
  have lessP : ∀ {pc} {t : State α C}, s.producer = pc → t.producer.rank < pc.rank →
      t.rank .producer < s.rank .producer :=
    fun hp hlt => Interleaving.State.rank_lt_producer (s := s.cached) hp hlt
  have lessC : ∀ {pc} {t : State α C}, s.consumer = pc → t.consumer.rank < pc.rank →
      t.rank .consumer < s.rank .consumer :=
    fun hc hlt => Interleaving.State.rank_lt_consumer (s := s.cached) hc hlt
  have frameP : ∀ {t : State α C}, t.consumer = s.consumer →
      ∀ d ≠ Side.producer, t.pending d = s.pending d ∧ t.rank d = s.rank d :=
    fun heq => Interleaving.State.frame_producer (s := s.cached) heq
  have frameC : ∀ {t : State α C}, t.producer = s.producer →
      ∀ d ≠ Side.consumer, t.pending d = s.pending d ∧ t.rank d = s.rank d :=
    fun heq => Interleaving.State.frame_consumer (s := s.cached) heq
  cases a with
  | enterPush call =>
      simp only [access] at h
      split at h
      next hp => cases h; exact ⟨.enter (producer hp) rfl, frameP rfl⟩
      next => cases h
  | producerLoadHead =>
      simp only [access] at h
      split at h
      next hp =>
        cases h
        exact ⟨.onward (producer hp) rfl (lessP hp (by simp [ProducerPc.rank])), frameP rfl⟩
      next => cases h
  | producerLoadTail k =>
      simp only [access] at h
      split at h
      next hp _ =>
        split at h
        next => cases h
        next =>
          split at h
          next => cases h; exact ⟨.answered (producer hp) (.refused _) rfl, frameP rfl⟩
          next =>
            cases h
            exact ⟨.onward (producer hp) rfl (lessP hp (by simp [ProducerPc.rank])), frameP rfl⟩
      next => cases h
  | producerWriteSlot =>
      simp only [access] at h
      split at h
      next hp =>
        cases h
        exact ⟨.onward (producer hp) rfl (lessP hp (by simp [ProducerPc.rank])), frameP rfl⟩
      next => cases h
  | producerStoreHead =>
      simp only [access] at h
      split at h
      next hp => cases h; exact ⟨.answered (producer hp) (.pushed _) rfl, frameP rfl⟩
      next => cases h
  | enterPop =>
      simp only [access] at h
      split at h
      next hc => cases h; exact ⟨.enter (consumer hc) rfl, frameC rfl⟩
      next => cases h
  | consumerLoadTail =>
      simp only [access] at h
      split at h
      next hc =>
        cases h
        exact ⟨.onward (consumer hc) rfl (lessC hc (by simp [ConsumerPc.rank])), frameC rfl⟩
      next => cases h
  | consumerLoadHead k =>
      simp only [access] at h
      split at h
      next hc _ =>
        split at h
        next => cases h
        next =>
          split at h
          next => cases h; exact ⟨.answered (consumer hc) .empty rfl, frameC rfl⟩
          next =>
            cases h
            exact ⟨.onward (consumer hc) rfl (lessC hc (by simp [ConsumerPc.rank])), frameC rfl⟩
      next => cases h
  | consumerReadSlot =>
      simp only [access] at h
      split at h
      next hc =>
        cases h
        exact ⟨.onward (consumer hc) rfl (lessC hc (by simp [ConsumerPc.rank])), frameC rfl⟩
      next => cases h
  | consumerStoreTail =>
      simp only [access] at h
      split at h
      next hc => cases h; exact ⟨.answered (consumer hc) (.popped _) rfl, frameC rfl⟩
      next => cases h

/-- `SpscRingBufferAtomicV1` or `SpscRingBufferAtomicV2` as a queue machine. -/
def machine (latest : Bool) : Machine (State α C) (Access α) α where
  fresh := State.fresh
  side := Interleaving.Access.side
  entry := Interleaving.Access.entry Empty.elim
  access := accessAt latest
  pending := State.pending

theorem can_access {s : State α C} (hi : Inv s) {d : Side} (inside : s.pending d ≠ none) :
    ∃ a, a.side = d ∧ a.entry Empty.elim = none ∧ Latest s a ∧ (access s a).isSome := by
  have hlinked := Interleaving.Inv.linked hi
  cases d with
  | producer =>
      cases hp : s.producer with
      | idle => exact absurd (congrArg (ProducerPc.call Empty.elim) hp) inside
      | loadHead call => exact ⟨.producerLoadHead, rfl, rfl, trivial, by simp only [access, hp]; rfl⟩
      | loadTail value head next =>
          obtain ⟨tail, hload⟩ := Interleaving.published_length s.tailStores
          have hseen : ¬ s.tailStores.length < s.tailSeen := Nat.not_lt.mpr hlinked.tailSeen_le
          refine ⟨.producerLoadTail s.tailStores.length, rfl, rfl, rfl, ?_⟩
          simp only [access, hp, hload, if_neg hseen]
          split <;> rfl
      | writeSlot value head next =>
          exact ⟨.producerWriteSlot, rfl, rfl, trivial, by simp only [access, hp]; rfl⟩
      | storeHead value next =>
          exact ⟨.producerStoreHead, rfl, rfl, trivial, by simp only [access, hp]; rfl⟩
  | consumer =>
      cases hc : s.consumer with
      | idle => exact absurd (congrArg ConsumerPc.call hc) inside
      | loadTail => exact ⟨.consumerLoadTail, rfl, rfl, trivial, by simp only [access, hc]; rfl⟩
      | loadHead tail =>
          obtain ⟨head, hload⟩ := Interleaving.published_length s.headStores
          have hseen : ¬ s.headStores.length < s.headSeen := Nat.not_lt.mpr hlinked.headSeen_le
          refine ⟨.consumerLoadHead s.headStores.length, rfl, rfl, rfl, ?_⟩
          simp only [access, hc, hload, if_neg hseen]
          split <;> rfl
      | readSlot tail =>
          exact ⟨.consumerReadSlot, rfl, rfl, trivial, by simp only [access, hc]; rfl⟩
      | storeTail tail out =>
          exact ⟨.consumerStoreTail, rfl, rfl, trivial, by simp only [access, hc]; rfl⟩

/-- An access that is up to date is one of either class. -/
theorem accessAt_of_latest {s : State α C} {a : Access α} (h : Latest s a) (latest : Bool) :
    accessAt latest s a = access s a :=
  if_neg fun hn => hn.2 h

theorem can_go (latest : Bool) {s : State α C} (hi : Inv s) {d : Side}
    (inside : s.pending d ≠ none) :
    ∃ l s', (machine latest).Own d s l s' ∧
      BoundedFifo.Step (C.value - 1) true s.cached.ring.contents l s'.cached.ring.contents := by
  obtain ⟨a, hside, hentry, hlatest, hsome⟩ := can_access hi inside
  obtain ⟨⟨s', l⟩, haccess⟩ := Option.isSome_iff_exists.mp hsome
  have hany : ∀ latest, accessAt latest s a = some (s', l) :=
    fun latest => (accessAt_of_latest hlatest latest).trans haccess
  exact ⟨l, s', ⟨a, hside, hentry, hany latest⟩, (access_sound hi (hany true)).2⟩

/-- `SpscRingBufferAtomicV1` and `SpscRingBufferAtomicV2` are the queue of `Capacity - 1`
values, and the answers of the first are honest. -/
def lawful (latest : Bool) :
    Lawful (machine latest : Machine (State α C) _ α) (C.value - 1) latest where
  Inv := Inv
  contents := fun s => s.cached.ring.contents
  rank := State.rank
  inv_fresh := by
    have hfresh : (State.fresh : State α C).cached = Interleaving.State.fresh := by
      simp [State.cached, State.fresh, IndexRing.fresh, Interleaving.State.fresh,
        SpscRingBufferAtomicV3.fresh]
    show Interleaving.Inv (State.fresh : State α C).cached
    rw [hfresh]
    exact Interleaving.inv_fresh
  contents_fresh := by
    have hfresh : (State.fresh : State α C).cached.ring = SpscRingBufferAtomicV3.fresh := by
      simp [State.cached, State.fresh, IndexRing.fresh, SpscRingBufferAtomicV3.fresh]
    show (State.fresh : State α C).cached.ring.contents = []
    rw [hfresh]
    exact SpscRingBufferAtomicV3.contents_fresh
  pending_fresh := by
    intro d
    cases d <;> rfl
  entry_side := Interleaving.Access.entry_side
  pending_side := Interleaving.State.pending_side
  sound := fun hi h => access_sound hi h
  enter := by
    intro s c hidle
    cases c with
    | push v =>
        have hp : s.producer = .idle := ProducerPc.call_eq_none hidle
        have haccess : access s (.enterPush (.push v))
            = some ({ s with producer := .loadHead (.push v) }, none) := by
          simp only [access, hp]
        have hlatest : Latest s (.enterPush (.push v)) := trivial
        exact ⟨.enterPush (.push v), _, rfl, (accessAt_of_latest hlatest latest).trans haccess⟩
    | pop =>
        have hc : s.consumer = .idle := ConsumerPc.call_eq_none hidle
        have haccess : access s .enterPop = some ({ s with consumer := .loadTail }, none) := by
          simp only [access, hc]
        have hlatest : Latest s .enterPop := trivial
        exact ⟨.enterPop, _, rfl, (accessAt_of_latest hlatest latest).trans haccess⟩
  turn := fun h => (access_turn (accessAt_eq h).1).1
  frame := fun h hd => (access_turn (accessAt_eq h).1).2 _ hd
  unblocked := fun hi inside => ⟨_, Or.inl rfl, can_go latest hi inside⟩

/-- **`SpscRingBufferAtomicV1` and `SpscRingBufferAtomicV2` are wait-free.** -/
theorem machine_waitFree (latest : Bool) :
    (machine latest : Machine (State α C) _ α).WaitFree 4 := by
  refine (lawful latest).waitFree (fun s => s.cached.rank_le) Interleaving.State.rank_pos ?_
  intro s d hi inside
  obtain ⟨l, s', hown, -⟩ := can_go latest hi inside
  exact ⟨l, s', hown⟩

end TradingGateway.Spsc.Uncached
