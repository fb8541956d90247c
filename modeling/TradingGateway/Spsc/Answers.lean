/-
# `Spsc.Answers` — what `false` means, and who is at which slot

Two results about single instants of an interleaving.

**Full and empty** (`answers_are_honest`).  `push` answers `false` at its load of
`tail_`, `pop` at its load of `head_`.  When such a load shows the latest store, the
ring is full or empty at that instant; what is full and empty is said by the stores
published, not by the caches, and a ring is full with one slot unused.  A call that
answers `false` has only moved its own cache:

| producer at | since the call was entered |
| :-- | :-- |
| `loadHead`, `loadTail` | neither `head_` nor a slot was stored to |
| `writeSlot`, `storeHead` | the call will answer `true` |

and the consumer likewise.  So it is enough to walk back from the answer to the entry.

**Slots** (`slots_apart`).  A producer about to write and a consumer about to read are at
different slots: their counts are less than a lap apart, by what each has seen of the
other, in the ring that keeps a slot free and in the one that does not.
-/
import TradingGateway.Spsc.Fifo
import TradingGateway.Spsc.FifoV4

namespace TradingGateway.Spsc.Interleaving

open Lib Lib.BoundedFifo Lib.Cyclic SpscRingBufferAtomicV3

variable {α Args : Type*} {C : Capacity}

/-- The producer has not decided that there is room. -/
def ProducerPc.Undecided : ProducerPc α Args → Prop
  | .idle | .loadHead _ | .loadTail _ _ _ => True
  | .writeSlot _ _ _ | .storeHead _ _ => False

/-- What the call has assigned to `out`. -/
def ConsumerPc.assigned : ConsumerPc α → Option α
  | .storeTail _ out => some out
  | _ => none

/-- The consumer has not decided that there is a value. -/
def ConsumerPc.Undecided : ConsumerPc α → Prop
  | .idle | .loadTail | .loadHead _ => True
  | .readSlot _ | .storeTail _ _ => False

theorem ConsumerPc.Undecided.assigned {pc : ConsumerPc α} (h : pc.Undecided) :
    pc.assigned = none := by
  cases pc with
  | idle | loadTail | loadHead => rfl
  | readSlot | storeTail => exact h.elim

variable [Inhabited α] {construct : Args → α} {latest : Bool}

theorem Inv.length_headStores {s : State α Args C} (h : Inv s) :
    s.headStores.length = s.tailStores.length + s.ring.contents.length := by
  have hle : s.tailStores.length ≤ s.headStores.length :=
    h.linked.popped_le.trans h.linked.headSeen_le
  have hlen : s.ring.contents.length = s.headStores.length - s.tailStores.length :=
    h.linked.length_contents
  omega

section Moves

variable {s s' : State α Args C} {l : Option (Answer α)}

/-- A step behind which the producer is inside an undecided call stored to no slot and
not to `head_`, and the call was undecided before it. -/
theorem Move.back_push (h : Move construct latest s l s') (pc : s'.producer.Undecided)
    (inside : s'.producer ≠ .idle ∨ ∃ value, l = some (.refused value)) :
    s.producer.Undecided ∧ s'.ring.head = s.ring.head ∧ s'.ring.buffer = s.ring.buffer := by
  cases h with
  | enterPush call hp => exact ⟨hp ▸ trivial, rfl, rfl⟩
  | headSlow hp | headFast hp => exact ⟨hp ▸ trivial, rfl, rfl⟩
  | tailFull hp | tailRoom hp => exact ⟨hp ▸ trivial, rfl, rfl⟩
  | writeSlot hp => exact pc.elim
  | storeHead hp =>
      rcases inside with inside | ⟨value, inside⟩
      · exact absurd rfl inside
      · cases inside
  | enterPop | tailSlow | tailFast | headEmpty | headSome | readSlot | storeTail =>
      exact ⟨pc, rfl, rfl⟩

theorem Move.back_pop (h : Move construct latest s l s') (pc : s'.consumer.Undecided)
    (inside : s'.consumer ≠ .idle ∨ l = some .empty) :
    s.consumer.Undecided ∧ s'.ring.tail = s.ring.tail := by
  cases h with
  | enterPop hc => exact ⟨hc ▸ trivial, rfl⟩
  | tailSlow hc | tailFast hc => exact ⟨hc ▸ trivial, rfl⟩
  | headEmpty hc | headSome hc => exact ⟨hc ▸ trivial, rfl⟩
  | readSlot hc => exact pc.elim
  | storeTail hc =>
      rcases inside with inside | inside
      · exact absurd rfl inside
      · cases inside
  | enterPush | headSlow | headFast | tailFull | tailRoom | writeSlot | storeHead =>
      exact ⟨pc, rfl⟩

theorem Move.refused_at {value : α} (h : Move construct latest s l s')
    (hl : l = some (.refused value)) :
    (∃ head next, s.producer = .loadTail value head next) ∧ s'.producer = .idle := by
  cases h with
  | tailFull hp =>
      obtain rfl := Answer.refused.inj (Option.some.inj hl)
      exact ⟨⟨_, _, hp⟩, rfl⟩
  | _ => cases hl

theorem Move.empty_at (h : Move construct latest s l s') (hl : l = some .empty) :
    (∃ tail, s.consumer = .loadHead tail) ∧ s'.consumer = .idle := by
  cases h with
  | headEmpty hc => exact ⟨⟨_, hc⟩, rfl⟩
  | _ => cases hl

end Moves

/-! ## Answers -/

variable {ts us vs ws : List (Taken (State α Args C) (Option (Answer α)))}
  {t : Taken (State α Args C) (Option (Answer α))} {s : State α Args C}

/-- Between the entry of a push and its refusal neither `head_` nor a slot is stored to. -/
theorem unchanged_of_refused (h : Run Fresh (Step construct latest) (us ++ (vs ++ [t])) s)
    {value : α} (hl : t.label = some (.refused value)) (inside : ∀ x ∈ vs, x.dst.producer ≠ .idle) :
    ∀ x ∈ vs ++ [t], x.src.ring.head = s.ring.head ∧ x.src.ring.buffer = s.ring.buffer := by
  have hlast : Run Fresh (Step construct latest) ((us ++ vs) ++ [t]) s := by
    rw [List.append_assoc]
    exact h
  obtain ⟨-, hstep, rfl⟩ := hlast.last
  have hidle := (hstep.move.refused_at hl).2
  have hwalk := h.back (R := fun x => x.producer.Undecided ∧ x.ring.head = t.dst.ring.head ∧
    x.ring.buffer = t.dst.ring.buffer) ?_ ⟨hidle ▸ trivial, rfl, rfl⟩
  · exact fun x hx => (hwalk x hx).2
  · rintro x hx hstep' ⟨pc, hhead, hbuffer⟩
    have hinside : x.dst.producer ≠ .idle ∨ ∃ value, x.label = some (.refused value) := by
      rcases List.mem_append.mp hx with hx | hx
      · exact Or.inl (inside x hx)
      · rw [List.mem_singleton.mp hx]
        exact Or.inr ⟨value, hl⟩
    obtain ⟨pc', hhead', hbuffer'⟩ := hstep'.move.back_push pc hinside
    exact ⟨pc', hhead'.symm.trans hhead, hbuffer'.symm.trans hbuffer⟩

theorem unchanged_of_empty (h : Run Fresh (Step construct latest) (us ++ (vs ++ [t])) s)
    (hl : t.label = some .empty) (inside : ∀ x ∈ vs, x.dst.consumer ≠ .idle) :
    ∀ x ∈ vs ++ [t], x.src.ring.tail = s.ring.tail ∧ x.src.consumer.assigned = none := by
  have hlast : Run Fresh (Step construct latest) ((us ++ vs) ++ [t]) s := by
    rw [List.append_assoc]
    exact h
  obtain ⟨-, hstep, rfl⟩ := hlast.last
  have hidle := (hstep.move.empty_at hl).2
  have hwalk := h.back (R := fun x => x.consumer.Undecided ∧ x.ring.tail = t.dst.ring.tail) ?_
    ⟨hidle ▸ trivial, rfl⟩
  · exact fun x hx => ⟨(hwalk x hx).2, (hwalk x hx).1.assigned⟩
  · rintro x hx hstep' ⟨pc, htail⟩
    have hinside : x.dst.consumer ≠ .idle ∨ x.label = some .empty := by
      rcases List.mem_append.mp hx with hx | hx
      · exact Or.inl (inside x hx)
      · rw [List.mem_singleton.mp hx]
        exact Or.inr hl
    obtain ⟨pc', htail'⟩ := hstep'.move.back_pop pc hinside
    exact ⟨pc', htail'.symm.trans htail⟩

/-- **The full and the empty answer are honest** where slow-path loads are up to date.
`t` is a step of the run, and the steps `vs` before it are taken while the call that it
answers is under way, from its entry on. -/
theorem answers_are_honest (h : Run Fresh (Step construct true) ts s)
    (hsplit : ts = us ++ (vs ++ t :: ws)) :
    (∀ value, t.label = some (.refused value) →
      (∃ head next, t.src.producer = .loadTail value head next) ∧
      t.src.headStores.length = t.src.tailStores.length + (C.value - 1) ∧
      ((∀ x ∈ vs, x.dst.producer ≠ .idle) → ∀ x ∈ vs ++ [t],
        x.src.ring.head = t.dst.ring.head ∧ x.src.ring.buffer = t.dst.ring.buffer)) ∧
    (t.label = some .empty →
      (∃ tail, t.src.consumer = .loadHead tail) ∧
      t.src.headStores.length = t.src.tailStores.length ∧
      ((∀ x ∈ vs, x.dst.consumer ≠ .idle) → ∀ x ∈ vs ++ [t],
        x.src.ring.tail = t.dst.ring.tail ∧ x.src.consumer.assigned = none)) ∧
    ∀ value, t.label = some (.pushed value) →
      t.dst.headStores.length ≤ t.dst.tailStores.length + (C.value - 1) := by
  have hcut : Run Fresh (Step construct true) ((us ++ vs) ++ t :: ws) s := by
    rw [List.append_assoc, ← hsplit]
    exact h
  obtain ⟨hrun, hstep, hrun'⟩ := hcut.cut
  rw [List.append_assoc] at hrun'
  have hinv := (simulates hrun).1
  obtain ⟨hinv', hqueue⟩ := hstep.move.sound hinv
  refine ⟨fun value hl => ⟨?_, ?_, ?_⟩, fun hl => ⟨?_, ?_, ?_⟩, fun value hl => ?_⟩
  · exact (hstep.move.refused_at hl).1
  · rw [hl] at hqueue
    rw [hinv.length_headStores, hqueue.full]
  · exact unchanged_of_refused hrun' hl
  · exact (hstep.move.empty_at hl).1
  · rw [hl] at hqueue
    rw [hinv.length_headStores, hqueue.nil]
    rfl
  · exact unchanged_of_empty hrun' hl
  · rw [hl] at hqueue
    rw [hinv'.length_headStores]
    exact Nat.add_le_add_left hqueue.room _

instance (s : State α Args C) (a : Access α Args) : Decidable (a.Latest s) :=
  match a with
  | .producerLoadTail k => inferInstanceAs (Decidable (k = s.tailStores.length))
  | .consumerLoadHead k => inferInstanceAs (Decidable (k = s.headStores.length))
  | .enterPush _ | .producerLoadHead | .producerWriteSlot | .producerStoreHead | .enterPop
  | .consumerLoadTail | .consumerReadSlot | .consumerStoreTail => isTrue trivial

/-- An access whose slow-path load is up to date. -/
def latestAccess (construct : Args → α) (s : State α Args C) (a : Access α Args) :
    Option (State α Args C × Option (Answer α)) :=
  if a.Latest s then access construct s a else none

theorem step_of_latestAccess {s s' : State α Args C} {a : Access α Args} {l : Option (Answer α)}
    (h : latestAccess construct s a = some (s', l)) : Step construct true s l s' := by
  unfold latestAccess at h
  split at h
  next hlatest => exact ⟨a, fun _ => hlatest, h⟩
  next => cases h

/-- The smallest ring is full with one value, and refuses the next at its load. -/
theorem answers_are_honest_full :
    ∃ us vs t s₁ s₂ s₃,
      replay (latestAccess (C := Capacity.two) (id : Nat → Nat)) State.fresh
        [.enterPush (.push 7), .producerLoadHead, .producerWriteSlot, .producerStoreHead]
          = some (us, s₁) ∧
      replay (latestAccess id) s₁ [.enterPush (.push 8), .producerLoadHead] = some (vs, s₂) ∧
      replay (latestAccess id) s₂ [.producerLoadTail 0] = some ([t], s₃) ∧
      t.label = some (.refused 8) ∧
      t.src.headStores.length = t.src.tailStores.length + 1 ∧
      ∀ x ∈ vs ++ [t],
        x.src.ring.head = t.dst.ring.head ∧ x.src.ring.buffer = t.dst.ring.buffer := by
  have hplayed : ∃ us vs t s₁ s₂ s₃,
      replay (latestAccess (C := Capacity.two) (id : Nat → Nat)) State.fresh
        [.enterPush (.push 7), .producerLoadHead, .producerWriteSlot, .producerStoreHead]
          = some (us, s₁) ∧
      replay (latestAccess id) s₁ [.enterPush (.push 8), .producerLoadHead] = some (vs, s₂) ∧
      replay (latestAccess id) s₂ [.producerLoadTail 0] = some ([t], s₃) ∧
      t.label = some (.refused 8) ∧ ∀ x ∈ vs, x.dst.producer ≠ .idle := by
    refine ⟨_, _, _, _, _, _, rfl, rfl, rfl, rfl, ?_⟩
    refine List.forall_mem_cons.mpr ⟨?_, List.forall_mem_cons.mpr ⟨?_, List.forall_mem_nil _⟩⟩
    · intro h
      cases h
    · intro h
      cases h
  obtain ⟨us, vs, t, s₁, s₂, s₃, hus, hvs, ht, hl, inside⟩ := hplayed
  have hf : ∀ (s : State Nat Nat Capacity.two) a s' l, latestAccess id s a = some (s', l) →
      Step id true s l s' := fun _ _ _ _ => step_of_latestAccess
  have hstart : Run Fresh (Step id true) [] (State.fresh : State Nat Nat Capacity.two) := .start rfl
  have h := ((hstart.replay hf hus).replay hf hvs).replay hf ht
  obtain ⟨-, hfull, hsame⟩ := (answers_are_honest h (List.append_assoc us vs [t])).1 8 hl
  exact ⟨us, vs, t, s₁, s₂, s₃, hus, hvs, ht, hl, hfull, hsame inside⟩

end TradingGateway.Spsc.Interleaving

/-! ## Slots -/

namespace TradingGateway.Spsc

open Lib Lib.BoundedFifo

theorem Interleaving.Inv.slot_ne {α Args : Type*} [Inhabited α] {C : Capacity}
    {s : Interleaving.State α Args C} (h : Interleaving.Inv s) {value : α} {head next tail : Nat}
    (hp : s.producer = .writeSlot value head next) (hc : s.consumer = .readSlot tail) :
    head ≠ tail := by
  have hprod := h.producer
  have hcons := h.consumer
  rw [hp] at hprod
  rw [hc] at hcons
  obtain ⟨rfl, -, -⟩ := hprod
  obtain ⟨rfl, hsome⟩ := hcons
  exact (Interleaving.Linked.slots_ne h.linked hsome).symm

theorem InterleavingV4.Inv.slot_ne {α : Type*} [Inhabited α] {C : CounterCapacity}
    {s : InterleavingV4.State α C} (h : InterleavingV4.Inv s) {value : α}
    (hp : s.producer = .writeSlot value) (hc : s.consumer = .readSlot) :
    idxOf C s.ring.producerHead ≠ idxOf C s.ring.consumerTail := by
  have hprod := h.producer
  have hcons := h.consumer
  rw [hp] at hprod
  rw [hc] at hcons
  rw [h.linked.producerHead_eq, h.linked.consumerTail_eq, C.idxOf_ofNat, C.idxOf_ofNat]
  exact (h.linked.slots_ne hprod hcons).symm

/-- **Producer and consumer are never at the same slot**, whatever the loads observe and
wherever the counters started. -/
theorem slots_apart {α Args : Type*} [Inhabited α] (C : Capacity) (C' : CounterCapacity) :
    (∀ (construct : Args → α) ts s,
      Run Interleaving.Fresh (Interleaving.Step construct false (C := C)) ts s →
      ∀ value head next tail, s.producer = .writeSlot value head next →
        s.consumer = .readSlot tail → head ≠ tail) ∧
    ∀ start ts (s : InterleavingV4.State α C'),
      Run (· = InterleavingV4.State.startingAt start) InterleavingV4.Step ts s →
      ∀ value, s.producer = .writeSlot value → s.consumer = .readSlot →
        idxOf C' s.ring.producerHead ≠ idxOf C' s.ring.consumerTail := by
  constructor
  · intro construct ts s h value head next tail hp hc
    exact (Interleaving.simulates h).1.slot_ne hp hc
  · intro start ts s h value hp hc
    exact (InterleavingV4.simulates h).1.slot_ne hp hc

/-- Room for three. -/
def four : Capacity := ⟨4, by decide, rfl⟩

/-- Both can be at a slot: a pop has found the one value, and a push has found room. -/
theorem slots_apart_bothInside :
    (∃ ts s, Run Interleaving.Fresh (Interleaving.Step (id : Nat → Nat) false (C := four)) ts s ∧
      ∃ head next tail, s.producer = .writeSlot 8 head next ∧ s.consumer = .readSlot tail ∧
        head ≠ tail) ∧
    ∃ ts s, Run (· = InterleavingV4.State.startingAt (C := InterleavingV4.CounterCapacity.two) (-1))
        InterleavingV4.Step ts s ∧
      s.producer = .writeSlot 8 ∧ s.consumer = .readSlot ∧
      idxOf InterleavingV4.CounterCapacity.two s.ring.producerHead
        ≠ idxOf InterleavingV4.CounterCapacity.two s.ring.consumerTail := by
  obtain ⟨hV3, hV4⟩ := @slots_apart Nat Nat _ four InterleavingV4.CounterCapacity.two
  constructor
  · obtain ⟨r, hr, hp, hc⟩ : ∃ r, replay (Interleaving.access (C := four) id) .fresh
        [.enterPush (.push 7), .producerLoadHead, .producerWriteSlot, .producerStoreHead,
          .enterPop, .consumerLoadTail, .consumerLoadHead 1, .enterPush (.push 8),
          .producerLoadHead] = some r ∧
        r.2.producer = .writeSlot 8 1 2 ∧ r.2.consumer = .readSlot 0 := ⟨_, rfl, rfl, rfl⟩
    have h := Interleaving.run_of_replay id _ hr
    exact ⟨r.1, r.2, h, 1, 2, 0, hp, hc, hV3 id _ _ h 8 1 2 0 hp hc⟩
  · have hplayed : (replay InterleavingV4.access
        (InterleavingV4.State.startingAt (C := InterleavingV4.CounterCapacity.two) (-1))
        [.enterPush 7, .producerCompare, .producerWriteSlot, .producerStoreHead,
          .enterPop, .consumerCompare, .consumerLoadHead 1, .enterPush 8,
          .producerCompare]).map (fun r => (r.2.producer, r.2.consumer))
        = some (.writeSlot 8, .readSlot) := by decide +kernel
    obtain ⟨r, hr, heq⟩ := Option.map_eq_some_iff.mp hplayed
    obtain ⟨hp, hc⟩ := Prod.mk.inj heq
    have h := InterleavingV4.run_of_replay (-1) _ hr
    exact ⟨r.1, r.2, h, hp, hc, hV4 (-1) _ _ h 8 hp hc⟩

end TradingGateway.Spsc
