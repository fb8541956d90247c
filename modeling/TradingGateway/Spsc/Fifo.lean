/-
# `Spsc.Fifo` — the queue is a FIFO under every interleaving

`Inv` ties the two modification orders, what each side has seen of the other,
both caches and both program counters to one set of counts.  Every access
keeps it (`Move.sound`), and at every access the slots from `tail_` up to
`head_` change exactly as the abstract bounded queue allows
(`Lib.BoundedFifo.Step`); so every run of accesses is a run of the abstract
queue, answer for answer (`simulates`).  The answers come at single accesses,
which are therefore the instants a call takes effect:

    push true     the release store of head_
    push false    the load of tail_ that still shows a full ring
    pop true      the release store of tail_
    pop false     the load of head_ that still shows an empty ring
-/
import TradingGateway.Spsc.Interleaving

namespace TradingGateway.Spsc.Interleaving

open Lib Lib.BoundedFifo Lib.Cyclic SpscRingBufferAtomicV3

variable {α Args : Type*} {C : Capacity}

/-! ## Counts, and what each side carries -/

/-- The counts of a state: stores made and stores seen. -/
def State.counts (s : State α Args C) : Counts :=
  ⟨s.headStores.length, s.tailStores.length, s.tailSeen, s.headSeen⟩

/-- An atomic publishes its counts modulo `Capacity`, one after the other. -/
def Publishes (N : Nat) (stores : List Nat) : Prop :=
  ∀ k v, published stores k = some v → v = k % N ∧ k ≤ stores.length

theorem publishes_nil (N : Nat) : Publishes N [] := by
  intro k v h
  cases k with
  | zero => cases h; exact ⟨(Nat.zero_mod N).symm, le_rfl⟩
  | succ k => cases h

theorem Publishes.snoc {N : Nat} {stores : List Nat} (h : Publishes N stores) :
    Publishes N (stores ++ [(stores.length + 1) % N]) := by
  intro k v hk
  have hlen : (stores ++ [(stores.length + 1) % N]).length = stores.length + 1 := by simp
  rcases Nat.lt_or_ge k (stores.length + 1) with hlt | hge
  · have hold : published stores k = some v := by
      rwa [published, ← List.cons_append, List.getElem?_append_left (by simpa using hlt)] at hk
    exact ⟨(h k v hold).1, by omega⟩
  · obtain ⟨hlt, rfl⟩ := List.getElem?_eq_some_iff.mp hk
    have hk' : k = stores.length + 1 := by
      simp only [List.length_cons, hlen] at hlt
      omega
    subst hk'
    simp

/-- What the producer carries from its loads to its stores. -/
def ProducerOk (N : Nat) (n : Counts) (slots : Nat → α) : ProducerPc α Args → Prop
  | .idle | .loadHead _ => True
  | .loadTail _ head next => head = n.pushed % N ∧ next = (n.pushed + 1) % N
  | .writeSlot _ head next =>
      head = n.pushed % N ∧ next = (n.pushed + 1) % N ∧ n.pushed + 1 < n.tailSeen + N
  | .storeHead value next =>
      next = (n.pushed + 1) % N ∧ n.pushed + 1 < n.tailSeen + N ∧ slots (n.pushed % N) = value

/-- What the consumer carries. -/
def ConsumerOk (N : Nat) (n : Counts) (slots : Nat → α) : ConsumerPc α → Prop
  | .idle | .loadTail => True
  | .loadHead tail => tail = n.popped % N
  | .readSlot tail => tail = n.popped % N ∧ n.popped < n.headSeen
  | .storeTail tail out =>
      tail = n.popped % N ∧ n.popped < n.headSeen ∧ slots (n.popped % N) = out

/-- The consumer does not depend on how far the producer has come, nor on the
slots it is not at. -/
theorem ConsumerOk.frame {N : Nat} {n m : Counts} {slots slots' : Nat → α} {pc : ConsumerPc α}
    (h : ConsumerOk N n slots pc) (hpopped : m.popped = n.popped) (hseen : m.headSeen = n.headSeen)
    (hslot : n.popped < n.headSeen → slots' (n.popped % N) = slots (n.popped % N)) :
    ConsumerOk N m slots' pc := by
  cases pc with
  | idle => trivial
  | loadTail => trivial
  | loadHead tail => exact Eq.trans h (by rw [hpopped])
  | readSlot tail =>
      obtain ⟨ht, hlt⟩ := h
      exact ⟨by rw [hpopped, ht], by rw [hpopped, hseen]; exact hlt⟩
  | storeTail tail out =>
      obtain ⟨ht, hlt, hout⟩ := h
      refine ⟨by rw [hpopped, ht], by rw [hpopped, hseen]; exact hlt, ?_⟩
      rw [hpopped, hslot hlt, hout]

/-- The slot the producer writes is never the slot the consumer is at. -/
theorem Linked.slots_ne {q : SpscRingBufferAtomicV3 α C} {n : Counts} (h : Linked q n)
    (hsome : n.popped < n.headSeen) : n.popped % C.value ≠ n.pushed % C.value := by
  have h1 := h.tailSeen_le
  have h2 := h.pushed_lt
  have h4 := h.headSeen_le
  exact mod_ne_of_lt (by omega) (by omega)

theorem ProducerOk.frame {N : Nat} {n m : Counts} {slots : Nat → α} {pc : ProducerPc α Args}
    (h : ProducerOk N n slots pc) {k : Nat} (hm : m = { n with popped := k }) :
    ProducerOk N m slots pc := by
  subst hm
  cases pc with
  | idle => trivial
  | loadHead call => trivial
  | loadTail value head next => exact h
  | writeSlot value head next => exact h
  | storeHead value next => exact h

theorem counts_storeHead (s : State α Args C) (next : Nat) :
    (⟨(s.headStores ++ [next]).length, s.tailStores.length, s.tailSeen, s.headSeen⟩ : Counts)
      = { s.counts with pushed := s.counts.pushed + 1 } := by
  simp [State.counts]

theorem counts_storeTail (s : State α Args C) (next : Nat) :
    (⟨s.headStores.length, (s.tailStores ++ [next]).length, s.tailSeen, s.headSeen⟩ : Counts)
      = { s.counts with popped := s.counts.popped + 1 } := by
  simp [State.counts]

variable [Inhabited α]

/-! ## What one access can do -/

/-- Every way an access can go, with the comparison it made. -/
inductive Move (construct : Args → α) (latest : Bool) (s : State α Args C) :
    Option (Answer α) → State α Args C → Prop
  | enterPush (call : PushCall α Args) : s.producer = .idle →
      Move construct latest s none { s with producer := .loadHead call }
  | headSlow {call : PushCall α Args} : s.producer = .loadHead call →
      increment C s.ring.head = s.ring.producerTailCache →
      Move construct latest s none
        { s with producer := .loadTail (call.value construct) s.ring.head
                   (increment C s.ring.head) }
  | headFast {call : PushCall α Args} : s.producer = .loadHead call →
      increment C s.ring.head ≠ s.ring.producerTailCache →
      Move construct latest s none
        { s with producer := .writeSlot (call.value construct) s.ring.head
                   (increment C s.ring.head) }
  | tailFull {value : α} {head next k : Nat} : s.producer = .loadTail value head next →
      published s.tailStores k = some next → s.tailSeen ≤ k →
      (latest = true → k = s.tailStores.length) →
      Move construct latest s (some (.refused value))
        { s with ring := { s.ring with producerTailCache := next }, tailSeen := k,
                 producer := .idle }
  | tailRoom {value : α} {head next tail k : Nat} : s.producer = .loadTail value head next →
      published s.tailStores k = some tail → s.tailSeen ≤ k → next ≠ tail →
      Move construct latest s none
        { s with ring := { s.ring with producerTailCache := tail }, tailSeen := k,
                 producer := .writeSlot value head next }
  | writeSlot {value : α} {head next : Nat} : s.producer = .writeSlot value head next →
      Move construct latest s none
        { s with ring := { s.ring with buffer := s.ring.buffer.setIfInBounds head value },
                 producer := .storeHead value next }
  | storeHead {value : α} {next : Nat} : s.producer = .storeHead value next →
      Move construct latest s (some (.pushed value))
        { s with ring := { s.ring with head := next }, headStores := s.headStores ++ [next],
                 producer := .idle }
  | enterPop : s.consumer = .idle → Move construct latest s none { s with consumer := .loadTail }
  | tailSlow : s.consumer = .loadTail → s.ring.tail = s.ring.consumerHeadCache →
      Move construct latest s none { s with consumer := .loadHead s.ring.tail }
  | tailFast : s.consumer = .loadTail → s.ring.tail ≠ s.ring.consumerHeadCache →
      Move construct latest s none { s with consumer := .readSlot s.ring.tail }
  | headEmpty {tail k : Nat} : s.consumer = .loadHead tail →
      published s.headStores k = some tail → s.headSeen ≤ k →
      (latest = true → k = s.headStores.length) →
      Move construct latest s (some .empty)
        { s with ring := { s.ring with consumerHeadCache := tail }, headSeen := k,
                 consumer := .idle }
  | headSome {tail head k : Nat} : s.consumer = .loadHead tail →
      published s.headStores k = some head → s.headSeen ≤ k → tail ≠ head →
      Move construct latest s none
        { s with ring := { s.ring with consumerHeadCache := head }, headSeen := k,
                 consumer := .readSlot tail }
  | readSlot {tail : Nat} : s.consumer = .readSlot tail →
      Move construct latest s none
        { s with consumer := .storeTail tail (cells s.ring.buffer tail) }
  | storeTail {tail : Nat} {out : α} : s.consumer = .storeTail tail out →
      Move construct latest s (some (.popped out))
        { s with ring := { s.ring with tail := increment C tail },
                 tailStores := s.tailStores ++ [increment C tail], consumer := .idle }

theorem Step.move {construct : Args → α} {latest : Bool} {s s' : State α Args C}
    {l : Option (Answer α)} (h : Step construct latest s l s') : Move construct latest s l s' := by
  obtain ⟨a, hlatest, h⟩ := h
  cases a with
  | enterPush call =>
      simp only [access] at h
      split at h
      next hp => cases h; exact .enterPush call hp
      next => cases h
  | producerLoadHead =>
      simp only [access] at h
      split at h
      next call hp =>
        split at h
        next hc => cases h; exact .headSlow hp hc
        next hc => cases h; exact .headFast hp hc
      next => cases h
  | producerLoadTail k =>
      simp only [access] at h
      split at h
      next value head next tail hp hk =>
        split at h
        next => cases h
        next hseen =>
          split at h
          next hc => subst hc; cases h; exact .tailFull hp hk (not_lt.mp hseen) hlatest
          next hc => cases h; exact .tailRoom hp hk (not_lt.mp hseen) hc
      next => cases h
  | producerWriteSlot =>
      simp only [access] at h
      split at h
      next hp => cases h; exact .writeSlot hp
      next => cases h
  | producerStoreHead =>
      simp only [access] at h
      split at h
      next hp => cases h; exact .storeHead hp
      next => cases h
  | enterPop =>
      simp only [access] at h
      split at h
      next hc => cases h; exact .enterPop hc
      next => cases h
  | consumerLoadTail =>
      simp only [access] at h
      split at h
      next hc =>
        split at h
        next he => cases h; exact .tailSlow hc he
        next he => cases h; exact .tailFast hc he
      next => cases h
  | consumerLoadHead k =>
      simp only [access] at h
      split at h
      next tail head hc hk =>
        split at h
        next => cases h
        next hseen =>
          split at h
          next he => subst he; cases h; exact .headEmpty hc hk (not_lt.mp hseen) hlatest
          next he => cases h; exact .headSome hc hk (not_lt.mp hseen) he
      next => cases h
  | consumerReadSlot =>
      simp only [access] at h
      split at h
      next hc => cases h; exact .readSlot hc
      next => cases h
  | consumerStoreTail =>
      simp only [access] at h
      split at h
      next hc => cases h; exact .storeTail hc
      next => cases h

/-! ## The invariant -/

/-- The invariant of the two threads. -/
structure Inv (s : State α Args C) : Prop where
  linked : Linked s.ring s.counts
  headPublishes : Publishes C.value s.headStores
  tailPublishes : Publishes C.value s.tailStores
  producer : ProducerOk C.value s.counts (cells s.ring.buffer) s.producer
  consumer : ConsumerOk C.value s.counts (cells s.ring.buffer) s.consumer

theorem inv_fresh : Inv (State.fresh : State α Args C) where
  linked := linked_fresh
  headPublishes := publishes_nil _
  tailPublishes := publishes_nil _
  producer := trivial
  consumer := trivial

/-- What a slow-path load of `tail_` brings: the count of some pop the producer
had not seen to be older. -/
theorem Inv.observeTail {s : State α Args C} (hi : Inv s) {k tail : Nat}
    (hk : published s.tailStores k = some tail) (hseen : s.tailSeen ≤ k) :
    tail = k % C.value ∧ s.counts.tailSeen ≤ k ∧ k ≤ s.counts.popped :=
  ⟨(hi.tailPublishes k tail hk).1, hseen, (hi.tailPublishes k tail hk).2⟩

theorem Inv.observeHead {s : State α Args C} (hi : Inv s) {k head : Nat}
    (hk : published s.headStores k = some head) (hseen : s.headSeen ≤ k) :
    head = k % C.value ∧ s.counts.headSeen ≤ k ∧ k ≤ s.counts.pushed :=
  ⟨(hi.headPublishes k head hk).1, hseen, (hi.headPublishes k head hk).2⟩

/-- **One access**: the invariant is kept, and the slots from `tail_` up to
`head_` change as the abstract queue says. -/
theorem Move.sound {construct : Args → α} {latest : Bool} {s s' : State α Args C}
    {l : Option (Answer α)} (hm : Move construct latest s l s') (hi : Inv s) :
    Inv s' ∧
      BoundedFifo.Step (C.value - 1) latest s.ring.contents l s'.ring.contents := by
  have hi' := hi
  obtain ⟨hlinked, hhead, htail, hprod, hcons⟩ := hi'
  have h1 := hlinked.tailSeen_le
  have h2 := hlinked.pushed_lt
  have h3 := hlinked.popped_le
  have h4 := hlinked.headSeen_le
  have hlen := hlinked.length_contents
  cases hm with
  | enterPush call hp => exact ⟨⟨hlinked, hhead, htail, trivial, hcons⟩, .silent _⟩
  | headSlow hp he =>
      refine ⟨⟨hlinked, hhead, htail, ⟨hlinked.head_eq, ?_⟩, hcons⟩, .silent _⟩
      rw [hlinked.head_eq, increment_mod]
      rfl
  | headFast hp he =>
      refine ⟨⟨hlinked, hhead, htail, ⟨hlinked.head_eq, ?_, ?_⟩, hcons⟩, .silent _⟩
      · rw [hlinked.head_eq, increment_mod]
        rfl
      · have := mt hlinked.next_eq_cache_iff.mpr he
        show s.counts.pushed + 1 < s.counts.tailSeen + C.value
        omega
  | @tailFull value head next k hp hk hseen hlatest =>
      rw [hp] at hprod
      obtain ⟨hnext, hseen', hk'⟩ := hi.observeTail hk hseen
      have hlap : s.counts.pushed + 1 = k + C.value := by
        have := eq_or_eq_add_of_mod_eq (by omega) (by omega) (hnext.symm.trans hprod.2)
        omega
      subst hnext
      refine ⟨⟨hlinked.refreshTail hseen' hk', hhead, htail, trivial, hcons.frame rfl rfl
        fun _ => rfl⟩, .refused _ _ fun hl => ?_⟩
      have hlast : k = s.counts.popped := hlatest hl
      omega
  | @tailRoom value head next tail k hp hk hseen hne =>
      rw [hp] at hprod
      obtain ⟨rfl, hseen', hk'⟩ := hi.observeTail hk hseen
      have hroom : s.counts.pushed + 1 < k + C.value := by
        have : s.counts.pushed + 1 ≠ k + C.value := by
          intro he
          exact hne (hprod.2.trans (by rw [he, Nat.add_mod_right]))
        omega
      exact ⟨⟨hlinked.refreshTail hseen' hk', hhead, htail, ⟨hprod.1, hprod.2, hroom⟩,
        hcons.frame rfl rfl fun _ => rfl⟩, .silent _⟩
  | @writeSlot value head next hp =>
      rw [hp] at hprod
      obtain ⟨rfl, hnext, hroom⟩ := hprod
      have hcells := cells_set s.ring.buffer (Nat.mod_lt s.counts.pushed C.pos) value
      refine ⟨⟨hlinked.writeSlot value, hhead, htail, ⟨hnext, hroom, ?_⟩,
        hcons.frame rfl rfl fun hsome => ?_⟩, ?_⟩
      · rw [hcells]
        exact Function.update_self _ _ _
      · rw [hcells]
        exact Function.update_of_ne (Linked.slots_ne hlinked hsome) _ _
      · rw [hlinked.contents_writeSlot value]
        exact .silent _
  | @storeHead value next hp =>
      rw [hp] at hprod
      obtain ⟨rfl, hroom, hslot⟩ := hprod
      have hstore := hlinked.storeHead hroom
      rw [← counts_storeHead s ((s.counts.pushed + 1) % C.value)] at hstore
      refine ⟨⟨hstore, hhead.snoc, htail, trivial, hcons.frame rfl rfl fun _ => rfl⟩, ?_⟩
      · rw [hlinked.contents_storeHead hroom, hslot]
        exact .pushed _ _ (by omega)
  | enterPop hc => exact ⟨⟨hlinked, hhead, htail, hprod, trivial⟩, .silent _⟩
  | tailSlow hc he => exact ⟨⟨hlinked, hhead, htail, hprod, hlinked.tail_eq⟩, .silent _⟩
  | tailFast hc he =>
      refine ⟨⟨hlinked, hhead, htail, hprod, ⟨hlinked.tail_eq, ?_⟩⟩, .silent _⟩
      have := mt hlinked.tail_eq_cache_iff.mpr he
      show s.counts.popped < s.counts.headSeen
      omega
  | @headEmpty tail k hc hk hseen hlatest =>
      rw [hc] at hcons
      obtain ⟨htail_eq, hseen', hk'⟩ := hi.observeHead hk hseen
      have hempty : k = s.counts.popped := by
        have := eq_or_eq_add_of_mod_eq (by omega) (by omega) (Eq.trans (Eq.symm hcons) htail_eq)
        omega
      subst htail_eq
      refine ⟨⟨hlinked.refreshHead hseen' hk', hhead, htail, ?_, trivial⟩, .empty _ fun hl => ?_⟩
      · exact hprod
      · have hlast : k = s.counts.pushed := hlatest hl
        exact List.length_eq_zero_iff.mp (by omega)
  | @headSome tail head k hc hk hseen hne =>
      rw [hc] at hcons
      obtain ⟨rfl, hseen', hk'⟩ := hi.observeHead hk hseen
      have hsome : s.counts.popped < k := by
        have : s.counts.popped ≠ k := fun he => hne (Eq.trans hcons (by rw [he]))
        omega
      exact ⟨⟨hlinked.refreshHead hseen' hk', hhead, htail, hprod, ⟨hcons, hsome⟩⟩, .silent _⟩
  | @readSlot tail hc =>
      rw [hc] at hcons
      obtain ⟨rfl, hsome⟩ := hcons
      exact ⟨⟨hlinked, hhead, htail, hprod, ⟨rfl, hsome, rfl⟩⟩, .silent _⟩
  | @storeTail tail out hc =>
      rw [hc] at hcons
      obtain ⟨rfl, hsome, rfl⟩ := hcons
      have hstore := hlinked.storeTail hsome
      rw [increment_mod]
      rw [← counts_storeTail s ((s.counts.popped + 1) % C.value)] at hstore
      refine ⟨⟨hstore, hhead, htail.snoc, hprod.frame (counts_storeTail s _), trivial⟩, ?_⟩
      · rw [hlinked.contents_storeTail hsome]
        exact .popped _ _

/-! ## Runs -/

/-- Every reachable state satisfies the invariant, and the accesses so far are a
run of the abstract queue with the same answers. -/
theorem simulates {construct : Args → α} {latest : Bool}
    {ts : List (Taken (State α Args C) (Option (Answer α)))} {s : State α Args C}
    (h : Run Fresh (Step construct latest) ts s) :
    Inv s ∧ ∃ us, Run BoundedFifo.Fresh (BoundedFifo.Step (C.value - 1) latest) us s.ring.contents ∧
      us.map Taken.label = ts.map Taken.label := by
  have hinit : ∀ s : State α Args C, Fresh s →
      ∃ xs, BoundedFifo.Fresh xs ∧ Inv s ∧ s.ring.contents = xs := by
    rintro s rfl
    exact ⟨_, contents_fresh, inv_fresh, rfl⟩
  have hstep : ∀ (ts : List (Taken (State α Args C) (Option (Answer α)))) s l s' xs,
      Run Fresh (Step construct latest) ts s → Inv s ∧ s.ring.contents = xs →
      Step construct latest s l s' →
      ∃ xs', BoundedFifo.Step (C.value - 1) latest xs l xs' ∧ Inv s' ∧ s'.ring.contents = xs' := by
    rintro ts s l s' xs - ⟨hinv, rfl⟩ hs
    obtain ⟨hinv', hqueue⟩ := hs.move.sound hinv
    exact ⟨_, hqueue, hinv', rfl⟩
  obtain ⟨us, xs, hus, hl, hinv, rfl⟩ := h.simulate hinit hstep
  exact ⟨hinv, us, hus, hl⟩

/-- **FIFO.**  At every point of every interleaving, whatever stores the slow
paths observe, what was popped is a prefix of what was pushed, and the rest is
what the slots hold from `tail_` up to `head_`. -/
theorem pops_prefix_pushes {construct : Args → α}
    {ts : List (Taken (State α Args C) (Option (Answer α)))} {s : State α Args C}
    (h : Run Fresh (Step construct false) ts s) :
    pops ts <+: pushes ts ∧ pushes ts = pops ts ++ s.ring.contents := by
  obtain ⟨-, us, hus, hl⟩ := simulates h
  have hlaw := (BoundedFifo.Run.history hus).1
  rw [pushes_eq_of_labels hl, pops_eq_of_labels hl] at hlaw
  exact ⟨⟨_, hlaw.symm⟩, hlaw⟩

theorem run_of_replay (construct : Args → α) (as : List (Access α Args))
    {r : List (Taken (State α Args C) (Option (Answer α))) × State α Args C}
    (h : replay (access construct) State.fresh as = some r) :
    Run Fresh (Step construct false) r.1 r.2 := by
  have hstart : Run Fresh (Step construct false) [] (State.fresh : State α Args C) := .start rfl
  have hstep : ∀ (s : State α Args C) a s' l, access construct s a = some (s', l) →
      Step construct false s l s' :=
    fun _ a _ _ h => ⟨a, fun hl => absurd hl Bool.false_ne_true, h⟩
  exact hstart.replay hstep h

/-- The smallest ring. -/
def Capacity.two : Capacity := ⟨2, le_rfl, rfl⟩

/-- One value pushed and popped while a second push is between its slot write
and its release store. -/
def overlapping : List (Access Nat Nat) :=
  [.enterPush (.push 7), .producerLoadHead, .producerWriteSlot, .producerStoreHead,
   .enterPop, .consumerLoadTail, .enterPush (.emplace 8), .producerLoadHead,
   .consumerLoadHead 1, .consumerReadSlot, .consumerStoreTail,
   .producerLoadTail 1, .producerWriteSlot]

theorem pops_prefix_pushes_overlapping :
    ∃ r, replay (access (C := Capacity.two) id) State.fresh overlapping = some r ∧
      pops r.1 = [7] ∧ pops r.1 <+: pushes r.1 ∧ pushes r.1 = pops r.1 ++ r.2.ring.contents :=
  ⟨_, rfl, rfl, pops_prefix_pushes (run_of_replay id overlapping rfl)⟩

end TradingGateway.Spsc.Interleaving
