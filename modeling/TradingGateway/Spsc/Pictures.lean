/-
# `Spsc.Pictures` — `SpscRingBufferAtomicV3`, whatever its loads observe

`push` and `pop` compare with a cache, and load the other side's index only when the cache
shows a full or an empty ring.  The load may observe any store that is not older than the
one observed last.  So what a call answers depends on what its caller has seen, and call by
call the class is the queue `pictured` of `Capacity - 1` values:

| in `pictured` | in the class |
| :-- | :-- |
| `popsUnseen` | stores of `tail_` behind the one in `producer_tail_cache_` |
| `pushesUnseen` | stores of `head_` behind the one in `consumer_head_cache_` |
| a look that sees `j` more | the load in the slow path, `j` stores further |

A call takes effect at its answer, but loads before.  `ProducerPicture` and
`ConsumerPicture` say what a side had seen when its call began: what it has seen now, or,
behind its load, a picture that showed a full or an empty ring.
-/
import TradingGateway.Lib.InstantQueue
import TradingGateway.Spsc.Machines

namespace TradingGateway.Spsc.Interleaving

open Lib Lib.BoundedFifo Lib.QueueMachine Lib.Cyclic SpscRingBufferAtomicV3

variable {α Args : Type*} {C : Capacity}

/-! ## What a side had seen when its call began -/

/-- The producer's call began with `t` stores of `tail_` seen. -/
def ProducerPicture (N : Nat) (n : Counts) (t : Nat) : ProducerPc α Args → Prop
  | .idle | .loadHead _ => t = n.tailSeen
  | .loadTail _ _ _ => t = n.tailSeen ∧ n.pushed + 1 = t + N
  | .writeSlot _ _ _ | .storeHead _ _ => t = n.tailSeen ∨ t < n.tailSeen ∧ n.pushed + 1 = t + N

/-- The consumer's call began with `h` stores of `head_` seen. -/
def ConsumerPicture (n : Counts) (h : Nat) : ConsumerPc α → Prop
  | .idle | .loadTail => h = n.headSeen
  | .loadHead _ => h = n.headSeen ∧ n.popped = h
  | .readSlot _ | .storeTail _ _ => h = n.headSeen ∨ h < n.headSeen ∧ n.popped = h

theorem ProducerPicture.frame {N t : Nat} {n m : Counts} {pc : ProducerPc α Args}
    (h : ProducerPicture N n t pc) (hpushed : m.pushed = n.pushed)
    (hseen : m.tailSeen = n.tailSeen) : ProducerPicture N m t pc := by
  cases pc <;> simpa only [ProducerPicture, hpushed, hseen] using h

theorem ConsumerPicture.frame {t : Nat} {n m : Counts} {pc : ConsumerPc α}
    (h : ConsumerPicture n t pc) (hpopped : m.popped = n.popped) (hseen : m.headSeen = n.headSeen) :
    ConsumerPicture m t pc := by
  cases pc <;> simpa only [ConsumerPicture, hpopped, hseen] using h

variable [Inhabited α]

/-- The queue of pictures that a state stands for. -/
structure Pictures (s : State α Args C) (p : Pictured α) : Prop where
  inv : Inv s
  items : p.items = s.ring.contents
  producer : ∃ t, ProducerPicture C.value s.counts t s.producer ∧
    p.popsUnseen + t = s.counts.popped
  consumer : ∃ h, ConsumerPicture s.counts h s.consumer ∧ p.pushesUnseen + h = s.counts.pushed

theorem pictures_fresh : Pictures (State.fresh : State α Args C) .fresh where
  inv := inv_fresh
  items := contents_fresh.symm
  producer := ⟨0, rfl, rfl⟩
  consumer := ⟨0, rfl, rfl⟩

/-- **One access**: the queue of pictures is left, or its call is answered. -/
theorem Move.pictures {construct : Args → α} {s s' : State α Args C} {l : Option (Answer α)}
    (hm : Move construct false s l s') {p : Pictured α} (h : Pictures s p) :
    ∃ p', (pictured α (C.value - 1)).Step p l p' ∧ Pictures s' p' := by
  obtain ⟨hinv', hqueue⟩ := hm.sound h.inv
  obtain ⟨hi, hitems, ⟨t, hprod, ht⟩, ⟨u, hcons, hu⟩⟩ := h
  have hlinked := hi.linked
  have h1 := hlinked.tailSeen_le
  have h2 := hlinked.pushed_lt
  have h3 := hlinked.popped_le
  have h4 := hlinked.headSeen_le
  have hlen := hlinked.length_contents
  rw [← hitems] at hlen
  have hle : 2 ≤ C.value := C.two_le
  cases hm with
  | enterPush call hp =>
      rw [hp] at hprod
      exact ⟨p, rfl, hinv', hitems, ⟨t, hprod, ht⟩, ⟨u, hcons, hu⟩⟩
  | headSlow hp he =>
      rw [hp] at hprod
      have hfull := hlinked.next_eq_cache_iff.mp he
      obtain rfl : t = s.counts.tailSeen := hprod
      exact ⟨p, rfl, hinv', hitems, ⟨_, ⟨rfl, hfull⟩, ht⟩, ⟨u, hcons, hu⟩⟩
  | headFast hp he =>
      rw [hp] at hprod
      exact ⟨p, rfl, hinv', hitems, ⟨t, Or.inl hprod, ht⟩, ⟨u, hcons, hu⟩⟩
  | @tailFull value head next k hp hk hseen _ =>
      rw [hp] at hprod
      obtain ⟨rfl, hfull⟩ := hprod
      have hpk := hi.producer
      rw [hp] at hpk
      obtain ⟨hnext, hseen', hk'⟩ := hi.observeTail hk hseen
      have hsame : k = s.counts.tailSeen := by
        have := eq_or_eq_add_of_mod_eq (by omega) (by omega) (hnext.symm.trans hpk.2)
        omega
      refine ⟨p, .refused (by omega), hinv', hitems, ⟨k, rfl, ?_⟩, ⟨u, hcons.frame rfl rfl, hu⟩⟩
      rw [hsame]
      exact ht
  | @tailRoom value head next tail k hp hk hseen hne =>
      rw [hp] at hprod
      obtain ⟨rfl, hfull⟩ := hprod
      obtain ⟨-, hseen', -⟩ := hi.observeTail hk hseen
      have hpicture : s.counts.tailSeen = k ∨
          s.counts.tailSeen < k ∧ s.counts.pushed + 1 = s.counts.tailSeen + C.value :=
        (Nat.eq_or_lt_of_le hseen').imp_right fun hlt => ⟨hlt, hfull⟩
      exact ⟨p, rfl, hinv', hitems, ⟨_, hpicture, ht⟩, ⟨u, hcons.frame rfl rfl, hu⟩⟩
  | writeSlot hp =>
      rw [hp] at hprod
      exact ⟨p, rfl, hinv', hitems.trans hqueue.eq_of_silent.symm, ⟨t, hprod, ht⟩, ⟨u, hcons, hu⟩⟩
  | @storeHead value next hp =>
      have hpk := hi.producer
      rw [hp] at hprod hpk
      obtain ⟨-, hroom, -⟩ := hpk
      have hcontents := (hitems ▸ hqueue.eq_of_pushed).symm
      have hcons' := hcons.frame (m := { s.counts with pushed := s.counts.pushed + 1 }) rfl rfl
      rw [← counts_storeHead s next] at hcons'
      have hpushed : p.pushesUnseen + 1 + u = (s.headStores ++ [next]).length := by
        rw [List.length_append, List.length_singleton]
        show _ = s.counts.pushed + 1
        omega
      obtain rfl | ⟨hlt, hfull⟩ := hprod
      · exact ⟨_, .room (by omega), hinv', hcontents, ⟨_, rfl, ht⟩, ⟨u, hcons', hpushed⟩⟩
      · refine ⟨_, .looked (j := s.counts.tailSeen - t) (by omega) (by omega) (by omega), hinv',
          hcontents, ⟨_, rfl, ?_⟩, ⟨u, hcons', hpushed⟩⟩
        show p.popsUnseen - (s.counts.tailSeen - t) + s.counts.tailSeen = s.counts.popped
        omega
  | enterPop hc =>
      rw [hc] at hcons
      exact ⟨p, rfl, hinv', hitems, ⟨t, hprod, ht⟩, ⟨u, hcons, hu⟩⟩
  | tailSlow hc he =>
      rw [hc] at hcons
      have hempty := hlinked.tail_eq_cache_iff.mp he
      obtain rfl : u = s.counts.headSeen := hcons
      exact ⟨p, rfl, hinv', hitems, ⟨t, hprod, ht⟩, ⟨_, ⟨rfl, hempty⟩, hu⟩⟩
  | tailFast hc he =>
      rw [hc] at hcons
      exact ⟨p, rfl, hinv', hitems, ⟨t, hprod, ht⟩, ⟨u, Or.inl hcons, hu⟩⟩
  | @headEmpty tail k hc hk hseen _ =>
      rw [hc] at hcons
      obtain ⟨rfl, hempty⟩ := hcons
      have hck := hi.consumer
      rw [hc] at hck
      obtain ⟨htail_eq, hseen', hk'⟩ := hi.observeHead hk hseen
      have hsame : k = s.counts.headSeen := by
        have := eq_or_eq_add_of_mod_eq (by omega) (by omega) (Eq.trans (Eq.symm hck) htail_eq)
        omega
      refine ⟨p, .empty (by omega), hinv', hitems, ⟨t, hprod.frame rfl rfl, ht⟩, ⟨k, rfl, ?_⟩⟩
      rw [hsame]
      exact hu
  | @headSome tail head k hc hk hseen hne =>
      rw [hc] at hcons
      obtain ⟨rfl, hempty⟩ := hcons
      obtain ⟨-, hseen', -⟩ := hi.observeHead hk hseen
      have hpicture : s.counts.headSeen = k ∨
          s.counts.headSeen < k ∧ s.counts.popped = s.counts.headSeen :=
        (Nat.eq_or_lt_of_le hseen').imp_right fun hlt => ⟨hlt, hempty⟩
      exact ⟨p, rfl, hinv', hitems, ⟨t, hprod.frame rfl rfl, ht⟩, ⟨_, hpicture, hu⟩⟩
  | readSlot hc =>
      rw [hc] at hcons
      exact ⟨p, rfl, hinv', hitems, ⟨t, hprod, ht⟩, ⟨u, hcons, hu⟩⟩
  | @storeTail tail out hc =>
      have hck := hi.consumer
      rw [hc] at hcons hck
      obtain ⟨-, hsome, -⟩ := hck
      have hcontents := hitems.trans hqueue.eq_of_popped
      have hprod' := hprod.frame (m := { s.counts with popped := s.counts.popped + 1 }) rfl rfl
      rw [← counts_storeTail s (increment C tail)] at hprod'
      have hpopped : p.popsUnseen + 1 + t = (s.tailStores ++ [increment C tail]).length := by
        rw [List.length_append, List.length_singleton]
        show _ = s.counts.popped + 1
        omega
      obtain rfl | ⟨hlt, hempty⟩ := hcons
      · exact ⟨_, .seen hcontents (by omega), hinv', rfl, ⟨t, hprod', hpopped⟩, ⟨_, rfl, hu⟩⟩
      · refine ⟨_, .looked (j := s.counts.headSeen - u) hcontents (by omega) (by omega) (by omega),
          hinv', rfl, ⟨t, hprod', hpopped⟩, ⟨_, rfl, ?_⟩⟩
        show p.pushesUnseen - (s.counts.headSeen - u) + s.counts.headSeen = s.counts.pushed
        omega

/-! ## Calls that nobody else is inside of -/

section Finishes

variable (construct : Args → α) {s : State α Args C} {p p' : Pictured α}

theorem access_pictures {s' : State α Args C} {a : Access α Args} {l : Option (Answer α)}
    (h : Pictures s p) (haccess : access construct s a = some (s', l)) :
    ∃ p', (pictured α (C.value - 1)).Step p l p' ∧ Pictures s' p' := by
  have hstep : Step construct false s l s' := ⟨a, fun hl => absurd hl Bool.false_ne_true, haccess⟩
  exact hstep.move.pictures h

omit [Inhabited α] in
theorem published_of_le {stores : List Nat} {N k : Nat} (h : Publishes N stores)
    (hk : k ≤ stores.length) : published stores k = some (k % N) := by
  obtain ⟨v, hv⟩ : ∃ v, published stores k = some v :=
    ⟨_, List.getElem?_eq_getElem (Nat.lt_succ_of_le hk)⟩
  rw [hv, (h k v hv).1]

theorem finishes_writeSlot {value : α} {head next : Nat}
    (hp : s.producer = .writeSlot value head next) :
    ∃ s', (machine construct).Finishes .producer s (.pushed value) s' ∧
      s'.tailSeen = s.tailSeen ∧ s'.tailStores = s.tailStores ∧ s'.producer = .idle ∧
      s'.consumer = s.consumer := by
  have hwrite : access construct s .producerWriteSlot = some ({ s with
      ring := { s.ring with buffer := s.ring.buffer.setIfInBounds head value }
      producer := .storeHead value next }, none) := by
    simp only [access, hp]
  exact ⟨_, .more ⟨.producerWriteSlot, rfl, rfl, hwrite⟩ (.last ⟨.producerStoreHead, rfl, rfl, rfl⟩),
    rfl, rfl, rfl, rfl⟩

theorem finishes_readSlot {tail : Nat} (hc : s.consumer = .readSlot tail) :
    ∃ out s', (machine construct).Finishes .consumer s (.popped out) s' ∧
      s'.headSeen = s.headSeen ∧ s'.headStores = s.headStores ∧ s'.consumer = .idle ∧
      s'.producer = s.producer := by
  have hread : access construct s .consumerReadSlot = some
      ({ s with consumer := .storeTail tail (cells s.ring.buffer tail) }, none) := by
    simp only [access, hc]
  exact ⟨_, _, .more ⟨.consumerReadSlot, rfl, rfl, hread⟩ (.last ⟨.consumerStoreTail, rfl, rfl, rfl⟩),
    rfl, rfl, rfl, rfl⟩

/-- Where the cache shows room, a push does not look. -/
theorem finishes_push_fast {value : α} (hp : s.producer = .loadHead (.push value))
    (hroom : increment C s.ring.head ≠ s.ring.producerTailCache) :
    ∃ s', (machine construct).Finishes .producer s (.pushed value) s' ∧
      s'.tailSeen = s.tailSeen ∧ s'.tailStores = s.tailStores ∧ s'.producer = .idle ∧
      s'.consumer = s.consumer := by
  have hload : access construct s .producerLoadHead = some ({ s with
      producer := .writeSlot value s.ring.head (increment C s.ring.head) }, none) := by
    simp only [access, hp, if_neg hroom]
    rfl
  obtain ⟨s', hfin, hrest⟩ := finishes_writeSlot construct
    (s := { s with producer := .writeSlot value s.ring.head (increment C s.ring.head) }) rfl
  exact ⟨s', .more ⟨.producerLoadHead, rfl, rfl, hload⟩ hfin, hrest⟩

/-- Where it shows a full ring, it looks, and may observe any store that is not older. -/
theorem access_loadHead_slow {value : α} (hp : s.producer = .loadHead (.push value))
    (hfull : increment C s.ring.head = s.ring.producerTailCache) :
    (machine construct).Own .producer s none
      { s with producer := .loadTail value s.ring.head (increment C s.ring.head) } := by
  refine ⟨.producerLoadHead, rfl, rfl, ?_⟩
  simp only [machine, access, hp, if_pos hfull]
  rfl

theorem finishes_push_looked {value : α} {k tail : Nat}
    (hp : s.producer = .loadHead (.push value))
    (hfull : increment C s.ring.head = s.ring.producerTailCache)
    (hk : published s.tailStores k = some tail) (hseen : s.tailSeen ≤ k)
    (hroom : increment C s.ring.head ≠ tail) :
    ∃ s', (machine construct).Finishes .producer s (.pushed value) s' ∧
      s'.tailSeen = k ∧ s'.tailStores = s.tailStores ∧ s'.producer = .idle ∧
      s'.consumer = s.consumer := by
  have hlook : access construct
      { s with producer := .loadTail value s.ring.head (increment C s.ring.head) }
      (.producerLoadTail k) = some ({ s with
        ring := { s.ring with producerTailCache := tail }, tailSeen := k,
        producer := .writeSlot value s.ring.head (increment C s.ring.head) }, none) := by
    simp only [access, hk, if_neg (not_lt.mpr hseen), if_neg hroom]
  obtain ⟨s', hfin, hrest⟩ := finishes_writeSlot construct
    (s := { s with
      ring := { s.ring with producerTailCache := tail }, tailSeen := k,
      producer := .writeSlot value s.ring.head (increment C s.ring.head) }) rfl
  exact ⟨s', .more (access_loadHead_slow construct hp hfull)
    (.more ⟨.producerLoadTail k, rfl, rfl, hlook⟩ hfin), hrest⟩

theorem finishes_push_refused {value : α} {k tail : Nat}
    (hp : s.producer = .loadHead (.push value))
    (hfull : increment C s.ring.head = s.ring.producerTailCache)
    (hk : published s.tailStores k = some tail) (hseen : s.tailSeen ≤ k)
    (hrefused : increment C s.ring.head = tail) :
    ∃ s', (machine construct).Finishes .producer s (.refused value) s' ∧
      s'.tailSeen = k ∧ s'.tailStores = s.tailStores ∧ s'.producer = .idle ∧
      s'.consumer = s.consumer := by
  have hlook : access construct
      { s with producer := .loadTail value s.ring.head (increment C s.ring.head) }
      (.producerLoadTail k) = some ({ s with
        ring := { s.ring with producerTailCache := tail }, tailSeen := k, producer := .idle },
        some (.refused value)) := by
    simp only [access, hk, if_neg (not_lt.mpr hseen), if_pos hrefused]
  exact ⟨_, .more (access_loadHead_slow construct hp hfull)
    (.last ⟨.producerLoadTail k, rfl, rfl, hlook⟩), rfl, rfl, rfl, rfl⟩

theorem finishes_pop_fast (hc : s.consumer = .loadTail)
    (hsome : s.ring.tail ≠ s.ring.consumerHeadCache) :
    ∃ out s', (machine construct).Finishes .consumer s (.popped out) s' ∧
      s'.headSeen = s.headSeen ∧ s'.headStores = s.headStores ∧ s'.consumer = .idle ∧
      s'.producer = s.producer := by
  have hload : access construct s .consumerLoadTail = some
      ({ s with consumer := .readSlot s.ring.tail }, none) := by
    simp only [access, hc, if_neg hsome]
  obtain ⟨out, s', hfin, hrest⟩ := finishes_readSlot construct
    (s := { s with consumer := .readSlot s.ring.tail }) rfl
  exact ⟨out, s', .more ⟨.consumerLoadTail, rfl, rfl, hload⟩ hfin, hrest⟩

theorem access_loadTail_slow (hc : s.consumer = .loadTail)
    (hempty : s.ring.tail = s.ring.consumerHeadCache) :
    (machine construct).Own .consumer s none { s with consumer := .loadHead s.ring.tail } := by
  refine ⟨.consumerLoadTail, rfl, rfl, ?_⟩
  simp only [machine, access, hc, if_pos hempty]

theorem finishes_pop_looked {k head : Nat} (hc : s.consumer = .loadTail)
    (hempty : s.ring.tail = s.ring.consumerHeadCache)
    (hk : published s.headStores k = some head) (hseen : s.headSeen ≤ k)
    (hsome : s.ring.tail ≠ head) :
    ∃ out s', (machine construct).Finishes .consumer s (.popped out) s' ∧
      s'.headSeen = k ∧ s'.headStores = s.headStores ∧ s'.consumer = .idle ∧
      s'.producer = s.producer := by
  have hlook : access construct { s with consumer := .loadHead s.ring.tail }
      (.consumerLoadHead k) = some ({ s with
        ring := { s.ring with consumerHeadCache := head }, headSeen := k,
        consumer := .readSlot s.ring.tail }, none) := by
    simp only [access, hk, if_neg (not_lt.mpr hseen), if_neg hsome]
  obtain ⟨out, s', hfin, hrest⟩ := finishes_readSlot construct
    (s := { s with
      ring := { s.ring with consumerHeadCache := head }, headSeen := k,
      consumer := .readSlot s.ring.tail }) rfl
  exact ⟨out, s', .more (access_loadTail_slow construct hc hempty)
    (.more ⟨.consumerLoadHead k, rfl, rfl, hlook⟩ hfin), hrest⟩

theorem finishes_pop_empty {k head : Nat} (hc : s.consumer = .loadTail)
    (hempty : s.ring.tail = s.ring.consumerHeadCache)
    (hk : published s.headStores k = some head) (hseen : s.headSeen ≤ k)
    (hnone : s.ring.tail = head) :
    ∃ s', (machine construct).Finishes .consumer s .empty s' ∧
      s'.headSeen = k ∧ s'.headStores = s.headStores ∧ s'.consumer = .idle ∧
      s'.producer = s.producer := by
  have hlook : access construct { s with consumer := .loadHead s.ring.tail }
      (.consumerLoadHead k) = some ({ s with
        ring := { s.ring with consumerHeadCache := head }, headSeen := k, consumer := .idle },
        some .empty) := by
    simp only [access, hk, if_neg (not_lt.mpr hseen), if_pos hnone]
  exact ⟨_, .more (access_loadTail_slow construct hc hempty)
    (.last ⟨.consumerLoadHead k, rfl, rfl, hlook⟩), rfl, rfl, rfl, rfl⟩

/-- **A push that nobody disturbs** can go every way that its picture allows. -/
theorem Pictures.finishes_push (h : Pictures s p) {value : α}
    (hp : s.producer = .loadHead (.push value)) {b : Bool}
    (hpush : Pictured.Push (C.value - 1) p value b p') :
    ∃ s', (machine construct).Finishes .producer s
        (if b then .pushed value else .refused value) s' ∧
      Pictures s' p' ∧ s'.producer = .idle ∧ s'.consumer = s.consumer := by
  obtain ⟨t, hprod, ht⟩ := h.producer
  rw [hp] at hprod
  obtain rfl : t = s.counts.tailSeen := hprod
  have hlinked := h.inv.linked
  have h1 := hlinked.tailSeen_le
  have h2 := hlinked.popped_le
  have h3 := hlinked.headSeen_le
  have hlen := hlinked.length_contents
  rw [← h.items] at hlen
  have hle : 2 ≤ C.value := C.two_le
  -- what is left to be seen settles which way it went
  have settle : ∀ {k s'}, (machine construct).Finishes .producer s
      (if b then .pushed value else .refused value) s' → s'.tailSeen = k →
      s'.tailStores = s.tailStores → s'.producer = .idle →
      p'.popsUnseen + k = s.counts.popped → Pictures s' p' := by
    intro k s' hfin hk hstores hidle hunseen
    obtain ⟨p'', hstep, hpictures⟩ := hfin.instant (access_pictures construct) h
    have hpush' : Pictured.Push (C.value - 1) p value b p'' := by
      cases b <;> exact hstep
    obtain ⟨t, hprod, ht⟩ := hpictures.producer
    rw [hidle] at hprod
    obtain rfl : t = k := Eq.trans hprod hk
    have ht : p''.popsUnseen + t = s'.tailStores.length := ht
    rw [hstores] at ht
    have heq := hpush.unique hpush' (Nat.add_right_cancel (hunseen.trans ht.symm))
    rw [heq]
    exact hpictures
  have hnext : increment C s.ring.head = (s.counts.pushed + 1) % C.value := by
    rw [hlinked.head_eq, increment_mod]
  cases hpush with
  | room hroom =>
      have hfast := mt hlinked.next_eq_cache_iff.mp (by omega)
      obtain ⟨s', hfin, hk, hstores, hidle, hother⟩ :=
        finishes_push_fast construct hp hfast
      exact ⟨s', hfin, settle hfin hk hstores hidle ht, hidle, hother⟩
  | @looked j hfull pos hj =>
      have hfull' : s.counts.pushed + 1 = s.counts.tailSeen + C.value := by omega
      have hk := published_of_le (k := s.counts.tailSeen + j) h.inv.tailPublishes
        (by show _ ≤ s.counts.popped; omega)
      have hroom : increment C s.ring.head ≠ (s.counts.tailSeen + j) % C.value := by
        rw [hnext, hfull', Nat.add_mod_right]
        have h4 := hlinked.pushed_lt
        exact mod_ne_of_lt (by omega) (by omega)
      obtain ⟨s', hfin, hk, hstores, hidle, hother⟩ :=
        finishes_push_looked construct hp (hlinked.next_eq_cache_iff.mpr hfull') hk
          (Nat.le_add_right _ _) hroom
      refine ⟨s', hfin, settle hfin hk hstores hidle ?_, hidle, hother⟩
      show p.popsUnseen - j + (s.counts.tailSeen + j) = s.counts.popped
      omega
  | refused hfull =>
      have hfull' : s.counts.pushed + 1 = s.counts.tailSeen + C.value := by omega
      have hk := published_of_le (k := s.counts.tailSeen) h.inv.tailPublishes h1
      have hrefused : increment C s.ring.head = s.counts.tailSeen % C.value := by
        rw [hnext, hfull', Nat.add_mod_right]
      obtain ⟨s', hfin, hk, hstores, hidle, hother⟩ :=
        finishes_push_refused construct hp (hlinked.next_eq_cache_iff.mpr hfull') hk
          (le_refl _) hrefused
      exact ⟨s', hfin, settle hfin hk hstores hidle ht, hidle, hother⟩

/-- **So can a pop.** -/
theorem Pictures.finishes_pop (h : Pictures s p) (hc : s.consumer = .loadTail) {o : Option α}
    (hpop : Pictured.Pop p o p') :
    ∃ s', (machine construct).Finishes .consumer s (o.elim .empty .popped) s' ∧
      Pictures s' p' ∧ s'.consumer = .idle ∧ s'.producer = s.producer := by
  obtain ⟨u, hcons, hu⟩ := h.consumer
  rw [hc] at hcons
  obtain rfl : u = s.counts.headSeen := hcons
  have hlinked := h.inv.linked
  have h2 := hlinked.popped_le
  have h3 := hlinked.headSeen_le
  have h4 := hlinked.tailSeen_le
  have h5 := hlinked.pushed_lt
  have hlen := hlinked.length_contents
  rw [← h.items] at hlen
  have settle : ∀ {k s'}, (machine construct).Finishes .consumer s (o.elim .empty .popped) s' →
      s'.headSeen = k → s'.headStores = s.headStores → s'.consumer = .idle →
      p'.pushesUnseen + k = s.counts.pushed → Pictures s' p' := by
    intro k s' hfin hk hstores hidle hunseen
    obtain ⟨p'', hstep, hpictures⟩ := hfin.instant (access_pictures construct) h
    have hpop' : Pictured.Pop p o p'' := by
      cases o <;> exact hstep
    obtain ⟨u, hcons, hu⟩ := hpictures.consumer
    rw [hidle] at hcons
    obtain rfl : u = k := Eq.trans hcons hk
    have hu : p''.pushesUnseen + u = s'.headStores.length := hu
    rw [hstores] at hu
    have heq := hpop.unique hpop' (Nat.add_right_cancel (hunseen.trans hu.symm))
    rw [heq]
    exact hpictures
  -- what comes out is the oldest
  have oldest : ∀ {out v vs s'}, (machine construct).Finishes .consumer s (.popped out) s' →
      p.items = v :: vs → out = v := by
    intro out v vs s' hfin hitems
    obtain ⟨p'', hstep, -⟩ := hfin.instant (access_pictures construct) h
    have hhead := Pictured.Pop.head hstep
    rw [hitems, List.head?_cons] at hhead
    exact (Option.some.inj hhead).symm
  cases hpop with
  | @seen v vs hitems hsome =>
      have hfast := mt hlinked.tail_eq_cache_iff.mp (by omega)
      obtain ⟨out, s', hfin, hk, hstores, hidle, hother⟩ :=
        finishes_pop_fast construct hc hfast
      obtain rfl := oldest hfin hitems
      exact ⟨s', hfin, settle hfin hk hstores hidle hu, hidle, hother⟩
  | @looked v vs j hitems hempty pos hj =>
      have hempty' : s.counts.popped = s.counts.headSeen := by omega
      have hk := published_of_le (k := s.counts.headSeen + j) h.inv.headPublishes
        (by show _ ≤ s.counts.pushed; omega)
      have hsome : s.ring.tail ≠ (s.counts.headSeen + j) % C.value := by
        rw [hlinked.tail_eq, hempty']
        exact mod_ne_of_lt (by omega) (by omega)
      obtain ⟨out, s', hfin, hk, hstores, hidle, hother⟩ :=
        finishes_pop_looked construct hc (hlinked.tail_eq_cache_iff.mpr hempty') hk
          (Nat.le_add_right _ _) hsome
      obtain rfl := oldest hfin hitems
      refine ⟨s', hfin, settle hfin hk hstores hidle ?_, hidle, hother⟩
      show p.pushesUnseen - j + (s.counts.headSeen + j) = s.counts.pushed
      omega
  | empty hempty =>
      have hempty' : s.counts.popped = s.counts.headSeen := by omega
      have hk := published_of_le (k := s.counts.headSeen) h.inv.headPublishes h3
      have hnone : s.ring.tail = s.counts.headSeen % C.value := by
        rw [hlinked.tail_eq, hempty']
      obtain ⟨s', hfin, hk, hstores, hidle, hother⟩ :=
        finishes_pop_empty construct hc (hlinked.tail_eq_cache_iff.mpr hempty') hk
          (le_refl _) hnone
      exact ⟨s', hfin, settle hfin hk hstores hidle hu, hidle, hother⟩

/-- **`SpscRingBufferAtomicV3` is the queue of pictures** of `Capacity - 1` values. -/
def serves :
    Serves (machine construct : Machine (State α Args C) _ α) (pictured α (C.value - 1)) .fresh where
  Sim := Pictures
  rank := State.rank
  fresh := pictures_fresh
  pending_fresh := pending_fresh construct
  entry_side := Access.entry_side
  sound := fun h haccess => access_pictures construct h haccess
  turn := turn_of_access construct
  frame := fun h hd => ((access_turn h).2 _ hd).1
  finishes := by
    intro s p c a p' h idle ha hstep
    have hp : s.producer = .idle := ProducerPc.call_eq_none (idle .producer)
    have hc : s.consumer = .idle := ConsumerPc.call_eq_none (idle .consumer)
    have hidle : ∀ {s' : State α Args C}, s'.producer = .idle → s'.consumer = .idle →
        ∀ d, s'.pending construct d = none := by
      rintro s' hp' hc' (_ | _)
      · exact congrArg (ProducerPc.call construct) hp'
      · exact congrArg ConsumerPc.call hc'
    have push : ∀ {v b}, Pictured.Push (C.value - 1) p v b p' →
        ∃ i s₁ s', Access.entry construct i = some (.push v) ∧
          access construct s i = some (s₁, none) ∧
          (machine construct).Finishes .producer s₁ (if b then .pushed v else .refused v) s' ∧
          Pictures s' p' ∧ ∀ d, s'.pending construct d = none := by
      intro v b hpush
      have henter : access construct s (.enterPush (.push v))
          = some ({ s with producer := .loadHead (.push v) }, none) := by
        simp only [access, hp]
      obtain ⟨p₁, rfl, h₁⟩ := access_pictures construct h henter
      obtain ⟨s', hfin, h', hp', hc'⟩ := h₁.finishes_push construct rfl hpush
      exact ⟨_, _, s', rfl, henter, hfin, h', hidle hp' (hc'.trans hc)⟩
    have pop : ∀ {o}, Pictured.Pop p o p' →
        ∃ i s₁ s', Access.entry construct i = some .pop ∧
          access construct s i = some (s₁, none) ∧
          (machine construct).Finishes .consumer s₁ (o.elim .empty .popped) s' ∧
          Pictures s' p' ∧ ∀ d, s'.pending construct d = none := by
      intro o hpop
      have henter : access construct s .enterPop = some ({ s with consumer := .loadTail }, none) := by
        simp only [access, hc]
      obtain ⟨p₁, rfl, h₁⟩ := access_pictures construct h henter
      obtain ⟨s', hfin, h', hc', hp'⟩ := h₁.finishes_pop construct rfl hpop
      exact ⟨_, _, s', rfl, henter, hfin, h', hidle (hp'.trans hp) hc'⟩
    cases ha with
    | pushed v => exact push hstep
    | refused v => exact push hstep
    | popped v => exact pop hstep
    | empty => exact pop hstep

end Finishes

end TradingGateway.Spsc.Interleaving
