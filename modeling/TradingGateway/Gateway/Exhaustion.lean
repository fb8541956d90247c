/-
# `Gateway.Exhaustion` — where slots and queue places run out

Two resources of the gateway are bounded while what uses them is not: 1024 slots
against any number of connections that live for any time, and the places of the
command queue against any burst of orders.  What goes wrong there, and that
nothing else goes wrong:

| resource | what holds | exactly while |
| :-- | :-- | :-- |
| slots | every open connection is named by its slot | no connection is accepted onto the slot of an open one |
| queue places | an order message that is consumed is enqueued | the queue has room at every order step |

Each half states the property of a run, the condition on the states before its
steps, and a run that a few clients can bring about in which it fails.
-/
import TradingGateway.Gateway.Progress

namespace TradingGateway.Gateway

open Lib OrderEntry Spsc

variable {D : Descriptors} {ts : List (Taken Server Label)} {s s' : Server}

/-! ## Slots -/

/-- A connection is accepted in the step. -/
def Accepts (es : List Event) : Prop := ∃ k fd token, Event.accepted k fd token ∈ es

theorem Routable.deliverable {r : Routes} (h : Routable r) (hr : Routed r) {fd : Int}
    {c : Connection} (hc : r.connections.find fd = some c) :
    Deliverable r c.token ∧ (r.slot c.token.slot).fd = fd := by
  obtain ⟨hfd, hpos, -, -⟩ := hr.entry hc
  have hname := (h.named hc).fd.trans hfd
  exact ⟨⟨(h.named hc).generation, hname ▸ hpos⟩, hname⟩

theorem Routable.of_openFds {r : Routes} (h : Routable r) (fds : List Int) :
    Routable { r with openFds := fds } where
  named := fun hc => ⟨(h.named hc).fd, (h.named hc).generation⟩
  apart := h.apart

/-- **One step keeps every connection routable unless it accepts one onto a slot in
use.** -/
theorem Move.routable_iff {es : List Event} (hs : Sound s) (hr : Routable s.toRoutes)
    (h : Move s es s') :
    Routable s'.toRoutes ↔ (Accepts es → ¬ Routable.SlotHeld s.toRoutes) := by
  have hvoid : s'.accepts = s.accepts → Accepts es → ¬ Routable.SlotHeld s.toRoutes := by
    rintro heq ⟨k, fd, token, he⟩
    rcases h.accepts hs.routed with ⟨-, -, hsucc⟩ | ⟨hnone, -⟩
    · exact absurd (heq.symm.trans hsucc) (Nat.ne_of_lt (Nat.lt_succ_self _))
    · exact absurd he (hnone k fd token)
  cases h with
  | accepted pos free routes aside =>
      rw [routes, hr.link_iff hs.routed pos free]
      exact ⟨fun hne _ => hne, fun hne => hne ⟨_, _, _, List.mem_cons_self⟩⟩
  | quiet routes engine pc passed =>
      exact iff_of_true (routes ▸ hr) (hvoid (by rw [routes]))
  | closed found routes engine aside =>
      exact iff_of_true (routes ▸ hr.unlink hs.routed found) (hvoid (by rw [routes]; rfl))
  | received found le fits routes outside alive pc =>
      refine iff_of_true ?_ (hvoid (by rw [routes]; rfl))
      rw [routes]
      exact hr.assign hs.routed found ⟨rfl, rfl, rfl⟩
  | overflowed found le full routes aside =>
      refine iff_of_true ?_ (hvoid (by rw [routes]; rfl))
      rw [routes]
      exact (hr.assign hs.routed found (.self _)).unlink (hs.routed.assign found (.self _))
        (Routed.find_assign_self found _)
  | starved loop found short routes pc =>
      exact iff_of_true (routes ▸ hr.assign hs.routed found (.self _)) (hvoid (by rw [routes]; rfl))
  | refused loop found long bad routes pc =>
      exact iff_of_true (routes ▸ hr.assign hs.routed found (.self _)) (hvoid (by rw [routes]; rfl))
  | answered loop found long read answered =>
      have routes := answered.routes
      exact iff_of_true (routes ▸ hr.assign hs.routed found answered.same)
        (hvoid (by rw [routes]; rfl))
  | exited routes outside pc =>
      exact iff_of_true (routes ▸ hr.of_openFds _) (hvoid (by rw [routes]))

theorem ServerRun.routable (h : ServerRun D ts s) (hall : ∀ t ∈ ts, Routable t.dst.toRoutes) :
    Routable s.toRoutes := by
  refine Run.at_end (P := fun s => Routable s.toRoutes) h ?_ hall
  rintro s rfl
  exact Routable.fresh D

/-- **Every open connection stays routable exactly while no connection is accepted
onto the slot of an open one.** -/
theorem connections_stay_routable_iff (h : ServerRun D ts s) :
    (∀ t ∈ ts, Routable t.dst.toRoutes) ↔
      ∀ t ∈ ts, Accepts t.label.events → ¬ Routable.SlotHeld t.src.toRoutes := by
  refine Run.invariant (I := fun ts _ => (∀ t ∈ ts, Routable t.dst.toRoutes) ↔
    ∀ t ∈ ts, Accepts t.label.events → ¬ Routable.SlotHeld t.src.toRoutes) ?_ ?_ h
  · intro s _
    exact iff_of_true (fun _ ht => absurd ht List.not_mem_nil) fun _ ht => absurd ht List.not_mem_nil
  · intro ts s l s' hr hiff hstep
    have hs := ServerRun.sound hr
    simp only [List.forall_mem_append, List.forall_mem_singleton]
    constructor
    · rintro ⟨hall, hnew⟩
      exact ⟨hiff.mp hall, ((hstep.move hs).routable_iff hs (ServerRun.routable hr hall)).mp hnew⟩
    · rintro ⟨hcond, hnew⟩
      have hall := hiff.mpr hcond
      exact ⟨hall, ((hstep.move hs).routable_iff hs (ServerRun.routable hr hall)).mpr hnew⟩

theorem many_accepts (n : Nat) :
    ∃ ts s, ServerRun .standard ts s ∧ s.gateway = .wait ∧ s.accepts = n ∧
      (∀ i < n, ∃ c, s.connections.find (6 + (i : Int)) = some c ∧ c.serial = i) ∧
      ∀ fd : Int, 6 + (n : Int) ≤ fd → fd ∉ s.openFds := by
  induction n with
  | zero =>
      refine ⟨[], _, .start rfl, rfl, rfl, nofun, ?_⟩
      intro fd hfd hmem
      have hmem : fd ∈ [3, 4, 5, 0, 1, 2] := hmem
      simp only [List.mem_cons, List.not_mem_nil, or_false] at hmem
      omega
  | succ n ih =>
      obtain ⟨ts, s, h, hw, hn, hall, hfds⟩ := ih
      have hfresh := hfds (6 + n) (Int.le_refl _)
      obtain ⟨us, h', -, hfree⟩ := h.can_accept hw (by decide) (6 + n) (by omega) hfresh
      refine ⟨_, _, h', hw, congrArg Nat.succ hn, ?_, ?_⟩
      · intro i hi
        show ∃ c, (s.link (6 + (n : Int))).connections.find (6 + (i : Int)) = some c ∧ c.serial = i
        rw [Routed.find_link hfree]
        split
        next heq => exact ⟨_, rfl, by show s.accepts = i; omega⟩
        next hne => exact hall i (by omega)
      · intro fd hfd hmem
        rcases List.mem_cons.mp hmem with heq | hmem
        · omega
        · exact hfds fd (by omega) hmem

/-- As long as not every slot was given out once, the next is not held. -/
theorem Routed.not_slotHeld {r : Routes} (hr : Routed r) (hlt : r.accepts < kMaxSlots) :
    ¬ Routable.SlotHeld r := by
  rintro ⟨fd, c, hc, hslot⟩
  obtain ⟨-, -, htoken, hserial⟩ := hr.entry hc
  have hnumber := congrArg UInt32.toNat hslot
  rw [htoken, toNat_slot_tokenOf, hr.toNat_allocated, Nat.mod_eq_of_lt (hserial.trans hlt),
    Nat.mod_eq_of_lt hlt] at hnumber
  exact absurd hnumber (Nat.ne_of_lt hserial)

theorem ServerRun.accepts_le (h : ServerRun D ts s) {t : Taken Server Label} (ht : t ∈ ts) :
    t.dst.accepts ≤ s.accepts := by
  refine Run.invariant (I := fun ts s => ∀ t ∈ ts, t.dst.accepts ≤ s.accepts) ?_ ?_ h t ht
  · exact fun _ _ t ht => absurd ht List.not_mem_nil
  · intro ts s l s' hr ih hstep t ht
    have hs := ServerRun.sound hr
    rcases List.mem_append.mp ht with ht | ht
    · exact (ih t ht).trans ((hstep.move hs).accepts_le hs)
    · rw [List.mem_singleton.mp ht]

/-- As many connections as there are slots, all of them open. -/
theorem connections_stay_routable_iff_allSlots :
    ∃ ts s, ServerRun .standard ts s ∧
      (∀ i < kMaxSlots, ∃ c, s.connections.find (6 + (i : Int)) = some c ∧ c.serial = i) ∧
      ∀ t ∈ ts, Routable t.dst.toRoutes := by
  obtain ⟨ts, s, h, -, hn, hall, -⟩ := many_accepts kMaxSlots
  refine ⟨ts, s, h, hall, (connections_stay_routable_iff h).mpr fun t ht haccepts => ?_⟩
  obtain ⟨hs, hmove⟩ := h.sound_of_mem ht
  have hle := ServerRun.accepts_le h ht
  rcases hmove.accepts hs.routed with ⟨fd, -, heq⟩ | ⟨hnone, -⟩
  · exact hs.routed.not_slotHeld (by omega)
  · obtain ⟨k, fd, token, he⟩ := haccepts
    exact absurd he (hnone k fd token)

/-- The 1025th connection takes the slot of the first, which is still open. -/
theorem slot_reassigned :
    ∃ ts s, ServerRun .standard ts s ∧ ¬ ∀ t ∈ ts, Routable t.dst.toRoutes := by
  obtain ⟨ts, s, h, hw, hn, hopen, hfds⟩ := many_accepts 1024
  have hs := ServerRun.sound h
  obtain ⟨c, hc, hserial⟩ := hopen 0 (by decide)
  have hfresh := hfds (6 + 1024) (Int.le_refl _)
  obtain ⟨us, h', hevents, hfree⟩ := h.can_accept hw (by decide) (6 + 1024) (by decide) hfresh
  refine ⟨_, _, h', fun hall => ?_⟩
  refine (Routable.link_iff ?_ hs.routed (by decide) hfree).mp (ServerRun.routable h' hall) ?_
  · exact ServerRun.routable h fun t ht => hall t (List.mem_append_left _ ht)
  · refine ⟨6, c, hc, ?_⟩
    obtain ⟨-, -, htoken, -⟩ := hs.routed.entry hc
    apply UInt32.toNat.inj
    rw [htoken, hserial, hs.routed.toNat_allocated, hn]
    rfl

/-! ## Places in the command queue -/

/-- The step parses the in-sequence order message `r` on the connection `c` with the
descriptor `fd`, and `cmd` is the command it stands for. -/
structure OrderStep (t : Taken Server Label) (fd : Int) (c : Connection) (r : Request)
    (cmd : EngineCommand) : Prop where
  input : t.label.input = .parse
  loop : t.src.gateway = .parse fd false
  found : t.src.connections.find fd = some c
  long : kFrameSize ≤ c.parser.contents.length
  read : readRequest (c.parser.contents.take kFrameSize) = some r
  inSequence : r.header.sequenceNumber = c.expectedSequence
  order : orderCommand c.token r = some cmd

/-- The order message is not lost: its command is in the queue, or the message was
not consumed, or the client was told that it was rejected. -/
def Kept (t : Taken Server Label) (fd : Int) (c : Connection) (cmd : EngineCommand) : Prop :=
  t.dst.cmdQueue.items = t.src.cmdQueue.items ++ [⟨cmd, c.serial⟩] ∨
    (∃ c', t.dst.connections.find fd = some c' ∧ c'.expectedSequence = c.expectedSequence) ∨
    ∃ cause frame header id reason,
      Event.control c.serial fd cause frame ∈ t.label.events ∧
        controlOutput frame = some (.control header (.rejected id reason))

/-- No order message is consumed and then lost. -/
def NothingLost (ts : List (Taken Server Label)) : Prop :=
  ∀ t ∈ ts, ∀ fd c r cmd, OrderStep t fd c r cmd → Kept t fd c cmd

/-- What an order step does: the sequence number is used up, and the command is
pushed, with or without room for it. -/
theorem OrderStep.effect {t : Taken Server Label} {fd : Int} {c : Connection} {r : Request}
    {cmd : EngineCommand} (h : OrderStep t fd c r cmd) (hs : Sound t.src)
    (hstep : Step D t.src t.label t.dst) :
    ∃ msg c', t.label.events = [.command c.serial msg cmd (t.src.cmdQueue.push ⟨cmd, c.serial⟩).1] ∧
      t.dst.cmdQueue = (t.src.cmdQueue.push ⟨cmd, c.serial⟩).2 ∧
      t.dst.connections.find fd = some c' ∧ c'.expectedSequence = c.expectedSequence + 1 := by
  obtain ⟨input, loop, found, long, read, inSequence, order⟩ := h
  have hanswer : answer c.token c.expectedSequence r
      = (.command cmd, some (c.expectedSequence + 1)) := by
    rw [answer, if_neg (not_not.mpr inSequence), order]
  rcases hstep.parses hs input loop found long with
    ⟨bad, -⟩ | ⟨r', c', e, read', hevents, answered⟩
  · cases bad.symm.trans read
  · obtain rfl := Option.some.inj (read.symm.trans read')
    have event := answered.event
    have hexpected := answered.expected
    rw [hanswer] at event hexpected
    have hfound := Routed.find_assign_self found c'
    rw [← answered.routes] at hfound
    rw [hevents]
    cases event with
    | control read last kept =>
        obtain ⟨reply, -, hcontrol⟩ := Option.map_eq_some_iff.mp read
        cases hcontrol
    | @command msg order pushed => exact ⟨msg, c', rfl, pushed, hfound, hexpected⟩

theorem OrderStep.kept_iff {t : Taken Server Label} {fd : Int} {c : Connection} {r : Request}
    {cmd : EngineCommand} (h : OrderStep t fd c r cmd) (hs : Sound t.src)
    (hstep : Step D t.src t.label t.dst) : Kept t fd c cmd ↔ t.src.cmdQueue.HasRoom := by
  obtain ⟨msg, c', hevents, hqueue, hfound, hexpected⟩ := h.effect hs hstep
  rw [Kept, hqueue, Queue.items_push_iff]
  constructor
  · rintro (hroom | ⟨d, hd, hsame⟩ | ⟨cause, frame, header, id, reason, he, -⟩)
    · exact hroom
    · rw [hfound] at hd
      obtain rfl := Option.some.inj hd
      rw [hexpected] at hsame
      exact absurd hsame (by simp)
    · rw [hevents] at he
      cases List.mem_singleton.mp he
  · exact Or.inl

/-- **No order message is lost exactly while the command queue has room at every
order step.** -/
theorem nothing_lost_iff (h : ServerRun D ts s) :
    NothingLost ts ↔
      ∀ t ∈ ts, ∀ fd c r cmd, OrderStep t fd c r cmd → t.src.cmdQueue.HasRoom := by
  constructor
  · intro hkept t ht fd c r cmd horder
    exact (horder.kept_iff (h.sound_of_mem ht).1 (h.of_mem ht).2).mp (hkept t ht fd c r cmd horder)
  · intro hroom t ht fd c r cmd horder
    exact (horder.kept_iff (h.sound_of_mem ht).1 (h.of_mem ht).2).mpr (hroom t ht fd c r cmd horder)

theorem nothing_lost_iff_firstOrder :
    ∃ ts s msg, ServerRun .standard ts s ∧
      Event.command 0 msg firstCommand true ∈ events ts ∧
      (NothingLost ts ↔
        ∀ t ∈ ts, ∀ fd c r cmd, OrderStep t fd c r cmd → t.src.cmdQueue.HasRoom) := by
  obtain ⟨ts, s, msg, enqueued, h, hevents⟩ := first_answered
  refine ⟨ts, s, msg, h, ?_, nothing_lost_iff h⟩
  rw [hevents]
  simp

/-- Clients that come and go fill the queue with their ends, if the engine does not
get to it. -/
theorem queue_fills (n : Nat) (hn : n < kQueueCapacity.value) :
    ∃ ts s, ServerRun .standard ts s ∧ s.gateway = .wait ∧ (6 : Int) ∉ s.openFds ∧
      s.cmdQueue.items.length = n := by
  induction n with
  | zero =>
      refine ⟨[], _, .start rfl, rfl, by decide, ?_⟩
      exact congrArg List.length Queue.items_fresh
  | succ n ih =>
      obtain ⟨ts, s, h, hw, hfree, hlen⟩ := ih (Nat.lt_of_succ_lt hn)
      obtain ⟨us, h1, -, hnone⟩ := h.can_accept hw (by decide) 6 (by decide) hfree
      have hfound := Routed.find_link_self hnone
      obtain ⟨vs, t, h2, -⟩ := h1.can_hangUp hw (by decide) (by decide) hfound
      rw [closeConn_of_find hfound] at h2
      refine ⟨_, _, h2, hw, ?_, ?_⟩
      · intro hmem
        have hne := (List.mem_filter.mp hmem).2
        exact absurd hne (by decide)
      · have hroom : s.cmdQueue.HasRoom := by
          rw [Queue.HasRoom, hlen]
          exact hn
        show (Queue.items (s.cmdQueue.push _).2).length = n + 1
        rw [Queue.push_snd, if_pos hroom, List.length_append, hlen]
        rfl

theorem ServerRun.loses_order (h : ServerRun D ts s) {fd : Int} {c : Connection} {r : Request}
    {cmd : EngineCommand} (loop : s.gateway = .parse fd false)
    (found : s.connections.find fd = some c) (long : kFrameSize ≤ c.parser.contents.length)
    (read : readRequest (c.parser.contents.take kFrameSize) = some r)
    (inSequence : r.header.sequenceNumber = c.expectedSequence)
    (order : orderCommand c.token r = some cmd) (full : ¬ s.cmdQueue.HasRoom) :
    ∃ us s', ServerRun D (ts ++ us) s' ∧ ¬ NothingLost (ts ++ us) := by
  obtain ⟨c', e, s', h', -, -⟩ := h.can_take loop found long read
  have hmem : (⟨s, ⟨.parse, [e]⟩, s'⟩ : Taken Server Label) ∈ ts ++ [⟨s, ⟨.parse, [e]⟩, s'⟩] :=
    List.mem_append_right ts List.mem_cons_self
  refine ⟨_, s', h', fun hkept => full ?_⟩
  have hlost : OrderStep ⟨s, ⟨.parse, [e]⟩, s'⟩ fd c r cmd :=
    ⟨rfl, loop, found, long, read, inSequence, order⟩
  exact (hlost.kept_iff (h'.sound_of_mem hmem).1 (h'.of_mem hmem).2).mp (hkept _ hmem fd c r cmd hlost)

/-- An order that comes when the queue is full is consumed and lost. -/
theorem order_lost :
    ∃ ts s, ServerRun .standard ts s ∧ ¬ NothingLost ts := by
  obtain ⟨ts, s, h, hw, hfree, hlen⟩ := queue_fills 4095 (by decide)
  obtain ⟨us, h1, -, hnone⟩ := h.can_accept hw (by decide) 6 (by decide) hfree
  have hfound := Routed.find_link_self hnone
  have hfits : (Parser.fresh : Parser parserCapacity).Fits firstFrame := by
    rw [Parser.Fits, Parser.contents_fresh, length_firstFrame]
    decide
  obtain ⟨vs, h2, -⟩ := h1.can_receive hw (by decide) (by decide) hfound
    (by rw [length_firstFrame]; decide) (by rw [length_firstFrame]; decide) hfits
  have hcontents : ((Parser.fresh : Parser parserCapacity).append firstFrame).2.contents
      = firstFrame := by
    rw [(Parser.append_of_fits hfits).2, Parser.contents_fresh, List.nil_append]
  have hfull : ¬ s.cmdQueue.HasRoom := by
    rw [Queue.HasRoom, hlen]
    decide
  obtain ⟨ws, s', h3, hlost⟩ := h2.loses_order rfl (Routed.find_assign_self hfound _)
    (r := firstOrder.request) (hcontents.symm ▸ Nat.le_of_eq length_firstFrame.symm)
    (hcontents.symm ▸ (List.take_of_length_le (Nat.le_of_eq length_firstFrame)).symm ▸
      readRequest_firstFrame) rfl rfl hfull
  exact ⟨_, s', h3, hlost⟩

end TradingGateway.Gateway
