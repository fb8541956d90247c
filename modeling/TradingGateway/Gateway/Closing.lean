/-
# `Gateway.Closing` — what a close does to everyone else

`close_conn` is called from the receive step and from the response drain.  Whatever
the call site, it takes out one entry, clears the slot of its token and pushes a
SessionClosed (`Step.closes`).  Two things about it depend on what is not looked at.

* The slot is cleared without asking whose it is by now, so a close leaves the other
  connections alone exactly where none of them shares the slot, or it is clear already
  (`closes_disturb_nobody_iff`).
* What `push` returns is ignored here, and behind the event loop for the Shutdown, so
  the engine hears of a session's end exactly where the command queue has room for it
  (`ends_told_iff`).

Nothing but the client's end, a frame that was not sent whole and an append without room
brings a close about (`Step.cause`).
-/
import TradingGateway.Gateway.Exhaustion
import TradingGateway.Gateway.Responses

namespace TradingGateway.Gateway

open Lib Lib.Cyclic OrderEntry Spsc

variable {D : Descriptors} {ts : List (Taken Server Label)} {s s' : Server}

/-! ## What a closing step does -/

/-- `s'` is `s` without the connection `c`. -/
structure Closes (s : Server) (fd : Int) (c : Connection) (enqueued : Bool) (s' : Server) :
    Prop where
  found : s.connections.find fd = some c
  entries : ∀ j, s'.connections.find j = if j = fd then none else s.connections.find j
  slots : s'.slots = (s.unlink fd c.token).slots
  cmdQueue : s'.cmdQueue = (s.cmdQueue.push (sessionClosed c)).2
  enqueued : enqueued = (s.cmdQueue.push (sessionClosed c)).1

/-- The close that the event shows. -/
def ClosesFor (s : Server) (k : Nat) (token : SessionToken) (enqueued : Bool) (s' : Server) : Prop :=
  ∃ fd c, c.serial = k ∧ c.token = token ∧ Closes s fd c enqueued s'

section Steps

variable {k : Nat} {token : SessionToken} {enqueued : Bool} {es : List Event}

theorem Shows.ne_closed {c : Connection} {fd : Int} {q q' : CommandQueue} {o : Output}
    {next : Option UInt64} {e : Event} (h : Shows c fd q q' o next e) (k : Nat)
    (token : SessionToken) (enqueued : Bool) : e ≠ .closed k token enqueued := by
  cases h with
  | control read last kept => nofun
  | command order pushed => nofun

theorem closes_of_unlink {fd : Int} {c : Connection} (found : s.connections.find fd = some c)
    (routes : s'.toRoutes = s.unlink fd c.token)
    (cmdQueue : s'.cmdQueue = (s.cmdQueue.push (sessionClosed c)).2)
    (he : Event.closed k token enqueued
      = .closed c.serial c.token (s.cmdQueue.push (sessionClosed c)).1) :
    ClosesFor s k token enqueued s' := by
  obtain ⟨rfl, rfl, rfl⟩ := Event.closed.inj he
  refine ⟨fd, c, rfl, rfl, found, ?_, ?_, cmdQueue, rfl⟩
  · intro j
    rw [routes]
    exact Routed.find_unlink fd c.token j
  · rw [routes]

theorem find_unlink_assign_self {fd : Int} {c : Connection} (found : s.connections.find fd = some c)
    (token : SessionToken) (j : Int) :
    ((s.assign fd c).unlink fd token).connections.find j
      = if j = fd then none else s.connections.find j := by
  rw [Routed.find_unlink]
  split
  next => rfl
  next hne =>
    rw [Routed.find_assign found]
    exact if_neg hne

/-- **What the step that shows a close does.** -/
theorem Step.closes (hs : Sound s) {l : Label} (h : Step D s l s')
    (he : Event.closed k token enqueued ∈ l.events) : ClosesFor s k token enqueued s' := by
  have hacts := h.acts hs
  obtain ⟨input, es⟩ := l
  dsimp only at hacts he
  cases hacts with
  | eventFd | listenFd | clientFd | epollFails | drained | taken | acceptFails | ignored | starved
  | join | idle | notify => cases he
  | dropped | sent | accept | received | refused | shutdown | stopped | skipped | answering
  | respond => cases List.mem_singleton.mp he
  | answered loop found long read answered =>
      exact absurd (List.mem_singleton.mp he).symm (answered.event.ne_closed k token enqueued)
  | cutOff pc target found =>
      rcases List.mem_cons.mp he with heq | he
      · cases heq
      · exact closes_of_unlink found rfl rfl (List.mem_singleton.mp he)
  | hungUp pc found => exact closes_of_unlink found rfl rfl (List.mem_singleton.mp he)
  | overflowed pc found full =>
      rcases List.mem_cons.mp he with heq | he
      · cases heq
      · obtain ⟨rfl, rfl, rfl⟩ := Event.closed.inj (List.mem_singleton.mp he)
        exact ⟨_, _, rfl, rfl, found, find_unlink_assign_self found _, rfl, rfl, rfl⟩

theorem Move.closed_of_removed (h : Move s es s') {fd : Int} {c : Connection}
    (found : s.connections.find fd = some c) (removed : s'.connections.find fd = none) :
    ∃ enqueued, Event.closed c.serial c.token enqueued ∈ es := by
  -- an update in place takes nothing out
  have updated : ∀ {j : Int} {d d' : Connection}, s.connections.find j = some d →
      (s.assign j d').connections.find fd ≠ none := by
    intro j d d' hd hnone
    rw [Routed.find_assign hd] at hnone
    split at hnone
    next => cases hnone
    next => cases found.symm.trans hnone
  cases h with
  | quiet routes engine pc passed =>
      rw [routes] at removed
      cases found.symm.trans removed
  | accepted pos free routes aside =>
      rw [routes, Routed.find_link free] at removed
      split at removed
      next => cases removed
      next => cases found.symm.trans removed
  | @closed j d es enqueued s' found' routes engine aside =>
      rw [routes, Routed.find_unlink] at removed
      split at removed
      next heq =>
        rw [heq] at found
        obtain rfl := Option.some.inj (found'.symm.trans found)
        exact ⟨enqueued, List.mem_append_right _ List.mem_cons_self⟩
      next => cases found.symm.trans removed
  | received found' le fits routes outside alive pc =>
      rw [routes] at removed
      exact absurd removed (updated found')
  | @overflowed j d bs enqueued s' found' le full routes aside =>
      rw [routes, Routed.find_unlink] at removed
      split at removed
      next heq =>
        rw [heq] at found
        obtain rfl := Option.some.inj (found'.symm.trans found)
        exact ⟨enqueued, List.mem_cons_of_mem _ List.mem_cons_self⟩
      next => exact absurd removed (updated found')
  | starved loop found' short routes pc | refused loop found' long bad routes pc =>
      rw [routes] at removed
      exact absurd removed (updated found')
  | answered loop found' long read answered =>
      rw [answered.routes] at removed
      exact absurd removed (updated found')
  | exited routes outside pc =>
      rw [routes] at removed
      cases found.symm.trans removed

end Steps

/-! ## The other connections -/

/-- The step closes the connection `c`, which is open on `fd`. -/
structure ClosesConn (t : Taken Server Label) (fd : Int) (c : Connection) : Prop where
  found : t.src.connections.find fd = some c
  event : ∃ enqueued, Event.closed c.serial c.token enqueued ∈ t.label.events

/-- Its entry and its slot are as before, so what was deliverable to it still is. -/
structure LeftAlone (s : Server) (fd : Int) (d : Connection) (s' : Server) : Prop where
  entry : s'.connections.find fd = some d
  slot : s'.slot d.token.slot = s.slot d.token.slot
  deliverable : s.Names d → s'.Names d

/-- No close disturbs another open connection. -/
def ClosesDisturbNobody (ts : List (Taken Server Label)) : Prop :=
  ∀ t ∈ ts, ∀ fd c, ClosesConn t fd c → ∀ fd' d, t.src.connections.find fd' = some d → fd' ≠ fd →
    LeftAlone t.src fd' d t.dst

theorem ClosesConn.closes {t : Taken Server Label} {fd : Int} {c : Connection}
    (h : ClosesConn t fd c) (hs : Sound t.src) (hstep : Step D t.src t.label t.dst) :
    ∃ enqueued, Closes t.src fd c enqueued t.dst := by
  obtain ⟨enqueued, he⟩ := h.event
  obtain ⟨fd', c', hserial, -, hcloses⟩ := hstep.closes hs he
  obtain rfl := hs.routed.unique hcloses.found h.found hserial
  obtain rfl := Option.some.inj (hcloses.found.symm.trans h.found)
  exact ⟨enqueued, hcloses⟩

/-- A slot cleared is as before where it was clear. -/
theorem Closes.leftAlone_iff {fd fd' : Int} {c d : Connection} {enqueued : Bool}
    (h : Closes s fd c enqueued s') (hs : Sound s) (hd : s.connections.find fd' = some d)
    (hne : fd' ≠ fd) :
    LeftAlone s fd' d s' ↔ c.token.slot ≠ d.token.slot ∨ (s.slot d.token.slot).fd = -1 := by
  have hentry : s'.connections.find fd' = some d := by
    rw [h.entries, if_neg hne, hd]
  have hslot : s'.slot d.token.slot =
      if d.token.slot.toNat = c.token.slot.toNat then { s.slot d.token.slot with fd := -1 }
      else s.slot d.token.slot := by
    rw [Routes.slot, h.slots, Routed.cells_unlink (hs.routed.slot_lt h.found)]
    rfl
  constructor
  · intro hleft
    by_cases hsame : c.token.slot = d.token.slot
    · have hkept := hleft.slot
      rw [hslot, if_pos (congrArg UInt32.toNat hsame.symm)] at hkept
      exact Or.inr (congrArg SessionSlot.fd hkept).symm
    · exact Or.inl hsame
  · intro hcond
    have hkept : s'.slot d.token.slot = s.slot d.token.slot := by
      rw [hslot]
      split
      next hsame =>
        rcases hcond with hne | hclear
        · exact absurd (UInt32.toNat.inj hsame.symm) hne
        · rw [← hclear]
      next => rfl
    exact ⟨hentry, hkept, fun hnames => hnames.of_slot hkept (.self d)⟩

theorem ServerRun.leftAlone_iff (h : ServerRun D ts s) {t : Taken Server Label} (ht : t ∈ ts)
    {fd fd' : Int} {c d : Connection} (hcloses : ClosesConn t fd c)
    (hd : t.src.connections.find fd' = some d) (hne : fd' ≠ fd) :
    LeftAlone t.src fd' d t.dst ↔
      c.token.slot ≠ d.token.slot ∨ (t.src.slot d.token.slot).fd = -1 := by
  have hs := (h.sound_of_mem ht).1
  obtain ⟨enqueued, hc⟩ := hcloses.closes hs (h.of_mem ht).2
  exact hc.leftAlone_iff hs hd hne

/-- **Closing a connection leaves the others alone exactly while no other open
connection shares its slot, unless the slot is clear.** -/
theorem closes_disturb_nobody_iff (h : ServerRun D ts s) :
    ClosesDisturbNobody ts ↔
      ∀ t ∈ ts, ∀ fd c, ClosesConn t fd c → ∀ fd' d, t.src.connections.find fd' = some d →
        fd' ≠ fd → c.token.slot ≠ d.token.slot ∨ (t.src.slot d.token.slot).fd = -1 := by
  constructor
  · intro hall t ht fd c hcloses fd' d hd hne
    exact (h.leftAlone_iff ht hcloses hd hne).mp (hall t ht fd c hcloses fd' d hd hne)
  · intro hall t ht fd c hcloses fd' d hd hne
    exact (h.leftAlone_iff ht hcloses hd hne).mpr (hall t ht fd c hcloses fd' d hd hne)

theorem ServerRun.can_close (h : ServerRun D ts s) (hw : s.gateway = .wait) {fd : Int}
    (hevent : fd ≠ D.eventFd) (hlisten : fd ≠ D.listenFd) {c : Connection}
    (found : s.connections.find fd = some c) :
    ∃ us t s', ServerRun D (ts ++ (us ++ [t])) s' ∧ ClosesConn t fd c ∧
      t.src.toRoutes = s.toRoutes ∧ t.src.cmdQueue = s.cmdQueue ∧ s'.accepts = s.accepts := by
  obtain ⟨us, t, h', hroutes, hqueue, -, hevents⟩ := h.can_hangUp hw hevent hlisten found
  refine ⟨us, t, _, h', ⟨?_, ?_⟩, hroutes, hqueue, by rw [closeConn_of_find found]; rfl⟩
  · rw [hroutes]
    exact found
  · rw [hevents, closeConn_of_find found]
    exact ⟨_, List.mem_cons_self⟩

/-- As long as no slot was given out twice, no two connections share one. -/
theorem Routed.slot_ne {r : Routes} (hr : Routed r) (hle : r.accepts ≤ kMaxSlots)
    {fd fd' : Int} {c d : Connection} (hc : r.connections.find fd = some c)
    (hd : r.connections.find fd' = some d) (hne : fd' ≠ fd) : c.token.slot ≠ d.token.slot := by
  intro hsame
  obtain ⟨-, -, hc_token, hc_lt⟩ := hr.entry hc
  obtain ⟨-, -, hd_token, hd_lt⟩ := hr.entry hd
  have hnumber := congrArg UInt32.toNat hsame
  rw [hc_token, hd_token, toNat_slot_tokenOf, toNat_slot_tokenOf,
    Nat.mod_eq_of_lt (hc_lt.trans_le hle), Nat.mod_eq_of_lt (hd_lt.trans_le hle)] at hnumber
  exact hne (hr.unique hd hc hnumber.symm)

/-- Of two clients the first hangs up. -/
theorem closes_disturb_nobody_iff_twoClients :
    ∃ ts s t c d, ServerRun .standard ts s ∧ t ∈ ts ∧ ClosesConn t 6 c ∧
      t.src.connections.find 7 = some d ∧ ClosesDisturbNobody ts := by
  obtain ⟨ts, s, h, hw, hn, hall, -⟩ := many_accepts 2
  obtain ⟨c, hc, -⟩ := hall 0 (by decide)
  obtain ⟨d, hd, -⟩ := hall 1 (by decide)
  obtain ⟨us, t, s', h', hcloses, hroutes, -, haccepts⟩ := h.can_close hw (by decide) (by decide) hc
  refine ⟨_, s', t, c, d, h', ?_, hcloses, ?_, (closes_disturb_nobody_iff h').mpr ?_⟩
  · exact List.mem_append_right _ (List.mem_append_right _ List.mem_cons_self)
  · rw [hroutes]
    exact hd
  · intro t ht fd c hcloses fd' d hd hne
    obtain ⟨hs, hmove⟩ := h'.sound_of_mem ht
    have hle : t.src.accepts ≤ 2 := by
      rw [← hn, ← haccepts]
      exact (hmove.accepts_le hs).trans (ServerRun.accepts_le h' ht)
    exact Or.inl (hs.routed.slot_ne (hle.trans (by decide)) hcloses.found hd hne)

/-- The 1025th connection has the slot of the first, and loses it when the first hangs
up. -/
theorem neighbour_disturbed :
    ∃ ts s, ServerRun .standard ts s ∧
      (∀ slot < kMaxSlots, slotAssignments slot (events ts) < 2 ^ 32) ∧
      ¬ ClosesDisturbNobody ts := by
  obtain ⟨ts, s, h, hw, hn, hopen, hfds⟩ := many_accepts 1024
  have hs := ServerRun.sound h
  obtain ⟨c, hc, hserial⟩ := hopen 0 (by decide)
  have hfresh := hfds (6 + 1024) (Int.le_refl _)
  obtain ⟨us, h1, -, hfree⟩ := h.can_accept hw (by decide) (6 + 1024) (by decide) hfresh
  have hfound : (s.link (6 + 1024)).connections.find 6 = some c :=
    (Routed.find_link hfree 6).trans hc
  have hneighbour : (s.link (6 + 1024)).connections.find (6 + 1024)
      = some (Routed.freshConnection s.toRoutes (6 + 1024)) :=
    Routed.find_link_self hfree
  obtain ⟨vs, t, s', h2, hcloses, hroutes, -, haccepts⟩ := h1.can_close hw (by decide) (by decide) hfound
  have ht : t ∈ ts ++ us ++ (vs ++ [t]) :=
    List.mem_append_right _ (List.mem_append_right _ List.mem_cons_self)
  refine ⟨_, s', h2, ?_, fun hall => ?_⟩
  · intro slot hslot
    have hsucc : s'.accepts = 1025 := haccepts.trans (congrArg Nat.succ hn)
    rw [h2.counts.1 slot hslot, hsucc]
    simp only [assignments, kMaxSlots]
    omega
  · have hd : t.src.connections.find (6 + 1024)
        = some (Routed.freshConnection s.toRoutes (6 + 1024)) := by
      rw [hroutes]
      exact hneighbour
    have hleft := hall t ht 6 c hcloses (6 + 1024) _ hd (by decide)
    rcases (h2.leftAlone_iff ht hcloses hd (by decide)).mp hleft with hapart | hclear
    · refine hapart (UInt32.toNat.inj ?_)
      show c.token.slot.toNat = s.nextToken.slot.toNat
      rw [(hs.routed.entry hc).2.2.1, hs.routed.nextToken_eq, hserial, hn, toNat_slot_tokenOf,
        toNat_slot_tokenOf]
      rfl
    · have hslot : (t.src.slot s.nextToken.slot).fd = 6 + 1024 := by
        rw [hroutes, Routes.slot]
        show (cells (s.link (6 + 1024)).slots s.allocated.toNat).fd = _
        rw [hs.routed.cells_link, if_pos rfl]
      rw [show (Routed.freshConnection s.toRoutes (6 + 1024)).token = s.nextToken from rfl,
        hslot] at hclear
      exact absurd hclear (by decide)

/-! ## Telling the engine -/

/-- The engine will hear of the session the step ends, and of the end of the loop. -/
structure EngineTold (t : Taken Server Label) : Prop where
  session : ∀ fd c, t.src.connections.find fd = some c → t.dst.connections.find fd = none →
    t.dst.cmdQueue.items = t.src.cmdQueue.items ++ [sessionClosed c]
  shutdown : t.label.input = .shutdown →
    t.dst.cmdQueue.items = t.src.cmdQueue.items ++ [⟨{ type := .shutdown }, 0⟩]

/-- The step takes out a connection, or is the one behind the loop. -/
def EndsSomething (t : Taken Server Label) : Prop :=
  (∃ fd c, t.src.connections.find fd = some c ∧ t.dst.connections.find fd = none) ∨
    t.label.input = .shutdown

theorem ServerRun.closes_of_removed (h : ServerRun D ts s) {t : Taken Server Label} (ht : t ∈ ts)
    {fd : Int} {c : Connection} (found : t.src.connections.find fd = some c)
    (removed : t.dst.connections.find fd = none) : ∃ enqueued, Closes t.src fd c enqueued t.dst := by
  obtain ⟨hs, hmove⟩ := h.sound_of_mem ht
  exact ClosesConn.closes ⟨found, hmove.closed_of_removed found removed⟩ hs (h.of_mem ht).2

theorem Step.shutdown (hs : Sound s) {l : Label} (h : Step D s l s')
    (hinput : l.input = .shutdown) :
    s'.cmdQueue = (s.cmdQueue.push ⟨{ type := .shutdown }, 0⟩).2 := by
  have hacts := h.acts hs
  obtain ⟨_, es⟩ := l
  dsimp only at hinput hacts
  subst hinput
  cases hacts with
  | shutdown pc => rfl

theorem ServerRun.engineTold_iff (h : ServerRun D ts s) {t : Taken Server Label} (ht : t ∈ ts) :
    EngineTold t ↔ (EndsSomething t → t.src.cmdQueue.HasRoom) := by
  constructor
  · rintro ⟨hsession, hshutdown⟩ (⟨fd, c, found, removed⟩ | hinput)
    · obtain ⟨enqueued, hcloses⟩ := h.closes_of_removed ht found removed
      have htold := hsession fd c found removed
      rw [hcloses.cmdQueue] at htold
      exact (Queue.items_push_iff _ _).mp htold
    · have htold := hshutdown hinput
      rw [Step.shutdown (h.sound_of_mem ht).1 (h.of_mem ht).2 hinput] at htold
      exact (Queue.items_push_iff _ _).mp htold
  · intro hroom
    constructor
    · intro fd c found removed
      obtain ⟨enqueued, hcloses⟩ := h.closes_of_removed ht found removed
      rw [hcloses.cmdQueue]
      exact (Queue.items_push_iff _ _).mpr (hroom (Or.inl ⟨fd, c, found, removed⟩))
    · intro hinput
      rw [Step.shutdown (h.sound_of_mem ht).1 (h.of_mem ht).2 hinput]
      exact (Queue.items_push_iff _ _).mpr (hroom (Or.inr hinput))

/-- **The engine is told of every session's end and of the end of the loop exactly
while the command queue has room for it.** -/
theorem ends_told_iff (h : ServerRun D ts s) :
    (∀ t ∈ ts, EngineTold t) ↔ ∀ t ∈ ts, EndsSomething t → t.src.cmdQueue.HasRoom := by
  constructor
  · intro htold t ht
    exact (h.engineTold_iff ht).mp (htold t ht)
  · intro hroom t ht
    exact (h.engineTold_iff ht).mpr (hroom t ht)

/-- One client connects and hangs up. -/
theorem ends_told_iff_oneClient :
    ∃ ts s t c, ServerRun .standard ts s ∧ t ∈ ts ∧ ClosesConn t 6 c ∧
      ((∀ t ∈ ts, EngineTold t) ↔ ∀ t ∈ ts, EndsSomething t → t.src.cmdQueue.HasRoom) := by
  obtain ⟨ts, s, c, h, -, hw, hc, -⟩ := first_connects
  obtain ⟨us, t, s', h', hcloses, -⟩ := h.can_close hw (by decide) (by decide) hc.found
  refine ⟨_, s', t, c, h', ?_, hcloses, ends_told_iff h'⟩
  exact List.mem_append_right _ (List.mem_append_right _ List.mem_cons_self)

/-- A client that hangs up while the queue is full leaves without a word. -/
theorem end_not_told :
    ∃ ts s, ServerRun .standard ts s ∧ ¬ ∀ t ∈ ts, EngineTold t := by
  obtain ⟨ts, s, h, hw, hfree, hlen⟩ := queue_fills 4095 (by decide)
  obtain ⟨us, h1, -, hnone⟩ := h.can_accept hw (by decide) 6 (by decide) hfree
  have hfound := Routed.find_link_self hnone
  obtain ⟨vs, t, s', h2, hcloses, -, hqueue, -⟩ := h1.can_close hw (by decide) (by decide) hfound
  have ht : t ∈ ts ++ us ++ (vs ++ [t]) :=
    List.mem_append_right _ (List.mem_append_right _ List.mem_cons_self)
  refine ⟨_, s', h2, fun htold => ?_⟩
  obtain ⟨enqueued, hc⟩ := hcloses.closes (h2.sound_of_mem ht).1 (h2.of_mem ht).2
  have hroom := (h2.engineTold_iff ht).mp (htold t ht)
    (Or.inl ⟨6, _, hcloses.found, (hc.entries 6).trans (if_pos rfl)⟩)
  rw [hqueue, Queue.HasRoom] at hroom
  exact absurd (hlen ▸ hroom) (by decide)

/-! ## Why a connection is closed -/

/-- Why a step closes the connection `c`, which is open on `fd`. -/
inductive Cause (s : Server) (fd : Int) (c : Connection) : Input → Prop
  | hungUp {epollIn : Bool} (pc : s.gateway = .dispatch fd epollIn) : Cause s fd c (.recv .closed)
  | failed {epollIn : Bool} (pc : s.gateway = .dispatch fd epollIn) : Cause s fd c (.recv .failed)
  | overflowed {epollIn : Bool} {bs : List UInt8} {pos : 0 < bs.length} {le : bs.length ≤ 1024}
      (pc : s.gateway = .dispatch fd epollIn) (full : ¬ c.parser.Fits bs) :
      Cause s fd c (.recv (.bytes bs pos le))
  | cutOff {rsp : Traced EngineResponse} {sent : Int} (pc : s.gateway = .deliver rsp)
      (target : fd = (s.slot rsp.value.session.slot).fd) (short : sent ≠ kFrameSize) :
      Cause s fd c (.deliver sent)

section Causes

variable {D : Descriptors} {s s' : Server} {es : List Event}

theorem Step.events_of_sent {rsp : Traced EngineResponse}
    (h : Step D s ⟨.deliver kFrameSize, es⟩ s') (pc : s.gateway = .deliver rsp) :
    es = [.engineFrame (s.slot rsp.value.session.slot).fd (encodeResponse rsp.value blankFrame)
      rsp] := by
  have hlen : (encodeResponse rsp.value blankFrame).length = kFrameSize :=
    (carries_encodeResponse _ length_blankFrame).length
  have hsent : deliverStep s rsp (encodeResponse rsp.value blankFrame).length = _ :=
    deliverStep_of_sent
  rw [hlen] at hsent
  simp only [Step, step, pc, hsent] at h
  exact (Prod.mk.inj (Option.some.inj h)).2.symm

theorem Step.events_of_recv {r : RecvResult} {fd : Int} {epollIn : Bool}
    (h : Step D s ⟨.recv r, es⟩ s') (pc : s.gateway = .dispatch fd epollIn) {e : Event}
    (hhead : es.head? = some e) (hclosed : r ≠ .closed) (hfailed : r ≠ .failed) :
    ∃ k bs, e = .received k bs := by
  simp only [Step, step, pc] at h
  rw [show es = (dispatchStep s fd epollIn r).2 from congrArg Prod.snd (Option.some.inj h).symm,
    dispatchStep] at hhead
  dsimp only at hhead
  split at hhead
  next => cases hhead
  next =>
    split at hhead
    next => cases hhead
    next c found =>
      cases r with
      | closed => exact absurd rfl hclosed
      | failed => exact absurd rfl hfailed
      | wouldBlock => cases hhead
      | bytes bs pos le =>
          dsimp only at hhead
          split at hhead
          all_goals exact ⟨_, _, (Option.some.inj hhead).symm⟩

/-- **What closes a connection.** -/
theorem Step.cause (hs : Sound s) {l : Label} (h : Step D s l s') {k : Nat} {token : SessionToken}
    {enqueued : Bool} (he : Event.closed k token enqueued ∈ l.events) :
    ∃ fd c, s.connections.find fd = some c ∧ c.serial = k ∧ Cause s fd c l.input := by
  have hacts := h.acts hs
  obtain ⟨input, es⟩ := l
  dsimp only at hacts he ⊢
  cases hacts with
  | eventFd | listenFd | clientFd | epollFails | drained | taken | acceptFails | ignored | starved
  | join | idle | notify => cases he
  | dropped | sent | accept | received | refused | shutdown | stopped | skipped | answering
  | respond => cases List.mem_singleton.mp he
  | answered loop found long read answered =>
      exact absurd (List.mem_singleton.mp he).symm (answered.event.ne_closed k token enqueued)
  | @cutOff rsp sent fd c pc target found =>
      obtain heq | he := List.mem_cons.mp he
      · cases heq
      · obtain ⟨rfl, -⟩ := Event.closed.inj (List.mem_singleton.mp he)
        refine ⟨fd, c, found, rfl, .cutOff pc target ?_⟩
        rintro rfl
        cases h.events_of_sent pc
  | @hungUp fd epollIn r c pc found =>
      obtain ⟨rfl, -⟩ := Event.closed.inj (List.mem_singleton.mp he)
      refine ⟨fd, c, found, rfl, ?_⟩
      cases r with
      | closed => exact .hungUp pc
      | failed => exact .failed pc
      | wouldBlock | bytes bs pos le =>
          obtain ⟨k, bs, heq⟩ := h.events_of_recv pc rfl nofun nofun
          cases heq
  | overflowed pc found full =>
      obtain heq | he := List.mem_cons.mp he
      · cases heq
      · obtain ⟨rfl, -⟩ := Event.closed.inj (List.mem_singleton.mp he)
        exact ⟨_, _, found, rfl, .overflowed pc full⟩

theorem Move.stays_open (h : Move s es s') {fd : Int} {c : Connection}
    (found : s.connections.find fd = some c)
    (hopen : ∀ token enqueued, Event.closed c.serial token enqueued ∉ es) :
    ∃ c', s'.connections.find fd = some c' ∧ c'.serial = c.serial := by
  -- an update in place keeps the serial
  have updated : ∀ {j : Int} {d d' : Connection}, s.connections.find j = some d →
      Routed.SameIdentity d d' →
      ∃ c', (s.assign j d').connections.find fd = some c' ∧ c'.serial = c.serial := by
    intro j d d' hd same
    rw [Routed.find_assign hd]
    split
    next heq =>
      rw [heq, hd] at found
      obtain rfl := Option.some.inj found
      exact ⟨d', rfl, same.serial⟩
    next => exact ⟨c, found, rfl⟩
  obtain hnone | ⟨c', hc'⟩ := Option.eq_none_or_eq_some (s'.connections.find fd)
  · obtain ⟨enqueued, he⟩ := h.closed_of_removed found hnone
    exact absurd he (hopen c.token enqueued)
  cases h with
  | quiet routes | exited routes =>
      rw [routes]
      exact ⟨c, found, rfl⟩
  | accepted pos free routes =>
      refine ⟨c, ?_, rfl⟩
      rw [routes, Routed.find_link free, if_neg, found]
      rintro rfl
      cases found.symm.trans free
  | closed found' routes =>
      rw [routes] at hc' ⊢
      exact ⟨c', hc', congrArg Connection.serial (Option.some.inj
        ((Routed.of_unlink hc').symm.trans found))⟩
  | received found' le fits routes =>
      rw [routes]
      exact updated found' ⟨rfl, rfl, rfl⟩
  | @overflowed j d bs enqueued s' found' le full routes =>
      rw [routes] at hc' ⊢
      refine ⟨c', hc', congrArg Connection.serial (Option.some.inj ?_)⟩
      rw [find_unlink_assign_self found'] at hc'
      split at hc'
      next => cases hc'
      next => exact hc'.symm.trans found
  | starved loop found' short routes | refused loop found' long bad routes =>
      rw [routes]
      exact updated found' (.self _)
  | answered loop found' long read answered =>
      rw [answered.routes]
      exact updated found' answered.same

end Causes

end TradingGateway.Gateway
