/-
# `Gateway.Progress` — what a client can bring about

A run can always go on: while the gateway waits, a client can connect, send bytes
or hang up, and the engine can answer.  Each lemma extends a run by the steps of
one such exchange and gives the state behind them.  They are what runs with a given
history are built from.
-/
import TradingGateway.Gateway.Flow

namespace TradingGateway.Gateway

open Lib OrderEntry Spsc

variable {D : Descriptors} {ts : List (Taken Server Label)} {s : Server}

theorem dispatchStep_received {fd : Int} {c : Connection}
    (found : s.connections.find fd = some c) {bs : List UInt8} (fits : c.parser.Fits bs)
    (pos : 0 < bs.length) (le : bs.length ≤ 1024) :
    dispatchStep s fd true (.bytes bs pos le) =
      ({ s with
          toRoutes := s.toRoutes.assign fd { c with parser := (c.parser.append bs).2 }
          gateway := .parse fd false }, [.received c.serial bs]) := by
  simp only [dispatchStep, found, (Parser.append_of_fits fits).1]
  rfl

theorem dispatchStep_closed {fd : Int} {c : Connection} (found : s.connections.find fd = some c) :
    dispatchStep s fd true .closed = closeConn { s with gateway := .wait } fd := by
  simp only [dispatchStep, found]
  rfl

theorem ServerRun.extend (h : ServerRun D ts s) (input : Input) {x : Server × List Event}
    (hstep : step D s input = some x) :
    ServerRun D (ts ++ [⟨s, ⟨input, x.2⟩, x.1⟩]) x.1 :=
  h.next hstep

theorem ServerRun.can_accept (h : ServerRun D ts s) (hw : s.gateway = .wait)
    (hD : D.listenFd ≠ D.eventFd) (fd : Int) (pos : 0 ≤ fd) (fresh : fd ∉ s.openFds) :
    ∃ us, ServerRun D (ts ++ us) { s with toRoutes := s.link fd } ∧
      events us = [.accepted s.accepts fd s.nextToken] ∧ s.connections.find fd = none := by
  have free : s.connections.find fd = none :=
    (ServerRun.sound h).find_eq_none (by rw [hw]; nofun) fresh
  obtain ⟨routes, cmdQueue, rspQueue, eventCount, gateway, matching⟩ := s
  dsimp only at hw fresh
  subst hw
  have h1 := h.extend (.event D.listenFd false) ((if_neg hD).trans (if_pos rfl))
  have h2 := h1.extend (.accept fd) (if_pos ⟨pos, fresh⟩)
  have h3 := h2.extend (.acceptFails) rfl
  have h4 := h3.extend (.recv .wouldBlock) rfl
  rw [List.append_assoc, List.append_assoc, List.append_assoc] at h4
  exact ⟨_, h4, rfl, free⟩

theorem ServerRun.can_dispatch (h : ServerRun D ts s) (hw : s.gateway = .wait) {fd : Int}
    (hevent : fd ≠ D.eventFd) (hlisten : fd ≠ D.listenFd) :
    ServerRun D (ts ++ [⟨s, ⟨.event fd true, []⟩, { s with gateway := .dispatch fd true }⟩])
      { s with gateway := .dispatch fd true } := by
  obtain ⟨routes, cmdQueue, rspQueue, eventCount, gateway, matching⟩ := s
  dsimp only at hw
  subst hw
  exact h.extend (.event fd true) ((if_neg hevent).trans (if_neg hlisten))

theorem ServerRun.can_receive (h : ServerRun D ts s) (hw : s.gateway = .wait) {fd : Int}
    (hevent : fd ≠ D.eventFd) (hlisten : fd ≠ D.listenFd) {c : Connection}
    (found : s.connections.find fd = some c) {bs : List UInt8} (pos : 0 < bs.length)
    (le : bs.length ≤ 1024) (fits : c.parser.Fits bs) :
    ∃ us, ServerRun D (ts ++ us)
        { s with
          toRoutes := s.toRoutes.assign fd { c with parser := (c.parser.append bs).2 }
          gateway := .parse fd false } ∧
      events us = [.received c.serial bs] := by
  obtain ⟨routes, cmdQueue, rspQueue, eventCount, gateway, matching⟩ := s
  dsimp only at hw found
  subst hw
  have h1 := h.can_dispatch rfl hevent hlisten
  have h2 := h1.extend (.recv (.bytes bs pos le)) (congrArg some
    (dispatchStep_received found fits pos le))
  rw [List.append_assoc] at h2
  exact ⟨_, h2, rfl⟩

theorem ServerRun.can_hangUp (h : ServerRun D ts s) (hw : s.gateway = .wait) {fd : Int}
    (hevent : fd ≠ D.eventFd) (hlisten : fd ≠ D.listenFd) {c : Connection}
    (found : s.connections.find fd = some c) :
    ∃ us t, ServerRun D (ts ++ (us ++ [t])) (closeConn s fd).1 ∧
      t.src.toRoutes = s.toRoutes ∧ t.src.cmdQueue = s.cmdQueue ∧ events us = [] ∧
      t.label.events = (closeConn s fd).2 := by
  obtain ⟨routes, cmdQueue, rspQueue, eventCount, gateway, matching⟩ := s
  dsimp only at hw found
  subst hw
  have h1 := h.can_dispatch rfl hevent hlisten
  have h2 := h1.extend (.recv .closed) (congrArg some (dispatchStep_closed found))
  rw [List.append_assoc] at h2
  exact ⟨_, _, h2, rfl, rfl, rfl, rfl⟩

theorem ServerRun.can_parse (h : ServerRun D ts s) {fd : Int} (loop : s.gateway = .parse fd false)
    {x : Server × List Event} (hstep : parseStep s fd false = some x) :
    ServerRun D (ts ++ [⟨s, ⟨.parse, x.2⟩, x.1⟩]) x.1 := by
  refine h.extend .parse ?_
  simp only [step, loop]
  exact hstep

theorem ServerRun.can_take (h : ServerRun D ts s) {fd : Int} (loop : s.gateway = .parse fd false)
    {c : Connection} (found : s.connections.find fd = some c)
    (long : kFrameSize ≤ c.parser.contents.length) {r : Request}
    (read : readRequest (c.parser.contents.take kFrameSize) = some r) :
    ∃ c' e s', ServerRun D (ts ++ [⟨s, ⟨.parse, [e]⟩, s'⟩]) s' ∧ Answered s fd c r c' e s' ∧
      s'.connections.find fd = some c' := by
  rcases parseStep_cases loop found with ⟨short, -⟩ | ⟨-, bad, -⟩ |
    ⟨r', c', e, s', -, read', hstep, answered⟩
  · exact absurd long (Nat.not_le.mpr short)
  · cases read.symm.trans bad
  · obtain rfl := Option.some.inj (read.symm.trans read')
    refine ⟨c', e, s', h.can_parse loop hstep, answered, ?_⟩
    rw [answered.routes]
    exact Routed.find_assign_self found c'

theorem ServerRun.can_leave (h : ServerRun D ts s) {fd : Int} (loop : s.gateway = .parse fd false)
    {c : Connection} (found : s.connections.find fd = some c)
    (short : c.parser.contents.length < kFrameSize) :
    ServerRun D
      (ts ++ [⟨s, ⟨.parse, []⟩, { s with toRoutes := s.toRoutes.assign fd c, gateway := .wait }⟩])
      { s with toRoutes := s.toRoutes.assign fd c, gateway := .wait } := by
  rcases parseStep_cases loop found with ⟨-, hstep⟩ | ⟨long, -⟩ | ⟨_, _, _, _, long, -⟩
  · exact h.can_parse loop hstep
  all_goals exact absurd long (Nat.not_le.mpr short)

theorem pollStep_of_respond {cmd : Traced EngineCommand} {rsp : EngineResponse}
    (head : s.cmdQueue.items.head? = some cmd) (hrsp : engineRespond cmd.value = some rsp) :
    pollStep s =
      ({ s with cmdQueue := s.cmdQueue.pop.2, matching := .respond ⟨rsp, cmd.source⟩ },
        [.popped cmd]) := by
  have htype : cmd.value.type ≠ .shutdown := by
    intro h
    rw [engineRespond, h] at hrsp
    cases hrsp
  simp only [pollStep, Queue.pop_fst, head, htype, hrsp, if_false]

/-- The gateway waits, and has read everything the client sent. -/
structure Waiting (s : Server) (fd : Int) (c : Connection) : Prop where
  gateway : s.gateway = .wait
  found : s.connections.find fd = some c
  empty : c.parser.contents = []

/-- The connection after one more order. -/
structure OneMore (c c' : Connection) : Prop extends Routed.SameIdentity c c' where
  expected : c'.expectedSequence = c.expectedSequence + 1

section Orders

variable {fd : Int} {c : Connection} {m : OrderMessage} {cmd : EngineCommand}

/-- What the parse loop leaves behind an order in sequence. -/
structure Ordered (s s' : Server) (fd : Int) (c c' : Connection) (cmd : EngineCommand) : Prop where
  waiting : Waiting s' fd c'
  next : OneMore c c'
  routes : s'.toRoutes = s.toRoutes.assign fd c'
  cmdQueue : s'.cmdQueue = (s.cmdQueue.push ⟨cmd, c.serial⟩).2
  rspQueue : s'.rspQueue = s.rspQueue
  matching : s'.matching = s.matching

theorem ServerRun.can_parse_order (h : ServerRun D ts s) (loop : s.gateway = .parse fd false)
    (found : s.connections.find fd = some c) (contents : c.parser.contents = (m.encode blankFrame).2)
    (magic : m.header.magic = kMagic) (version : m.header.version = kVersion)
    (inSequence : m.request.header.sequenceNumber = c.expectedSequence)
    (hcmd : orderCommand c.token m.request = some cmd) :
    ∃ us s' c' msg, ServerRun D (ts ++ us) s' ∧
      events us = [.command c.serial msg cmd (s.cmdQueue.push ⟨cmd, c.serial⟩).1] ∧
      Ordered s s' fd c c' cmd := by
  have hlen : (m.encode blankFrame).2.length = kFrameSize := length_encode m length_blankFrame
  have hframe : readRequest (c.parser.contents.take kFrameSize) = some m.request := by
    rw [contents, List.take_of_length_le (Nat.le_of_eq hlen)]
    exact readRequest_encode m length_blankFrame magic version
  have hanswer : answer c.token c.expectedSequence m.request
      = (.command cmd, some (c.expectedSequence + 1)) := by
    rw [answer, if_neg (not_not.mpr inSequence), hcmd]
  have hlong : kFrameSize ≤ c.parser.contents.length := by
    rw [contents]
    exact Nat.le_of_eq hlen.symm
  obtain ⟨c', e, s', h1, ha, hfound'⟩ := h.can_take loop found hlong hframe
  obtain ⟨same, taken, expected, event, routes, pc, rspQueue, matching⟩ := ha
  rw [hanswer] at event pc expected
  have hempty : c'.parser.contents = [] := by
    rw [taken, contents, ← hlen, List.drop_length]
  have h2 := h1.can_leave pc hfound' (by rw [hempty]; decide)
  have hassign : s'.toRoutes.assign fd c' = s.toRoutes.assign fd c' := by
    rw [routes]
    exact Routed.assign_assign found c' c'
  generalize hcommand : Output.command cmd = o at event
  generalize hnext : some (c.expectedSequence + 1) = next at event
  cases event with
  | control read last kept =>
      obtain ⟨reply, -, hcontrol⟩ := Option.map_eq_some_iff.mp read
      cases hcommand.trans hcontrol.symm
  | @command msg order pushed =>
      obtain rfl := Output.command.inj hcommand
      rw [List.append_assoc] at h2
      exact ⟨_, { s' with toRoutes := s'.toRoutes.assign fd c', gateway := .wait }, c', msg, h2,
        rfl, ⟨rfl, Routed.find_assign_self hfound' c', hempty⟩, ⟨same, expected⟩, hassign, pushed,
        rspQueue, matching⟩

/-- A client sends an order in sequence, and the gateway pushes its command. -/
theorem ServerRun.can_order (h : ServerRun D ts s) (hc : Waiting s fd c) (hevent : fd ≠ D.eventFd)
    (hlisten : fd ≠ D.listenFd) (magic : m.header.magic = kMagic)
    (version : m.header.version = kVersion)
    (inSequence : m.request.header.sequenceNumber = c.expectedSequence)
    (hcmd : orderCommand c.token m.request = some cmd) :
    ∃ us s' c' msg, ServerRun D (ts ++ us) s' ∧
      events us =
        [.received c.serial (m.encode blankFrame).2,
          .command c.serial msg cmd (s.cmdQueue.push ⟨cmd, c.serial⟩).1] ∧
      Ordered s s' fd c c' cmd := by
  have hlen : (m.encode blankFrame).2.length = kFrameSize := length_encode m length_blankFrame
  have hfits : c.parser.Fits (m.encode blankFrame).2 := by
    rw [Parser.Fits, hc.empty, hlen]
    decide
  obtain ⟨us, h1, hus⟩ := h.can_receive hc.gateway hevent hlisten hc.found
    (by rw [hlen]; decide) (by rw [hlen]; decide) hfits
  have hcontents : (c.parser.append (m.encode blankFrame).2).2.contents
      = (m.encode blankFrame).2 := by
    rw [(Parser.append_of_fits hfits).2, hc.empty]
    rfl
  obtain ⟨vs, s', c', msg, h2, hvs, hordered⟩ := h1.can_parse_order rfl
    (Routed.find_assign_self hc.found _) hcontents magic version inSequence hcmd
  refine ⟨us ++ vs, s', c', msg, ?_, ?_, hordered.waiting, ?_, ?_, hordered.cmdQueue,
    hordered.rspQueue, hordered.matching⟩
  · rw [← List.append_assoc]
    exact h2
  · rw [events_append, hus, hvs]
    rfl
  · obtain ⟨⟨hfd, htoken, hserial⟩, hexpected⟩ := hordered.next
    exact ⟨⟨hfd, htoken, hserial⟩, hexpected⟩
  · rw [hordered.routes]
    exact Routed.assign_assign hc.found _ c'

theorem ServerRun.can_respond (h : ServerRun D ts s) (hm : s.matching = .poll)
    {cmd : Traced EngineCommand} {rsp : EngineResponse} (head : s.cmdQueue.items.head? = some cmd)
    (hrsp : engineRespond cmd.value = some rsp) :
    ∃ us, ServerRun D (ts ++ us)
        { s with
          cmdQueue := s.cmdQueue.pop.2
          rspQueue := (s.rspQueue.push ⟨rsp, cmd.source⟩).2
          eventCount := notifyCount s.eventCount } ∧
      events us = [.popped cmd, .responded ⟨rsp, cmd.source⟩ (s.rspQueue.push ⟨rsp, cmd.source⟩).1] := by
  obtain ⟨routes, cmdQueue, rspQueue, eventCount, gateway, matching⟩ := s
  dsimp only at hm head
  subst hm
  have h1 := h.extend .poll (congrArg some (pollStep_of_respond head hrsp))
  have h2 := h1.extend .respond rfl
  have h3 := h2.extend .notify rfl
  rw [List.append_assoc, List.append_assoc] at h3
  exact ⟨_, h3, rfl⟩

end Orders

theorem drainStep_of_deliverable {rsp : Traced EngineResponse}
    (head : s.rspQueue.items.head? = some rsp) (hpass : Deliverable s.toRoutes rsp.value.session) :
    drainStep s = ({ s with rspQueue := s.rspQueue.pop.2, gateway := .deliver rsp }, []) := by
  have hgo : ¬ ((s.slot rsp.value.session.slot).generation ≠ rsp.value.session.generation ∨
      (s.slot rsp.value.session.slot).fd < 0) :=
    not_or.mpr ⟨not_not.mpr hpass.1, Int.not_lt.mpr hpass.2⟩
  simp only [drainStep, Queue.pop_fst, head, hgo, if_false]

theorem deliverStep_of_sent {rsp : Traced EngineResponse} :
    deliverStep s rsp (encodeResponse rsp.value blankFrame).length =
      ({ s with gateway := .drain },
        [.engineFrame (s.slot rsp.value.session.slot).fd (encodeResponse rsp.value blankFrame)
          rsp]) := by
  simp only [deliverStep, ne_eq, not_true_eq_false, if_false]

theorem drainStep_of_lost {rsp : Traced EngineResponse}
    (head : s.rspQueue.items.head? = some rsp) (hlost : ¬ Deliverable s.toRoutes rsp.value.session) :
    drainStep s = ({ s with rspQueue := s.rspQueue.pop.2 }, [.dropped rsp]) := by
  have hgone : (s.slot rsp.value.session.slot).generation ≠ rsp.value.session.generation ∨
      (s.slot rsp.value.session.slot).fd < 0 := by
    rw [Deliverable, not_and_or, Int.not_le] at hlost
    exact hlost
  simp only [drainStep, Queue.pop_fst, head, hgone, if_true]

theorem drainStep_of_empty (empty : s.rspQueue.items = []) :
    drainStep s = ({ s with rspQueue := s.rspQueue.pop.2, gateway := .wait }, []) := by
  simp only [drainStep, Queue.pop_fst, empty, List.head?_nil]

/-- The response that is queued goes to its client, or nowhere, and the gateway waits again. -/
theorem ServerRun.can_drain_one (h : ServerRun D ts s) (hw : s.gateway = .wait)
    {rsp : Traced EngineResponse} (hitems : s.rspQueue.items = [rsp]) :
    ∃ us q, ServerRun D (ts ++ us) { s with rspQueue := q, eventCount := 0 } ∧ q.items = [] ∧
      (Deliverable s.toRoutes rsp.value.session → events us =
        [.engineFrame (s.slot rsp.value.session.slot).fd (encodeResponse rsp.value blankFrame) rsp]) ∧
      (¬ Deliverable s.toRoutes rsp.value.session → events us = [.dropped rsp]) := by
  obtain ⟨routes, cmdQueue, rspQueue, eventCount, gateway, matching⟩ := s
  dsimp only at hw hitems
  subst hw
  have hhead : rspQueue.items.head? = some rsp := by rw [hitems]; rfl
  have hempty : rspQueue.pop.2.items = [] := by rw [Queue.pop_snd, hitems]; rfl
  have hempty' : rspQueue.pop.2.pop.2.items = [] := by rw [Queue.pop_snd, hempty]; rfl
  have h1 := h.extend (.event D.eventFd true) (if_pos rfl)
  by_cases hpass : Deliverable routes rsp.value.session
  · have h2 := h1.extend .drain (congrArg some (drainStep_of_deliverable hhead hpass))
    have h3 := h2.extend (.deliver _) (congrArg some deliverStep_of_sent)
    have h4 := h3.extend .drain (congrArg some (drainStep_of_empty hempty))
    rw [List.append_assoc, List.append_assoc, List.append_assoc] at h4
    exact ⟨_, _, h4, hempty', fun _ => rfl, fun hlost => absurd hpass hlost⟩
  · have h2 := h1.extend .drain (congrArg some (drainStep_of_lost hhead hpass))
    have h3 := h2.extend .drain (congrArg some (drainStep_of_empty hempty))
    rw [List.append_assoc, List.append_assoc] at h3
    exact ⟨_, _, h3, hempty', fun hpass' => absurd hpass' hpass, fun _ => rfl⟩

/-! ## A first client -/

/-- The descriptors of a process that was started with the three standard ones. -/
def Descriptors.standard : Descriptors where
  listenFd := 3
  eventFd := 4
  epollFd := 5
  others := [0, 1, 2]

/-- What a server looks like whose one client has the connection `c`, with nothing
queued. -/
structure FirstClient (s : Server) (c : Connection) : Prop where
  found : s.connections.find 6 = some c
  serial : c.serial = 0
  token : c.token = tokenOf 0
  slot : s.slot (tokenOf 0).slot = ⟨6, (tokenOf 0).generation⟩
  matching : s.matching = .poll
  cmdQueue : s.cmdQueue = .fresh
  rspQueue : s.rspQueue = .fresh

theorem first_connects :
    ∃ ts s c, ServerRun .standard ts s ∧ events ts = [.accepted 0 6 (tokenOf 0)] ∧
      s.gateway = .wait ∧ FirstClient s c ∧ c.parser = .fresh ∧ c.expectedSequence = 1 ∧
      s.accepts = 1 := by
  have h : ServerRun .standard [] (Server.fresh .standard) := .start rfl
  obtain ⟨us, h', hevents, -⟩ := h.can_accept rfl (by decide) 6 (by decide) (by decide)
  have hrouted := routed_fresh .standard
  have htoken := hrouted.nextToken_eq
  have hslot : Routes.slot ((Server.fresh .standard).link 6) (tokenOf 0).slot
      = ⟨6, (tokenOf 0).generation⟩ := by
    rw [Routes.slot, hrouted.cells_link, hrouted.toNat_allocated, htoken]
    exact if_pos rfl
  refine ⟨_, _, Routed.freshConnection (Server.fresh .standard).toRoutes 6, h', ?_, rfl,
    ⟨?_, rfl, htoken, hslot, rfl, rfl, rfl⟩, rfl, rfl, rfl⟩
  · rw [List.nil_append, hevents, htoken]
    rfl
  · exact Routed.find_link_self UnorderedMap.find_empty

theorem first_sends (bs : List UInt8) (pos : 0 < bs.length) (le : bs.length ≤ 1024) :
    ∃ ts s c, ServerRun .standard ts s ∧
      events ts = [.accepted 0 6 (tokenOf 0), .received 0 bs] ∧ s.gateway = .parse 6 false ∧
      FirstClient s c ∧ c.parser.contents = bs ∧ c.expectedSequence = 1 := by
  obtain ⟨ts, s, c, h, hevents, hw, hc, hparser, hexpected, -⟩ := first_connects
  have hfits : c.parser.Fits bs := by
    rw [hparser, Parser.Fits, Parser.contents_fresh]
    exact Nat.le_trans le (by decide)
  have hcontents := (Parser.append_of_fits hfits).2
  obtain ⟨us, h', hus⟩ := h.can_receive hw (by decide) (by decide) hc.found pos le hfits
  refine ⟨_, _, _, h', ?_, rfl, ⟨Routed.find_assign_self hc.found _, hc.serial, hc.token,
    hc.slot, hc.matching, hc.cmdQueue, hc.rspQueue⟩, ?_, hexpected⟩
  · rw [events_append, hevents, hus, hc.serial]
    rfl
  · rw [hcontents, hparser, Parser.contents_fresh, List.nil_append]

/-- The frame of an order a first client may send. -/
def firstOrder : OrderMessage :=
  .newOrder { sequenceNumber := 1 } { clientOrderId := 7, price := 100, quantity := 5 }

/-- The command it stands for. -/
def firstCommand : EngineCommand :=
  { type := .newLimit
    session := tokenOf 0
    requestSequence := 1
    clientOrderId := 7
    price := 100
    quantity := 5 }

/-- The engine's answer to it. -/
def firstResponse : EngineResponse :=
  { type := .accepted, session := tokenOf 0, clientOrderId := 7 }

def firstFrame : List UInt8 := (firstOrder.encode blankFrame).2

theorem length_firstFrame : firstFrame.length = kFrameSize :=
  length_encode firstOrder length_blankFrame

theorem readRequest_firstFrame : readRequest firstFrame = some firstOrder.request :=
  readRequest_encode firstOrder length_blankFrame rfl rfl

/-- The first client's order goes through the engine, the answer is sent to it, and nothing
is left behind. -/
theorem first_answered_waits :
    ∃ ts s c msg, ServerRun .standard ts s ∧
      events ts =
        [.accepted 0 6 (tokenOf 0), .received 0 firstFrame, .command 0 msg firstCommand true,
          .popped ⟨firstCommand, 0⟩, .responded ⟨firstResponse, 0⟩ true,
          .engineFrame 6 (encodeResponse firstResponse blankFrame) ⟨firstResponse, 0⟩] ∧
      Waiting s 6 c ∧ c.serial = 0 ∧ c.token = tokenOf 0 ∧ c.expectedSequence = 2 ∧
      s.matching = .poll ∧ s.cmdQueue.items = [] ∧ s.rspQueue.items = [] := by
  obtain ⟨ts, s, c, h, hevents, hw, hc, hparser, hexpected, -⟩ := first_connects
  have hempty : c.parser.contents = [] := by
    rw [hparser, Parser.contents_fresh]
  have hcmd : orderCommand c.token firstOrder.request = some firstCommand := by
    rw [hc.token]
    rfl
  obtain ⟨us, s', c', msg, h1, hus, hordered⟩ := h.can_order (m := firstOrder)
    ⟨hw, hc.found, hempty⟩ (by decide) (by decide) rfl rfl hexpected.symm hcmd
  have hroom : s.cmdQueue.HasRoom := by
    rw [hc.cmdQueue, Queue.HasRoom, Queue.items_fresh]
    decide
  have hpushed : (s.cmdQueue.push ⟨firstCommand, c.serial⟩).1 = true := by
    rw [Queue.push_fst]
    exact decide_eq_true hroom
  have hitems : s'.cmdQueue.items = [⟨firstCommand, 0⟩] := by
    rw [hordered.cmdQueue, Queue.push_snd, if_pos hroom, hc.cmdQueue, Queue.items_fresh, hc.serial]
    rfl
  have hrsp : s'.rspQueue.items = [] := by
    rw [hordered.rspQueue, hc.rspQueue, Queue.items_fresh]
  have hroom' : s'.rspQueue.HasRoom := by
    rw [Queue.HasRoom, hrsp]
    decide
  have hslot : s'.slot (tokenOf 0).slot = ⟨6, (tokenOf 0).generation⟩ := by
    rw [hordered.routes]
    exact hc.slot
  have hpass : Deliverable s'.toRoutes (tokenOf 0) := by
    rw [Deliverable, hslot]
    exact ⟨rfl, by decide⟩
  obtain ⟨vs, h2, hvs⟩ := h1.can_respond (hordered.matching.trans hc.matching)
    (congrArg List.head? hitems) (rfl : engineRespond firstCommand = some firstResponse)
  have hqueued : (s'.rspQueue.push ⟨firstResponse, 0⟩).2.items = [⟨firstResponse, 0⟩] := by
    rw [Queue.push_snd, if_pos hroom', hrsp]
    rfl
  obtain ⟨ws, q, h3, hq, hws, -⟩ := h2.can_drain_one hordered.waiting.gateway hqueued
  have hanswered : events vs = [.popped ⟨firstCommand, 0⟩,
      .responded ⟨firstResponse, 0⟩ (s'.rspQueue.push ⟨firstResponse, 0⟩).1] := hvs
  have hsent : events ws = [.engineFrame (s'.slot (tokenOf 0).slot).fd
      (encodeResponse firstResponse blankFrame) ⟨firstResponse, 0⟩] := hws hpass
  refine ⟨_, _, c', msg, h3, ?_, ⟨hordered.waiting.gateway, hordered.waiting.found,
    hordered.waiting.empty⟩, hordered.next.serial.trans hc.serial,
    hordered.next.token.trans hc.token, ?_, hordered.matching.trans hc.matching, ?_, hq⟩
  · rw [events_append, events_append, events_append, hevents, hus, hanswered, hsent, hpushed,
      Queue.push_fst, decide_eq_true hroom', hc.serial, hslot]
    rfl
  · rw [hordered.next.expected, hexpected]
    rfl
  · show (Queue.items s'.cmdQueue.pop.2) = []
    rw [Queue.pop_snd, hitems]
    rfl

theorem first_answered :
    ∃ ts s msg enqueued, ServerRun .standard ts s ∧
      events ts =
        [.accepted 0 6 (tokenOf 0), .received 0 firstFrame, .command 0 msg firstCommand true,
          .popped ⟨firstCommand, 0⟩, .responded ⟨firstResponse, 0⟩ enqueued,
          .engineFrame 6 (encodeResponse firstResponse blankFrame) ⟨firstResponse, 0⟩] := by
  obtain ⟨ts, s, c, msg, h, hevents, -⟩ := first_answered_waits
  exact ⟨ts, s, msg, true, h, hevents⟩

/-! ## Order after order

A client that numbers its orders as it should and an engine that keeps up, while the
gateway never gets to the responses. -/

/-- The first client's order under a number of its own. -/
def orderNumbered (n : UInt64) : OrderMessage :=
  .newOrder { sequenceNumber := n } { clientOrderId := 7, price := 100, quantity := 5 }

/-- The command it stands for. -/
def commandNumbered (n : UInt64) : EngineCommand := { firstCommand with requestSequence := n }

/-- The one client has sent `n` orders, and the engine has got to all of them. -/
structure OrdersSent (n : Nat) (es : List Event) (s : Server) (c : Connection) : Prop where
  waiting : Waiting s 6 c
  serial : c.serial = 0
  token : c.token = tokenOf 0
  expected : c.expectedSequence = UInt64.ofNat (1 + n)
  matching : s.matching = .poll
  cmdQueue : s.cmdQueue.items = []
  rspQueue : s.rspQueue.items.length = min n (kQueueCapacity.value - 1)
  accepts : s.accepts = 1
  enqueued : enqueued es
    = (List.range n).map fun i => ⟨commandNumbered (UInt64.ofNat (1 + i)), 0⟩

theorem OrdersSent.succ {n : Nat} {c : Connection} (h : ServerRun .standard ts s)
    (hn : OrdersSent n (events ts) s c) :
    ∃ us s' c', ServerRun .standard (ts ++ us) s' ∧ OrdersSent (n + 1) (events (ts ++ us)) s' c' ∧
      Event.responded ⟨firstResponse, 0⟩ (decide s.rspQueue.HasRoom) ∈ events us := by
  have hcmd : orderCommand c.token (orderNumbered c.expectedSequence).request
      = some (commandNumbered c.expectedSequence) := by
    rw [hn.token]
    rfl
  obtain ⟨us, s', c', msg, h1, hus, hordered⟩ := h.can_order hn.waiting (by decide) (by decide) rfl
    rfl (rfl : (orderNumbered c.expectedSequence).request.header.sequenceNumber = _) hcmd
  have hroom : s.cmdQueue.HasRoom := by
    rw [Queue.HasRoom, hn.cmdQueue]
    decide
  have hitems : s'.cmdQueue.items = [⟨commandNumbered c.expectedSequence, c.serial⟩] := by
    rw [hordered.cmdQueue, Queue.push_snd, if_pos hroom, hn.cmdQueue]
    rfl
  have hpushed : (s.cmdQueue.push ⟨commandNumbered c.expectedSequence, c.serial⟩).1 = true := by
    rw [Queue.push_fst]
    exact decide_eq_true hroom
  obtain ⟨vs, h2, hvs⟩ := h1.can_respond (hordered.matching.trans hn.matching)
    (congrArg List.head? hitems)
    (rfl : engineRespond (commandNumbered c.expectedSequence) = some firstResponse)
  rw [List.append_assoc] at h2
  refine ⟨us ++ vs, _, c', h2, ⟨⟨hordered.waiting.gateway, hordered.waiting.found,
    hordered.waiting.empty⟩, ?_, ?_, ?_, ?_, ?_, ?_, ?_, ?_⟩, ?_⟩
  · exact hordered.next.serial.trans hn.serial
  · exact hordered.next.token.trans hn.token
  · rw [hordered.next.expected, hn.expected, ← Nat.add_assoc, UInt64.ofNat_add (1 + n) 1]
    rfl
  · exact hordered.matching.trans hn.matching
  · show (Queue.items s'.cmdQueue.pop.2) = []
    rw [Queue.pop_snd, hitems]
    rfl
  · show (Queue.items (s'.rspQueue.push _).2).length = _
    have hlength := hn.rspQueue
    rw [Queue.push_snd, hordered.rspQueue]
    by_cases hlt : s.rspQueue.HasRoom
    · rw [if_pos hlt, List.length_append, hlength]
      rw [Queue.HasRoom, hlength] at hlt
      simp only [kQueueCapacity, List.length_singleton] at hlt ⊢
      omega
    · rw [if_neg hlt, hlength]
      rw [Queue.HasRoom, hlength] at hlt
      simp only [kQueueCapacity] at hlt ⊢
      omega
  · show s'.accepts = 1
    rw [hordered.routes]
    exact hn.accepts
  · have hnew : Gateway.enqueued (events (us ++ vs))
        = [⟨commandNumbered (UInt64.ofNat (1 + n)), 0⟩] := by
      rw [events_append, hus, hvs, hpushed, ← hn.expected, ← hn.serial]
      rfl
    rw [events_append, Gateway.enqueued, List.filterMap_append, List.range_succ, List.map_append]
    exact congr (congrArg _ hn.enqueued) hnew
  · rw [events_append, hvs, Queue.push_fst, hordered.rspQueue, hn.serial]
    exact List.mem_append_right _ (List.mem_cons_of_mem _ List.mem_cons_self)

/-- The client sends as many orders as it likes. -/
theorem orders_sent (n : Nat) :
    ∃ ts s c, ServerRun .standard ts s ∧ OrdersSent n (events ts) s c := by
  induction n with
  | zero =>
      obtain ⟨ts, s, c, h, hevents, hw, hc, hparser, hexpected, haccepts⟩ := first_connects
      have hempty : c.parser.contents = [] := by
        rw [hparser, Parser.contents_fresh]
      refine ⟨ts, s, c, h, ⟨hw, hc.found, hempty⟩, hc.serial, hc.token, hexpected, hc.matching, ?_,
        ?_, ?_, ?_⟩
      · rw [hc.cmdQueue, Queue.items_fresh]
      · rw [hc.rspQueue, Queue.items_fresh]
        rfl
      · exact haccepts
      · rw [hevents]
        rfl
  | succ n ih =>
      obtain ⟨ts, s, c, h, hn⟩ := ih
      obtain ⟨us, s', c', h', hn', -⟩ := hn.succ h
      exact ⟨ts ++ us, s', c', h', hn'⟩

end TradingGateway.Gateway
