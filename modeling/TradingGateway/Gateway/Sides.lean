/-
# `Gateway.Sides` — orders whose side is none of the two

`Side` has two enumerators and eight bytes in the frame.  The bytes are cast to the enum
where a NewOrder is decoded, and handed on from there.  What is checked on the way:

| stage | of a NewOrder |
| :-- | :-- |
| `try_parse` | magic, version, type, payload length |
| the parse loop | the sequence number |
| `OrderEntrySession` | the sequence number, the price, the quantity, that the id is not live |

No stage checks the side, so an order with any side gets as far as these checks let it.
Both halves say so as an equivalence: one of the messages that a session answers, one of
the steps of the parse loop.
-/
import TradingGateway.Gateway.Exhaustion
import TradingGateway.OrderEntry.OrderHistory
import TradingGateway.OrderEntry.Stream

namespace TradingGateway.OrderEntry

/-- The side is one of the enumerators. -/
def Side.IsReal (side : Side) : Prop := side = .buy ∨ side = .sell

instance (side : Side) : Decidable side.IsReal := inferInstanceAs (Decidable (_ ∨ _))

/-! ## What a session accepts -/

/-- What a session checks of a NewOrder. -/
structure OrderEntrySession.Admits (s : OrderEntrySession) (msg : DecodedMessage) : Prop where
  inSequence : msg.header.sequenceNumber = s.expectedSequenceNumber
  price : msg.newOrder.price ≠ 0
  quantity : msg.newOrder.quantity ≠ 0
  notLive : s.orders.find msg.newOrder.clientOrderId = none

/-- **A NewOrder is accepted exactly when the checks pass**, and rejected otherwise. -/
theorem OrderEntrySession.handleMessage_newOrder (s : OrderEntrySession) {msg : DecodedMessage}
    {out : List UInt8} (ht : msg.type = .newOrder) (hout : out.length = kFrameSize) :
    (s.Admits msg ∧
      ∃ handle, readReply (s.handleMessage msg out).2.2
        = some (.accepted msg.newOrder.clientOrderId handle)) ∨
    (¬ s.Admits msg ∧
      ∃ reason, readReply (s.handleMessage msg out).2.2
        = some (.rejected msg.newOrder.clientOrderId reason)) := by
  have hrequest : msg.request = some ⟨msg.header, .newOrder msg.newOrder⟩ := if_pos ht
  rw [(s.handleMessage_respond hrequest hout).response.reply]
  by_cases hseq : msg.header.sequenceNumber = s.expectedSequenceNumber
  case neg =>
    rw [s.respond_of_unexpected hseq]
    exact Or.inr ⟨fun h => hseq h.inSequence, _, rfl⟩
  rw [respond_of_inSequence hseq]
  by_cases hp : msg.newOrder.price = 0
  · rw [decideOrder, if_pos hp]
    exact Or.inr ⟨fun h => h.price hp, _, rfl⟩
  by_cases hq : msg.newOrder.quantity = 0
  · rw [decideOrder, if_neg hp, if_pos hq]
    exact Or.inr ⟨fun h => h.quantity hq, _, rfl⟩
  rw [decideOrder, if_neg hp, if_neg hq]
  cases hf : s.orders.find msg.newOrder.clientOrderId with
  | some handle =>
      have hlive : s.advance.orders.find msg.newOrder.clientOrderId = some handle := hf
      rw [hlive]
      exact Or.inr ⟨fun h => Option.some_ne_none _ (hf.symm.trans h.notLive), _, rfl⟩
  | none =>
      have hlive : s.advance.orders.find msg.newOrder.clientOrderId = none := hf
      rw [hlive]
      exact Or.inl ⟨⟨hseq, hp, hq, hf⟩, _, rfl⟩

/-- The session takes a NewOrder only with a real side, and tells the client of any
other that it was rejected. -/
structure OrderEntrySession.TakesRealSides (s : OrderEntrySession) (msg : DecodedMessage)
    (out : List UInt8) : Prop where
  accepted : ∀ id handle,
    readReply (s.handleMessage msg out).2.2 = some (.accepted id handle) →
      msg.newOrder.side.IsReal
  refused : ¬ msg.newOrder.side.IsReal →
    ∃ id reason, readReply (s.handleMessage msg out).2.2 = some (.rejected id reason)

theorem OrderEntrySession.takesRealSides_iff (s : OrderEntrySession) {msg : DecodedMessage}
    {out : List UInt8} (ht : msg.type = .newOrder) (hout : out.length = kFrameSize) :
    s.TakesRealSides msg out ↔ (s.Admits msg → msg.newOrder.side.IsReal) := by
  rcases s.handleMessage_newOrder ht hout with ⟨hadmits, handle, hreply⟩ |
    ⟨hadmits, reason, hreply⟩
  · constructor
    · exact fun h _ => h.accepted _ _ hreply
    · exact fun h => ⟨fun _ _ _ => h hadmits, fun hside => absurd (h hadmits) hside⟩
  · refine iff_of_true ⟨fun id handle haccepted => ?_, fun _ => ⟨_, _, hreply⟩⟩
      fun h => absurd h hadmits
    cases hreply.symm.trans haccepted

end TradingGateway.OrderEntry

namespace TradingGateway.Gateway

open Lib OrderEntry Spsc

/-! ## What the parse loop pushes -/

/-- The command that was pushed. -/
def Event.pushed : Event → Option EngineCommand
  | command _ _ cmd _ => some cmd
  | closed _ token _ => some { type := .sessionClosed, session := token }
  | shutdownCommand _ => some { type := .shutdown }
  | _ => none

/-- The step is the iteration of the parse loop that meets a NewOrder frame on the
connection `c`, in whatever state the rest of the frame is. -/
structure EntryStep (t : Taken Server Label) (c : Connection) (frame : List UInt8) : Prop where
  input : t.label.input = .parse
  loop : ∃ fd, t.src.gateway = .parse fd false ∧ t.src.connections.find fd = some c
  long : kFrameSize ≤ c.parser.contents.length
  front : frame = c.parser.contents.take kFrameSize
  newOrder : (readHeader frame).messageType = .newOrder

/-- The side in a NewOrder frame. -/
def sideOf (frame : List UInt8) : Side := ⟨readWord frame 1⟩

/-- The step refuses the message of the connection with serial `k`. -/
def Refuses (k : Nat) (es : List Event) : Prop :=
  Event.protocolError k ∈ es ∨
    ∃ fd cause frame id reason, Event.control k fd cause frame ∈ es ∧
      readReply frame = some (.rejected id reason)

/-- The step pushes a NewLimit only with a real side, and refuses a NewOrder frame with
any other. -/
structure PushesRealSides (t : Taken Server Label) : Prop where
  pushed : ∀ e ∈ t.label.events, ∀ cmd, e.pushed = some cmd → cmd.type = .newLimit →
    cmd.side.IsReal
  refused : ∀ c frame, EntryStep t c frame → ¬ (sideOf frame).IsReal →
    Refuses c.serial t.label.events

/-- What the parser and the parse loop check of a NewOrder frame. -/
structure Connection.Admits (c : Connection) (frame : List UInt8) : Prop where
  isRequest : IsRequestFrame frame
  inSequence : (readHeader frame).sequenceNumber = c.expectedSequence

variable {D : Descriptors} {t : Taken Server Label} {c : Connection} {frame : List UInt8}

/-- The order in a NewOrder frame. -/
def orderOf (frame : List UInt8) : NewOrder :=
  ⟨readWord frame 0, sideOf frame, readWord frame 2, readWord frame 3⟩

theorem readRequest_newOrder (htype : (readHeader frame).messageType = .newOrder)
    (hframe : IsRequestFrame frame) :
    readRequest frame = some ⟨readHeader frame, .newOrder (orderOf frame)⟩ := by
  rw [readRequest, if_pos hframe, readPayload, if_pos htype]
  rfl

section Shown

variable {fd : Int} {q q' : CommandQueue} {o : Output} {next : Option UInt64} {e : Event}

theorem Shows.pushes {cmd : EngineCommand} (h : Shows c fd q q' o next e) (ho : o = .command cmd) :
    ∃ msg enqueued, e = .command c.serial msg cmd enqueued := by
  cases h with
  | control read last kept =>
      obtain ⟨reply, -, hcontrol⟩ := Option.map_eq_some_iff.mp read
      cases hcontrol.trans ho
  | @command msg order pushed =>
      obtain rfl := Output.command.inj ho
      exact ⟨msg, _, rfl⟩

theorem Shows.of_pushed {cmd : EngineCommand} (h : Shows c fd q q' o next e)
    (hpushed : e.pushed = some cmd) : o = .command cmd := by
  cases h with
  | control read last kept => cases hpushed
  | command order pushed => exact congrArg Output.command (Option.some.inj hpushed)

theorem Shows.rejects {token : SessionToken} {r : Request} (h : Shows c fd q q' o next e)
    (ho : o = rejection token r) : Refuses c.serial [e] := by
  cases h with
  | @control cause frame _ _ read last kept =>
      obtain ⟨reply, hreply, hcontrol⟩ := Option.map_eq_some_iff.mp read
      obtain ⟨-, rfl⟩ := Output.control.inj (hcontrol.trans ho)
      exact Or.inr ⟨fd, cause, frame, 0, .badSequence, List.mem_cons_self, hreply⟩
  | command order pushed => cases ho

end Shown

/-- **What the parse loop does with a NewOrder frame**: it refuses it, or it pushes a
command for it. -/
theorem EntryStep.effect (h : EntryStep t c frame) (hs : Sound t.src)
    (hstep : Step D t.src t.label t.dst) :
    (¬ c.Admits frame ∧ Refuses c.serial t.label.events) ∨
      (c.Admits frame ∧ ∃ msg cmd enqueued,
        t.label.events = [.command c.serial msg cmd enqueued] ∧ cmd.type = .newLimit ∧
          cmd.side = sideOf frame) := by
  obtain ⟨input, ⟨fd, loop, found⟩, long, rfl, newOrder⟩ := h
  rcases hstep.parses hs input loop found long with
    ⟨bad, hevents⟩ | ⟨r, c', e, read, hevents, answered⟩
  · rw [hevents]
    refine Or.inl ⟨fun hadmits => ?_, Or.inl List.mem_cons_self⟩
    exact readRequest_eq_none_iff.mp bad hadmits.isRequest
  · rw [hevents]
    have hframe := (header_of_readRequest read).1
    obtain rfl := Option.some.inj (read.symm.trans (readRequest_newOrder newOrder hframe))
    by_cases hseq : (readHeader (c.parser.contents.take kFrameSize)).sequenceNumber
        = c.expectedSequence
    · refine Or.inr ⟨⟨hframe, hseq⟩, ?_⟩
      obtain ⟨msg, enqueued, rfl⟩ := answered.event.pushes
        (congrArg Prod.fst (if_neg (not_not.mpr hseq)))
      exact ⟨msg, _, enqueued, rfl, rfl, rfl⟩
    · refine Or.inl ⟨fun hadmits => hseq hadmits.inSequence, ?_⟩
      exact answered.event.rejects (congrArg Prod.fst (if_pos hseq))

/-- Every NewLimit that is pushed comes from a NewOrder frame, whose side it has. -/
theorem entryStep_of_pushed (hs : Sound t.src) (hstep : Step D t.src t.label t.dst) {e : Event}
    (he : e ∈ t.label.events) {cmd : EngineCommand} (hpushed : e.pushed = some cmd)
    (hnew : cmd.type = .newLimit) :
    ∃ c frame, EntryStep t c frame ∧ c.Admits frame ∧ cmd.side = sideOf frame := by
  have hclosed : ∀ {k token enqueued}, e ≠ .closed k token enqueued := by
    rintro k token enqueued rfl
    obtain rfl := Option.some.inj hpushed
    cases hnew
  have hacts := hstep.acts hs
  obtain ⟨s, ⟨input, es⟩, s'⟩ := t
  dsimp only at *
  cases hacts with
  | eventFd | listenFd | clientFd | epollFails | drained | taken | acceptFails | ignored | starved
  | join | idle | notify => cases he
  | dropped | sent | accept | received | refused | stopped | skipped | answering | respond =>
      rw [List.mem_singleton.mp he] at hpushed
      cases hpushed
  | hungUp => exact absurd (List.mem_singleton.mp he) hclosed
  | cutOff | overflowed =>
      rcases List.mem_cons.mp he with rfl | he
      · cases hpushed
      · exact absurd (List.mem_singleton.mp he) hclosed
  | shutdown =>
      rw [List.mem_singleton.mp he] at hpushed
      obtain rfl := Option.some.inj hpushed
      cases hnew
  | @answered fd c c' r _ _ loop found long read answered _ =>
      obtain rfl := List.mem_singleton.mp he
      obtain ⟨hframe, hheader, -⟩ := header_of_readRequest read
      obtain ⟨hseq, hcmd⟩ := order_of_answer (answered.event.of_pushed hpushed)
      have htype := type_of_readRequest read
      rw [hheader] at htype
      obtain ⟨header, payload⟩ := r
      cases payload with
      | newOrder order =>
          have hread := read.symm.trans (readRequest_newOrder htype hframe)
          obtain ⟨rfl, horder⟩ := Request.mk.inj (Option.some.inj hread)
          obtain rfl := Payload.newOrder.inj horder
          obtain rfl := Option.some.inj hcmd
          exact ⟨c, _, ⟨rfl, ⟨fd, loop, found⟩, long, rfl, htype⟩, ⟨hframe, hseq⟩, rfl⟩
      | cancelOrder | modifyOrder =>
          obtain rfl := Option.some.inj hcmd
          cases hnew
      | heartbeat | logout => cases hcmd

/-- One step pushes only real sides exactly when the NewOrder frame it meets, if it is
admitted, has one. -/
theorem pushesRealSides_iff (hs : Sound t.src) (hstep : Step D t.src t.label t.dst) :
    PushesRealSides t ↔
      ∀ c frame, EntryStep t c frame → c.Admits frame → (sideOf frame).IsReal := by
  constructor
  · intro h c frame hentry hadmits
    rcases hentry.effect hs hstep with ⟨hnot, -⟩ | ⟨-, msg, cmd, enqueued, hes, hnew, hside⟩
    · exact absurd hadmits hnot
    · rw [← hside]
      exact h.pushed _ (hes ▸ List.mem_cons_self) cmd rfl hnew
  · intro h
    refine ⟨fun e he cmd hpushed hnew => ?_, fun c frame hentry hside => ?_⟩
    · obtain ⟨c, frame, hentry, hadmits, hside⟩ := entryStep_of_pushed hs hstep he hpushed hnew
      rw [hside]
      exact h c frame hentry hadmits
    · rcases hentry.effect hs hstep with ⟨-, hrefuses⟩ | ⟨hadmits, -⟩
      · exact hrefuses
      · exact absurd (h c frame hentry hadmits) hside

/-! ## Both halves -/

variable {ts : List (Taken Server Label)} {s : Server}

/-- **Only real sides reach the order layer** exactly while no NewOrder that passes the
other checks has another: in a run of the gateway, and in a session that is handed any
messages, whether a parser produced them or not. -/
theorem only_real_sides_iff (h : ServerRun D ts s) (sessionId : UInt64)
    (inputs : List (DecodedMessage × List UInt8)) (hbuffers : ∀ i ∈ inputs, i.2.length = kFrameSize) :
    ((∀ t ∈ ts, PushesRealSides t) ↔
      ∀ t ∈ ts, ∀ c frame, EntryStep t c frame → c.Admits frame → (sideOf frame).IsReal) ∧
    ((∀ before msg out after, inputs = before ++ (msg, out) :: after → msg.type = .newOrder →
        (sessionAfter { sessionId := sessionId } before).TakesRealSides msg out) ↔
      ∀ before msg out after, inputs = before ++ (msg, out) :: after → msg.type = .newOrder →
        (sessionAfter { sessionId := sessionId } before).Admits msg →
          msg.newOrder.side.IsReal) := by
  refine ⟨?_, ?_⟩
  · refine forall₂_congr fun t ht => ?_
    exact pushesRealSides_iff (h.sound_of_mem ht).1 (h.of_mem ht).2
  · refine forall₄_congr fun before msg out after => forall₂_congr fun hsplit ht => ?_
    have hmem : (msg, out) ∈ inputs := hsplit ▸ List.mem_append_right _ List.mem_cons_self
    exact OrderEntrySession.takesRealSides_iff _ ht (hbuffers _ hmem)

/-- The order and the frame of a client whose side is 3. -/
def oddOrder : OrderMessage :=
  .newOrder { sequenceNumber := 1 } { clientOrderId := 7, side := ⟨3⟩, price := 100, quantity := 5 }

def oddFrame : List UInt8 := (oddOrder.encode blankFrame).2

/-- The command that it becomes. -/
def oddCommand : EngineCommand := { firstCommand with side := ⟨3⟩ }

/-- The message that it is decoded to. -/
def oddMessage : DecodedMessage :=
  { header := stamp .newOrder { sequenceNumber := 1 }
    type := .newOrder
    newOrder := { clientOrderId := 7, side := ⟨3⟩, price := 100, quantity := 5 } }

/-- A first client sends it, and the engine is told to buy or sell on side 3. -/
theorem odd_side_pushed :
    ∃ ts s, ServerRun .standard ts s ∧ ¬ ∀ t ∈ ts, PushesRealSides t := by
  obtain ⟨ts, s, c, h, -, hw, hc, hparser, hexpected, -⟩ := first_connects
  have hempty : c.parser.contents = [] := by
    rw [hparser, Parser.contents_fresh]
  have hcmd : orderCommand c.token oddOrder.request = some oddCommand := by
    rw [hc.token]
    rfl
  obtain ⟨us, s', c', msg, h', hus, -⟩ := h.can_order (m := oddOrder) ⟨hw, hc.found, hempty⟩
    (by decide) (by decide) rfl rfl hexpected.symm hcmd
  refine ⟨_, s', h', fun hreal => ?_⟩
  have hmem : Event.command c.serial msg oddCommand (s.cmdQueue.push ⟨oddCommand, c.serial⟩).1
      ∈ events us := hus ▸ List.mem_cons_of_mem _ List.mem_cons_self
  obtain ⟨t, ht, he⟩ := List.mem_flatMap.mp hmem
  have hside := (hreal t (List.mem_append_right _ ht)).pushed _ he oddCommand rfl rfl
  exact absurd hside (by decide)

/-- A parser hands the same frame to a session, which accepts it. -/
theorem odd_side_accepted :
    ∃ (ts : List (Taken (FrameParser oneFrame) Call)) (p : FrameParser oneFrame), CallRun ts p ∧
      produced ts = [oddMessage] ∧
      ¬ OrderEntrySession.TakesRealSides {} oddMessage blankFrame := by
  have hproduced : (replay perform (FrameParser.fresh (C := oneFrame))
      [.append oddFrame, .tryParse {}]).map (fun r => produced r.1) = some [oddMessage] := by
    decide +kernel
  obtain ⟨⟨ts, p⟩, hr, hone⟩ := Option.map_eq_some_iff.mp hproduced
  refine ⟨ts, p, CallRun.of_replay hr, hone, ?_⟩
  rw [OrderEntrySession.takesRealSides_iff {} rfl length_blankFrame]
  intro h
  exact absurd (h ⟨rfl, by decide, by decide, rfl⟩) (by decide)

/-- **The third side reaches the order layer** on both paths. -/
theorem odd_side_reaches_orders :
    (¬ ∀ D ts s, ServerRun D ts s → ∀ t ∈ ts, PushesRealSides t) ∧
    ¬ ∀ (ts : List (Taken (FrameParser oneFrame) Call)) (p : FrameParser oneFrame), CallRun ts p →
      ∀ msg ∈ produced ts, msg.type = .newOrder → ∀ out : List UInt8, out.length = kFrameSize →
        OrderEntrySession.TakesRealSides {} msg out := by
  refine ⟨fun h => ?_, fun h => ?_⟩
  · obtain ⟨ts, s, hrun, hnot⟩ := odd_side_pushed
    exact hnot (h .standard ts s hrun)
  · obtain ⟨ts, p, hrun, hproduced, hnot⟩ := odd_side_accepted
    refine hnot (h ts p hrun oddMessage ?_ rfl blankFrame length_blankFrame)
    rw [hproduced]
    exact List.mem_cons_self

/-- A run in which one order is pushed, and a session that is handed an order and its
cancel. -/
theorem only_real_sides_iff_firstOrder :
    ∃ ts s msg, ServerRun .standard ts s ∧
      Event.command 0 msg firstCommand true ∈ events ts ∧
      ((∀ t ∈ ts, PushesRealSides t) ↔
        ∀ t ∈ ts, ∀ c frame, EntryStep t c frame → c.Admits frame → (sideOf frame).IsReal) ∧
      ((∀ before msg out after, enterAndCancel = before ++ (msg, out) :: after →
          msg.type = .newOrder → (sessionAfter {} before).TakesRealSides msg out) ↔
        ∀ before msg out after, enterAndCancel = before ++ (msg, out) :: after →
          msg.type = .newOrder → (sessionAfter {} before).Admits msg →
            msg.newOrder.side.IsReal) := by
  obtain ⟨ts, s, msg, enqueued, h, hevents⟩ := first_answered
  refine ⟨ts, s, msg, h, ?_, only_real_sides_iff h 0 enterAndCancel (by decide)⟩
  rw [hevents]
  simp

end TradingGateway.Gateway
