/-
# `OrderEntry.SessionResponses` — the frame that answers a message

`handle_message` has many places that answer, and four builders that write.  Each place
picks a builder, an id, a handle or a reason, and the header of the request; the builder
does the rest.  So the response is an encoded payload (`handleMessage_encodes`), the one
that `respond` decides on, and the codec's own laws say everything about its bytes:

| of the response | from |
| :-- | :-- |
| 64 bytes, nothing left of the buffer | the payload fills the frame |
| magic, version | the parser checked the request's |
| type, payload length | forced by the encoder |
| flags, sequence number, reserved | copied from the request |
| session id | the session's, if it has one |

Request and session are all that decides: a message that was used before keeps most of
what it held, and so does the buffer, and neither shows (`reuse_makes_no_difference`).
-/
import TradingGateway.OrderEntry.RoundTrip
import TradingGateway.OrderEntry.Session
import TradingGateway.OrderEntry.Stream

namespace TradingGateway.OrderEntry

open Lib

/-! ## Replies as payloads -/

/-- The payload that says the reply, with nothing in its reserved fields. -/
def Reply.body : Reply → Body
  | accepted id handle => .accepted { clientOrderId := id, orderHandle := handle }
  | rejected id reason => .rejected { clientOrderId := id, reason := reason }
  | cancelled id handle => .cancelled { clientOrderId := id, orderHandle := handle }
  | modified id handle => .modified { clientOrderId := id, orderHandle := handle }
  | trade id handle price quantity =>
      .trade { clientOrderId := id, orderHandle := handle, price := price, quantity := quantity }

namespace Reply

theorem isReply_body (reply : Reply) : reply.body.IsReply := by
  cases reply <;> trivial

theorem type_body (reply : Reply) : reply.body.type = reply.type := by
  cases reply <;> rfl

theorem reserved_body (reply : Reply) : reply.body.reserved = 0 := by
  cases reply <;> rfl

section Encoded

variable (reply : Reply) (header : MessageHeader) {out : List UInt8} (hout : out.length = kFrameSize)

include hout

theorem readReply_body : readReply (reply.body.encode header out).2 = some reply := by
  cases reply with
  | accepted id handle => exact (carries_encodeAccepted header _ hout).reply
  | rejected id reason => exact (carries_encodeRejected header _ hout).reply
  | cancelled id handle => exact (carries_encodeCancelled header _ hout).reply
  | modified id handle => exact (carries_encodeModified header _ hout).reply
  | trade id handle price quantity => exact (carries_encodeTrade header _ hout).reply

theorem encode_body :
    (reply.body.encode header out).2
      = messageBytes reply.type reply.body.transmitted header := by
  rw [Body.encode_snd _ _ (Nat.le_of_eq hout.symm), reserved_body, type_body, Nat.sub_zero, ← hout,
    List.drop_length, List.append_nil]

theorem readHeader_body :
    readHeader (reply.body.encode header out).2 = stamp reply.type header := by
  rw [reply.encode_body header hout, ← List.append_nil (messageBytes _ _ _)]
  exact readHeader_messageBytes _ _ _ _

end Encoded

end Reply

/-! ## What `handle_message` writes -/

namespace OrderEntrySession

variable {s : OrderEntrySession} {msg : DecodedMessage} {out : List UInt8} {r : Request}

/-- What is answered is some reply to the request header, encoded into the buffer. -/
def Builds (s : OrderEntrySession) (header : MessageHeader) (out : List UInt8)
    (answered : Bool × OrderEntrySession × List UInt8) : Prop :=
  ∃ reply : Reply, answered.2.2 = (reply.body.encode (s.responseHeader header) out).2

section Builders

variable {s s' after : OrderEntrySession} (hid : s'.sessionId = s.sessionId) (keepOpen : Bool)
  (header : MessageHeader) (out : List UInt8)

include hid

/-- The session's id is all of the session that a builder reads. -/
theorem responseHeader_congr : s'.responseHeader header = s.responseHeader header := by
  rw [responseHeader, responseHeader, hid]

theorem builds_encodeReject (id : UInt64) (reason : RejectReason) :
    Builds s header out (keepOpen, after, s'.encodeReject header id reason out) := by
  refine ⟨.rejected id reason, ?_⟩
  rw [← responseHeader_congr hid]
  dsimp only
  rfl

theorem builds_encodeAccept (id handle : UInt64) :
    Builds s header out (keepOpen, after, s'.encodeAccept header id handle out) := by
  refine ⟨.accepted id handle, ?_⟩
  rw [← responseHeader_congr hid]
  dsimp only
  rfl

theorem builds_encodeCancel (id handle : UInt64) :
    Builds s header out (keepOpen, after, s'.encodeCancel header id handle out) := by
  refine ⟨.cancelled id handle, ?_⟩
  rw [← responseHeader_congr hid]
  dsimp only
  rfl

theorem builds_encodeModify (id handle : UInt64) :
    Builds s header out (keepOpen, after, s'.encodeModify header id handle out) := by
  refine ⟨.modified id handle, ?_⟩
  rw [← responseHeader_congr hid]
  dsimp only
  rfl

end Builders

/-- Whatever is answered, one of the four builders writes it, from the header of the
request. -/
theorem handleMessage_builds (hr : msg.request = some r) :
    Builds s msg.header out (s.handleMessage msg out) := by
  by_cases hseq : msg.header.sequenceNumber = s.expectedSequenceNumber
  case neg =>
    rw [handleMessage_of_badSequence hr hseq]
    exact builds_encodeReject rfl _ _ _ _ _
  have hcheck := checkSequenceOrReject_of_inSequence hseq out
  unfold DecodedMessage.request at hr
  split_ifs at hr with hn hc hm hb hl
  · rw [handleMessage, if_pos hn]
    dsimp only
    rw [hcheck]
    dsimp only
    split_ifs
    · exact builds_encodeReject rfl _ _ _ _ _
    · exact builds_encodeReject rfl _ _ _ _ _
    · cases s.advance.orders.find msg.newOrder.clientOrderId with
      | none => exact builds_encodeAccept rfl _ _ _ _ _
      | some handle => exact builds_encodeReject rfl _ _ _ _ _
  · rw [handleMessage, if_neg hn, if_pos hc]
    dsimp only
    rw [hcheck]
    dsimp only
    cases s.advance.orders.find msg.cancelOrder.clientOrderId with
    | none => exact builds_encodeReject rfl _ _ _ _ _
    | some handle => exact builds_encodeCancel rfl _ _ _ _ _
  · rw [handleMessage, if_neg hn, if_neg hc, if_pos hm]
    dsimp only
    rw [hcheck]
    dsimp only
    cases s.advance.orders.find msg.modifyOrder.clientOrderId with
    | none => exact builds_encodeReject rfl _ _ _ _ _
    | some handle =>
        dsimp only
        split_ifs
        · exact builds_encodeReject rfl _ _ _ _ _
        · exact builds_encodeReject rfl _ _ _ _ _
        · exact builds_encodeModify rfl _ _ _ _ _
  · rw [handleMessage_of_control hseq (Or.inl hb)]
    exact builds_encodeAccept rfl _ _ _ _ _
  · rw [handleMessage_of_control hseq (Or.inr hl)]
    exact builds_encodeAccept rfl _ _ _ _ _

/-- **The response is the encoded reply** that `respond` decides on. -/
theorem handleMessage_encodes (hr : msg.request = some r) (hout : out.length = kFrameSize) :
    (s.handleMessage msg out).2.2
      = ((s.respond r).2.2.body.encode (s.responseHeader msg.header) out).2 := by
  have hbuilds : Builds s msg.header out (s.handleMessage msg out) := handleMessage_builds hr
  obtain ⟨reply, hreply⟩ := hbuilds
  have hread := (s.handleMessage_respond hr hout).response.reply
  rw [hreply, reply.readReply_body _ hout] at hread
  rw [hreply, Option.some.inj hread]

/-- Neither what the buffer held nor what the message holds besides the request makes a
difference. -/
theorem handleMessage_congr {msg' : DecodedMessage} (hr : msg.request = some r)
    (hr' : msg'.request = some r) (hout : out.length = kFrameSize) {out' : List UInt8}
    (hout' : out'.length = kFrameSize) : s.handleMessage msg' out' = s.handleMessage msg out := by
  have hw := s.handleMessage_respond hr hout
  have hw' := s.handleMessage_respond hr' hout'
  have hheader : msg'.header = msg.header :=
    (header_of_request hr').1.symm.trans (header_of_request hr).1
  refine Prod.ext (hw'.keepOpen.trans hw.keepOpen.symm)
    (Prod.ext (hw'.session.trans hw.session.symm) ?_)
  rw [handleMessage_encodes hr hout, handleMessage_encodes hr' hout', hheader,
    Reply.encode_body _ _ hout, Reply.encode_body _ _ hout']

end OrderEntrySession

/-! ## Complete, valid and correlated -/

/-- The id a response to the message names. -/
def DecodedMessage.clientOrderId (m : DecodedMessage) : UInt64 :=
  if m.type = .newOrder then m.newOrder.clientOrderId
  else if m.type = .cancelOrder then m.cancelOrder.clientOrderId
  else if m.type = .modifyOrder then m.modifyOrder.clientOrderId
  else 0

/-- The types a response to a message of the type may have. -/
def responseTypes (type : MessageType) : List MessageType :=
  if type = .cancelOrder then [.cancelled, .rejected]
  else if type = .modifyOrder then [.modified, .rejected]
  else [.accepted, .rejected]

/-- The frame is a complete, valid answer of the session to the message, and says the
reply. -/
structure Answers (s : OrderEntrySession) (msg : DecodedMessage) (frame : List UInt8)
    (reply : Reply) : Prop where
  response : IsResponse frame reply.body
  flags : ∀ h₀, (decodeHeader frame h₀).2.flags = msg.header.flags
  sequenceNumber : ∀ h₀, (decodeHeader frame h₀).2.sequenceNumber = msg.header.sequenceNumber
  reserved : ∀ h₀, (decodeHeader frame h₀).2.reserved = msg.header.reserved
  sessionId : ∀ h₀, (decodeHeader frame h₀).2.sessionId =
    if s.sessionId = 0 then msg.header.sessionId else s.sessionId
  permitted : reply.type ∈ responseTypes msg.type
  supported : ∀ id, reply ≠ .rejected id .unsupportedMessageType
  clientOrderId : reply.clientOrderId = msg.clientOrderId

/-- What the decision on a payload may be. -/
structure Suits (payload : Payload) (reply : Reply) : Prop where
  permitted : reply.type ∈ responseTypes payload.type
  supported : ∀ id, reply ≠ .rejected id .unsupportedMessageType
  clientOrderId : reply.clientOrderId = payload.clientOrderId

/-- A reject suits every payload, if its reason is one of the session's. -/
theorem suits_rejected (payload : Payload) {reason : RejectReason}
    (h : reason ≠ .unsupportedMessageType) : Suits payload (.rejected payload.clientOrderId reason) where
  permitted := by cases payload <;> exact List.mem_cons_of_mem _ List.mem_cons_self
  supported := fun _ heq => h (Reply.rejected.inj heq).2
  clientOrderId := rfl

theorem suits_of_type (payload : Payload) {type : MessageType} {reply : Reply}
    (permitted : type ∈ responseTypes payload.type) (h : type ≠ .rejected)
    (htype : reply.type = type) (hid : reply.clientOrderId = payload.clientOrderId) :
    Suits payload reply where
  permitted := htype ▸ permitted
  supported := fun _ heq => h (htype ▸ heq ▸ rfl)
  clientOrderId := hid

theorem suits_decision {s s' : OrderEntrySession} {payload : Payload} {reply : Reply}
    (h : s.Decision payload s' reply) : Suits payload reply := by
  cases h with
  | refused known =>
      refine suits_rejected payload ?_
      rintro rfl
      exact absurd known (by decide)
  | entered => exact suits_of_type _ List.mem_cons_self (by decide) rfl rfl
  | cancelled => exact suits_of_type _ List.mem_cons_self (by decide) rfl rfl
  | modified => exact suits_of_type _ List.mem_cons_self (by decide) rfl rfl
  | control control =>
      rcases control with rfl | rfl
      · exact suits_of_type .heartbeat List.mem_cons_self (by decide) rfl rfl
      · exact suits_of_type .logout List.mem_cons_self (by decide) rfl rfl

theorem suits_respond (s : OrderEntrySession) (r : Request) : Suits r.payload (s.respond r).2.2 := by
  by_cases hseq : r.header.sequenceNumber = s.expectedSequenceNumber
  · rw [s.respond_of_expected hseq]
    exact suits_decision (s.advance.decides r.payload)
  · rw [s.respond_of_unexpected hseq]
    exact suits_rejected r.payload (by decide)

theorem DecodedMessage.clientOrderId_of_request {m : DecodedMessage} {r : Request}
    (h : m.request = some r) : m.clientOrderId = r.payload.clientOrderId := by
  unfold DecodedMessage.request at h
  unfold DecodedMessage.clientOrderId
  split_ifs at h ⊢ with hn hc hm hb hl <;> obtain rfl := Option.some.inj h <;> rfl

/-- **A session answers every message of a parser completely**: whatever the state of the
session and whatever the buffer held, the response is a valid frame that says a reply to
this message, and nothing of the buffer is left in it. -/
theorem session_responses_complete {C : ParserCapacity} (p : Parser C) (prior : DecodedMessage)
    (ready : (p.tryParse prior).1 = .messageReady) (s : OrderEntrySession) (out : List UInt8)
    (hout : out.length = kFrameSize) :
    (∃ reply, Answers s (p.tryParse prior).2.1
      (s.handleMessage (p.tryParse prior).2.1 out).2.2 reply) ∧
    ∀ out' : List UInt8, out'.length = kFrameSize →
      s.handleMessage (p.tryParse prior).2.1 out' = s.handleMessage (p.tryParse prior).2.1 out := by
  obtain ⟨r, -, read, hmsg⟩ := Parser.tryParse_ready ready
  have hr : (p.tryParse prior).2.1.request = some r := by
    rw [hmsg]
    exact request_overlay prior read
  generalize (p.tryParse prior).2.1 = msg at hr ⊢
  obtain ⟨hheader, htype⟩ := header_of_request hr
  obtain ⟨hframe, hread, -⟩ := header_of_readRequest read
  rw [hheader] at hread
  have magic : (s.responseHeader msg.header).magic = kMagic := by
    rw [OrderEntrySession.responseHeader, hread]
    exact hframe.magic
  have version : (s.responseHeader msg.header).version = kVersion := by
    rw [OrderEntrySession.responseHeader, hread]
    exact hframe.version
  refine ⟨⟨(s.respond r).2.2, ?_⟩, fun out' hout' =>
    OrderEntrySession.handleMessage_congr hr hr hout hout'⟩
  rw [OrderEntrySession.handleMessage_encodes hr hout]
  have hresponse := isResponse_encode _ (s.respond r).2.2.body (s.respond r).2.2.isReply_body magic
    version hout
  have hhead : ∀ h₀, (decodeHeader ((s.respond r).2.2.body.encode (s.responseHeader msg.header)
      out).2 h₀).2 = stamp (s.respond r).2.2.type (s.responseHeader msg.header) := by
    intro h₀
    rw [decodeHeader_eq (hresponse.length ▸ by decide), Reply.readHeader_body _ _ hout]
  have hsuits := suits_respond s r
  refine ⟨hresponse, fun h₀ => ?_, fun h₀ => ?_, fun h₀ => ?_, fun h₀ => ?_, ?_, hsuits.supported, ?_⟩
  · rw [hhead]
    rfl
  · rw [hhead]
    rfl
  · rw [hhead]
    rfl
  · rw [hhead]
    rfl
  · rw [htype]
    exact hsuits.permitted
  · rw [hsuits.clientOrderId, DecodedMessage.clientOrderId_of_request hr]

/-- The frame of an order, in a parser that holds nothing else. -/
def orderFrame : List UInt8 := ((OrderMessage.newOrder {} {}).encode zeroBuffer).2

def orderParser : Parser oneFrame := (Parser.fresh.append orderFrame).2

theorem session_responses_complete_oneOrder :
    (orderParser.tryParse {}).1 = .messageReady ∧
    (∃ reply, Answers {} (orderParser.tryParse {}).2.1
      (OrderEntrySession.handleMessage {} (orderParser.tryParse {}).2.1 zeroBuffer).2.2 reply) ∧
    ∀ out' : List UInt8, out'.length = kFrameSize →
      OrderEntrySession.handleMessage {} (orderParser.tryParse {}).2.1 out'
        = OrderEntrySession.handleMessage {} (orderParser.tryParse {}).2.1 zeroBuffer := by
  have hlen : orderFrame.length = kFrameSize := length_encode _ rfl
  have hfits : (Parser.fresh : Parser oneFrame).Fits orderFrame := by
    rw [Parser.Fits, Parser.contents_fresh, hlen]
    decide
  have hcontents : orderParser.contents = orderFrame := by
    rw [orderParser, (Parser.append_of_fits hfits).2, Parser.contents_fresh, List.nil_append]
  have ready : (orderParser.tryParse {}).1 = .messageReady := by
    have read : readRequest (orderParser.contents.take kFrameSize)
        = some (OrderMessage.newOrder {} {}).request := by
      rw [hcontents, List.take_of_length_le (Nat.le_of_eq hlen)]
      exact readRequest_encode (.newOrder {} {}) rfl rfl rfl
    exact (Parser.tryParse_of_read {} (hcontents.symm ▸ Nat.le_of_eq hlen.symm) read).1
  exact ⟨ready, session_responses_complete orderParser {} ready {} zeroBuffer rfl⟩

/-! ## What a message and a buffer held before -/

namespace FrameParser

variable {C : ParserCapacity} {p : FrameParser C} {out : DecodedMessage}

theorem tryParse_of_ready (ready : (p.tryParse out).1 = .messageReady) :
    (p.tryParse out).2.2 = { p with readPos := p.readPos + UInt64.ofNat kFrameSize } := by
  unfold tryParse at ready ⊢
  dsimp only at ready ⊢
  split_ifs at ready ⊢
  generalize decodePayload _ _ = decoded at ready ⊢
  cases decoded with
  | none => cases ready
  | some decoded =>
      dsimp only at ready ⊢
      split_ifs at ready ⊢
      rfl

end FrameParser

/-- What a parse leaves of the message it is handed: the structs of the other types, and
the words of a cancel and of a modify that no decoder writes. -/
structure Leaves (prior out : DecodedMessage) : Prop where
  newOrder : out.type ≠ .newOrder → out.newOrder = prior.newOrder
  cancelOrder : out.type ≠ .cancelOrder → out.cancelOrder = prior.cancelOrder
  modifyOrder : out.type ≠ .modifyOrder → out.modifyOrder = prior.modifyOrder
  cancelReserved : out.cancelOrder
    = { prior.cancelOrder with clientOrderId := out.cancelOrder.clientOrderId }
  modifyReserved : out.modifyOrder.reserved = prior.modifyOrder.reserved

theorem leaves_overlay {bs : List UInt8} {r : Request} (prior : DecodedMessage)
    (read : readRequest bs = some r) : Leaves prior (prior.overlay r) := by
  have htype := (header_of_request (request_overlay prior read)).2
  obtain ⟨header, payload⟩ := r
  cases payload with
  | newOrder order => exact ⟨fun h => absurd htype h, fun _ => rfl, fun _ => rfl, rfl, rfl⟩
  | cancelOrder id => exact ⟨fun _ => rfl, fun h => absurd htype h, fun _ => rfl, rfl, rfl⟩
  | modifyOrder id price quantity =>
      exact ⟨fun _ => rfl, fun _ => rfl, fun h => absurd htype h, rfl, rfl⟩
  | heartbeat => exact ⟨fun _ => rfl, fun _ => rfl, fun _ => rfl, rfl, rfl⟩
  | logout => exact ⟨fun _ => rfl, fun _ => rfl, fun _ => rfl, rfl, rfl⟩

/-- **A reused message or buffer has no say.**  Whatever the message held that a parser
decodes into, and whatever the response buffer, a session answers the same and goes to the
same state, although most of the message is what it was (`Leaves`). -/
theorem reuse_makes_no_difference {C : ParserCapacity} {ts : List (Taken (FrameParser C) Call)}
    {p : FrameParser C} (h : CallRun ts p) (s : OrderEntrySession) {prior prior' : DecodedMessage}
    {out out' : List UInt8} (hout : out.length = kFrameSize) (hout' : out'.length = kFrameSize)
    (ready : (p.tryParse prior).1 = .messageReady) :
    Leaves prior (p.tryParse prior).2.1 ∧
      (p.tryParse prior').1 = .messageReady ∧ (p.tryParse prior').2.2 = (p.tryParse prior).2.2 ∧
      s.handleMessage (p.tryParse prior').2.1 out' = s.handleMessage (p.tryParse prior).2.1 out ∧
      (s.handleMessage (p.tryParse prior).2.1 out).2.2.length = kFrameSize := by
  have hwf := h.simulates.2.wellFormed
  let q : Parser C := ⟨p, hwf⟩
  have hready : (q.tryParse prior).1 = .messageReady := ready
  obtain ⟨r, long, read, hmsg⟩ := Parser.tryParse_ready hready
  obtain ⟨ready', hmsg'⟩ := q.tryParse_of_read prior' long read
  have hmsg : (p.tryParse prior).2.1 = prior.overlay r := hmsg
  have hmsg' : (p.tryParse prior').2.1 = prior'.overlay r := hmsg'
  have hr := request_overlay prior read
  have hr' := request_overlay prior' read
  rw [hmsg, hmsg']
  refine ⟨leaves_overlay prior read, ready', ?_,
    OrderEntrySession.handleMessage_congr hr hr' hout hout',
    (s.handleMessage_respond hr hout).response.length⟩
  rw [FrameParser.tryParse_of_ready ready, FrameParser.tryParse_of_ready ready']

/-- A message that a cancel was decoded into before. -/
def usedMessage : DecodedMessage where
  type := .cancelOrder
  newOrder := { clientOrderId := 7, price := 1, quantity := 1 }
  cancelOrder := { clientOrderId := 8, reserved1 := 1 }
  modifyOrder := { clientOrderId := 9, newPrice := 1, newQuantity := 1, reserved := 1 }

theorem reuse_makes_no_difference_oneOrder :
    ∃ ts p, replay perform (FrameParser.fresh (C := oneFrame)) [.append orderFrame] = some (ts, p) ∧
      (p.tryParse usedMessage).2.1.cancelOrder = usedMessage.cancelOrder ∧
      OrderEntrySession.handleMessage {} (p.tryParse {}).2.1 zeroBuffer
        = OrderEntrySession.handleMessage {} (p.tryParse usedMessage).2.1 orderFrame := by
  have hcheck : (replay perform (FrameParser.fresh (C := oneFrame)) [.append orderFrame]).map
      (fun r => ((r.2.tryParse usedMessage).1, (r.2.tryParse usedMessage).2.1.type))
        = some (.messageReady, .newOrder) := by decide +kernel
  obtain ⟨⟨ts, p⟩, hts, heq⟩ := Option.map_eq_some_iff.mp hcheck
  obtain ⟨ready, htype⟩ := Prod.mk.inj heq
  have hrun := CallRun.of_replay hts
  have hlen : orderFrame.length = kFrameSize := length_encode _ rfl
  have hbuffer : zeroBuffer.length = kFrameSize := rfl
  obtain ⟨hleaves, -, -, heq, -⟩ :=
    @reuse_makes_no_difference _ _ _ hrun {} _ {} _ _ hlen hbuffer ready
  refine ⟨ts, p, hts, hleaves.cancelOrder ?_, heq⟩
  rw [htype]
  decide

end TradingGateway.OrderEntry
