/-
# `Gateway.EngineMessages` — commands, responses and the frames of the gateway

`engine_messages.hpp`, and the parts of `epoll_server.cpp` that turn one message
into another without touching any state:

    a decoded order message  →  an `EngineCommand`           (`toCommand`)
    an `EngineCommand`       →  the stub engine's response   (`engineRespond`)
    an `EngineResponse`      →  a response frame             (`encodeResponse`)
    a decoded message        →  a fast-path response frame   (`badSequenceFrame`, `acceptFrame`)

`carries_encodeResponse` and its fast-path siblings say what a client reads in
the frames.
-/
import TradingGateway.OrderEntry.FrameParser
import TradingGateway.OrderEntry.Reply

namespace TradingGateway.Gateway

open OrderEntry

@[ext] structure SessionToken where
  slot : UInt32 := 0
  generation : UInt32 := 0
deriving DecidableEq, Repr, Inhabited

inductive EngineCommandType where
  | newLimit
  | cancel
  | modify
  | sessionClosed
  | shutdown
deriving DecidableEq, Repr

structure EngineCommand where
  requestSequence : UInt64 := 0
  clientOrderId : UInt64 := 0
  price : UInt64 := 0
  quantity : UInt64 := 0
  side : Side := Side.buy
  session : SessionToken := {}
  type : EngineCommandType := .newLimit
deriving DecidableEq, Repr

inductive EngineResponseType where
  | accepted
  | rejected
  | cancelled
  | modified
  | trade
deriving DecidableEq, Repr

structure EngineResponse where
  clientOrderId : UInt64 := 0
  price : UInt64 := 0
  quantity : UInt64 := 0
  rejectReason : RejectReason := RejectReason.none
  session : SessionToken := {}
  type : EngineResponseType := .rejected
deriving DecidableEq, Repr

instance : Inhabited EngineCommand := ⟨{}⟩
instance : Inhabited EngineResponse := ⟨{}⟩

/-! ## From a message to a command -/

/-- The command the parse loop builds for an order message; the `default` of its
`switch` leaves the command as it is. -/
def toCommand (token : SessionToken) (msg : DecodedMessage) : EngineCommand :=
  let cmd : EngineCommand :=
    { session := token, requestSequence := msg.header.sequenceNumber }
  if msg.type = .newOrder then
    { cmd with
      type := .newLimit
      clientOrderId := msg.newOrder.clientOrderId
      side := msg.newOrder.side
      price := msg.newOrder.price
      quantity := msg.newOrder.quantity }
  else if msg.type = .cancelOrder then
    { cmd with type := .cancel, clientOrderId := msg.cancelOrder.clientOrderId }
  else if msg.type = .modifyOrder then
    { cmd with
      type := .modify
      clientOrderId := msg.modifyOrder.clientOrderId
      price := msg.modifyOrder.newPrice
      quantity := msg.modifyOrder.newQuantity }
  else cmd

/-- The messages that go to the engine. -/
def IsOrder (msg : DecodedMessage) : Prop :=
  msg.type = .newOrder ∨ msg.type = .cancelOrder ∨ msg.type = .modifyOrder

/-! ## From a command to a response -/

/-- The `switch` of `matching_thread`: the response to a command, `none` where it
goes on to the next command without one. -/
def engineRespond (cmd : EngineCommand) : Option EngineResponse :=
  let rsp : EngineResponse := { session := cmd.session, clientOrderId := cmd.clientOrderId }
  match cmd.type with
  | .newLimit => some { rsp with type := .accepted }
  | .cancel => some { rsp with type := .cancelled }
  | .modify => some { rsp with type := .modified }
  | .sessionClosed => none
  | .shutdown => none

/-! ## From a response to a frame -/

/-- `Frame frame{}`. -/
def blankFrame : List UInt8 := List.replicate kFrameSize 0

theorem length_blankFrame : blankFrame.length = kFrameSize := List.length_replicate

/-- `encode_response`. -/
def encodeResponse (rsp : EngineResponse) (out : List UInt8) : List UInt8 :=
  let h : MessageHeader := { payloadLength := UInt16.ofNat kPayloadSize }
  match rsp.type with
  | .accepted =>
      let a : Accepted := { clientOrderId := rsp.clientOrderId }
      (encodeAccepted h a out).2
  | .rejected =>
      let r : Rejected := { clientOrderId := rsp.clientOrderId, reason := rsp.rejectReason }
      (encodeRejected h r out).2
  | .cancelled =>
      let c : Cancelled := { clientOrderId := rsp.clientOrderId }
      (encodeCancelled h c out).2
  | .modified =>
      let m : Modified := { clientOrderId := rsp.clientOrderId }
      (encodeModified h m out).2
  | .trade =>
      let t : Trade :=
        { clientOrderId := rsp.clientOrderId, price := rsp.price, quantity := rsp.quantity }
      (encodeTrade h t out).2

/-- What the frame of a response says. -/
def EngineResponse.reply (rsp : EngineResponse) : Reply :=
  match rsp.type with
  | .accepted => .accepted rsp.clientOrderId 0
  | .rejected => .rejected rsp.clientOrderId rsp.rejectReason
  | .cancelled => .cancelled rsp.clientOrderId 0
  | .modified => .modified rsp.clientOrderId 0
  | .trade => .trade rsp.clientOrderId 0 rsp.price rsp.quantity

theorem carries_encodeResponse (rsp : EngineResponse) {out : List UInt8}
    (hout : out.length = kFrameSize) :
    Carries (encodeResponse rsp out) { payloadLength := UInt16.ofNat kPayloadSize } rsp.reply := by
  unfold encodeResponse EngineResponse.reply
  cases rsp.type with
  | accepted => exact carries_encodeAccepted _ _ hout
  | rejected => exact carries_encodeRejected _ _ hout
  | cancelled => exact carries_encodeCancelled _ _ hout
  | modified => exact carries_encodeModified _ _ hout
  | trade => exact carries_encodeTrade _ _ hout

/-- What the engine will say to an order message, once it gets to it. -/
def orderReply (msg : DecodedMessage) : Option Reply :=
  if msg.type = .newOrder then some (.accepted msg.newOrder.clientOrderId 0)
  else if msg.type = .cancelOrder then some (.cancelled msg.cancelOrder.clientOrderId 0)
  else if msg.type = .modifyOrder then some (.modified msg.modifyOrder.clientOrderId 0)
  else none

/-- The engine answers the command built for an order message, to the session it
came from. -/
theorem engineRespond_toCommand (token : SessionToken) {msg : DecodedMessage} (h : IsOrder msg) :
    ∃ rsp, engineRespond (toCommand token msg) = some rsp ∧ rsp.session = token ∧
      orderReply msg = some rsp.reply := by
  rcases h with h | h | h
  · rw [toCommand, orderReply, if_pos h, if_pos h]
    exact ⟨_, rfl, rfl, rfl⟩
  · rw [toCommand, orderReply, h]
    exact ⟨_, rfl, rfl, rfl⟩
  · rw [toCommand, orderReply, h]
    exact ⟨_, rfl, rfl, rfl⟩

/-! ## Fast-path frames -/

/-- The reject of a message out of sequence; the session id is the slot. -/
def badSequenceFrame (token : SessionToken) (msg : DecodedMessage) : List UInt8 :=
  let rh := { msg.header with sessionId := token.slot.toUInt64 }
  let rej : Rejected := { reason := .badSequence }
  (encodeRejected rh rej blankFrame).2

/-- The accept of a heartbeat or a logout. -/
def acceptFrame (msg : DecodedMessage) : List UInt8 :=
  let acc : Accepted := {}
  (encodeAccepted msg.header acc blankFrame).2

theorem carries_badSequenceFrame (token : SessionToken) (msg : DecodedMessage) :
    Carries (badSequenceFrame token msg) { msg.header with sessionId := token.slot.toUInt64 }
      (.rejected 0 .badSequence) :=
  carries_encodeRejected _ { reason := .badSequence } length_blankFrame

theorem carries_acceptFrame (msg : DecodedMessage) :
    Carries (acceptFrame msg) msg.header (.accepted 0 0) :=
  carries_encodeAccepted _ {} length_blankFrame

end TradingGateway.Gateway
