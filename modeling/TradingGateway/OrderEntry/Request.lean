/-
# `OrderEntry.Request` — what a frame says

The meaning of a 64-byte frame, apart from how any code reads it: a frame is a
request when its header carries the protocol's magic and version, one of the
five request types and the payload length 32, and then it stands for the header
and the fields its type transmits.  Reserved payload words stand for nothing, so
two frames that differ only there are the same request.

The decoders of `codec.hpp` are compared with this in `OrderEntry.FrameParser`,
its encoders here (`readRequest_encode`).
-/
import TradingGateway.OrderEntry.Wire

namespace TradingGateway.OrderEntry

open Lib.Bytes

/-! ## Requests -/

/-- The fields a request transmits behind its header. -/
inductive Payload where
  | newOrder (order : NewOrder)
  | cancelOrder (clientOrderId : UInt64)
  | modifyOrder (clientOrderId newPrice newQuantity : UInt64)
  | heartbeat
  | logout
deriving DecidableEq, Repr

structure Request where
  header : MessageHeader
  payload : Payload
deriving DecidableEq, Repr

/-- The payload of a request of a given type; `none` for every other type. -/
def readPayload (type : MessageType) (bs : List UInt8) : Option Payload :=
  if type = .newOrder then
    some (.newOrder ⟨readWord bs 0, ⟨readWord bs 1⟩, readWord bs 2, readWord bs 3⟩)
  else if type = .cancelOrder then some (.cancelOrder (readWord bs 0))
  else if type = .modifyOrder then
    some (.modifyOrder (readWord bs 0) (readWord bs 1) (readWord bs 2))
  else if type = .heartbeat then some .heartbeat
  else if type = .logout then some .logout
  else none

/-- The frame carries a request. -/
structure IsRequestFrame (bs : List UInt8) : Prop where
  magic : (readHeader bs).magic = kMagic
  version : (readHeader bs).version = kVersion
  messageType : (readHeader bs).messageType ∈
    [MessageType.newOrder, .cancelOrder, .modifyOrder, .heartbeat, .logout]
  payloadLength : (readHeader bs).payloadLength = 32

theorem isRequestFrame_iff {bs : List UInt8} :
    IsRequestFrame bs ↔ (readHeader bs).magic = kMagic ∧ (readHeader bs).version = kVersion ∧
      (readHeader bs).messageType ∈
        [MessageType.newOrder, .cancelOrder, .modifyOrder, .heartbeat, .logout] ∧
      (readHeader bs).payloadLength = 32 :=
  ⟨fun h => ⟨h.magic, h.version, h.messageType, h.payloadLength⟩,
    fun ⟨hm, hv, ht, hl⟩ => ⟨hm, hv, ht, hl⟩⟩

instance (bs : List UInt8) : Decidable (IsRequestFrame bs) :=
  decidable_of_iff _ isRequestFrame_iff.symm

/-- The request a frame carries. -/
def readRequest (bs : List UInt8) : Option Request :=
  if IsRequestFrame bs then
    (readPayload (readHeader bs).messageType bs).map fun payload => ⟨readHeader bs, payload⟩
  else none

theorem readPayload_isSome_iff {type : MessageType} {bs : List UInt8} :
    (readPayload type bs).isSome ↔
      type ∈ [MessageType.newOrder, .cancelOrder, .modifyOrder, .heartbeat, .logout] := by
  simp only [List.mem_cons, List.not_mem_nil, or_false]
  unfold readPayload
  split_ifs <;> simp_all

theorem readRequest_eq_none_iff {bs : List UInt8} :
    readRequest bs = none ↔ ¬ IsRequestFrame bs := by
  constructor
  · intro h hf
    obtain ⟨payload, hp⟩ := Option.isSome_iff_exists.mp (readPayload_isSome_iff.mpr hf.messageType)
    rw [readRequest, if_pos hf, hp] at h
    cases h
  · intro h
    exact if_neg h

theorem header_of_readRequest {bs : List UInt8} {r : Request} (h : readRequest bs = some r) :
    IsRequestFrame bs ∧ r.header = readHeader bs ∧
      readPayload (readHeader bs).messageType bs = some r.payload := by
  by_cases hf : IsRequestFrame bs
  · rw [readRequest, if_pos hf] at h
    obtain ⟨payload, hp, rfl⟩ := Option.map_eq_some_iff.mp h
    exact ⟨hf, rfl, hp⟩
  · rw [readRequest, if_neg hf] at h
    cases h

/-- The message type a payload goes under. -/
def Payload.type : Payload → MessageType
  | .newOrder _ => .newOrder
  | .cancelOrder _ => .cancelOrder
  | .modifyOrder _ _ _ => .modifyOrder
  | .heartbeat => .heartbeat
  | .logout => .logout

theorem type_of_readRequest {bs : List UInt8} {r : Request} (h : readRequest bs = some r) :
    r.header.messageType = r.payload.type := by
  obtain ⟨-, hh, hp⟩ := header_of_readRequest h
  rw [hh]
  unfold readPayload at hp
  split_ifs at hp with hn hc hm hb hl
  · rw [hn, ← Option.some.inj hp, Payload.type]
  · rw [hc, ← Option.some.inj hp, Payload.type]
  · rw [hm, ← Option.some.inj hp, Payload.type]
  · rw [hb, ← Option.some.inj hp, Payload.type]
  · rw [hl, ← Option.some.inj hp, Payload.type]

/-! ## Encoded requests -/

/-- An order message as a client hands it to one of the three request encoders. -/
inductive OrderMessage where
  | newOrder (header : MessageHeader) (order : NewOrder)
  | cancelOrder (header : MessageHeader) (order : CancelOrder)
  | modifyOrder (header : MessageHeader) (order : ModifyOrder)
deriving DecidableEq, Repr

namespace OrderMessage

def header : OrderMessage → MessageHeader
  | newOrder h _ | cancelOrder h _ | modifyOrder h _ => h

/-- The encoder for the message, on a buffer. -/
def encode : OrderMessage → List UInt8 → Nat × List UInt8
  | newOrder h order, out => encodeNewOrder h order out
  | cancelOrder h order, out => encodeCancelOrder h order out
  | modifyOrder h order, out => encodeModifyOrder h order out

/-- What the message transmits. -/
def request : OrderMessage → Request
  | newOrder h order => ⟨stamp .newOrder h, .newOrder order⟩
  | cancelOrder h order => ⟨stamp .cancelOrder h, .cancelOrder order.clientOrderId⟩
  | modifyOrder h order =>
      ⟨stamp .modifyOrder h, .modifyOrder order.clientOrderId order.newPrice order.newQuantity⟩

end OrderMessage

section Encoded

variable {out : List UInt8}

/-- The words the message's encoder stores behind the header. -/
def OrderMessage.words : OrderMessage → List UInt64
  | .newOrder _ order => [order.clientOrderId, order.side.value, order.price, order.quantity]
  | .cancelOrder _ order => [order.clientOrderId]
  | .modifyOrder _ order => [order.clientOrderId, order.newPrice, order.newQuantity]

/-- The type the message's encoder forces. -/
def OrderMessage.type : OrderMessage → MessageType
  | .newOrder _ _ => .newOrder
  | .cancelOrder _ _ => .cancelOrder
  | .modifyOrder _ _ => .modifyOrder

theorem OrderMessage.length_words (m : OrderMessage) : kHeaderSize + 8 * m.words.length ≤ 64 := by
  cases m <;> exact Nat.le_of_ble_eq_true rfl

/-- The three request encoders: the message, and behind it what the buffer held. -/
theorem encode_eq (m : OrderMessage) (hout : out.length = kFrameSize) :
    (m.encode out).2
      = messageBytes m.type m.words m.header ++ out.drop (kHeaderSize + 8 * m.words.length) := by
  have hroom : kHeaderSize + 8 * m.words.length ≤ out.length := by
    rw [hout]
    exact m.length_words
  rw [← encodeMessage_snd m.type m.words m.header hroom]
  cases m <;> rfl

theorem length_encode (m : OrderMessage) (hout : out.length = kFrameSize) :
    (m.encode out).2.length = kFrameSize := by
  rw [encode_eq m hout, List.length_append, length_messageBytes, List.length_drop, hout]
  exact Nat.add_sub_of_le m.length_words

/-- A message under the protocol's magic and version is a request when its type
is a request type. -/
theorem readRequest_messageBytes {type : MessageType} {ws : List UInt64} {h : MessageHeader}
    {post : List UInt8} {payload : Payload} (hm : h.magic = kMagic) (hv : h.version = kVersion)
    (hp : readPayload type (messageBytes type ws h ++ post) = some payload) :
    readRequest (messageBytes type ws h ++ post) = some ⟨stamp type h, payload⟩ := by
  have hhead := readHeader_messageBytes type ws h post
  have hframe : IsRequestFrame (messageBytes type ws h ++ post) := by
    rw [isRequestFrame_iff, hhead]
    exact ⟨hm, hv, readPayload_isSome_iff.mp (Option.isSome_of_eq_some hp), rfl⟩
  rw [readRequest, if_pos hframe, hhead]
  show (readPayload type _).map _ = _
  rw [hp]
  rfl

/-- **Reading an encoded message gives back what was transmitted.** -/
theorem readRequest_encode (m : OrderMessage) (hout : out.length = kFrameSize)
    (hm : m.header.magic = kMagic) (hv : m.header.version = kVersion) :
    readRequest (m.encode out).2 = some m.request := by
  rw [encode_eq m hout]
  cases m with
  | newOrder h order =>
      refine readRequest_messageBytes hm hv ?_
      have h0 := readWord_messageBytes .newOrder h [] [order.side.value, order.price, order.quantity]
        order.clientOrderId
      have h1 := readWord_messageBytes .newOrder h [order.clientOrderId]
        [order.price, order.quantity] order.side.value
      have h2 := readWord_messageBytes .newOrder h [order.clientOrderId, order.side.value]
        [order.quantity] order.price
      have h3 := readWord_messageBytes .newOrder h
        [order.clientOrderId, order.side.value, order.price] [] order.quantity
      exact congrArg some (congrArg Payload.newOrder (congr (congr (congr (congrArg NewOrder.mk
        (h0 _)) (congrArg Side.mk (h1 _))) (h2 _)) (h3 _)))
  | cancelOrder h order =>
      refine readRequest_messageBytes hm hv ?_
      have h0 := readWord_messageBytes .cancelOrder h [] [] order.clientOrderId
      exact congrArg some (congrArg Payload.cancelOrder (h0 _))
  | modifyOrder h order =>
      refine readRequest_messageBytes hm hv ?_
      have h0 := readWord_messageBytes .modifyOrder h [] [order.newPrice, order.newQuantity]
        order.clientOrderId
      have h1 := readWord_messageBytes .modifyOrder h [order.clientOrderId] [order.newQuantity]
        order.newPrice
      have h2 := readWord_messageBytes .modifyOrder h [order.clientOrderId, order.newPrice] []
        order.newQuantity
      exact congrArg some (congr (congr (congrArg Payload.modifyOrder (h0 _)) (h1 _)) (h2 _))

end Encoded

end TradingGateway.OrderEntry
