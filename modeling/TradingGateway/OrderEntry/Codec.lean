/-
# `OrderEntry.Codec` — encoders and decoders

`codec.hpp`.  A `std::span<std::byte>` is the list of its bytes; a store into a
span gives the list with those bytes replaced, and reading past the end of one
(which no caller does) gives 0.  An encoder returns the size it reports
together with the buffer, a decoder its status together with the struct it was
handed, filled in.

Every encoder copies the header, forces the message type and the payload
length, encodes the header and then stores 64-bit words into the payload, so
all eight are `encodeMessage` at their own type and words.
-/
import TradingGateway.OrderEntry.Protocol

namespace TradingGateway.OrderEntry

/-! ## Explicit little-endian helpers -/

def storeU16Le (out : List UInt8) (offset : Nat) (value : UInt16) : List UInt8 :=
  (out.set (offset + 0) (value &&& 0xff).toUInt8)
    |>.set (offset + 1) ((value >>> 8) &&& 0xff).toUInt8

def storeU32Le (out : List UInt8) (offset : Nat) (value : UInt32) : List UInt8 :=
  (out.set (offset + 0) (value &&& 0xff).toUInt8)
    |>.set (offset + 1) ((value >>> 8) &&& 0xff).toUInt8
    |>.set (offset + 2) ((value >>> 16) &&& 0xff).toUInt8
    |>.set (offset + 3) ((value >>> 24) &&& 0xff).toUInt8

def storeU64Le (out : List UInt8) (offset : Nat) (value : UInt64) : List UInt8 :=
  (out.set (offset + 0) (value &&& 0xff).toUInt8)
    |>.set (offset + 1) ((value >>> 8) &&& 0xff).toUInt8
    |>.set (offset + 2) ((value >>> 16) &&& 0xff).toUInt8
    |>.set (offset + 3) ((value >>> 24) &&& 0xff).toUInt8
    |>.set (offset + 4) ((value >>> 32) &&& 0xff).toUInt8
    |>.set (offset + 5) ((value >>> 40) &&& 0xff).toUInt8
    |>.set (offset + 6) ((value >>> 48) &&& 0xff).toUInt8
    |>.set (offset + 7) ((value >>> 56) &&& 0xff).toUInt8

/-- `in[i]`. -/
def byteAt (inp : List UInt8) (i : Nat) : UInt8 := inp[i]?.getD 0

def loadU16Le (inp : List UInt8) (offset : Nat) : UInt16 :=
  (byteAt inp (offset + 0)).toUInt16
    ||| (byteAt inp (offset + 1)).toUInt16 <<< 8

def loadU32Le (inp : List UInt8) (offset : Nat) : UInt32 :=
  (byteAt inp (offset + 0)).toUInt32
    ||| (byteAt inp (offset + 1)).toUInt32 <<< 8
    ||| (byteAt inp (offset + 2)).toUInt32 <<< 16
    ||| (byteAt inp (offset + 3)).toUInt32 <<< 24

def loadU64Le (inp : List UInt8) (offset : Nat) : UInt64 :=
  (byteAt inp (offset + 0)).toUInt64
    ||| (byteAt inp (offset + 1)).toUInt64 <<< 8
    ||| (byteAt inp (offset + 2)).toUInt64 <<< 16
    ||| (byteAt inp (offset + 3)).toUInt64 <<< 24
    ||| (byteAt inp (offset + 4)).toUInt64 <<< 32
    ||| (byteAt inp (offset + 5)).toUInt64 <<< 40
    ||| (byteAt inp (offset + 6)).toUInt64 <<< 48
    ||| (byteAt inp (offset + 7)).toUInt64 <<< 56

/-! ## Header -/

def encodeHeader (h : MessageHeader) (out : List UInt8) : List UInt8 :=
  let out := storeU32Le out MessageHeader.offMagic h.magic
  let out := storeU16Le out MessageHeader.offVersion h.version
  let out := storeU16Le out MessageHeader.offMessageType h.messageType.value
  let out := storeU16Le out MessageHeader.offPayloadLength h.payloadLength
  let out := storeU16Le out MessageHeader.offFlags h.flags
  let out := storeU64Le out MessageHeader.offSequenceNumber h.sequenceNumber
  let out := storeU64Le out MessageHeader.offSessionId h.sessionId
  storeU32Le out MessageHeader.offReserved h.reserved

def decodeHeader (inp : List UInt8) (out : MessageHeader) : DecodeStatus × MessageHeader :=
  if inp.length < kHeaderSize then (.needMoreData, out)
  else
    let out : MessageHeader :=
      { magic := loadU32Le inp MessageHeader.offMagic
        version := loadU16Le inp MessageHeader.offVersion
        messageType := ⟨loadU16Le inp MessageHeader.offMessageType⟩
        payloadLength := loadU16Le inp MessageHeader.offPayloadLength
        flags := loadU16Le inp MessageHeader.offFlags
        sequenceNumber := loadU64Le inp MessageHeader.offSequenceNumber
        sessionId := loadU64Le inp MessageHeader.offSessionId
        reserved := loadU32Le inp MessageHeader.offReserved }
    if out.magic ≠ kMagic then (.badMagic, out)
    else if out.version ≠ kVersion then (.badVersion, out)
    else (.ok, out)

/-! ## Validation -/

def isKnownRequestType (type : MessageType) : Bool :=
  type = .newOrder || type = .cancelOrder || type = .modifyOrder || type = .heartbeat
    || type = .logout

def isKnownResponseType (type : MessageType) : Bool :=
  type = .accepted || type = .rejected || type = .cancelled || type = .modified || type = .trade

def expectedPayloadSize (type : MessageType) : UInt16 :=
  if type = .newOrder || type = .cancelOrder || type = .modifyOrder || type = .heartbeat
      || type = .logout then UInt16.ofNat kPayloadSize
  else 0

def validateHeader (h : MessageHeader) : DecodeStatus :=
  if !isKnownRequestType h.messageType then .unknownMessageType
  else
    let expected := expectedPayloadSize h.messageType
    if h.payloadLength ≠ expected then .badPayloadLength
    else .ok

def validateResponseHeader (h : MessageHeader) : DecodeStatus :=
  if !isKnownResponseType h.messageType then .unknownMessageType
  else if h.payloadLength ≠ UInt16.ofNat kPayloadSize then .badPayloadLength
  else .ok

/-! ## Messages -/

/-- The text the eight encoders share: the type and the payload length forced
onto the header, then each word stored at its offset in the payload. -/
def encodeMessage (type : MessageType) (words : List (Nat × UInt64)) (header : MessageHeader)
    (out : List UInt8) : Nat × List UInt8 :=
  let h := { header with messageType := type, payloadLength := UInt16.ofNat kPayloadSize }
  let out := encodeHeader h out
  (kHeaderSize + kPayloadSize,
    words.foldl (fun out word => storeU64Le out (kHeaderSize + word.1) word.2) out)

def encodeNewOrder (header : MessageHeader) (order : NewOrder) (out : List UInt8) :
    Nat × List UInt8 :=
  encodeMessage .newOrder
    [(NewOrder.offId, order.clientOrderId), (NewOrder.offSide, order.side.value),
     (NewOrder.offPrice, order.price), (NewOrder.offQuantity, order.quantity)] header out

def decodeNewOrder (inp : List UInt8) (out : NewOrder) : DecodeStatus × NewOrder :=
  if inp.length < kHeaderSize + kPayloadSize then (.needMoreData, out)
  else
    (.ok,
      { clientOrderId := loadU64Le inp (kHeaderSize + NewOrder.offId)
        side := ⟨loadU64Le inp (kHeaderSize + NewOrder.offSide)⟩
        price := loadU64Le inp (kHeaderSize + NewOrder.offPrice)
        quantity := loadU64Le inp (kHeaderSize + NewOrder.offQuantity) })

def encodeCancelOrder (header : MessageHeader) (order : CancelOrder) (out : List UInt8) :
    Nat × List UInt8 :=
  encodeMessage .cancelOrder [(CancelOrder.offId, order.clientOrderId)] header out

/-- The reserved words of `out` stay what they were. -/
def decodeCancelOrder (inp : List UInt8) (out : CancelOrder) : DecodeStatus × CancelOrder :=
  if inp.length < kHeaderSize + kPayloadSize then (.needMoreData, out)
  else (.ok, { out with clientOrderId := loadU64Le inp (kHeaderSize + CancelOrder.offId) })

def encodeModifyOrder (header : MessageHeader) (order : ModifyOrder) (out : List UInt8) :
    Nat × List UInt8 :=
  encodeMessage .modifyOrder
    [(ModifyOrder.offId, order.clientOrderId), (ModifyOrder.offNewPrice, order.newPrice),
     (ModifyOrder.offNewQuantity, order.newQuantity)] header out

/-- The reserved word of `out` stays what it was. -/
def decodeModifyOrder (inp : List UInt8) (out : ModifyOrder) : DecodeStatus × ModifyOrder :=
  if inp.length < kHeaderSize + kPayloadSize then (.needMoreData, out)
  else
    (.ok,
      { out with
        clientOrderId := loadU64Le inp (kHeaderSize + ModifyOrder.offId)
        newPrice := loadU64Le inp (kHeaderSize + ModifyOrder.offNewPrice)
        newQuantity := loadU64Le inp (kHeaderSize + ModifyOrder.offNewQuantity) })

def encodeAccepted (header : MessageHeader) (response : Accepted) (out : List UInt8) :
    Nat × List UInt8 :=
  encodeMessage .accepted
    [(Accepted.offClientOrderId, response.clientOrderId),
     (Accepted.offOrderHandle, response.orderHandle),
     (Accepted.offReserved1, response.reserved1), (Accepted.offReserved2, response.reserved2)]
    header out

def decodeAccepted (inp : List UInt8) (out : Accepted) : DecodeStatus × Accepted :=
  if inp.length < kFrameSize then (.needMoreData, out)
  else
    (.ok,
      { clientOrderId := loadU64Le inp (kHeaderSize + Accepted.offClientOrderId)
        orderHandle := loadU64Le inp (kHeaderSize + Accepted.offOrderHandle)
        reserved1 := loadU64Le inp (kHeaderSize + Accepted.offReserved1)
        reserved2 := loadU64Le inp (kHeaderSize + Accepted.offReserved2) })

def encodeRejected (header : MessageHeader) (response : Rejected) (out : List UInt8) :
    Nat × List UInt8 :=
  encodeMessage .rejected
    [(Rejected.offClientOrderId, response.clientOrderId),
     (Rejected.offReason, response.reason.value),
     (Rejected.offReserved1, response.reserved1), (Rejected.offReserved2, response.reserved2)]
    header out

def decodeRejected (inp : List UInt8) (out : Rejected) : DecodeStatus × Rejected :=
  if inp.length < kFrameSize then (.needMoreData, out)
  else
    (.ok,
      { clientOrderId := loadU64Le inp (kHeaderSize + Rejected.offClientOrderId)
        reason := ⟨loadU64Le inp (kHeaderSize + Rejected.offReason)⟩
        reserved1 := loadU64Le inp (kHeaderSize + Rejected.offReserved1)
        reserved2 := loadU64Le inp (kHeaderSize + Rejected.offReserved2) })

def encodeCancelled (header : MessageHeader) (response : Cancelled) (out : List UInt8) :
    Nat × List UInt8 :=
  encodeMessage .cancelled
    [(Cancelled.offClientOrderId, response.clientOrderId),
     (Cancelled.offOrderHandle, response.orderHandle),
     (Cancelled.offReserved1, response.reserved1), (Cancelled.offReserved2, response.reserved2)]
    header out

def decodeCancelled (inp : List UInt8) (out : Cancelled) : DecodeStatus × Cancelled :=
  if inp.length < kFrameSize then (.needMoreData, out)
  else
    (.ok,
      { clientOrderId := loadU64Le inp (kHeaderSize + Cancelled.offClientOrderId)
        orderHandle := loadU64Le inp (kHeaderSize + Cancelled.offOrderHandle)
        reserved1 := loadU64Le inp (kHeaderSize + Cancelled.offReserved1)
        reserved2 := loadU64Le inp (kHeaderSize + Cancelled.offReserved2) })

def encodeModified (header : MessageHeader) (response : Modified) (out : List UInt8) :
    Nat × List UInt8 :=
  encodeMessage .modified
    [(Modified.offClientOrderId, response.clientOrderId),
     (Modified.offOrderHandle, response.orderHandle),
     (Modified.offReserved1, response.reserved1), (Modified.offReserved2, response.reserved2)]
    header out

def decodeModified (inp : List UInt8) (out : Modified) : DecodeStatus × Modified :=
  if inp.length < kFrameSize then (.needMoreData, out)
  else
    (.ok,
      { clientOrderId := loadU64Le inp (kHeaderSize + Modified.offClientOrderId)
        orderHandle := loadU64Le inp (kHeaderSize + Modified.offOrderHandle)
        reserved1 := loadU64Le inp (kHeaderSize + Modified.offReserved1)
        reserved2 := loadU64Le inp (kHeaderSize + Modified.offReserved2) })

def encodeTrade (header : MessageHeader) (response : Trade) (out : List UInt8) :
    Nat × List UInt8 :=
  encodeMessage .trade
    [(Trade.offClientOrderId, response.clientOrderId), (Trade.offOrderHandle, response.orderHandle),
     (Trade.offPrice, response.price), (Trade.offQuantity, response.quantity)]
    header out

def decodeTrade (inp : List UInt8) (out : Trade) : DecodeStatus × Trade :=
  if inp.length < kFrameSize then (.needMoreData, out)
  else
    (.ok,
      { clientOrderId := loadU64Le inp (kHeaderSize + Trade.offClientOrderId)
        orderHandle := loadU64Le inp (kHeaderSize + Trade.offOrderHandle)
        price := loadU64Le inp (kHeaderSize + Trade.offPrice)
        quantity := loadU64Le inp (kHeaderSize + Trade.offQuantity) })

end TradingGateway.OrderEntry
