/-
# `OrderEntry.Protocol` — the wire constants and the message structs

`protocol.hpp`.  The three enumerations with a fixed underlying type are read
off the wire by a cast, so each can hold any value of that type; they are the
value itself, with the named constants beside it.  Offsets are those of the
source, relative to the frame for the header and to the payload for the rest.
-/

namespace TradingGateway.OrderEntry

def kMagic : UInt32 := 0x6c6c7467
def kVersion : UInt16 := 1
def kFrameSize : Nat := 64
def kHeaderSize : Nat := 32
def kPayloadSize : Nat := 32

/-- `enum class MessageType : std::uint16_t`. -/
structure MessageType where
  value : UInt16
deriving DecidableEq, Repr

namespace MessageType

def newOrder : MessageType := ⟨1⟩
def cancelOrder : MessageType := ⟨2⟩
def modifyOrder : MessageType := ⟨3⟩
def heartbeat : MessageType := ⟨4⟩
def logout : MessageType := ⟨5⟩
def accepted : MessageType := ⟨101⟩
def rejected : MessageType := ⟨102⟩
def cancelled : MessageType := ⟨103⟩
def modified : MessageType := ⟨104⟩
def trade : MessageType := ⟨105⟩

end MessageType

/-- `enum class Side : std::uint64_t`. -/
structure Side where
  value : UInt64
deriving DecidableEq, Repr

namespace Side

def buy : Side := ⟨1⟩
def sell : Side := ⟨2⟩

end Side

/-- `enum class RejectReason : std::uint64_t`. -/
structure RejectReason where
  value : UInt64
deriving DecidableEq, Repr

namespace RejectReason

def none : RejectReason := ⟨0⟩
def badSequence : RejectReason := ⟨1⟩
def duplicateClientOrderId : RejectReason := ⟨2⟩
def unknownClientOrderId : RejectReason := ⟨3⟩
def invalidPrice : RejectReason := ⟨4⟩
def invalidQuantity : RejectReason := ⟨5⟩
def unsupportedMessageType : RejectReason := ⟨6⟩

end RejectReason

inductive DecodeStatus where
  | ok
  | needMoreData
  | badMagic
  | badVersion
  | unknownMessageType
  | badPayloadLength
deriving DecidableEq, Repr

structure MessageHeader where
  magic : UInt32 := kMagic
  version : UInt16 := kVersion
  messageType : MessageType := ⟨0⟩
  payloadLength : UInt16 := 0
  flags : UInt16 := 0
  sequenceNumber : UInt64 := 0
  sessionId : UInt64 := 0
  reserved : UInt32 := 0
deriving DecidableEq, Repr

namespace MessageHeader

def offMagic : Nat := 0
def offVersion : Nat := 4
def offMessageType : Nat := 6
def offPayloadLength : Nat := 8
def offFlags : Nat := 10
def offSequenceNumber : Nat := 12
def offSessionId : Nat := 20
def offReserved : Nat := 28

end MessageHeader

structure NewOrder where
  clientOrderId : UInt64 := 0
  side : Side := Side.buy
  price : UInt64 := 0
  quantity : UInt64 := 0
deriving DecidableEq, Repr

namespace NewOrder

def offId : Nat := 0
def offSide : Nat := 8
def offPrice : Nat := 16
def offQuantity : Nat := 24

end NewOrder

structure CancelOrder where
  clientOrderId : UInt64 := 0
  reserved1 : UInt64 := 0
  reserved2 : UInt64 := 0
  reserved3 : UInt64 := 0
deriving DecidableEq, Repr

namespace CancelOrder

def offId : Nat := 0

end CancelOrder

structure ModifyOrder where
  clientOrderId : UInt64 := 0
  newPrice : UInt64 := 0
  newQuantity : UInt64 := 0
  reserved : UInt64 := 0
deriving DecidableEq, Repr

namespace ModifyOrder

def offId : Nat := 0
def offNewPrice : Nat := 8
def offNewQuantity : Nat := 16

end ModifyOrder

structure Accepted where
  clientOrderId : UInt64 := 0
  orderHandle : UInt64 := 0
  reserved1 : UInt64 := 0
  reserved2 : UInt64 := 0
deriving DecidableEq, Repr

namespace Accepted

def offClientOrderId : Nat := 0
def offOrderHandle : Nat := 8
def offReserved1 : Nat := 16
def offReserved2 : Nat := 24

end Accepted

structure Rejected where
  clientOrderId : UInt64 := 0
  reason : RejectReason := RejectReason.none
  reserved1 : UInt64 := 0
  reserved2 : UInt64 := 0
deriving DecidableEq, Repr

namespace Rejected

def offClientOrderId : Nat := 0
def offReason : Nat := 8
def offReserved1 : Nat := 16
def offReserved2 : Nat := 24

end Rejected

structure Cancelled where
  clientOrderId : UInt64 := 0
  orderHandle : UInt64 := 0
  reserved1 : UInt64 := 0
  reserved2 : UInt64 := 0
deriving DecidableEq, Repr

namespace Cancelled

def offClientOrderId : Nat := 0
def offOrderHandle : Nat := 8
def offReserved1 : Nat := 16
def offReserved2 : Nat := 24

end Cancelled

structure Modified where
  clientOrderId : UInt64 := 0
  orderHandle : UInt64 := 0
  reserved1 : UInt64 := 0
  reserved2 : UInt64 := 0
deriving DecidableEq, Repr

namespace Modified

def offClientOrderId : Nat := 0
def offOrderHandle : Nat := 8
def offReserved1 : Nat := 16
def offReserved2 : Nat := 24

end Modified

structure Trade where
  clientOrderId : UInt64 := 0
  orderHandle : UInt64 := 0
  price : UInt64 := 0
  quantity : UInt64 := 0
deriving DecidableEq, Repr

namespace Trade

def offClientOrderId : Nat := 0
def offOrderHandle : Nat := 8
def offPrice : Nat := 16
def offQuantity : Nat := 24

end Trade

end TradingGateway.OrderEntry
