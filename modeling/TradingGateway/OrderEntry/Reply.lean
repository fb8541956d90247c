/-
# `OrderEntry.Reply` — what a response says

The meaning of a response frame: its type and the payload its type transmits,
without the reserved words.  `readReply` reads it with the decoders of
`codec.hpp`, so a reply is what a client that uses them sees; each response
encoder writes a frame that reads back as the reply it was given
(`carries_encodeAccepted` and its siblings), under the stamped header.
-/
import TradingGateway.OrderEntry.Wire

namespace TradingGateway.OrderEntry

/-- The payload of a response. -/
inductive Reply where
  | accepted (clientOrderId orderHandle : UInt64)
  | rejected (clientOrderId : UInt64) (reason : RejectReason)
  | cancelled (clientOrderId orderHandle : UInt64)
  | modified (clientOrderId orderHandle : UInt64)
  | trade (clientOrderId orderHandle price quantity : UInt64)
deriving DecidableEq, Repr

namespace Reply

def type : Reply → MessageType
  | accepted _ _ => .accepted
  | rejected _ _ => .rejected
  | cancelled _ _ => .cancelled
  | modified _ _ => .modified
  | trade _ _ _ _ => .trade

def clientOrderId : Reply → UInt64
  | accepted id _ | rejected id _ | cancelled id _ | modified id _ | trade id _ _ _ => id

end Reply

/-- The reply a frame carries, by the type in its header. -/
def readReply (bs : List UInt8) : Option Reply :=
  let type := (decodeHeader bs {}).2.messageType
  if type = .accepted then
    let a := (decodeAccepted bs {}).2
    some (.accepted a.clientOrderId a.orderHandle)
  else if type = .rejected then
    let r := (decodeRejected bs {}).2
    some (.rejected r.clientOrderId r.reason)
  else if type = .cancelled then
    let c := (decodeCancelled bs {}).2
    some (.cancelled c.clientOrderId c.orderHandle)
  else if type = .modified then
    let m := (decodeModified bs {}).2
    some (.modified m.clientOrderId m.orderHandle)
  else if type = .trade then
    let t := (decodeTrade bs {}).2
    some (.trade t.clientOrderId t.orderHandle t.price t.quantity)
  else none

/-- The reply of a type with given payload words. -/
def replyOf (type : MessageType) (w0 w1 w2 w3 : UInt64) : Option Reply :=
  if type = .accepted then some (.accepted w0 w1)
  else if type = .rejected then some (.rejected w0 ⟨w1⟩)
  else if type = .cancelled then some (.cancelled w0 w1)
  else if type = .modified then some (.modified w0 w1)
  else if type = .trade then some (.trade w0 w1 w2 w3)
  else none

theorem readReply_eq {bs : List UInt8} (h : kFrameSize ≤ bs.length) :
    readReply bs = replyOf (readHeader bs).messageType (readWord bs 0) (readWord bs 1)
      (readWord bs 2) (readWord bs 3) := by
  have hhead : kHeaderSize ≤ bs.length := Nat.le_trans (by decide) h
  rw [readReply, decodeHeader_eq hhead, decodeAccepted_eq h, decodeRejected_eq h,
    decodeCancelled_eq h, decodeModified_eq h, decodeTrade_eq h]
  rfl

/-- The frame `bs` is the response `reply` to a request under `header`. -/
structure Carries (bs : List UInt8) (header : MessageHeader) (reply : Reply) : Prop where
  length : bs.length = kFrameSize
  header : readHeader bs = stamp reply.type header
  reply : readReply bs = some reply

section Encoded

variable {out : List UInt8} (h : MessageHeader)

/-- What holds of every encoder that stores all four words. -/
theorem carries_encodeMessage {type : MessageType} {w0 w1 w2 w3 : UInt64} {reply : Reply}
    (hout : out.length = kFrameSize) (htype : reply.type = type)
    (hreply : replyOf type w0 w1 w2 w3 = some reply) :
    Carries (encodeMessage type [(0, w0), (8, w1), (16, w2), (24, w3)] h out).2 h reply := by
  obtain ⟨hlen, hhead, h0, h1, h2, h3⟩ := encodeMessage_full type w0 w1 w2 w3 h hout
  refine ⟨hlen, hhead.trans (by rw [htype]), ?_⟩
  rw [readReply_eq (Nat.le_of_eq hlen.symm), hhead, h0, h1, h2, h3]
  exact hreply

theorem encodeAccepted_snd (a : Accepted) (hout : out.length = kFrameSize) :
    (encodeAccepted h a out).2 =
      messageBytes .accepted [a.clientOrderId, a.orderHandle, a.reserved1, a.reserved2] h :=
  encodeMessage_four .accepted _ _ _ _ h hout

theorem encodeRejected_snd (r : Rejected) (hout : out.length = kFrameSize) :
    (encodeRejected h r out).2 =
      messageBytes .rejected [r.clientOrderId, r.reason.value, r.reserved1, r.reserved2] h :=
  encodeMessage_four .rejected _ _ _ _ h hout

theorem carries_encodeAccepted (a : Accepted) (hout : out.length = kFrameSize) :
    Carries (encodeAccepted h a out).2 h (.accepted a.clientOrderId a.orderHandle) :=
  carries_encodeMessage h hout rfl rfl

theorem carries_encodeRejected (r : Rejected) (hout : out.length = kFrameSize) :
    Carries (encodeRejected h r out).2 h (.rejected r.clientOrderId r.reason) :=
  carries_encodeMessage h hout rfl rfl

theorem carries_encodeCancelled (c : Cancelled) (hout : out.length = kFrameSize) :
    Carries (encodeCancelled h c out).2 h (.cancelled c.clientOrderId c.orderHandle) :=
  carries_encodeMessage h hout rfl rfl

theorem carries_encodeModified (m : Modified) (hout : out.length = kFrameSize) :
    Carries (encodeModified h m out).2 h (.modified m.clientOrderId m.orderHandle) :=
  carries_encodeMessage h hout rfl rfl

theorem carries_encodeTrade (t : Trade) (hout : out.length = kFrameSize) :
    Carries (encodeTrade h t out).2 h
      (.trade t.clientOrderId t.orderHandle t.price t.quantity) :=
  carries_encodeMessage h hout rfl rfl

end Encoded

end TradingGateway.OrderEntry
