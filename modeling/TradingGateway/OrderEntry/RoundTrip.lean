/-
# `OrderEntry.RoundTrip` — the codec on whole frames

There are eight kinds of payload, each with an encoder and a decoder of its own.
`Body` is a payload of any kind, and everything here is said of all eight at once.

| | |
| :-- | :-- |
| `codec_round_trip` | decoding what was encoded gives it back, and encoding what was decoded |
| `encoders_keep_nothing_iff` | which encoders leave something of the buffer in the frame |

Both rest on the frame being tiled: what an encoder writes is `messageBytes` of the
words it transmits (`Body.encode_snd`), and a frame is `messageBytes` of the words that
are read from it (`messageBytes_read`), up to the bytes that no encoder writes and no
decoder reads.
-/
import TradingGateway.OrderEntry.Wire

namespace TradingGateway.OrderEntry

open Lib.Bytes

/-! ## Bodies -/

/-- How many bytes at the end of the payload are reserved and not transmitted. -/
def reservedBytes (type : MessageType) : Nat :=
  if type = .cancelOrder then 24 else if type = .modifyOrder then 8 else 0

/-- A payload of one of the eight kinds. -/
inductive Body where
  | newOrder (order : NewOrder)
  | cancelOrder (order : CancelOrder)
  | modifyOrder (order : ModifyOrder)
  | accepted (response : Accepted)
  | rejected (response : Rejected)
  | cancelled (response : Cancelled)
  | modified (response : Modified)
  | trade (response : Trade)
deriving DecidableEq, Repr

namespace Body

/-- The message type of the kind. -/
def type : Body → MessageType
  | newOrder _ => .newOrder
  | cancelOrder _ => .cancelOrder
  | modifyOrder _ => .modifyOrder
  | accepted _ => .accepted
  | rejected _ => .rejected
  | cancelled _ => .cancelled
  | modified _ => .modified
  | trade _ => .trade

/-- The encoder of the kind. -/
def encode (header : MessageHeader) (out : List UInt8) : Body → Nat × List UInt8
  | newOrder order => encodeNewOrder header order out
  | cancelOrder order => encodeCancelOrder header order out
  | modifyOrder order => encodeModifyOrder header order out
  | accepted response => encodeAccepted header response out
  | rejected response => encodeRejected header response out
  | cancelled response => encodeCancelled header response out
  | modified response => encodeModified header response out
  | trade response => encodeTrade header response out

/-- The decoder of the kind, into the struct it is handed. -/
def decode (inp : List UInt8) : Body → DecodeStatus × Body
  | newOrder out => ((decodeNewOrder inp out).1, newOrder (decodeNewOrder inp out).2)
  | cancelOrder out => ((decodeCancelOrder inp out).1, cancelOrder (decodeCancelOrder inp out).2)
  | modifyOrder out => ((decodeModifyOrder inp out).1, modifyOrder (decodeModifyOrder inp out).2)
  | accepted out => ((decodeAccepted inp out).1, accepted (decodeAccepted inp out).2)
  | rejected out => ((decodeRejected inp out).1, rejected (decodeRejected inp out).2)
  | cancelled out => ((decodeCancelled inp out).1, cancelled (decodeCancelled inp out).2)
  | modified out => ((decodeModified inp out).1, modified (decodeModified inp out).2)
  | trade out => ((decodeTrade inp out).1, trade (decodeTrade inp out).2)

/-- The fields that are transmitted, in their order in the payload. -/
def transmitted : Body → List UInt64
  | newOrder o => [o.clientOrderId, o.side.value, o.price, o.quantity]
  | cancelOrder o => [o.clientOrderId]
  | modifyOrder o => [o.clientOrderId, o.newPrice, o.newQuantity]
  | accepted r => [r.clientOrderId, r.orderHandle, r.reserved1, r.reserved2]
  | rejected r => [r.clientOrderId, r.reason.value, r.reserved1, r.reserved2]
  | cancelled r => [r.clientOrderId, r.orderHandle, r.reserved1, r.reserved2]
  | modified r => [r.clientOrderId, r.orderHandle, r.reserved1, r.reserved2]
  | trade r => [r.clientOrderId, r.orderHandle, r.price, r.quantity]

/-- The reserved bytes of the kind. -/
def reserved (b : Body) : Nat := reservedBytes b.type

theorem length_transmitted (b : Body) :
    kHeaderSize + 8 * b.transmitted.length + b.reserved = kFrameSize := by
  cases b <;> rfl

theorem transmitted_le (b : Body) : kHeaderSize + 8 * b.transmitted.length ≤ kFrameSize := by
  rw [← b.length_transmitted]
  exact Nat.le_add_right _ _

theorem transmitted_eq (b : Body) :
    kHeaderSize + 8 * b.transmitted.length = kFrameSize - b.reserved := by
  rw [← b.length_transmitted, Nat.add_sub_cancel]

theorem reserved_le (b : Body) : b.reserved ≤ kFrameSize := by
  rw [← b.length_transmitted]
  exact Nat.le_add_left _ _

theorem length_transmitted_of_type {b c : Body} (h : b.type = c.type) :
    b.transmitted.length = c.transmitted.length := by
  have hb := b.length_transmitted
  have hc := c.length_transmitted
  have hreserved : b.reserved = c.reserved := congrArg reservedBytes h
  omega

/-- **An encoder writes the header and what is transmitted**, and behind it stays what
the buffer held. -/
theorem encode_snd (b : Body) (header : MessageHeader) {out : List UInt8}
    (hout : kFrameSize ≤ out.length) :
    (b.encode header out).2
      = messageBytes b.type b.transmitted header ++ out.drop (kFrameSize - b.reserved) := by
  rw [← b.transmitted_eq,
    ← encodeMessage_snd b.type b.transmitted header (Nat.le_trans b.transmitted_le hout)]
  cases b <;> rfl

theorem readHeader_encode (b : Body) (header : MessageHeader) {out : List UInt8}
    (hout : kFrameSize ≤ out.length) :
    readHeader (b.encode header out).2 = stamp b.type header := by
  rw [b.encode_snd header hout]
  exact readHeader_messageBytes _ _ _ _

end Body

/-! ## What is read from a frame -/

/-- The first `n` payload words. -/
def readWords (bs : List UInt8) (n : Nat) : List UInt64 := (List.range n).map (readWord bs)

@[simp] theorem length_readWords (bs : List UInt8) (n : Nat) : (readWords bs n).length = n := by
  simp [readWords]

/-- **A decoder reads the words of its kind.** -/
theorem Body.decode_spec (prior : Body) {inp : List UInt8} (h : kFrameSize ≤ inp.length) :
    (prior.decode inp).1 = .ok ∧ (prior.decode inp).2.type = prior.type ∧
      (prior.decode inp).2.transmitted = readWords inp prior.transmitted.length := by
  cases prior with
  | newOrder out =>
      rw [Body.decode, decodeNewOrder_eq h]
      exact ⟨rfl, rfl, rfl⟩
  | cancelOrder out =>
      rw [Body.decode, decodeCancelOrder_eq h]
      exact ⟨rfl, rfl, rfl⟩
  | modifyOrder out =>
      rw [Body.decode, decodeModifyOrder_eq h]
      exact ⟨rfl, rfl, rfl⟩
  | accepted out =>
      rw [Body.decode, decodeAccepted_eq h]
      exact ⟨rfl, rfl, rfl⟩
  | rejected out =>
      rw [Body.decode, decodeRejected_eq h]
      exact ⟨rfl, rfl, rfl⟩
  | cancelled out =>
      rw [Body.decode, decodeCancelled_eq h]
      exact ⟨rfl, rfl, rfl⟩
  | modified out =>
      rw [Body.decode, decodeModified_eq h]
      exact ⟨rfl, rfl, rfl⟩
  | trade out =>
      rw [Body.decode, decodeTrade_eq h]
      exact ⟨rfl, rfl, rfl⟩

theorem readWords_messageBytes (type : MessageType) (ws : List UInt64) (header : MessageHeader)
    (post : List UInt8) : readWords (messageBytes type ws header ++ post) ws.length = ws := by
  refine List.ext_getElem (length_readWords _ _) fun i hi hi' => ?_
  have hsplit : ws = ws.take i ++ ws[i] :: ws.drop (i + 1) := by
    rw [← List.drop_eq_getElem_cons hi', List.take_append_drop]
  have hread := readWord_messageBytes type header (ws.take i) (ws.drop (i + 1)) ws[i] post
  rw [← hsplit, List.length_take_of_le (Nat.le_of_lt hi')] at hread
  rw [← hread]
  simp [readWords]

section Tiles

variable {bs : List UInt8}

theorem toLE_u16At {off : Nat} (h : off + 2 ≤ bs.length) :
    toLE 2 (u16At bs off).toNat = slice bs off 2 := by
  rw [u16At, UInt16.toNat_ofNat_of_lt' (ofLE_slice_lt h), toLE_ofLE_slice h]

theorem toLE_u32At {off : Nat} (h : off + 4 ≤ bs.length) :
    toLE 4 (u32At bs off).toNat = slice bs off 4 := by
  rw [u32At, UInt32.toNat_ofNat_of_lt' (ofLE_slice_lt h), toLE_ofLE_slice h]

theorem toLE_u64At {off : Nat} (h : off + 8 ≤ bs.length) :
    toLE 8 (u64At bs off).toNat = slice bs off 8 := by
  rw [u64At, UInt64.toNat_ofNat_of_lt' (ofLE_slice_lt h), toLE_ofLE_slice h]

theorem headerBytes_readHeader (h : kHeaderSize ≤ bs.length) :
    headerBytes (readHeader bs) = bs.take kHeaderSize := by
  have h : 32 ≤ bs.length := h
  have hfirst : slice bs 0 4 = bs.take 4 := rfl
  simp only [headerBytes, readHeader]
  rw [toLE_u32At (by omega), toLE_u16At (by omega), toLE_u16At (by omega), toLE_u16At (by omega),
    toLE_u16At (by omega), toLE_u64At (by omega), toLE_u64At (by omega), toLE_u32At (by omega),
    hfirst, take_append_slice, take_append_slice, take_append_slice, take_append_slice,
    take_append_slice, take_append_slice, take_append_slice]
  rfl

theorem wordBytes_readWords {n : Nat} (h : kHeaderSize + 8 * n ≤ bs.length) :
    wordBytes (readWords bs n) = slice bs kHeaderSize (8 * n) := by
  induction n with
  | zero => rfl
  | succ n ih =>
      have h : 32 + 8 * (n + 1) ≤ bs.length := h
      have hlast : wordBytes [readWord bs n] = slice bs (kHeaderSize + 8 * n) 8 :=
        (List.append_nil _).trans (toLE_u64At (by omega))
      have hwords : readWords bs (n + 1) = readWords bs n ++ [readWord bs n] := by
        rw [readWords, List.range_succ, List.map_append]
        rfl
      rw [hwords, wordBytes_append, ih (by show 32 + 8 * n ≤ _; omega), hlast, slice, slice, slice,
        Nat.mul_succ, List.take_add, List.drop_drop]

/-- **A frame is the message read from it**, as far as its words go. -/
theorem messageBytes_read {type : MessageType} {n : Nat} (h : kHeaderSize + 8 * n ≤ bs.length)
    (htype : (readHeader bs).messageType = type) (hlen : (readHeader bs).payloadLength = 32) :
    messageBytes type (readWords bs n) (readHeader bs) = bs.take (kHeaderSize + 8 * n) := by
  have hstamp : stamp type (readHeader bs) = readHeader bs := by
    rw [stamp, ← htype]
    show { readHeader bs with payloadLength := 32 } = readHeader bs
    rw [← hlen]
  rw [messageBytes, hstamp, headerBytes_readHeader (Nat.le_trans (Nat.le_add_right _ _) h),
    wordBytes_readWords h, take_append_slice]

end Tiles

/-! ## The round trip -/

theorem Body.decode_encode (header : MessageHeader) {body prior : Body}
    (kind : prior.type = body.type) {out : List UInt8} (hout : kFrameSize ≤ out.length)
    (h₀ : MessageHeader) :
    let frame := (body.encode header out).2
    (decodeHeader frame h₀).2 = { header with messageType := body.type, payloadLength := 32 } ∧
      ((decodeHeader frame h₀).1 = .ok ↔ header.magic = kMagic ∧ header.version = kVersion) ∧
      (prior.decode frame).1 = .ok ∧ (prior.decode frame).2.type = body.type ∧
      (prior.decode frame).2.transmitted = body.transmitted := by
  intro frame
  have hframe : frame = messageBytes body.type body.transmitted header
      ++ out.drop (kFrameSize - body.reserved) := body.encode_snd header hout
  have hlen : kFrameSize ≤ frame.length := by
    rw [hframe, List.length_append, length_messageBytes, List.length_drop, body.transmitted_eq]
    omega
  have hread : readHeader frame = stamp body.type header := body.readHeader_encode header hout
  obtain ⟨hok, htype, hwords⟩ := prior.decode_spec hlen
  have hhead : kHeaderSize ≤ frame.length := Nat.le_trans (by decide) hlen
  refine ⟨?_, ?_, hok, htype.trans kind, ?_⟩
  · rw [decodeHeader_eq hhead, hread]
    rfl
  · rw [decodeHeader_ok_iff hhead, hread]
    rfl
  · rw [hwords, length_transmitted_of_type kind, hframe]
    exact readWords_messageBytes _ _ _ _

/-- A valid frame is the message of what its decoder reads, but for the reserved bytes. -/
theorem Body.messageBytes_decode {frame : List UInt8} (length : frame.length = kFrameSize)
    {h₀ h : MessageHeader} (valid : decodeHeader frame h₀ = (.ok, h))
    (payloadLength : h.payloadLength = 32) {prior : Body} (kind : prior.type = h.messageType) :
    messageBytes h.messageType (prior.decode frame).2.transmitted h
      = frame.take (kFrameSize - reservedBytes h.messageType) := by
  have hlen := Nat.le_of_eq length.symm
  obtain ⟨-, -, hwords⟩ := prior.decode_spec hlen
  rw [decodeHeader_eq (Nat.le_trans (by decide) hlen)] at valid
  obtain rfl : readHeader frame = h := congrArg Prod.snd valid
  have htake := prior.transmitted_eq
  rw [Body.reserved, kind] at htake
  rw [hwords, ← htake]
  refine messageBytes_read ?_ rfl payloadLength
  rw [length]
  exact prior.transmitted_le

/-- **The codec is a round trip in both directions.**  What was encoded into any buffer
decodes to the header, with the encoder's own type and length, and to the fields that
were transmitted; a valid frame that was decoded is encoded again byte for byte, except
for the reserved bytes of its type; so two valid frames that decode alike differ at most
in those. -/
theorem codec_round_trip :
    (∀ (header h₀ : MessageHeader) (body prior : Body) (out : List UInt8),
      kFrameSize ≤ out.length → prior.type = body.type →
        let frame := (body.encode header out).2
        (decodeHeader frame h₀).2
            = { header with messageType := body.type, payloadLength := 32 } ∧
          ((decodeHeader frame h₀).1 = .ok ↔ header.magic = kMagic ∧ header.version = kVersion) ∧
          (prior.decode frame).1 = .ok ∧ (prior.decode frame).2.type = body.type ∧
          (prior.decode frame).2.transmitted = body.transmitted) ∧
    (∀ (frame : List UInt8) (h₀ h : MessageHeader) (prior : Body) (out : List UInt8),
      frame.length = kFrameSize → decodeHeader frame h₀ = (.ok, h) → h.payloadLength = 32 →
        prior.type = h.messageType → kFrameSize ≤ out.length →
          ((prior.decode frame).2.encode h out).2.take (kFrameSize - reservedBytes h.messageType)
            = frame.take (kFrameSize - reservedBytes h.messageType)) ∧
    (∀ (frame frame' : List UInt8) (h₀ h : MessageHeader) (prior : Body),
      frame.length = kFrameSize → frame'.length = kFrameSize →
        decodeHeader frame h₀ = (.ok, h) → decodeHeader frame' h₀ = (.ok, h) →
          h.payloadLength = 32 → prior.type = h.messageType →
            (prior.decode frame).2.transmitted = (prior.decode frame').2.transmitted →
              frame.take (kFrameSize - reservedBytes h.messageType)
                = frame'.take (kFrameSize - reservedBytes h.messageType)) := by
  refine ⟨?_, ?_, ?_⟩
  · intro header h₀ body prior out hout kind
    exact Body.decode_encode header kind hout h₀
  · intro frame h₀ h prior out length valid payloadLength kind hout
    have hbytes := Body.messageBytes_decode length valid payloadLength kind
    obtain ⟨-, htype, -⟩ := prior.decode_spec (Nat.le_of_eq length.symm)
    have hlen : (frame.take (kFrameSize - reservedBytes h.messageType)).length
        = kFrameSize - reservedBytes h.messageType :=
      List.length_take_of_le (length ▸ Nat.sub_le _ _)
    rw [Body.encode_snd _ h hout, htype, kind, hbytes]
    exact List.take_left' hlen
  · intro frame frame' h₀ h prior length length' valid valid' payloadLength kind same
    rw [← Body.messageBytes_decode length valid payloadLength kind,
      ← Body.messageBytes_decode length' valid' payloadLength kind, same]

/-! ## Responses -/

namespace Body

/-- The matching response decoder returns the body, whatever struct it is handed. -/
def DecodesFrom (frame : List UInt8) : Body → Prop
  | accepted r => ∀ out, decodeAccepted frame out = (.ok, r)
  | rejected r => ∀ out, decodeRejected frame out = (.ok, r)
  | cancelled r => ∀ out, decodeCancelled frame out = (.ok, r)
  | modified r => ∀ out, decodeModified frame out = (.ok, r)
  | trade r => ∀ out, decodeTrade frame out = (.ok, r)
  | newOrder _ | cancelOrder _ | modifyOrder _ => False

/-- The reserved fields of a response are zero. -/
def ReservedZero : Body → Prop
  | accepted r => r.reserved1 = 0 ∧ r.reserved2 = 0
  | rejected r => r.reserved1 = 0 ∧ r.reserved2 = 0
  | cancelled r => r.reserved1 = 0 ∧ r.reserved2 = 0
  | modified r => r.reserved1 = 0 ∧ r.reserved2 = 0
  | trade _ => True
  | newOrder _ | cancelOrder _ | modifyOrder _ => False

/-- The five kinds that the engine's side sends. -/
def IsReply : Body → Prop
  | newOrder _ | cancelOrder _ | modifyOrder _ => False
  | _ => True

end Body

/-- The frame is a valid response that says `body`. -/
structure IsResponse (frame : List UInt8) (body : Body) : Prop where
  length : frame.length = kFrameSize
  header : ∀ h₀, (decodeHeader frame h₀).1 = .ok ∧
    validateResponseHeader (decodeHeader frame h₀).2 = .ok ∧
    (decodeHeader frame h₀).2.messageType = body.type
  payload : body.DecodesFrom frame

/-- Every kind of response is known, under the payload length the encoders force. -/
theorem validateResponseHeader_stamp {body : Body} (reply : body.IsReply) (header : MessageHeader) :
    validateResponseHeader (stamp body.type header) = .ok := by
  cases body <;> first | rfl | exact absurd reply id

/-- **An encoded response is valid** when its header has the protocol's magic and version,
and it says what was encoded. -/
theorem isResponse_encode (header : MessageHeader) (body : Body) (reply : body.IsReply)
    (magic : header.magic = kMagic) (version : header.version = kVersion) {out : List UInt8}
    (hout : out.length = kFrameSize) :
    IsResponse (body.encode header out).2 body := by
  have hlong := Nat.le_of_eq hout.symm
  have hreserved : body.reserved = 0 := by
    cases body <;> first | rfl | exact absurd reply id
  have hlen : (body.encode header out).2.length = kFrameSize := by
    rw [body.encode_snd header hlong, List.length_append, length_messageBytes, List.length_drop,
      body.transmitted_eq, hreserved, hout]
    rfl
  have hread := body.readHeader_encode header hlong
  have hhead : kHeaderSize ≤ (body.encode header out).2.length := hlen ▸ by decide
  refine ⟨hlen, fun h₀ => ⟨?_, ?_, ?_⟩, ?_⟩
  · rw [decodeHeader_ok_iff hhead, hread]
    exact ⟨magic, version⟩
  · rw [decodeHeader_eq hhead, hread]
    exact validateResponseHeader_stamp reply header
  · rw [decodeHeader_eq hhead, hread]
    rfl
  · have hframe := Nat.le_of_eq hlen.symm
    cases body with
    | newOrder | cancelOrder | modifyOrder => exact absurd reply id
    | accepted r =>
        obtain ⟨-, -, h0, h1, h2, h3⟩ := encodeMessage_full .accepted r.clientOrderId r.orderHandle
          r.reserved1 r.reserved2 header hout
        exact fun out => (decodeAccepted_eq hframe out).trans
          (congrArg (Prod.mk _) (congr (congr (congr (congrArg Accepted.mk h0) h1) h2) h3))
    | rejected r =>
        obtain ⟨-, -, h0, h1, h2, h3⟩ := encodeMessage_full .rejected r.clientOrderId r.reason.value
          r.reserved1 r.reserved2 header hout
        exact fun out => (decodeRejected_eq hframe out).trans (congrArg (Prod.mk _)
          (congr (congr (congr (congrArg Rejected.mk h0) (congrArg RejectReason.mk h1)) h2) h3))
    | cancelled r =>
        obtain ⟨-, -, h0, h1, h2, h3⟩ := encodeMessage_full .cancelled r.clientOrderId r.orderHandle
          r.reserved1 r.reserved2 header hout
        exact fun out => (decodeCancelled_eq hframe out).trans
          (congrArg (Prod.mk _) (congr (congr (congr (congrArg Cancelled.mk h0) h1) h2) h3))
    | modified r =>
        obtain ⟨-, -, h0, h1, h2, h3⟩ := encodeMessage_full .modified r.clientOrderId r.orderHandle
          r.reserved1 r.reserved2 header hout
        exact fun out => (decodeModified_eq hframe out).trans
          (congrArg (Prod.mk _) (congr (congr (congr (congrArg Modified.mk h0) h1) h2) h3))
    | trade r =>
        obtain ⟨-, -, h0, h1, h2, h3⟩ := encodeMessage_full .trade r.clientOrderId r.orderHandle
          r.price r.quantity header hout
        exact fun out => (decodeTrade_eq hframe out).trans
          (congrArg (Prod.mk _) (congr (congr (congr (congrArg Trade.mk h0) h1) h2) h3))

/-! ## What the buffer held before

An encoder that does not write a byte of the frame sends what was there.  The request
encoders of CancelOrder and ModifyOrder leave the reserved bytes of the payload alone. -/

/-- Nothing of what two buffers held is left in the frames that are encoded into them. -/
structure KeepsNothing (header : MessageHeader) (body : Body) (out₁ out₂ : List UInt8) : Prop where
  same : (body.encode header out₁).2.take kFrameSize = (body.encode header out₂).2.take kFrameSize
  reserved : ∀ out ∈ [out₁, out₂],
    slice (body.encode header out).2 (kFrameSize - body.reserved) body.reserved
      = List.replicate body.reserved 0
  behind : ∀ out ∈ [out₁, out₂],
    (body.encode header out).2.drop kFrameSize = out.drop kFrameSize

section Encoded

variable (body : Body) (header : MessageHeader) {out : List UInt8} (hout : kFrameSize ≤ out.length)

theorem length_encoded :
    (messageBytes body.type body.transmitted header).length = kFrameSize - body.reserved := by
  rw [length_messageBytes, body.transmitted_eq]

include hout

/-- The frame: what is transmitted, and the reserved bytes as they were. -/
theorem take_encode :
    (body.encode header out).2.take kFrameSize
      = messageBytes body.type body.transmitted header
        ++ slice out (kFrameSize - body.reserved) body.reserved := by
  rw [body.encode_snd header hout, List.take_append, length_encoded, slice,
    Nat.sub_sub_self body.reserved_le, List.take_of_length_le]
  rw [length_encoded]
  exact Nat.sub_le _ _

theorem reserved_encode :
    slice (body.encode header out).2 (kFrameSize - body.reserved) body.reserved
      = slice out (kFrameSize - body.reserved) body.reserved := by
  have hlen := length_encoded body header
  rw [body.encode_snd header hout, slice_append_right (Nat.le_of_eq hlen), hlen, Nat.sub_self]
  rfl

theorem drop_encode : (body.encode header out).2.drop kFrameSize = out.drop kFrameSize := by
  have hlen := length_encoded body header
  have hle : (messageBytes body.type body.transmitted header).length ≤ kFrameSize := by
    rw [hlen]
    exact Nat.sub_le _ _
  rw [body.encode_snd header hout, List.drop_append, List.drop_eq_nil_of_le hle, List.nil_append,
    hlen, List.drop_drop, Nat.sub_sub_self body.reserved_le, Nat.sub_add_cancel body.reserved_le]

end Encoded

/-- **An encoder leaves nothing of the buffer in the frame** exactly when the reserved
bytes of its kind are zero in the buffer already; six of the eight kinds have none. -/
theorem encoders_keep_nothing_iff (header : MessageHeader) (body : Body) (out₁ out₂ : List UInt8)
    (h₁ : kFrameSize ≤ out₁.length) (h₂ : kFrameSize ≤ out₂.length) :
    KeepsNothing header body out₁ out₂ ↔
      ∀ out ∈ [out₁, out₂], slice out (kFrameSize - body.reserved) body.reserved
        = List.replicate body.reserved 0 := by
  have hlong : ∀ out ∈ [out₁, out₂], kFrameSize ≤ out.length := by
    intro out hmem
    rcases List.mem_cons.mp hmem with rfl | hmem
    · exact h₁
    · rw [List.mem_singleton.mp hmem]
      exact h₂
  constructor
  · intro h out hmem
    rw [← reserved_encode body header (hlong out hmem)]
    exact h.reserved out hmem
  · intro h
    refine ⟨?_, ?_, ?_⟩
    · rw [take_encode body header h₁, take_encode body header h₂, h out₁ List.mem_cons_self,
        h out₂ (List.mem_cons_of_mem _ List.mem_cons_self)]
    · intro out hmem
      rw [reserved_encode body header (hlong out hmem)]
      exact h out hmem
    · intro out hmem
      exact drop_encode body header (hlong out hmem)

/-- A buffer full of ones. -/
def dirtyBuffer : List UInt8 := List.replicate kFrameSize 255

/-- A cancel encoded into it still has the ones at its end. -/
theorem cancel_keeps_ones :
    ¬ ∀ (header : MessageHeader) (body : Body) (out₁ out₂ : List UInt8),
      kFrameSize ≤ out₁.length → kFrameSize ≤ out₂.length →
        KeepsNothing header body out₁ out₂ := by
  intro h
  have hkeeps := h {} (.cancelOrder { clientOrderId := 7 }) dirtyBuffer dirtyBuffer (by decide)
    (by decide)
  exact absurd (hkeeps.reserved dirtyBuffer List.mem_cons_self) (by decide)

/-- Seven words of ones and a reserved word of zeros. -/
def zeroTail : List UInt8 := List.replicate 56 255 ++ List.replicate 8 0

/-- A change of an order leaves nothing of such a buffer in the frame, nor of a longer one. -/
theorem encoders_keep_nothing_iff_modify :
    KeepsNothing { sequenceNumber := 3 }
      (.modifyOrder { clientOrderId := 7, newPrice := 101, newQuantity := 4 })
      zeroTail (zeroTail ++ dirtyBuffer) := by
  have hzero : ∀ out ∈ [zeroTail, zeroTail ++ dirtyBuffer],
      slice out 56 8 = List.replicate 8 0 := by decide +kernel
  exact (encoders_keep_nothing_iff { sequenceNumber := 3 } _ zeroTail (zeroTail ++ dirtyBuffer)
    (by decide) (by decide +kernel)).mpr hzero

end TradingGateway.OrderEntry
