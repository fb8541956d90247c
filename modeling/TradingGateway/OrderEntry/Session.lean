/-
# `OrderEntry.Session` — one client's orders

`session.hpp`: the next sequence number, the next order handle and the map from
live client order ids to handles.  `handle_message` answers a decoded message
with one response frame, in a buffer it is handed, and says whether the session
goes on.

`respond` is the same decision without the bytes: from a request to a reply.
`handleMessage_respond` is the step between the two, and everything said about
sessions elsewhere is said of `respond`.
-/
import TradingGateway.Lib.UnorderedMap
import TradingGateway.OrderEntry.FrameParser
import TradingGateway.OrderEntry.Reply

namespace TradingGateway.OrderEntry

open Lib

structure OrderEntrySession where
  sessionId : UInt64 := 0
  expectedSequenceNumber : UInt64 := 1
  nextOrderHandle : UInt64 := 1
  orders : UnorderedMap UInt64 UInt64 := .empty

namespace OrderEntrySession

def activeOrderCount (s : OrderEntrySession) : UInt64 := UInt64.ofNat s.orders.size

/-- The header every response starts from. -/
def responseHeader (s : OrderEntrySession) (requestHeader : MessageHeader) : MessageHeader :=
  { requestHeader with
    sessionId := if s.sessionId = 0 then requestHeader.sessionId else s.sessionId }

def encodeReject (s : OrderEntrySession) (requestHeader : MessageHeader) (clientOrderId : UInt64)
    (reason : RejectReason) (responseOut : List UInt8) : List UInt8 :=
  let response : Rejected := { clientOrderId := clientOrderId, reason := reason }
  (encodeRejected (s.responseHeader requestHeader) response responseOut).2

def encodeAccept (s : OrderEntrySession) (requestHeader : MessageHeader)
    (clientOrderId orderHandle : UInt64) (responseOut : List UInt8) : List UInt8 :=
  let response : Accepted := { clientOrderId := clientOrderId, orderHandle := orderHandle }
  (encodeAccepted (s.responseHeader requestHeader) response responseOut).2

def encodeCancel (s : OrderEntrySession) (requestHeader : MessageHeader)
    (clientOrderId orderHandle : UInt64) (responseOut : List UInt8) : List UInt8 :=
  let response : Cancelled := { clientOrderId := clientOrderId, orderHandle := orderHandle }
  (encodeCancelled (s.responseHeader requestHeader) response responseOut).2

def encodeModify (s : OrderEntrySession) (requestHeader : MessageHeader)
    (clientOrderId orderHandle : UInt64) (responseOut : List UInt8) : List UInt8 :=
  let response : Modified := { clientOrderId := clientOrderId, orderHandle := orderHandle }
  (encodeModified (s.responseHeader requestHeader) response responseOut).2

/-- The sequence number is consumed as soon as it is right. -/
def checkSequenceOrReject (s : OrderEntrySession) (msg : DecodedMessage) (clientOrderId : UInt64)
    (responseOut : List UInt8) : Bool × OrderEntrySession × List UInt8 :=
  if msg.header.sequenceNumber ≠ s.expectedSequenceNumber then
    (false, s, s.encodeReject msg.header clientOrderId .badSequence responseOut)
  else
    (true, { s with expectedSequenceNumber := s.expectedSequenceNumber + 1 }, responseOut)

def handleMessage (s : OrderEntrySession) (msg : DecodedMessage) (responseOut : List UInt8) :
    Bool × OrderEntrySession × List UInt8 :=
  if msg.type = .newOrder then
    let clientOrderId := msg.newOrder.clientOrderId
    match s.checkSequenceOrReject msg clientOrderId responseOut with
    | (false, s, responseOut) => (true, s, responseOut)
    | (true, s, responseOut) =>
        if msg.newOrder.price = 0 then
          (true, s, s.encodeReject msg.header clientOrderId .invalidPrice responseOut)
        else if msg.newOrder.quantity = 0 then
          (true, s, s.encodeReject msg.header clientOrderId .invalidQuantity responseOut)
        else
          match s.orders.find clientOrderId with
          | some _ =>
              (true, s,
                s.encodeReject msg.header clientOrderId .duplicateClientOrderId responseOut)
          | none =>
              let orderHandle := s.nextOrderHandle
              let s := { s with
                nextOrderHandle := s.nextOrderHandle + 1
                orders := s.orders.emplace clientOrderId orderHandle }
              (true, s, s.encodeAccept msg.header clientOrderId orderHandle responseOut)
  else if msg.type = .cancelOrder then
    let clientOrderId := msg.cancelOrder.clientOrderId
    match s.checkSequenceOrReject msg clientOrderId responseOut with
    | (false, s, responseOut) => (true, s, responseOut)
    | (true, s, responseOut) =>
        match s.orders.find clientOrderId with
        | none =>
            (true, s, s.encodeReject msg.header clientOrderId .unknownClientOrderId responseOut)
        | some orderHandle =>
            let s := { s with orders := s.orders.erase clientOrderId }
            (true, s, s.encodeCancel msg.header clientOrderId orderHandle responseOut)
  else if msg.type = .modifyOrder then
    let clientOrderId := msg.modifyOrder.clientOrderId
    match s.checkSequenceOrReject msg clientOrderId responseOut with
    | (false, s, responseOut) => (true, s, responseOut)
    | (true, s, responseOut) =>
        match s.orders.find clientOrderId with
        | none =>
            (true, s, s.encodeReject msg.header clientOrderId .unknownClientOrderId responseOut)
        | some orderHandle =>
            if msg.modifyOrder.newPrice = 0 then
              (true, s, s.encodeReject msg.header clientOrderId .invalidPrice responseOut)
            else if msg.modifyOrder.newQuantity = 0 then
              (true, s, s.encodeReject msg.header clientOrderId .invalidQuantity responseOut)
            else (true, s, s.encodeModify msg.header clientOrderId orderHandle responseOut)
  else if msg.type = .heartbeat then
    match s.checkSequenceOrReject msg 0 responseOut with
    | (false, s, responseOut) => (true, s, responseOut)
    | (true, s, responseOut) => (true, s, s.encodeAccept msg.header 0 0 responseOut)
  else if msg.type = .logout then
    match s.checkSequenceOrReject msg 0 responseOut with
    | (false, s, responseOut) => (true, s, responseOut)
    | (true, s, responseOut) => (false, s, s.encodeAccept msg.header 0 0 responseOut)
  else (true, s, s.encodeReject msg.header 0 .unsupportedMessageType responseOut)

end OrderEntrySession

/-! ## The decision without the bytes -/

/-- The id a response to the request names. -/
def Payload.clientOrderId : Payload → UInt64
  | newOrder order => order.clientOrderId
  | cancelOrder id => id
  | modifyOrder id _ _ => id
  | heartbeat | logout => 0

namespace OrderEntrySession

/-- The answer to an in-sequence payload, and the orders after it. -/
def decideOrder (s : OrderEntrySession) : Payload → OrderEntrySession × Reply
  | .newOrder order =>
      if order.price = 0 then (s, .rejected order.clientOrderId .invalidPrice)
      else if order.quantity = 0 then (s, .rejected order.clientOrderId .invalidQuantity)
      else
        match s.orders.find order.clientOrderId with
        | some _ => (s, .rejected order.clientOrderId .duplicateClientOrderId)
        | none =>
            ({ s with
                nextOrderHandle := s.nextOrderHandle + 1
                orders := s.orders.emplace order.clientOrderId s.nextOrderHandle },
              .accepted order.clientOrderId s.nextOrderHandle)
  | .cancelOrder id =>
      match s.orders.find id with
      | none => (s, .rejected id .unknownClientOrderId)
      | some handle => ({ s with orders := s.orders.erase id }, .cancelled id handle)
  | .modifyOrder id newPrice newQuantity =>
      match s.orders.find id with
      | none => (s, .rejected id .unknownClientOrderId)
      | some handle =>
          if newPrice = 0 then (s, .rejected id .invalidPrice)
          else if newQuantity = 0 then (s, .rejected id .invalidQuantity)
          else (s, .modified id handle)
  | .heartbeat | .logout => (s, .accepted 0 0)

/-- The sequence number consumed. -/
def advance (s : OrderEntrySession) : OrderEntrySession :=
  { s with expectedSequenceNumber := s.expectedSequenceNumber + 1 }

/-- The sequence check in front of the decision. -/
def respond (s : OrderEntrySession) (r : Request) : Bool × OrderEntrySession × Reply :=
  if r.header.sequenceNumber ≠ s.expectedSequenceNumber then
    (true, s, .rejected r.payload.clientOrderId .badSequence)
  else
    (decide (r.payload ≠ .logout), s.advance.decideOrder r.payload)

theorem respond_of_expected (s : OrderEntrySession) {r : Request}
    (h : r.header.sequenceNumber = s.expectedSequenceNumber) :
    s.respond r = (decide (r.payload ≠ .logout), s.advance.decideOrder r.payload) :=
  if_neg (not_not.mpr h)

theorem respond_of_unexpected (s : OrderEntrySession) {r : Request}
    (h : r.header.sequenceNumber ≠ s.expectedSequenceNumber) :
    s.respond r = (true, s, .rejected r.payload.clientOrderId .badSequence) :=
  if_pos h

/-! ### What a decision can be -/

/-- The reasons for which an order in sequence is refused. -/
def orderReasons : List RejectReason :=
  [.invalidPrice, .invalidQuantity, .duplicateClientOrderId, .unknownClientOrderId]

/-- The session after a decision, and the reply. -/
inductive Decision (s : OrderEntrySession) : Payload → OrderEntrySession → Reply → Prop
  | refused {payload : Payload} {reason : RejectReason} (known : reason ∈ orderReasons) :
      Decision s payload s (.rejected payload.clientOrderId reason)
  | entered {order : NewOrder} (free : s.orders.find order.clientOrderId = none) :
      Decision s (.newOrder order)
        { s with
            nextOrderHandle := s.nextOrderHandle + 1
            orders := s.orders.emplace order.clientOrderId s.nextOrderHandle }
        (.accepted order.clientOrderId s.nextOrderHandle)
  | cancelled {id handle : UInt64} (live : s.orders.find id = some handle) :
      Decision s (.cancelOrder id) { s with orders := s.orders.erase id } (.cancelled id handle)
  | modified {id newPrice newQuantity handle : UInt64} (live : s.orders.find id = some handle) :
      Decision s (.modifyOrder id newPrice newQuantity) s (.modified id handle)
  | control {payload : Payload} (control : payload = .heartbeat ∨ payload = .logout) :
      Decision s payload s (.accepted 0 0)

theorem decides (s : OrderEntrySession) (payload : Payload) :
    s.Decision payload (s.decideOrder payload).1 (s.decideOrder payload).2 := by
  cases payload with
  | newOrder order =>
      rw [decideOrder]
      split_ifs
      · exact .refused (by decide)
      · exact .refused (by decide)
      · cases hf : s.orders.find order.clientOrderId with
        | none => exact .entered hf
        | some handle => exact .refused (by decide)
  | cancelOrder id =>
      rw [decideOrder]
      cases hf : s.orders.find id with
      | none => exact .refused (by decide)
      | some handle => exact .cancelled hf
  | modifyOrder id newPrice newQuantity =>
      rw [decideOrder]
      cases hf : s.orders.find id with
      | none => exact .refused (by decide)
      | some handle =>
          dsimp only
          split_ifs
          · exact .refused (by decide)
          · exact .refused (by decide)
          · exact .modified hf
  | heartbeat => exact .control (Or.inl rfl)
  | logout => exact .control (Or.inr rfl)

namespace Decision

variable {s s' : OrderEntrySession} {payload : Payload} {reply : Reply} {id : UInt64}
  {reason : RejectReason}

theorem expected (h : s.Decision payload s' reply) :
    s'.expectedSequenceNumber = s.expectedSequenceNumber := by
  cases h <;> rfl

theorem sessionId (h : s.Decision payload s' reply) : s'.sessionId = s.sessionId := by
  cases h <;> rfl

/-- A decision that rejects leaves the orders alone. -/
theorem eq_of_rejected (h : s.Decision payload s' (.rejected id reason)) : s' = s := by
  cases h
  rfl

/-- The reasons of the sequence check and of the dispatcher are not among an order's. -/
theorem reason_mem (h : s.Decision payload s' (.rejected id reason)) : reason ∈ orderReasons := by
  cases h
  assumption

theorem ne_badSequence (h : s.Decision payload s' reply) : reply ≠ .rejected id .badSequence := by
  rintro rfl
  exact absurd h.reason_mem (by decide)

end Decision

/-! ### What the check decides

The orders have no say in the sequence number, nor in what is out of sequence. -/

theorem expected_respond (s : OrderEntrySession) (r : Request) :
    (s.respond r).2.1.expectedSequenceNumber =
      if r.header.sequenceNumber = s.expectedSequenceNumber then s.expectedSequenceNumber + 1
      else s.expectedSequenceNumber := by
  by_cases hseq : r.header.sequenceNumber = s.expectedSequenceNumber
  · rw [s.respond_of_expected hseq, if_pos hseq]
    exact (s.advance.decides r.payload).expected
  · rw [s.respond_of_unexpected hseq, if_neg hseq]

theorem respond_badSequence_iff (s : OrderEntrySession) (r : Request) :
    (∃ id, (s.respond r).2.2 = .rejected id .badSequence) ↔
      r.header.sequenceNumber ≠ s.expectedSequenceNumber := by
  by_cases hseq : r.header.sequenceNumber = s.expectedSequenceNumber
  · rw [s.respond_of_expected hseq]
    refine iff_of_false ?_ (not_not.mpr hseq)
    rintro ⟨id, heq⟩
    exact (s.advance.decides r.payload).ne_badSequence heq
  · rw [s.respond_of_unexpected hseq]
    exact iff_of_true ⟨_, rfl⟩ hseq

/-- A heartbeat or a logout is accepted where it is in sequence. -/
theorem respond_accepted_iff (s : OrderEntrySession) {r : Request}
    (h : r.payload = .heartbeat ∨ r.payload = .logout) :
    (∃ id handle, (s.respond r).2.2 = .accepted id handle) ↔
      r.header.sequenceNumber = s.expectedSequenceNumber := by
  by_cases hseq : r.header.sequenceNumber = s.expectedSequenceNumber
  · refine iff_of_true ⟨0, 0, ?_⟩ hseq
    rw [s.respond_of_expected hseq]
    rcases h with h | h
    · rw [h]
      rfl
    · rw [h]
      rfl
  · rw [s.respond_of_unexpected hseq]
    exact iff_of_false nofun hseq

/-- `handle_message` writes the frame of the reply that `respond` decides on,
and goes to the same session. -/
structure Writes (s : OrderEntrySession) (msg : DecodedMessage) (responseOut : List UInt8)
    (r : Request) : Prop where
  keepOpen : (s.handleMessage msg responseOut).1 = (s.respond r).1
  session : (s.handleMessage msg responseOut).2.1 = (s.respond r).2.1
  response : Carries (s.handleMessage msg responseOut).2.2 (s.responseHeader msg.header)
    (s.respond r).2.2

section Bytes

variable {out : List UInt8} (s : OrderEntrySession) (header : MessageHeader)

theorem carries_encodeReject (id : UInt64) (reason : RejectReason)
    (hout : out.length = kFrameSize) :
    Carries (s.encodeReject header id reason out) (s.responseHeader header)
      (.rejected id reason) :=
  carries_encodeRejected _ { clientOrderId := id, reason := reason } hout

theorem carries_encodeAccept (id handle : UInt64) (hout : out.length = kFrameSize) :
    Carries (s.encodeAccept header id handle out) (s.responseHeader header)
      (.accepted id handle) :=
  carries_encodeAccepted _ { clientOrderId := id, orderHandle := handle } hout

theorem carries_encodeCancel (id handle : UInt64) (hout : out.length = kFrameSize) :
    Carries (s.encodeCancel header id handle out) (s.responseHeader header)
      (.cancelled id handle) :=
  carries_encodeCancelled _ { clientOrderId := id, orderHandle := handle } hout

theorem carries_encodeModify (id handle : UInt64) (hout : out.length = kFrameSize) :
    Carries (s.encodeModify header id handle out) (s.responseHeader header)
      (.modified id handle) :=
  carries_encodeModified _ { clientOrderId := id, orderHandle := handle } hout

end Bytes

theorem Writes.intro {s : OrderEntrySession} {msg : DecodedMessage} {r : Request}
    {out bytes : List UInt8} {reply : Reply} (keepOpen : Bool) (s' : OrderEntrySession)
    (hm : s.handleMessage msg out = (keepOpen, s', bytes))
    (hr : s.respond r = (keepOpen, s', reply))
    (hc : Carries bytes (s.responseHeader msg.header) reply) : s.Writes msg out r where
  keepOpen := by rw [hm, hr]
  session := by rw [hm, hr]
  response := by
    rw [hm, hr]
    exact hc

section HandleMessage

variable {s : OrderEntrySession} {msg : DecodedMessage} {out : List UInt8}

/-- The sequence check fails the same way under every type. -/
theorem handleMessage_of_badSequence {r : Request} (hr : msg.request = some r)
    (hseq : msg.header.sequenceNumber ≠ s.expectedSequenceNumber) :
    s.handleMessage msg out
      = (true, s, s.encodeReject msg.header r.payload.clientOrderId .badSequence out) := by
  have hcheck : ∀ id, s.checkSequenceOrReject msg id out
      = (false, s, s.encodeReject msg.header id .badSequence out) := fun id => if_pos hseq
  unfold DecodedMessage.request at hr
  split_ifs at hr with hn hc hm hb hl <;> obtain rfl := Option.some.inj hr
  all_goals
    simp only [handleMessage, if_true, *]
    rfl

theorem writes_of_badSequence {r : Request} (hout : out.length = kFrameSize)
    (hr : msg.request = some r) (hseq : msg.header.sequenceNumber ≠ s.expectedSequenceNumber) :
    s.Writes msg out r := by
  refine Writes.intro true s (handleMessage_of_badSequence hr hseq) (if_pos ?_)
    (carries_encodeReject s msg.header _ _ hout)
  rw [(header_of_request hr).1]
  exact hseq

section InSequence

variable (hout : out.length = kFrameSize)
  (hseq : msg.header.sequenceNumber = s.expectedSequenceNumber)

include hseq in
theorem checkSequenceOrReject_of_inSequence (responseOut : List UInt8) (id : UInt64) :
    s.checkSequenceOrReject msg id responseOut = (true, s.advance, responseOut) :=
  if_neg (not_not.mpr hseq)

include hseq in
theorem respond_of_inSequence (payload : Payload) :
    s.respond ⟨msg.header, payload⟩
      = (decide (payload ≠ .logout), s.advance.decideOrder payload) :=
  s.respond_of_expected hseq

include hout hseq

theorem writes_newOrder (ht : msg.type = .newOrder) :
    s.Writes msg out ⟨msg.header, .newOrder msg.newOrder⟩ := by
  have hcheck := checkSequenceOrReject_of_inSequence hseq out msg.newOrder.clientOrderId
  have hrespond := respond_of_inSequence hseq (.newOrder msg.newOrder)
  by_cases hp : msg.newOrder.price = 0
  · refine Writes.intro true s.advance ?_ ?_ (carries_encodeReject s.advance msg.header
      msg.newOrder.clientOrderId .invalidPrice hout)
    · simp only [handleMessage, ht, hcheck, hp, if_true]
    · rw [hrespond]
      simp [decideOrder, hp]
  by_cases hq : msg.newOrder.quantity = 0
  · refine Writes.intro true s.advance ?_ ?_ (carries_encodeReject s.advance msg.header
      msg.newOrder.clientOrderId .invalidQuantity hout)
    · simp only [handleMessage, ht, hcheck, hp, hq, if_true, if_false]
    · rw [hrespond]
      simp [decideOrder, hp, hq]
  cases hf : s.advance.orders.find msg.newOrder.clientOrderId with
  | some handle =>
      refine Writes.intro true s.advance ?_ ?_ (carries_encodeReject s.advance msg.header
        msg.newOrder.clientOrderId .duplicateClientOrderId hout)
      · simp only [handleMessage, ht, hcheck, hp, hq, hf, if_true, if_false]
      · rw [hrespond]
        simp [decideOrder, hp, hq, hf]
  | none =>
      refine Writes.intro true
        { s.advance with
          nextOrderHandle := s.advance.nextOrderHandle + 1
          orders := s.advance.orders.emplace msg.newOrder.clientOrderId s.advance.nextOrderHandle }
        ?_ ?_ (carries_encodeAccept s.advance msg.header msg.newOrder.clientOrderId
          s.advance.nextOrderHandle hout)
      · simp only [handleMessage, ht, hcheck, hp, hq, hf, if_true, if_false]
        rfl
      · rw [hrespond]
        simp [decideOrder, hp, hq, hf]

theorem writes_cancelOrder (ht : msg.type = .cancelOrder) :
    s.Writes msg out ⟨msg.header, .cancelOrder msg.cancelOrder.clientOrderId⟩ := by
  have hne : ¬ MessageType.cancelOrder = .newOrder := by decide
  have hcheck := checkSequenceOrReject_of_inSequence hseq out
    msg.cancelOrder.clientOrderId
  have hrespond := respond_of_inSequence hseq (.cancelOrder msg.cancelOrder.clientOrderId)
  cases hf : s.advance.orders.find msg.cancelOrder.clientOrderId with
  | none =>
      refine Writes.intro true s.advance ?_ ?_ (carries_encodeReject s.advance msg.header
        msg.cancelOrder.clientOrderId .unknownClientOrderId hout)
      · simp only [handleMessage, ht, hne, hcheck, hf, if_true, if_false]
      · rw [hrespond]
        simp [decideOrder, hf]
  | some handle =>
      refine Writes.intro true
        { s.advance with orders := s.advance.orders.erase msg.cancelOrder.clientOrderId } ?_ ?_
        (carries_encodeCancel s.advance msg.header msg.cancelOrder.clientOrderId handle hout)
      · simp only [handleMessage, ht, hne, hcheck, hf, if_true, if_false]
        rfl
      · rw [hrespond]
        simp [decideOrder, hf]

theorem writes_modifyOrder (ht : msg.type = .modifyOrder) :
    s.Writes msg out ⟨msg.header, .modifyOrder msg.modifyOrder.clientOrderId
      msg.modifyOrder.newPrice msg.modifyOrder.newQuantity⟩ := by
  have hne : ¬ MessageType.modifyOrder = .newOrder := by decide
  have hne' : ¬ MessageType.modifyOrder = .cancelOrder := by decide
  have hcheck := checkSequenceOrReject_of_inSequence hseq out
    msg.modifyOrder.clientOrderId
  have hrespond := respond_of_inSequence hseq (.modifyOrder msg.modifyOrder.clientOrderId
    msg.modifyOrder.newPrice msg.modifyOrder.newQuantity)
  cases hf : s.advance.orders.find msg.modifyOrder.clientOrderId with
  | none =>
      refine Writes.intro true s.advance ?_ ?_ (carries_encodeReject s.advance msg.header
        msg.modifyOrder.clientOrderId .unknownClientOrderId hout)
      · simp only [handleMessage, ht, hne, hne', hcheck, hf, if_true, if_false]
      · rw [hrespond]
        simp [decideOrder, hf]
  | some handle =>
      by_cases hp : msg.modifyOrder.newPrice = 0
      · refine Writes.intro true s.advance ?_ ?_ (carries_encodeReject s.advance msg.header
          msg.modifyOrder.clientOrderId .invalidPrice hout)
        · simp only [handleMessage, ht, hne, hne', hcheck, hf, hp, if_true, if_false]
        · rw [hrespond]
          simp [decideOrder, hf, hp]
      by_cases hq : msg.modifyOrder.newQuantity = 0
      · refine Writes.intro true s.advance ?_ ?_ (carries_encodeReject s.advance msg.header
          msg.modifyOrder.clientOrderId .invalidQuantity hout)
        · simp only [handleMessage, ht, hne, hne', hcheck, hf, hp, hq, if_true, if_false]
        · rw [hrespond]
          simp [decideOrder, hf, hp, hq]
      · refine Writes.intro true s.advance ?_ ?_ (carries_encodeModify s.advance msg.header
          msg.modifyOrder.clientOrderId handle hout)
        · simp only [handleMessage, ht, hne, hne', hcheck, hf, hp, hq, if_true, if_false]
        · rw [hrespond]
          simp [decideOrder, hf, hp, hq]

omit hout in
/-- A heartbeat and a logout are told apart by whether the session goes on. -/
theorem handleMessage_of_control (ht : msg.type = .heartbeat ∨ msg.type = .logout) :
    s.handleMessage msg out
      = (decide (msg.type = .heartbeat), s.advance,
          s.advance.encodeAccept msg.header 0 0 out) := by
  have hcheck := checkSequenceOrReject_of_inSequence hseq out 0
  rcases ht with ht | ht
  · rw [handleMessage, ht, hcheck]
    rfl
  · rw [handleMessage, ht, hcheck]
    rfl

theorem writes_heartbeat (ht : msg.type = .heartbeat) :
    s.Writes msg out ⟨msg.header, .heartbeat⟩ := by
  refine Writes.intro true s.advance ?_ (respond_of_inSequence hseq .heartbeat)
    (carries_encodeAccept s.advance msg.header 0 0 hout)
  rw [handleMessage_of_control hseq (Or.inl ht), ht]
  rfl

theorem writes_logout (ht : msg.type = .logout) : s.Writes msg out ⟨msg.header, .logout⟩ := by
  refine Writes.intro false s.advance ?_ (respond_of_inSequence hseq .logout)
    (carries_encodeAccept s.advance msg.header 0 0 hout)
  rw [handleMessage_of_control hseq (Or.inr ht), ht]
  rfl

end InSequence

end HandleMessage

/-- **Every call of `handle_message` on a request writes what `respond`
decides.** -/
theorem handleMessage_respond (s : OrderEntrySession) {msg : DecodedMessage} {r : Request}
    {out : List UInt8} (hr : msg.request = some r) (hout : out.length = kFrameSize) :
    s.Writes msg out r := by
  by_cases hseq : msg.header.sequenceNumber = s.expectedSequenceNumber
  case neg => exact writes_of_badSequence hout hr hseq
  unfold DecodedMessage.request at hr
  split_ifs at hr with hn hc hm hb hl <;> obtain rfl := Option.some.inj hr
  · exact writes_newOrder hout hseq hn
  · exact writes_cancelOrder hout hseq hc
  · exact writes_modifyOrder hout hseq hm
  · exact writes_heartbeat hout hseq hb
  · exact writes_logout hout hseq hl

end OrderEntrySession

end TradingGateway.OrderEntry
