/-
# `OrderEntry.OrderHistory` — the session against its own history

What a session should answer, said without any state: `answer history r` looks
only at the messages and responses before `r`.

| | |
| :-- | :-- |
| `inSequence` | how many messages of the history were in sequence |
| `liveHandle` | the handle of a live id: its last entry or cancel was an entry |
| `acceptedOrders`, `cancelledOrders` | what the live orders are counted by |

`Tracks history s` is the tie between the two: the sequence number, the handle
counter and the map of the session `s` are these four read off the history.  It
is kept by every message (`Tracks.respond`), and `session_refines_history` is
the induction over a list of messages.
-/
import TradingGateway.OrderEntry.Session

namespace TradingGateway.OrderEntry

open Lib

/-- A message and its answer, with the session after it. -/
structure Exchange where
  message : DecodedMessage
  keepOpen : Bool
  response : List UInt8
  after : OrderEntrySession

namespace Exchange

/-- The request the message is. -/
def request (e : Exchange) : Option Request := e.message.request

/-- The reply the response carries. -/
def reply (e : Exchange) : Option Reply := readReply e.response

/-- A NewOrder was accepted. -/
def IsEntry (e : Exchange) : Prop :=
  e.message.type = .newOrder ∧ ∃ id handle, e.reply = some (.accepted id handle)

/-- An order was cancelled. -/
def IsCancel (e : Exchange) : Prop := ∃ id handle, e.reply = some (.cancelled id handle)

/-- What the exchange says about the order `id`: `some (some handle)` when it was
entered, `some none` when it was cancelled, `none` when it says nothing. -/
def orderEvent (id : UInt64) (e : Exchange) : Option (Option UInt64) :=
  match e.reply with
  | some (.accepted id' handle) =>
      if e.message.type = .newOrder ∧ id' = id then some (some handle) else none
  | some (.cancelled id' _) => if id' = id then some none else none
  | _ => none

instance (e : Exchange) : Decidable e.IsEntry :=
  match h : e.reply with
  | some (.accepted id handle) =>
      decidable_of_iff (e.message.type = .newOrder)
        ⟨fun ht => ⟨ht, id, handle, h⟩, fun hi => hi.1⟩
  | some (.rejected _ _) | some (.cancelled _ _) | some (.modified _ _) | some (.trade _ _ _ _)
  | none => isFalse fun ⟨_, _, _, hr⟩ => by rw [h] at hr; cases hr

instance (e : Exchange) : Decidable e.IsCancel :=
  match h : e.reply with
  | some (.cancelled id handle) => isTrue ⟨id, handle, h⟩
  | some (.rejected _ _) | some (.accepted _ _) | some (.modified _ _) | some (.trade _ _ _ _)
  | none => isFalse fun ⟨_, _, hr⟩ => by rw [h] at hr; cases hr

end Exchange

/-! ## Reading a history, oldest exchange first -/

/-- A message is in sequence when its number is one more than the number of
messages in sequence before it. -/
def inSequence (history : List Exchange) : Nat :=
  history.foldl (fun n e => if e.message.header.sequenceNumber.toNat = 1 + n then n + 1 else n) 0

/-- The handle of a live id. -/
def liveHandle (history : List Exchange) (id : UInt64) : Option UInt64 :=
  (history.filterMap (Exchange.orderEvent id)).getLast?.join

def acceptedOrders (history : List Exchange) : Nat :=
  history.countP fun e => decide e.IsEntry

def cancelledOrders (history : List Exchange) : Nat :=
  history.countP fun e => decide e.IsCancel

/-- The answer to an in-sequence payload. -/
def answerPayload (history : List Exchange) : Payload → Reply
  | .newOrder order =>
      if order.price = 0 then .rejected order.clientOrderId .invalidPrice
      else if order.quantity = 0 then .rejected order.clientOrderId .invalidQuantity
      else if (liveHandle history order.clientOrderId).isSome then
        .rejected order.clientOrderId .duplicateClientOrderId
      else .accepted order.clientOrderId (UInt64.ofNat (1 + acceptedOrders history))
  | .cancelOrder id =>
      match liveHandle history id with
      | none => .rejected id .unknownClientOrderId
      | some handle => .cancelled id handle
  | .modifyOrder id newPrice newQuantity =>
      match liveHandle history id with
      | none => .rejected id .unknownClientOrderId
      | some handle =>
          if newPrice = 0 then .rejected id .invalidPrice
          else if newQuantity = 0 then .rejected id .invalidQuantity
          else .modified id handle
  | .heartbeat | .logout => .accepted 0 0

/-- The answer to a request after a history. -/
def answer (history : List Exchange) (r : Request) : Reply :=
  if r.header.sequenceNumber.toNat ≠ 1 + inSequence history then
    .rejected r.payload.clientOrderId .badSequence
  else answerPayload history r.payload

section Snoc

variable (history : List Exchange) (e : Exchange)

theorem inSequence_snoc :
    inSequence (history ++ [e]) =
      if e.message.header.sequenceNumber.toNat = 1 + inSequence history
      then inSequence history + 1 else inSequence history := by
  rw [inSequence, List.foldl_append]
  rfl

theorem inSequence_le : inSequence history ≤ history.length := by
  induction history using List.reverseRecOn with
  | nil => exact le_rfl
  | append_singleton history e ih =>
      rw [inSequence_snoc, List.length_append, List.length_singleton]
      split <;> omega

theorem liveHandle_snoc (id : UInt64) :
    liveHandle (history ++ [e]) id = (e.orderEvent id).getD (liveHandle history id) := by
  rw [liveHandle, List.filterMap_append]
  cases h : e.orderEvent id with
  | none =>
      rw [List.filterMap_cons_none h, List.filterMap_nil, List.append_nil]
      rfl
  | some o =>
      rw [List.filterMap_cons_some h, List.filterMap_nil, List.getLast?_concat]
      rfl

theorem acceptedOrders_snoc :
    acceptedOrders (history ++ [e]) = acceptedOrders history + if e.IsEntry then 1 else 0 := by
  simp [acceptedOrders, List.countP_append, List.countP_singleton]

theorem cancelledOrders_snoc :
    cancelledOrders (history ++ [e]) = cancelledOrders history + if e.IsCancel then 1 else 0 := by
  simp [cancelledOrders, List.countP_append, List.countP_singleton]

theorem acceptedOrders_le : acceptedOrders history ≤ history.length :=
  List.countP_le_length

end Snoc

/-! ## Messages and exchanges -/

theorem Payload.type_eq_newOrder_iff {payload : Payload} :
    payload.type = .newOrder ↔ ∃ order, payload = .newOrder order := by
  cases payload with
  | newOrder order => exact ⟨fun _ => ⟨order, rfl⟩, fun _ => rfl⟩
  | _ => exact ⟨nofun, nofun⟩

theorem newOrder_iff_of_request {m : DecodedMessage} {r : Request} (h : m.request = some r) :
    m.type = .newOrder ↔ ∃ order, r.payload = .newOrder order := by
  rw [(header_of_request h).2]
  exact Payload.type_eq_newOrder_iff

namespace Exchange

variable {e : Exchange} {id handle : UInt64}

theorem orderEvent_of_neutral (he : ¬ e.IsEntry) (hc : ¬ e.IsCancel) (id : UInt64) :
    e.orderEvent id = none := by
  cases hr : e.reply with
  | none => simp [orderEvent, hr]
  | some reply =>
      cases reply with
      | accepted id' handle =>
          have hne : ¬ (e.message.type = .newOrder ∧ id' = id) :=
            fun ht => he ⟨ht.1, id', handle, hr⟩
          simp only [orderEvent, hr, if_neg hne]
      | cancelled id' handle => exact absurd ⟨id', handle, hr⟩ hc
      | rejected _ _ | modified _ _ | trade _ _ _ _ => simp [orderEvent, hr]

theorem not_isEntry_of_reply {reply : Reply} (h : e.reply = some reply)
    (hne : ∀ id handle, reply ≠ .accepted id handle) : ¬ e.IsEntry := by
  rintro ⟨-, id, handle, he⟩
  exact hne id handle (Option.some.inj (h.symm.trans he))

theorem not_isCancel_of_reply {reply : Reply} (h : e.reply = some reply)
    (hne : ∀ id handle, reply ≠ .cancelled id handle) : ¬ e.IsCancel := by
  rintro ⟨id, handle, hc⟩
  exact hne id handle (Option.some.inj (h.symm.trans hc))

theorem not_isCancel_of_accepted (h : e.reply = some (.accepted id handle)) : ¬ e.IsCancel :=
  not_isCancel_of_reply h nofun

theorem not_isEntry_of_cancelled (h : e.reply = some (.cancelled id handle)) : ¬ e.IsEntry :=
  not_isEntry_of_reply h nofun

theorem neutral_of_rejected {reason : RejectReason} (h : e.reply = some (.rejected id reason)) :
    ¬ e.IsEntry ∧ ¬ e.IsCancel :=
  ⟨not_isEntry_of_reply h nofun, not_isCancel_of_reply h nofun⟩

theorem neutral_of_modified (h : e.reply = some (.modified id handle)) :
    ¬ e.IsEntry ∧ ¬ e.IsCancel :=
  ⟨not_isEntry_of_reply h nofun, not_isCancel_of_reply h nofun⟩

end Exchange

/-! ## The session tracks its history -/

/-- The orders of the session are what the history says. -/
structure TracksOrders (history : List Exchange) (s : OrderEntrySession) : Prop where
  nextHandle : s.nextOrderHandle = UInt64.ofNat (1 + acceptedOrders history)
  orders : ∀ id, s.orders.find id = liveHandle history id
  size : s.orders.size + cancelledOrders history = acceptedOrders history

/-- The state of the session is what the history says. -/
structure Tracks (history : List Exchange) (s : OrderEntrySession) : Prop
    extends TracksOrders history s where
  expected : s.expectedSequenceNumber = UInt64.ofNat (1 + inSequence history)

theorem tracks_fresh (sessionId : UInt64) : Tracks [] { sessionId := sessionId } where
  nextHandle := rfl
  orders := fun _ => rfl
  size := rfl
  expected := rfl

namespace TracksOrders

variable {history : List Exchange} {s : OrderEntrySession} {e : Exchange}

theorem neutral (h : TracksOrders history s) (he : ¬ e.IsEntry ∧ ¬ e.IsCancel) :
    TracksOrders (history ++ [e]) s where
  nextHandle := by rw [acceptedOrders_snoc, if_neg he.1]; exact h.nextHandle
  orders := fun id => by
    rw [liveHandle_snoc, Exchange.orderEvent_of_neutral he.1 he.2]
    exact h.orders id
  size := by
    rw [acceptedOrders_snoc, cancelledOrders_snoc, if_neg he.1, if_neg he.2]
    exact h.size

theorem enter (h : TracksOrders history s) {id : UInt64} (hf : s.orders.find id = none)
    (ht : e.message.type = .newOrder) (hr : e.reply = some (.accepted id s.nextOrderHandle)) :
    TracksOrders (history ++ [e])
      { s with
        nextOrderHandle := s.nextOrderHandle + 1
        orders := s.orders.emplace id s.nextOrderHandle } where
  nextHandle := by
    have hentry : e.IsEntry := ⟨ht, id, _, hr⟩
    show s.nextOrderHandle + 1 = _
    rw [acceptedOrders_snoc, if_pos hentry, ← Nat.add_assoc, UInt64.ofNat_add _ 1, ← h.nextHandle]
    rfl
  orders := fun j => by
    have hev : e.orderEvent j = if j = id then some (some s.nextOrderHandle) else none := by
      simp only [Exchange.orderEvent, hr, ht, true_and, eq_comm]
    rw [liveHandle_snoc, hev, UnorderedMap.find_emplace hf]
    split
    next => rfl
    next => exact h.orders j
  size := by
    have hentry : e.IsEntry := ⟨ht, id, _, hr⟩
    rw [acceptedOrders_snoc, cancelledOrders_snoc, if_pos hentry,
      if_neg (Exchange.not_isCancel_of_accepted hr), ← h.size]
    show (s.orders.emplace id s.nextOrderHandle).size + _ = _
    rw [UnorderedMap.size_emplace hf]
    omega

theorem cancel (h : TracksOrders history s) {id handle : UInt64}
    (hf : s.orders.find id = some handle) (hr : e.reply = some (.cancelled id handle)) :
    TracksOrders (history ++ [e]) { s with orders := s.orders.erase id } where
  nextHandle := by
    rw [acceptedOrders_snoc, if_neg (Exchange.not_isEntry_of_cancelled hr)]
    exact h.nextHandle
  orders := fun j => by
    have hev : e.orderEvent j = if j = id then some none else none := by
      simp only [Exchange.orderEvent, hr, eq_comm]
    rw [liveHandle_snoc, hev, UnorderedMap.find_erase]
    split
    next => rfl
    next => exact h.orders j
  size := by
    have hsize := UnorderedMap.size_erase (m := s.orders) (k := id) (by simp [hf])
    have hcancel : e.IsCancel := ⟨id, handle, hr⟩
    rw [acceptedOrders_snoc, cancelledOrders_snoc, if_pos hcancel,
      if_neg (Exchange.not_isEntry_of_cancelled hr), ← h.size, ← hsize]
    show (s.orders.erase id).size + _ = _
    omega

theorem advance (h : TracksOrders history s) : TracksOrders history s.advance :=
  ⟨h.nextHandle, h.orders, h.size⟩

/-- **An in-sequence payload**: the decision is the history's answer, and the
orders go on tracking it. -/
theorem decideOrder (h : TracksOrders history s) (payload : Payload)
    (ht : e.message.type = .newOrder ↔ ∃ order, payload = .newOrder order)
    (hr : e.reply = some (s.decideOrder payload).2) :
    (s.decideOrder payload).2 = answerPayload history payload ∧
      TracksOrders (history ++ [e]) (s.decideOrder payload).1 := by
  cases payload with
  | newOrder order =>
      have hlive := h.orders order.clientOrderId
      by_cases hp : order.price = 0
      · simp only [OrderEntrySession.decideOrder, hp, if_true, answerPayload] at hr ⊢
        exact ⟨trivial, h.neutral (Exchange.neutral_of_rejected hr)⟩
      by_cases hq : order.quantity = 0
      · simp only [OrderEntrySession.decideOrder, hp, hq, if_true, if_false, answerPayload] at hr ⊢
        exact ⟨trivial, h.neutral (Exchange.neutral_of_rejected hr)⟩
      cases hf : s.orders.find order.clientOrderId with
      | some handle =>
          rw [hf] at hlive
          simp only [OrderEntrySession.decideOrder, hp, hq, hf, if_false, answerPayload,
            ← hlive] at hr ⊢
          exact ⟨rfl, h.neutral (Exchange.neutral_of_rejected hr)⟩
      | none =>
          rw [hf] at hlive
          simp only [OrderEntrySession.decideOrder, hp, hq, hf, if_false, answerPayload,
            ← hlive] at hr ⊢
          refine ⟨?_, h.enter hf (ht.mpr ⟨order, rfl⟩) hr⟩
          rw [h.nextHandle]
          rfl
  | cancelOrder id =>
      have hlive := h.orders id
      cases hf : s.orders.find id with
      | none =>
          rw [hf] at hlive
          simp only [OrderEntrySession.decideOrder, hf, answerPayload, ← hlive] at hr ⊢
          exact ⟨trivial, h.neutral (Exchange.neutral_of_rejected hr)⟩
      | some handle =>
          rw [hf] at hlive
          simp only [OrderEntrySession.decideOrder, hf, answerPayload, ← hlive] at hr ⊢
          exact ⟨trivial, h.cancel hf hr⟩
  | modifyOrder id newPrice newQuantity =>
      have hlive := h.orders id
      cases hf : s.orders.find id with
      | none =>
          rw [hf] at hlive
          simp only [OrderEntrySession.decideOrder, hf, answerPayload, ← hlive] at hr ⊢
          exact ⟨trivial, h.neutral (Exchange.neutral_of_rejected hr)⟩
      | some handle =>
          rw [hf] at hlive
          simp only [OrderEntrySession.decideOrder, hf, answerPayload, ← hlive] at hr ⊢
          split_ifs at hr ⊢
          · exact ⟨rfl, h.neutral (Exchange.neutral_of_rejected hr)⟩
          · exact ⟨rfl, h.neutral (Exchange.neutral_of_rejected hr)⟩
          · exact ⟨rfl, h.neutral (Exchange.neutral_of_modified hr)⟩
  | heartbeat | logout =>
      refine ⟨rfl, h.neutral ⟨fun he => ?_, Exchange.not_isCancel_of_accepted hr⟩⟩
      obtain ⟨order, ho⟩ := ht.mp he.1
      cases ho

end TracksOrders

namespace Tracks

variable {history : List Exchange} {s : OrderEntrySession} {e : Exchange}

/-- While fewer than `2 ^ 64` messages came, the session's comparison is the
history's. -/
theorem sequence_iff (h : Tracks history s) (hlen : history.length + 1 < 2 ^ 64) (n : UInt64) :
    n = s.expectedSequenceNumber ↔ n.toNat = 1 + inSequence history := by
  have hle := inSequence_le history
  have hto : s.expectedSequenceNumber.toNat = 1 + inSequence history := by
    rw [h.expected]
    exact UInt64.toNat_ofNat_of_lt' (by show 1 + inSequence history < 2 ^ 64; omega)
  rw [← hto]
  exact ⟨fun he => congrArg _ he, fun he => UInt64.toNat.inj he⟩

/-- **Any request**: the reply is the history's answer, and the session goes on
tracking it. -/
theorem respond (h : Tracks history s) (hlen : history.length + 1 < 2 ^ 64) {r : Request}
    (hm : e.message.request = some r) (hr : e.reply = some (s.respond r).2.2) :
    (s.respond r).2.2 = answer history r ∧ Tracks (history ++ [e]) (s.respond r).2.1 := by
  have hheader := (header_of_request hm).1
  have hseq := h.sequence_iff hlen r.header.sequenceNumber
  by_cases hs : r.header.sequenceNumber = s.expectedSequenceNumber
  · have hs' := hseq.mp hs
    rw [s.respond_of_expected hs] at hr ⊢
    obtain ⟨hreply, htracks⟩ :=
      h.toTracksOrders.advance.decideOrder r.payload (newOrder_iff_of_request hm) hr
    refine ⟨hreply.trans (if_neg (not_not.mpr hs')).symm, htracks, ?_⟩
    rw [(s.advance.decides r.payload).expected, inSequence_snoc, ← hheader, if_pos hs',
      ← Nat.add_assoc, UInt64.ofNat_add _ 1, ← h.expected]
    rfl
  · have hs' := mt hseq.mpr hs
    rw [s.respond_of_unexpected hs] at hr ⊢
    refine ⟨(if_pos hs').symm, h.toTracksOrders.neutral (Exchange.neutral_of_rejected hr), ?_⟩
    rw [inSequence_snoc, ← hheader, if_neg hs']
    exact h.expected

end Tracks

/-! ## A whole session -/

/-- A list of messages, each with the buffer for its response. -/
def serve (s : OrderEntrySession) : List (DecodedMessage × List UInt8) → List Exchange
  | [] => []
  | (msg, responseOut) :: inputs =>
      let r := s.handleMessage msg responseOut
      ⟨msg, r.1, r.2.2, r.2.1⟩ :: serve r.2.1 inputs

/-- The session after the messages. -/
def sessionAfter (s : OrderEntrySession) (inputs : List (DecodedMessage × List UInt8)) :
    OrderEntrySession :=
  inputs.foldl (fun s input => (s.handleMessage input.1 input.2).2.1) s

theorem serve_snoc (inputs : List (DecodedMessage × List UInt8)) (msg : DecodedMessage)
    (responseOut : List UInt8) :
    ∀ s : OrderEntrySession, serve s (inputs ++ [(msg, responseOut)]) = serve s inputs ++
      [⟨msg, ((sessionAfter s inputs).handleMessage msg responseOut).1,
        ((sessionAfter s inputs).handleMessage msg responseOut).2.2,
        ((sessionAfter s inputs).handleMessage msg responseOut).2.1⟩] := by
  induction inputs with
  | nil =>
      intro s
      rfl
  | cons input inputs ih =>
      intro s
      exact congrArg (List.cons _) (ih (s.handleMessage input.1 input.2).2.1)

theorem sessionAfter_snoc (s : OrderEntrySession) (inputs : List (DecodedMessage × List UInt8))
    (msg : DecodedMessage) (responseOut : List UInt8) :
    sessionAfter s (inputs ++ [(msg, responseOut)])
      = ((sessionAfter s inputs).handleMessage msg responseOut).2.1 := by
  rw [sessionAfter, List.foldl_append]
  rfl

/-- The exchange of a session with one message. -/
def OrderEntrySession.exchange (s : OrderEntrySession) (msg : DecodedMessage)
    (responseOut : List UInt8) : Exchange :=
  ⟨msg, (s.handleMessage msg responseOut).1, (s.handleMessage msg responseOut).2.2,
    (s.handleMessage msg responseOut).2.1⟩

theorem OrderEntrySession.exchange_respond (s : OrderEntrySession) {msg : DecodedMessage}
    {r : Request} {out : List UInt8} (hr : msg.request = some r) (hout : out.length = kFrameSize) :
    (s.exchange msg out).reply = some (s.respond r).2.2 ∧
      (s.exchange msg out).after = (s.respond r).2.1 := by
  have hw := s.handleMessage_respond hr hout
  exact ⟨hw.response.reply, hw.session⟩

theorem serve_append (after : List (DecodedMessage × List UInt8)) :
    ∀ (s : OrderEntrySession) (before : List (DecodedMessage × List UInt8)),
      serve s (before ++ after) = serve s before ++ serve (sessionAfter s before) after := by
  intro s before
  induction before generalizing s with
  | nil => rfl
  | cons input before ih => exact congrArg (List.cons _) (ih _)

/-- A history cut at an exchange is a list of messages cut at its message. -/
theorem serve_split {s : OrderEntrySession} {inputs : List (DecodedMessage × List UInt8)}
    {us vs : List Exchange} {e : Exchange} (h : serve s inputs = us ++ e :: vs) :
    ∃ before msg out after, inputs = before ++ (msg, out) :: after ∧ us = serve s before ∧
      e = (sessionAfter s before).exchange msg out := by
  induction us generalizing s inputs with
  | nil =>
      cases inputs with
      | nil => cases h
      | cons input inputs =>
          obtain ⟨rfl, -⟩ := List.cons_eq_cons.mp h
          exact ⟨[], input.1, input.2, inputs, rfl, rfl, rfl⟩
  | cons e₀ us ih =>
      cases inputs with
      | nil => cases h
      | cons input inputs =>
          obtain ⟨rfl, hrest⟩ := List.cons_eq_cons.mp h
          obtain ⟨before, msg, out, after, rfl, rfl, rfl⟩ := ih hrest
          exact ⟨input :: before, msg, out, after, rfl, rfl, rfl⟩

/-- The messages are requests, and the buffers hold a frame. -/
def Requests (inputs : List (DecodedMessage × List UInt8)) : Prop :=
  ∀ i ∈ inputs, i.1.request.isSome ∧ i.2.length = kFrameSize

/-- The exchange `e` is what the exchanges before it call for. -/
structure Lawful (sessionId : UInt64) (history : List Exchange) (e : Exchange) : Prop where
  answered : ∃ r, e.request = some r ∧ e.reply = some (answer history r) ∧
    (e.keepOpen = false ↔
      r.payload = .logout ∧ r.header.sequenceNumber.toNat = 1 + inSequence history) ∧
    readHeader e.response =
      stamp (answer history r).type
        { e.message.header with
          sessionId := if sessionId = 0 then e.message.header.sessionId else sessionId }
  activeOrders : e.after.activeOrderCount.toNat + cancelledOrders (history ++ [e])
    = acceptedOrders (history ++ [e])

theorem DecodedMessage.request_isSome_iff {m : DecodedMessage} :
    m.request.isSome ↔
      m.type ∈ [MessageType.newOrder, .cancelOrder, .modifyOrder, .heartbeat, .logout] := by
  simp only [List.mem_cons, List.not_mem_nil, or_false]
  unfold DecodedMessage.request
  split_ifs <;> simp_all

theorem OrderEntrySession.sessionId_respond (s : OrderEntrySession) (r : Request) :
    (s.respond r).2.1.sessionId = s.sessionId := by
  by_cases hseq : r.header.sequenceNumber = s.expectedSequenceNumber
  · rw [s.respond_of_expected hseq]
    exact (s.advance.decides r.payload).sessionId
  · rw [s.respond_of_unexpected hseq]

theorem Tracks.lawful {history : List Exchange} {s : OrderEntrySession} {msg : DecodedMessage}
    {out : List UInt8} {r : Request} (h : Tracks history s) (hlen : history.length + 1 < 2 ^ 64)
    (hr : msg.request = some r) (hout : out.length = kFrameSize) :
    let e : Exchange := ⟨msg, (s.handleMessage msg out).1, (s.handleMessage msg out).2.2,
      (s.handleMessage msg out).2.1⟩
    Lawful s.sessionId history e ∧ Tracks (history ++ [e]) e.after := by
  intro e
  have hw := s.handleMessage_respond hr hout
  obtain ⟨hreply, htracks⟩ := h.respond hlen (e := e) hr hw.response.reply
  have hafter : e.after = (s.respond r).2.1 := hw.session
  rw [← hafter] at htracks
  refine ⟨⟨⟨r, hr, ?_, ?_, ?_⟩, ?_⟩, htracks⟩
  · rw [← hreply]
    exact hw.response.reply
  · have hkeep : e.keepOpen = (s.respond r).1 := hw.keepOpen
    rw [hkeep, ← h.sequence_iff hlen, OrderEntrySession.respond]
    split
    next hs => exact ⟨by simp, fun hl => absurd hl.2 hs⟩
    next hs =>
      rw [decide_eq_false_iff_not, not_not]
      exact ⟨fun hp => ⟨hp, not_not.mp hs⟩, fun hp => hp.1⟩
  · rw [← hreply]
    exact hw.response.header
  · have hle := acceptedOrders_le (history ++ [e])
    have hsize := htracks.size
    rw [List.length_append, List.length_singleton] at hle
    have hcount : e.after.activeOrderCount.toNat = e.after.orders.size :=
      UInt64.toNat_ofNat_of_lt' (by show e.after.orders.size < 2 ^ 64; omega)
    rw [hcount]
    exact hsize

theorem Tracks.serve {sessionId : UInt64} (inputs : List (DecodedMessage × List UInt8)) :
    ∀ {history : List Exchange} {s : OrderEntrySession}, Tracks history s →
      s.sessionId = sessionId → history.length + inputs.length < 2 ^ 64 →
      (∀ i ∈ inputs, i.1.request.isSome ∧ i.2.length = kFrameSize) →
      ∀ us e vs, OrderEntry.serve s inputs = us ++ e :: vs →
        Lawful sessionId (history ++ us) e := by
  induction inputs with
  | nil =>
      intro history s _ _ _ _ us e vs hsplit
      exact absurd hsplit (by simp [OrderEntry.serve])
  | cons input inputs ih =>
      intro history s h hid hlen hinputs us e vs hsplit
      obtain ⟨msg, out⟩ := input
      obtain ⟨hsome, hout⟩ := hinputs (msg, out) List.mem_cons_self
      obtain ⟨r, hr⟩ := Option.isSome_iff_exists.mp hsome
      rw [List.length_cons] at hlen
      obtain ⟨hlawful, htracks⟩ := h.lawful (by omega) hr hout
      rw [hid] at hlawful
      cases us with
      | nil =>
          obtain ⟨rfl, -⟩ := List.cons_eq_cons.mp hsplit
          rw [List.append_nil]
          exact hlawful
      | cons e₀ us =>
          obtain ⟨rfl, hrest⟩ := List.cons_eq_cons.mp hsplit
          have hid' : (s.handleMessage msg out).2.1.sessionId = sessionId := by
            rw [(s.handleMessage_respond hr hout).session, s.sessionId_respond, hid]
          have hlen' : (history ++ [(⟨msg, (s.handleMessage msg out).1,
              (s.handleMessage msg out).2.2, (s.handleMessage msg out).2.1⟩ : Exchange)]).length
              + inputs.length < 2 ^ 64 := by
            rw [List.length_append, List.length_singleton]
            omega
          have := ih htracks hid' hlen' (fun i hi => hinputs i (List.mem_cons_of_mem _ hi)) us e vs
            hrest
          rwa [List.append_assoc] at this

/-- **The session refines its history**: every message of a list shorter than
`2 ^ 64` is answered as the messages and responses before it call for. -/
theorem session_refines_history (sessionId : UInt64) (inputs : List (DecodedMessage × List UInt8))
    (htypes : ∀ i ∈ inputs,
      i.1.type ∈ [MessageType.newOrder, .cancelOrder, .modifyOrder, .heartbeat, .logout])
    (hbuffers : ∀ i ∈ inputs, i.2.length = kFrameSize) (hlen : inputs.length < 2 ^ 64) :
    (serve { sessionId := sessionId } inputs).map Exchange.message = inputs.map Prod.fst ∧
      ∀ us e vs, serve { sessionId := sessionId } inputs = us ++ e :: vs →
        Lawful sessionId us e := by
  refine ⟨?_, ?_⟩
  · generalize ({ sessionId := sessionId } : OrderEntrySession) = s
    clear htypes hbuffers hlen
    induction inputs generalizing s with
    | nil => rfl
    | cons input inputs ih => exact congrArg _ (ih _)
  · refine (tracks_fresh sessionId).serve inputs rfl (by rwa [List.length_nil, Nat.zero_add]) ?_
    intro i hi
    exact ⟨DecodedMessage.request_isSome_iff.mpr (htypes i hi), hbuffers i hi⟩

/-- A NewOrder and its cancel. -/
def enterAndCancel : List (DecodedMessage × List UInt8) :=
  [({ header := { sequenceNumber := 1 }, type := .newOrder,
      newOrder := { clientOrderId := 7, price := 10, quantity := 3 } },
      List.replicate kFrameSize 0),
    ({ header := { sequenceNumber := 2 }, type := .cancelOrder,
       cancelOrder := { clientOrderId := 7 } }, List.replicate kFrameSize 0)]

theorem session_refines_history_enterAndCancel :
    (serve { sessionId := 0 } enterAndCancel).map Exchange.message = enterAndCancel.map Prod.fst ∧
      ∀ us e vs, serve { sessionId := 0 } enterAndCancel = us ++ e :: vs → Lawful 0 us e :=
  session_refines_history 0 enterAndCancel (by decide) (by decide) (by decide)

end TradingGateway.OrderEntry
