/-
# `OrderEntry.Handles` — one handle for each accepted order

A handle is given out once: `next_order_handle_` counts up with every accepted NewOrder
and with nothing else.  So the handles of a session are read off the accepts alone.

| | |
| :-- | :-- |
| `entries` | the accepted NewOrders of a history, each an id with its handle |
| `lastHandle` | the handle of an id's most recent entry |

The n-th entry has handle n (`handles_eq_range`), as long as the counter does not come
round.  That makes entries with one handle one entry, and everything else follows from
it: a live id has the handle of its last entry (`lastHandle_of_live`), and what a cancel
ended is not heard of again.  The sequence numbers do not come into it, so that there is
no bound on the length of a history, only on its entries.
-/
import TradingGateway.OrderEntry.OrderHistory

namespace TradingGateway.OrderEntry

open Lib

/-! ## Entries -/

/-- The order that an exchange entered: its id and its handle. -/
def Exchange.entered (e : Exchange) : Option (UInt64 × UInt64) :=
  match e.reply with
  | some (.accepted id handle) => if e.message.type = .newOrder then some (id, handle) else none
  | _ => none

/-- The orders entered in a history. -/
def entries (history : List Exchange) : List (UInt64 × UInt64) :=
  history.filterMap Exchange.entered

/-- The handle of the most recent entry of the id. -/
def lastHandle (history : List Exchange) (id : UInt64) : Option UInt64 :=
  (entries history).reverse.lookup id

/-- The handle that a reply names. -/
def Reply.orderHandle : Reply → Option UInt64
  | accepted _ handle | cancelled _ handle | modified _ handle | trade _ handle _ _ => some handle
  | rejected _ _ => none

theorem Exchange.entered_eq_some_iff {e : Exchange} {id handle : UInt64} :
    e.entered = some (id, handle) ↔
      e.message.type = .newOrder ∧ e.reply = some (.accepted id handle) := by
  unfold Exchange.entered
  split
  next id' handle' hreply =>
    rw [hreply]
    split
    next ht =>
      constructor
      · intro h
        obtain ⟨rfl, rfl⟩ := Prod.mk.inj (Option.some.inj h)
        exact ⟨ht, rfl⟩
      · rintro ⟨-, h⟩
        obtain ⟨rfl, rfl⟩ := Reply.accepted.inj (Option.some.inj h)
        rfl
    next ht => exact ⟨nofun, fun h => absurd h.1 ht⟩
  next hne => exact ⟨nofun, fun h => absurd h.2 (hne id handle)⟩

theorem Exchange.isEntry_iff {e : Exchange} : e.IsEntry ↔ e.entered.isSome := by
  constructor
  · rintro ⟨ht, id, handle, hreply⟩
    rw [Exchange.entered_eq_some_iff.mpr ⟨ht, hreply⟩]
    rfl
  · intro h
    obtain ⟨⟨id, handle⟩, h⟩ := Option.isSome_iff_exists.mp h
    obtain ⟨ht, hreply⟩ := Exchange.entered_eq_some_iff.mp h
    exact ⟨ht, id, handle, hreply⟩

section Append

variable (us vs : List Exchange)

theorem entries_append : entries (us ++ vs) = entries us ++ entries vs := List.filterMap_append

theorem entries_snoc (e : Exchange) : entries (us ++ [e]) = entries us ++ e.entered.toList := by
  rw [entries_append, entries, entries]
  cases h : e.entered with
  | none => rw [List.filterMap_cons_none h]; rfl
  | some x => rw [List.filterMap_cons_some h]; rfl

theorem mem_entries_cons {e : Exchange} {x : UInt64 × UInt64} (h : e.entered = some x) :
    x ∈ entries (e :: vs) := by
  rw [entries, List.filterMap_cons_some h]
  exact List.mem_cons_self

theorem lastHandle_append (id : UInt64) :
    lastHandle (us ++ vs) id = (lastHandle vs id).or (lastHandle us id) := by
  rw [lastHandle, entries_append, List.reverse_append, List.lookup_append]
  rfl

theorem length_entries (history : List Exchange) :
    (entries history).length = acceptedOrders history := by
  induction history using List.reverseRecOn with
  | nil => rfl
  | append_singleton history e ih =>
      rw [entries_snoc, acceptedOrders_snoc, List.length_append, ih]
      congr 1
      simp only [Exchange.isEntry_iff]
      cases e.entered with
      | none => rfl
      | some x => rfl

end Append

section Last

variable {history : List Exchange} {id handle : UInt64}

theorem mem_entries_of_lastHandle (h : lastHandle history id = some handle) :
    (id, handle) ∈ entries history := by
  obtain ⟨newer, older, hsplit, -⟩ := List.lookup_eq_some_iff.mp h
  rw [← List.mem_reverse, hsplit]
  exact List.mem_append_right _ List.mem_cons_self

theorem lastHandle_of_mem_entries (h : (id, handle) ∈ entries history) :
    ∃ last, lastHandle history id = some last := by
  rw [← Option.isSome_iff_exists, lastHandle, List.lookup_isSome_iff]
  exact ⟨_, List.mem_reverse.mpr h, beq_self_eq_true id⟩

theorem lastHandle_singleton (e : Exchange) (id : UInt64) :
    lastHandle [e] id = e.entered.toList.lookup id := by
  rw [lastHandle, ← List.nil_append [e], entries_snoc, show entries [] = [] from rfl,
    List.nil_append]
  cases e.entered with
  | none => rfl
  | some x => rfl

theorem Exchange.orderEvent_of_not_entered {e : Exchange} (h : e.entered = none) (id : UInt64) :
    e.orderEvent id = none ∨ e.orderEvent id = some none := by
  unfold Exchange.entered at h
  unfold Exchange.orderEvent
  split
  next id' handle hreply =>
    rw [hreply] at h
    split_ifs at h with ht
    exact Or.inl (if_neg fun hid => ht hid.1)
  next =>
    split
    next => exact Or.inr rfl
    next => exact Or.inl rfl
  next => exact Or.inl rfl

theorem lastHandle_of_live (h : liveHandle history id = some handle) :
    lastHandle history id = some handle := by
  induction history using List.reverseRecOn with
  | nil => cases h
  | append_singleton history e ih =>
      rw [liveHandle_snoc] at h
      rw [lastHandle_append, lastHandle_singleton]
      cases he : e.entered with
      | none =>
          rcases e.orderEvent_of_not_entered he id with hev | hev
          · rw [hev] at h
            exact ih h
          · rw [hev] at h
            cases h
      | some x =>
          obtain ⟨id', handle'⟩ := x
          obtain ⟨ht, hreply⟩ := Exchange.entered_eq_some_iff.mp he
          have hev : e.orderEvent id = if id' = id then some (some handle') else none := by
            simp only [Exchange.orderEvent, hreply, ht, true_and]
          rw [hev] at h
          by_cases hid : id' = id
          · rw [if_pos hid] at h
            rw [hid, Option.toList_some, List.lookup_cons_self]
            exact h
          · rw [if_neg hid] at h
            have hnone : [(id', handle')].lookup id = none := by
              rw [List.lookup_eq_none_iff]
              intro p hp
              rw [List.mem_singleton.mp hp]
              exact bne_iff_ne.mpr (Ne.symm hid)
            rw [Option.toList_some, hnone]
            exact ih h

end Last

/-! ## One message -/

/-- The reply to a message, sequence numbers aside: it was out of sequence, or it is
the answer that the history calls for. -/
def OrderLaw (history : List Exchange) (e : Exchange) : Prop :=
  ∃ r, e.request = some r ∧
    ((∃ id, e.reply = some (.rejected id .badSequence)) ∨
      e.reply = some (answerPayload history r.payload))

theorem TracksOrders.exchange {history : List Exchange} {s : OrderEntrySession}
    (h : TracksOrders history s) {msg : DecodedMessage} (hsome : msg.request.isSome)
    {out : List UInt8} (hout : out.length = kFrameSize) :
    OrderLaw history (s.exchange msg out) ∧
      TracksOrders (history ++ [s.exchange msg out]) (s.exchange msg out).after := by
  obtain ⟨r, hr⟩ := Option.isSome_iff_exists.mp hsome
  obtain ⟨hreply, hafter⟩ := s.exchange_respond hr hout
  rw [hafter]
  by_cases hseq : r.header.sequenceNumber = s.expectedSequenceNumber
  · rw [s.respond_of_expected hseq] at hreply ⊢
    obtain ⟨hanswer, htracks⟩ :=
      h.advance.decideOrder r.payload (newOrder_iff_of_request hr) hreply
    exact ⟨⟨r, hr, Or.inr (hreply.trans (congrArg some hanswer))⟩, htracks⟩
  · rw [s.respond_of_unexpected hseq] at hreply ⊢
    exact ⟨⟨r, hr, Or.inl ⟨_, hreply⟩⟩, h.neutral (Exchange.neutral_of_rejected hreply)⟩

/-- The handle in an answer is new, or 0, or a live one. -/
theorem answerPayload_handle (history : List Exchange) (payload : Payload) :
    match answerPayload history payload with
    | .accepted _ handle => (∃ order, payload = .newOrder order) ∨ handle = 0
    | .cancelled id handle | .modified id handle => liveHandle history id = some handle
    | .rejected _ _ => True
    | .trade _ _ _ _ => False := by
  cases payload with
  | newOrder order =>
      rw [answerPayload]
      split_ifs
      · trivial
      · trivial
      · trivial
      · exact Or.inl ⟨order, rfl⟩
  | cancelOrder id =>
      rw [answerPayload]
      cases hlive : liveHandle history id with
      | none => trivial
      | some handle => exact hlive
  | modifyOrder id newPrice newQuantity =>
      rw [answerPayload]
      cases hlive : liveHandle history id with
      | none => trivial
      | some handle =>
          dsimp only
          split_ifs
          · trivial
          · trivial
          · exact hlive
  | heartbeat | logout => exact Or.inr rfl

/-! ## A whole session -/

section Served

variable {s : OrderEntrySession} {inputs : List (DecodedMessage × List UInt8)}
  (fresh : TracksOrders [] s)

include fresh

/-- The orders of a session are those of its history, however long it is. -/
theorem tracksOrders_serve (h : Requests inputs) :
    TracksOrders (serve s inputs) (sessionAfter s inputs) := by
  induction inputs using List.reverseRecOn with
  | nil => exact fresh
  | append_singleton inputs input ih =>
      obtain ⟨hsome, hout⟩ := h input (List.mem_append_right _ List.mem_cons_self)
      rw [serve_snoc, sessionAfter_snoc]
      exact ((ih fun i hi => h i (List.mem_append_left _ hi)).exchange hsome hout).2

theorem orderLaw_serve (h : Requests inputs) {us vs : List Exchange} {e : Exchange}
    (hsplit : serve s inputs = us ++ e :: vs) : OrderLaw us e := by
  obtain ⟨before, msg, out, after, rfl, rfl, rfl⟩ := serve_split hsplit
  obtain ⟨hsome, hout⟩ := h (msg, out) (List.mem_append_right _ List.mem_cons_self)
  exact ((tracksOrders_serve fresh fun i hi => h i (List.mem_append_left _ hi)).exchange hsome
    hout).1

end Served

/-! ## Handles in a lawful history -/

/-- Every reply is the one the exchanges before it call for, and the handles have not
run out. -/
structure Lawfully (history : List Exchange) : Prop where
  law : ∀ us e vs, history = us ++ e :: vs → OrderLaw us e
  bounded : acceptedOrders history < 2 ^ 64 - 1

namespace Lawfully

variable {history us vs : List Exchange} {e : Exchange} {id handle : UInt64}

theorem of_append (h : Lawfully (us ++ vs)) : Lawfully us where
  law := by
    rintro us e ws rfl
    exact h.law us e (ws ++ vs) (List.append_assoc _ _ _)
  bounded := by
    refine Nat.lt_of_le_of_lt ?_ h.bounded
    rw [← length_entries, ← length_entries, entries_append, List.length_append]
    exact Nat.le_add_right _ _

theorem handle_of_entered (h : Lawfully (us ++ e :: vs)) (he : e.entered = some (id, handle)) :
    handle.toNat = 1 + (entries us).length := by
  obtain ⟨ht, hreply⟩ := Exchange.entered_eq_some_iff.mp he
  obtain ⟨r, hr, ⟨id', hbad⟩ | hanswer⟩ := h.law us e vs rfl
  · cases hreply.symm.trans hbad
  obtain ⟨order, horder⟩ := (newOrder_iff_of_request hr).mp ht
  have hreply := Option.some.inj (hreply.symm.trans hanswer)
  rw [horder, answerPayload] at hreply
  split_ifs at hreply
  obtain ⟨-, rfl⟩ := Reply.accepted.inj hreply
  have hbound := h.bounded
  rw [← length_entries, entries_append, List.length_append] at hbound
  rw [length_entries] at hbound ⊢
  exact UInt64.toNat_ofNat_of_lt' (by show 1 + acceptedOrders us < 2 ^ 64; omega)

/-- **The handles are 1, 2, 3 and so on**, in the order of the accepts. -/
theorem handles_eq_range (h : Lawfully history) :
    (entries history).map (fun x => x.2.toNat) = List.range' 1 (entries history).length := by
  induction history using List.reverseRecOn with
  | nil => rfl
  | append_singleton history e ih =>
      have ih := ih h.of_append
      rw [entries_snoc, List.map_append, List.length_append, ih]
      cases he : e.entered with
      | none => rw [Option.toList_none, List.map_nil, List.append_nil]; rfl
      | some x =>
          rw [Option.toList_some, List.map_singleton, h.handle_of_entered he, List.length_singleton,
            List.range'_concat, Nat.one_mul]

theorem nodup_handles (h : Lawfully history) : ((entries history).map Prod.snd).Nodup := by
  have hrange : (((entries history).map Prod.snd).map UInt64.toNat).Nodup := by
    rw [List.map_map]
    exact h.handles_eq_range ▸ List.nodup_range'
  exact hrange.of_map

theorem toNat_handle (h : Lawfully history) {x : UInt64 × UInt64} (hx : x ∈ entries history) :
    1 ≤ x.2.toNat ∧ x.2.toNat ≤ acceptedOrders history := by
  have hmem : x.2.toNat ∈ List.range' 1 (entries history).length :=
    h.handles_eq_range ▸ List.mem_map_of_mem hx
  obtain ⟨hle, hlt⟩ := List.mem_range'_1.mp hmem
  rw [length_entries] at hlt
  omega

theorem entry_unique (h : Lawfully history) {x y : UInt64 × UInt64} (hx : x ∈ entries history)
    (hy : y ∈ entries history) (heq : x.2 = y.2) : x = y :=
  List.inj_on_of_nodup_map h.nodup_handles hx hy heq

theorem entries_apart (h : Lawfully (us ++ vs)) {x y : UInt64 × UInt64} (hx : x ∈ entries us)
    (hy : y ∈ entries vs) : x.2 ≠ y.2 := by
  have hnodup := h.nodup_handles
  rw [entries_append, List.map_append] at hnodup
  intro heq
  exact List.disjoint_of_nodup_append hnodup (List.mem_map_of_mem hx)
    (heq ▸ List.mem_map_of_mem hy)

/-- A cancel and a modify name the handle of the order's last entry. -/
theorem lastHandle_of_reply (h : Lawfully (us ++ e :: vs))
    (hreply : e.reply = some (.cancelled id handle) ∨ e.reply = some (.modified id handle)) :
    lastHandle us id = some handle := by
  obtain ⟨r, -, ⟨id', hbad⟩ | hanswer⟩ := h.law us e vs rfl
  · rcases hreply with hreply | hreply
    · cases hreply.symm.trans hbad
    · cases hreply.symm.trans hbad
  have hlive := answerPayload_handle us r.payload
  rcases hreply with hreply | hreply
  · rw [Option.some.inj (hanswer.symm.trans hreply)] at hlive
    exact lastHandle_of_live hlive
  · rw [Option.some.inj (hanswer.symm.trans hreply)] at hlive
    exact lastHandle_of_live hlive

theorem reply_of_handle (h : Lawfully (us ++ e :: vs)) {x : UInt64 × UInt64}
    (hx : x ∈ entries us) {reply : Reply} (hreply : e.reply = some reply)
    (hhandle : reply.orderHandle = some x.2) : lastHandle us x.1 = some x.2 := by
  have hpos := (h.of_append.toNat_handle hx).1
  have hlast : ∀ id, lastHandle us id = some x.2 → lastHandle us x.1 = some x.2 := by
    intro id hid
    have hsame := h.of_append.entry_unique hx (mem_entries_of_lastHandle hid) rfl
    have hfst : x.1 = id := congrArg Prod.fst hsame
    rw [hfst]
    exact hid
  obtain ⟨r, hr, ⟨id', hbad⟩ | hanswer⟩ := h.law us e vs rfl
  · obtain rfl := Option.some.inj (hreply.symm.trans hbad)
    cases hhandle
  have hanswers := answerPayload_handle us r.payload
  rw [Option.some.inj (hanswer.symm.trans hreply)] at hanswers
  cases reply with
  | accepted id handle =>
      obtain rfl := Option.some.inj hhandle
      rcases hanswers with ⟨order, horder⟩ | hzero
      · have htype : e.message.type = .newOrder :=
          (newOrder_iff_of_request hr).mpr ⟨order, horder⟩
        have he := mem_entries_cons vs (Exchange.entered_eq_some_iff.mpr ⟨htype, hreply⟩)
        exact (h.entries_apart hx he rfl).elim
      · rw [hzero] at hpos
        exact absurd hpos (by decide)
  | rejected id reason => cases hhandle
  | cancelled id handle =>
      obtain rfl := Option.some.inj hhandle
      exact hlast id (h.lastHandle_of_reply (Or.inl hreply))
  | modified id handle =>
      obtain rfl := Option.some.inj hhandle
      exact hlast id (h.lastHandle_of_reply (Or.inr hreply))
  | trade id handle price quantity => exact hanswers.elim

/-- **The handle of an order that was entered again is not named again.** -/
theorem old_handle_gone (h : Lawfully (us ++ e :: vs)) {old : UInt64}
    (hold : (id, old) ∈ entries us) (he : e.entered = some (id, handle)) {e' : Exchange}
    (he' : e' ∈ e :: vs) {reply : Reply} (hreply : e'.reply = some reply) :
    reply.orderHandle ≠ some old := by
  intro hhandle
  obtain ⟨ws, xs, hsplit⟩ := List.append_of_mem he'
  rw [hsplit] at h
  cases ws with
  | nil =>
      -- the entry itself: its handle would be the old one
      obtain ⟨rfl, -⟩ := List.cons_eq_cons.mp hsplit
      rw [(Exchange.entered_eq_some_iff.mp he).2] at hreply
      obtain rfl := Option.some.inj hreply
      obtain rfl := Option.some.inj hhandle
      exact absurd rfl (h.entries_apart hold (mem_entries_cons xs he))
  | cons e₁ ws =>
      -- behind it the last handle of the id is at least as new as the entry's
      obtain ⟨rfl, -⟩ := List.cons_eq_cons.mp hsplit
      rw [← List.append_assoc] at h
      have hmem : (id, old) ∈ entries (us ++ e :: ws) := by
        rw [entries_append]
        exact List.mem_append_left _ hold
      have hlast := h.reply_of_handle hmem hreply hhandle
      obtain ⟨newest, hnewest⟩ := lastHandle_of_mem_entries (mem_entries_cons ws he)
      rw [lastHandle_append, hnewest] at hlast
      obtain rfl := Option.some.inj hlast
      exact absurd rfl (h.of_append.entries_apart hold (mem_entries_of_lastHandle hnewest))

end Lawfully

/-! ## Handles in a session -/

/-- Live ids have handles of their own, all of them given out. -/
structure HandlesApart (s : OrderEntrySession) : Prop where
  injective : ∀ id id' handle, s.orders.find id = some handle → s.orders.find id' = some handle →
    id = id'
  below : ∀ id handle, s.orders.find id = some handle → handle < s.nextOrderHandle

theorem TracksOrders.handlesApart {history : List Exchange} {s : OrderEntrySession}
    (h : TracksOrders history s) (hlaw : Lawfully history) : HandlesApart s where
  injective := by
    intro id id' handle hid hid'
    rw [h.orders] at hid hid'
    have hmem := mem_entries_of_lastHandle (lastHandle_of_live hid)
    have hmem' := mem_entries_of_lastHandle (lastHandle_of_live hid')
    exact congrArg Prod.fst (hlaw.entry_unique hmem hmem' rfl)
  below := by
    intro id handle hid
    rw [h.orders] at hid
    have hmem := mem_entries_of_lastHandle (lastHandle_of_live hid)
    have hle := (hlaw.toNat_handle hmem).2
    have hbound := hlaw.bounded
    rw [UInt64.lt_iff_toNat_lt, h.nextHandle,
      UInt64.toNat_ofNat_of_lt' (by show 1 + acceptedOrders history < 2 ^ 64; omega)]
    dsimp only at hle
    omega

/-- **Handles identify orders**: in every session of fewer than `2 ^ 64 - 1` accepted
orders, however many messages it answers. -/
theorem handles_identify_orders (sessionId : UInt64) (inputs : List (DecodedMessage × List UInt8))
    (htypes : ∀ i ∈ inputs,
      i.1.type ∈ [MessageType.newOrder, .cancelOrder, .modifyOrder, .heartbeat, .logout])
    (hbuffers : ∀ i ∈ inputs, i.2.length = kFrameSize)
    (hcount : acceptedOrders (serve { sessionId := sessionId } inputs) < 2 ^ 64 - 1) :
    let history := serve { sessionId := sessionId } inputs
    ((entries history).map fun x => x.2.toNat) = List.range' 1 (acceptedOrders history) ∧
    (∀ x ∈ entries history, x.2 ≠ 0) ∧ ((entries history).map Prod.snd).Nodup ∧
    (∀ before after, inputs = before ++ after →
      HandlesApart (sessionAfter { sessionId := sessionId } before)) ∧
    (∀ us e vs id handle, history = us ++ e :: vs →
      e.reply = some (.cancelled id handle) ∨ e.reply = some (.modified id handle) →
        lastHandle us id = some handle) ∧
    ∀ us e vs id old handle, history = us ++ e :: vs → (id, old) ∈ entries us →
      e.entered = some (id, handle) → ∀ e' ∈ e :: vs, ∀ reply, e'.reply = some reply →
        reply.orderHandle ≠ some old := by
  intro history
  have hrequests : Requests inputs := fun i hi =>
    ⟨DecodedMessage.request_isSome_iff.mpr (htypes i hi), hbuffers i hi⟩
  have fresh := (tracks_fresh sessionId).toTracksOrders
  have hlaw : Lawfully history :=
    ⟨fun us e vs hsplit => orderLaw_serve fresh hrequests hsplit, hcount⟩
  refine ⟨?_, ?_, hlaw.nodup_handles, ?_, ?_, ?_⟩
  · rw [← length_entries]
    exact hlaw.handles_eq_range
  · intro x hx hzero
    have hpos := (hlaw.toNat_handle hx).1
    rw [hzero] at hpos
    exact absurd hpos (by decide)
  · intro before after hsplit
    have hbefore : Requests before := fun i hi =>
      hrequests i (hsplit ▸ List.mem_append_left _ hi)
    have hcut : history = serve { sessionId := sessionId } before
        ++ serve (sessionAfter { sessionId := sessionId } before) after := by
      rw [← serve_append after, ← hsplit]
    rw [hcut] at hlaw
    exact (tracksOrders_serve fresh hbefore).handlesApart hlaw.of_append
  · intro us e vs id handle hsplit hreply
    exact (hsplit ▸ hlaw).lastHandle_of_reply hreply
  · intro us e vs id old handle hsplit hold he e' he' reply hreply
    exact (hsplit ▸ hlaw).old_handle_gone hold he he' hreply

/-- An order, its cancel, and the id entered again. -/
def enterAgain : List (DecodedMessage × List UInt8) :=
  enterAndCancel ++
    [({ header := { sequenceNumber := 3 }, type := .newOrder,
        newOrder := { clientOrderId := 7, price := 11, quantity := 3 } },
        List.replicate kFrameSize 0)]

theorem handles_identify_orders_enterAgain :
    let history := serve { sessionId := 0 } enterAgain
    ((entries history).map fun x => x.2.toNat) = List.range' 1 (acceptedOrders history) ∧
    (∀ x ∈ entries history, x.2 ≠ 0) ∧ ((entries history).map Prod.snd).Nodup ∧
    (∀ before after, enterAgain = before ++ after →
      HandlesApart (sessionAfter { sessionId := 0 } before)) ∧
    (∀ us e vs id handle, history = us ++ e :: vs →
      e.reply = some (.cancelled id handle) ∨ e.reply = some (.modified id handle) →
        lastHandle us id = some handle) ∧
    ∀ us e vs id old handle, history = us ++ e :: vs → (id, old) ∈ entries us →
      e.entered = some (id, handle) → ∀ e' ∈ e :: vs, ∀ reply, e'.reply = some reply →
        reply.orderHandle ≠ some old := by
  refine handles_identify_orders 0 enterAgain (by decide) (by decide) ?_
  exact Nat.lt_of_le_of_lt (acceptedOrders_le _) (by decide)

end TradingGateway.OrderEntry
