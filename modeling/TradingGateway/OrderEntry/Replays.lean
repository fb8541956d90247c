/-
# `OrderEntry.Replays` — messages out of sequence, and rejects

What a message can change of a session depends on how it is answered:

| answer | session |
| :-- | :-- |
| Rejected(BadSequence) | as before |
| Rejected for another reason | one sequence number consumed, nothing else |
| any other | what the order calls for |

The first row is why the messages out of sequence can be left out of a history
(`serve_kept`): both histories go through the same sessions, in lock step but for the
messages left out.  A number that was consumed is behind the expected one from then on,
until the counter comes round after `2 ^ 64` messages, so whatever bears it again falls
under the first row (`replay_rejected`).
-/
import TradingGateway.Lib.Counters
import TradingGateway.OrderEntry.OrderHistory
import TradingGateway.OrderEntry.SessionResponses

namespace TradingGateway.OrderEntry

namespace Exchange

/-- The message was rejected for its sequence number. -/
def badSequence (e : Exchange) : Bool :=
  match e.reply with
  | some (.rejected _ reason) => decide (reason = .badSequence)
  | _ => false

theorem badSequence_iff {e : Exchange} :
    e.badSequence = true ↔ ∃ id, e.reply = some (.rejected id .badSequence) := by
  unfold badSequence
  split
  next id reason hreply =>
    rw [decide_eq_true_iff, hreply]
    constructor
    · rintro rfl
      exact ⟨id, rfl⟩
    · rintro ⟨id', h⟩
      exact (Reply.rejected.inj (Option.some.inj h)).2
  next hne => exact ⟨nofun, fun ⟨id, h⟩ => absurd h (hne id _)⟩

end Exchange

/-! ## One message -/

namespace OrderEntrySession

variable {s : OrderEntrySession} {msg : DecodedMessage} {out : List UInt8}
  (hsome : msg.request.isSome) (hout : out.length = kFrameSize)

include hsome hout

theorem exchange_badSequence_iff :
    (s.exchange msg out).badSequence = true ↔
      msg.header.sequenceNumber ≠ s.expectedSequenceNumber := by
  obtain ⟨r, hr⟩ := Option.isSome_iff_exists.mp hsome
  rw [Exchange.badSequence_iff, ← (header_of_request hr).1, ← s.respond_badSequence_iff,
    (s.exchange_respond hr hout).1]
  exact exists_congr fun id => Option.some_inj

theorem after_of_badSequence (h : (s.exchange msg out).badSequence = true) :
    (s.exchange msg out).after = s := by
  obtain ⟨r, hr⟩ := Option.isSome_iff_exists.mp hsome
  have hseq := (exchange_badSequence_iff hsome hout).mp h
  show (s.handleMessage msg out).2.1 = s
  rw [handleMessage_of_badSequence hr hseq]

theorem expected_of_inSequence (h : msg.header.sequenceNumber = s.expectedSequenceNumber) :
    (s.exchange msg out).after.expectedSequenceNumber = s.expectedSequenceNumber + 1 := by
  obtain ⟨r, hr⟩ := Option.isSome_iff_exists.mp hsome
  rw [(s.exchange_respond hr hout).2, expected_respond, (header_of_request hr).1, if_pos h]

/-- A reject for another reason consumes the number and changes nothing else. -/
theorem after_of_rejected {id : UInt64} {reason : RejectReason}
    (h : (s.exchange msg out).reply = some (.rejected id reason)) (hne : reason ≠ .badSequence) :
    (s.exchange msg out).after
      = { s with expectedSequenceNumber := s.expectedSequenceNumber + 1 } := by
  obtain ⟨r, hr⟩ := Option.isSome_iff_exists.mp hsome
  obtain ⟨hreply, hafter⟩ := s.exchange_respond hr hout
  have hreply := Option.some.inj (hreply.symm.trans h)
  rw [hafter]
  by_cases hseq : r.header.sequenceNumber = s.expectedSequenceNumber
  · rw [s.respond_of_expected hseq] at hreply ⊢
    exact (hreply ▸ s.advance.decides r.payload).eq_of_rejected
  · rw [s.respond_of_unexpected hseq] at hreply
    exact absurd (Reply.rejected.inj hreply).2.symm hne

end OrderEntrySession

/-! ## Histories without the messages out of sequence -/

/-- The exchanges of a history whose messages were in sequence. -/
def consumed (history : List Exchange) : List Exchange := history.filter fun e => !e.badSequence

/-- **The messages out of sequence can be left out**: the rest are answered as before, in
whatever buffers, and the session ends in the same state. -/
theorem serve_kept {inputs : List (DecodedMessage × List UInt8)} (h : Requests inputs) :
    ∀ {s : OrderEntrySession} {kept : List (DecodedMessage × List UInt8)},
      (∀ i ∈ kept, i.2.length = kFrameSize) →
      kept.map Prod.fst = (consumed (serve s inputs)).map Exchange.message →
      serve s kept = consumed (serve s inputs) ∧ sessionAfter s kept = sessionAfter s inputs := by
  induction inputs with
  | nil =>
      intro s kept _ hkept
      obtain rfl := List.map_eq_nil_iff.mp hkept
      exact ⟨rfl, rfl⟩
  | cons input inputs ih =>
      obtain ⟨msg, out⟩ := input
      obtain ⟨hsome, hout⟩ := h (msg, out) List.mem_cons_self
      have ih := @ih fun i hi => h i (List.mem_cons_of_mem _ hi)
      intro s kept hbuffers hkept
      have hserve : serve s ((msg, out) :: inputs)
          = s.exchange msg out :: serve (s.exchange msg out).after inputs := rfl
      have hafter : sessionAfter s ((msg, out) :: inputs)
          = sessionAfter (s.exchange msg out).after inputs := rfl
      rw [hserve] at hkept ⊢
      rw [hafter]
      cases hbad : (s.exchange msg out).badSequence with
      | true =>
          have hdrop : ∀ es, consumed (s.exchange msg out :: es) = consumed es := fun es =>
            List.filter_cons_of_neg (by rw [hbad]; decide)
          rw [hdrop] at hkept ⊢
          rw [OrderEntrySession.after_of_badSequence hsome hout hbad] at hkept ⊢
          exact ih hbuffers hkept
      | false =>
          have hkeep : ∀ es, consumed (s.exchange msg out :: es)
              = s.exchange msg out :: consumed es := fun es =>
            List.filter_cons_of_pos (by rw [hbad]; rfl)
          rw [hkeep] at hkept ⊢
          obtain ⟨⟨msg', out'⟩, kept, rfl, hmsg, hrest⟩ := List.map_eq_cons_iff.mp hkept
          obtain rfl : msg' = msg := hmsg
          obtain ⟨r, hr⟩ := Option.isSome_iff_exists.mp hsome
          have hsame : s.handleMessage msg' out' = s.handleMessage msg' out :=
            OrderEntrySession.handleMessage_congr hr hr hout (hbuffers _ List.mem_cons_self)
          have hexchange : s.exchange msg' out' = s.exchange msg' out := by
            rw [OrderEntrySession.exchange, hsame]
            rfl
          have hserve' : serve s ((msg', out') :: kept)
              = s.exchange msg' out' :: serve (s.exchange msg' out').after kept := rfl
          have hafter' : sessionAfter s ((msg', out') :: kept)
              = sessionAfter (s.exchange msg' out').after kept := rfl
          obtain ⟨hkept, hend⟩ := ih (fun i hi => hbuffers i (List.mem_cons_of_mem _ hi)) hrest
          rw [hserve', hafter', hexchange, hkept, hend]
          exact ⟨rfl, rfl⟩

/-! ## Numbers that were consumed -/

/-- The expected number goes up by at most one a message. -/
theorem expected_sessionAfter {inputs : List (DecodedMessage × List UInt8)} (h : Requests inputs) :
    ∀ s : OrderEntrySession, ∃ k ≤ inputs.length,
      (sessionAfter s inputs).expectedSequenceNumber = s.expectedSequenceNumber + UInt64.ofNat k := by
  induction inputs with
  | nil =>
      intro s
      exact ⟨0, le_rfl, (UInt64.add_zero _).symm⟩
  | cons input inputs ih =>
      obtain ⟨msg, out⟩ := input
      obtain ⟨hsome, hout⟩ := h (msg, out) List.mem_cons_self
      intro s
      obtain ⟨k, hk, heq⟩ :=
        ih (fun i hi => h i (List.mem_cons_of_mem _ hi)) (s.exchange msg out).after
      have hafter : sessionAfter s ((msg, out) :: inputs)
          = sessionAfter (s.exchange msg out).after inputs := rfl
      rw [hafter, heq, List.length_cons]
      by_cases hseq : msg.header.sequenceNumber = s.expectedSequenceNumber
      · refine ⟨1 + k, by omega, ?_⟩
        rw [OrderEntrySession.expected_of_inSequence hsome hout hseq, UInt64.ofNat_add,
          ← UInt64.add_assoc]
        rfl
      · refine ⟨k, Nat.le_succ_of_le hk, ?_⟩
        have hbad := (OrderEntrySession.exchange_badSequence_iff hsome hout).mpr hseq
        rw [OrderEntrySession.after_of_badSequence hsome hout hbad]

/-- **A number that was consumed is not consumed again.** -/
theorem replay_rejected {s : OrderEntrySession} {msg msg' : DecodedMessage} {out out' : List UInt8}
    {middle : List (DecodedMessage × List UInt8)}
    (h : Requests ((msg, out) :: (middle ++ [(msg', out')]))) (hlen : middle.length + 1 < 2 ^ 64)
    (hgood : (s.exchange msg out).badSequence = false)
    (hsame : msg'.header.sequenceNumber = msg.header.sequenceNumber) :
    ((sessionAfter s ((msg, out) :: middle)).exchange msg' out').badSequence = true := by
  obtain ⟨hsome, hout⟩ := h (msg, out) List.mem_cons_self
  obtain ⟨hsome', hout'⟩ := h (msg', out')
    (List.mem_cons_of_mem _ (List.mem_append_right _ List.mem_cons_self))
  have hseq : msg.header.sequenceNumber = s.expectedSequenceNumber := by
    by_contra hne
    rw [(OrderEntrySession.exchange_badSequence_iff hsome hout).mpr hne] at hgood
    cases hgood
  obtain ⟨k, hk, heq⟩ := expected_sessionAfter
    (fun i hi => h i (List.mem_cons_of_mem _ (List.mem_append_left _ hi))) (s.exchange msg out).after
  have hafter : sessionAfter s ((msg, out) :: middle)
      = sessionAfter (s.exchange msg out).after middle := rfl
  rw [OrderEntrySession.exchange_badSequence_iff hsome' hout', hsame, hseq, hafter, heq,
    OrderEntrySession.expected_of_inSequence hsome hout hseq]
  intro hwrap
  -- the counter would have to come round between the two
  have hzero : UInt64.ofNat 0 = UInt64.ofNat (1 + k) := by
    rw [UInt64.add_assoc] at hwrap
    rw [UInt64.ofNat_add]
    exact (UInt64.left_eq_add.mp hwrap).symm
  have hk : 0 = 1 + k := (Lib.Counters.ofNat_eq_iff (Nat.zero_le _) (by omega)).mp hzero
  exact absurd hk (by omega)

/-! ## A whole session -/

theorem sessionAfter_append (s : OrderEntrySession)
    (before after : List (DecodedMessage × List UInt8)) :
    sessionAfter s (before ++ after) = sessionAfter (sessionAfter s before) after :=
  List.foldl_append

/-- **A session is immune to replays and gaps, and its rejects are atomic**: in every
history of fewer than `2 ^ 64` messages. -/
theorem session_immune (sessionId : UInt64) (inputs : List (DecodedMessage × List UInt8))
    (htypes : ∀ i ∈ inputs,
      i.1.type ∈ [MessageType.newOrder, .cancelOrder, .modifyOrder, .heartbeat, .logout])
    (hbuffers : ∀ i ∈ inputs, i.2.length = kFrameSize) (hlen : inputs.length < 2 ^ 64) :
    let s : OrderEntrySession := { sessionId := sessionId }
    (∀ kept : List (DecodedMessage × List UInt8), (∀ i ∈ kept, i.2.length = kFrameSize) →
      kept.map Prod.fst = (consumed (serve s inputs)).map Exchange.message →
        serve s kept = consumed (serve s inputs) ∧ sessionAfter s kept = sessionAfter s inputs) ∧
    (∀ before msg out middle msg' out' after,
      inputs = before ++ (msg, out) :: (middle ++ (msg', out') :: after) →
        ((sessionAfter s before).exchange msg out).badSequence = false →
          msg'.header.sequenceNumber = msg.header.sequenceNumber →
            let later := sessionAfter s (before ++ (msg, out) :: middle)
            (later.exchange msg' out').badSequence = true ∧
              (later.exchange msg' out').after = later) ∧
    ∀ before msg out after id reason, inputs = before ++ (msg, out) :: after →
      let now := sessionAfter s before
      (now.exchange msg out).reply = some (.rejected id reason) → reason ≠ .badSequence →
        (now.exchange msg out).after
          = { now with expectedSequenceNumber := now.expectedSequenceNumber + 1 } := by
  intro s
  have hrequests : Requests inputs := fun i hi =>
    ⟨DecodedMessage.request_isSome_iff.mpr (htypes i hi), hbuffers i hi⟩
  refine ⟨fun kept => serve_kept hrequests, ?_, ?_⟩
  · intro before msg out middle msg' out' after hsplit hgood hsame later
    have hpart : Requests ((msg, out) :: (middle ++ [(msg', out')])) := by
      intro i hi
      refine hrequests i (hsplit ▸ List.mem_append_right _ ?_)
      rcases List.mem_cons.mp hi with rfl | hi
      · exact List.mem_cons_self
      · refine List.mem_cons_of_mem _ ?_
        rcases List.mem_append.mp hi with hi | hi
        · exact List.mem_append_left _ hi
        · rw [List.mem_singleton.mp hi]
          exact List.mem_append_right _ List.mem_cons_self
    have hshort : middle.length + 1 < 2 ^ 64 := by
      refine Nat.lt_of_le_of_lt ?_ hlen
      rw [hsplit]
      simp only [List.length_append, List.length_cons]
      omega
    obtain ⟨hsome', hout'⟩ := hpart (msg', out')
      (List.mem_cons_of_mem _ (List.mem_append_right _ List.mem_cons_self))
    have hbad : (later.exchange msg' out').badSequence = true := by
      show ((sessionAfter s (before ++ (msg, out) :: middle)).exchange msg' out').badSequence = true
      rw [sessionAfter_append]
      exact replay_rejected hpart hshort hgood hsame
    exact ⟨hbad, OrderEntrySession.after_of_badSequence hsome' hout' hbad⟩
  · intro before msg out after id reason hsplit now hreply hne
    obtain ⟨hsome, hout⟩ := hrequests (msg, out)
      (hsplit ▸ List.mem_append_right _ List.mem_cons_self)
    exact OrderEntrySession.after_of_rejected hsome hout hreply hne

/-- An order, the same again, and its cancel. -/
def enterTwice : List (DecodedMessage × List UInt8) :=
  [({ header := { sequenceNumber := 1 }, type := .newOrder,
      newOrder := { clientOrderId := 7, price := 10, quantity := 3 } },
      List.replicate kFrameSize 0),
    ({ header := { sequenceNumber := 1 }, type := .newOrder,
       newOrder := { clientOrderId := 7, price := 10, quantity := 3 } },
      List.replicate kFrameSize 255),
    ({ header := { sequenceNumber := 2 }, type := .cancelOrder,
       cancelOrder := { clientOrderId := 7 } }, List.replicate kFrameSize 0)]

theorem session_immune_enterTwice :
    let s : OrderEntrySession := { sessionId := 0 }
    (∀ kept : List (DecodedMessage × List UInt8), (∀ i ∈ kept, i.2.length = kFrameSize) →
      kept.map Prod.fst = (consumed (serve s enterTwice)).map Exchange.message →
        serve s kept = consumed (serve s enterTwice) ∧
          sessionAfter s kept = sessionAfter s enterTwice) ∧
    (∀ before msg out middle msg' out' after,
      enterTwice = before ++ (msg, out) :: (middle ++ (msg', out') :: after) →
        ((sessionAfter s before).exchange msg out).badSequence = false →
          msg'.header.sequenceNumber = msg.header.sequenceNumber →
            let later := sessionAfter s (before ++ (msg, out) :: middle)
            (later.exchange msg' out').badSequence = true ∧
              (later.exchange msg' out').after = later) ∧
    ∀ before msg out after id reason, enterTwice = before ++ (msg, out) :: after →
      let now := sessionAfter s before
      (now.exchange msg out).reply = some (.rejected id reason) → reason ≠ .badSequence →
        (now.exchange msg out).after
          = { now with expectedSequenceNumber := now.expectedSequenceNumber + 1 } :=
  session_immune 0 enterTwice (by decide) (by decide) (by decide)

end TradingGateway.OrderEntry
