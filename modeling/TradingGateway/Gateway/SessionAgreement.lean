/-
# `Gateway.SessionAgreement` — the parse loop against `OrderEntrySession`

The parse loop checks sequence numbers itself; the session object that used to do it
is no longer part of the server.  Fed the same messages the two are compared here.

| of a message | gateway | session |
| :-- | :-- | :-- |
| the next expected number | `Connection.expectedSequence` | `expectedSequenceNumber` |
| out of sequence | Rejected(BadSequence) | the same |
| in-sequence heartbeat, logout | Accepted | the same |
| in-sequence order | a command for the engine | whatever the orders call for |

`handled k ts` are the messages that the parse loop has read for the connection with
serial `k`, and what it made of each.  Whatever the session decides about an order,
the number has been consumed by then, so the two numbers never come apart
(`sequence_discipline_agrees`).  The frames do: the gateway's accept keeps the
client's session id, and its reject names no order (`fast_path_frames_agree_iff`).
-/
import TradingGateway.Gateway.CommandStreams
import TradingGateway.Gateway.Exhaustion
import TradingGateway.OrderEntry.OrderHistory

namespace TradingGateway.Gateway

open Lib OrderEntry Spsc

variable {D : Descriptors} {ts us vs : List (Taken Server Label)} {s s' : Server}
  {es : List Event} {k : Nat} {fd : Int} {c : Connection}

/-! ## What the parse loop has handled -/

/-- A message that the parse loop has read: what was seen of it, and the connection
behind it. -/
structure Handled where
  message : DecodedMessage
  events : List Event
  after : Option Connection

/-- The message of the step, if it is an iteration of the parse loop of the connection
with serial `k`. -/
def handledAt (k : Nat) (t : Taken Server Label) : Option Handled :=
  match t.label.input, t.src.gateway with
  | .parse, .parse fd _ =>
      match t.src.connections.find fd with
      | none => none
      | some conn =>
          let parsed := conn.parser.tryParse {}
          if conn.serial = k ∧ parsed.1 = .messageReady then
            some ⟨parsed.2.1, t.label.events, t.dst.connections.find fd⟩
          else none
  | _, _ => none

def handled (k : Nat) (ts : List (Taken Server Label)) : List Handled := ts.filterMap (handledAt k)

/-- The reply of a control frame. -/
def Event.reply : Event → Option Reply
  | .control _ _ _ frame => readReply frame
  | _ => none

/-- What the client was told at once. -/
def Handled.reply (h : Handled) : Option Reply := h.events.head?.bind Event.reply

/-- The reply of an output that goes to the client. -/
def Output.reply : Output → Option Reply
  | .control _ reply => some reply
  | .command _ => none

theorem handled_append (k : Nat) (us vs : List (Taken Server Label)) :
    handled k (us ++ vs) = handled k us ++ handled k vs :=
  List.filterMap_append

theorem Shows.reply {c : Connection} {fd : Int} {q q' : CommandQueue} {o : Output}
    {next : Option UInt64} {e : Event} (h : Shows c fd q q' o next e) : e.reply = o.reply := by
  cases h with
  | control read last kept =>
      obtain ⟨reply, hreply, rfl⟩ := Option.map_eq_some_iff.mp read
      exact hreply
  | command order pushed => rfl

/-- A step handles no message of the connection, or one as the reference has it. -/
inductive Handles (k : Nat) (t : Taken Server Label) : Prop
  | nothing (idle : handledAt k t = none) (silent : ∀ e ∈ t.label.events, e.output k = none)
  | one {fd : Int} {c c' : Connection} {r : Request} {e : Event}
      (found : t.src.connections.find fd = some c) (serial : c.serial = k)
      (request : (DecodedMessage.overlay {} r).request = some r)
      (read : handledAt k t = some ⟨DecodedMessage.overlay {} r, [e], some c'⟩)
      (shown : t.label.events = [e]) (answered : Answered t.src fd c r c' e t.dst)

theorem handledAt_parse {shouldClose : Bool} (loop : s.gateway = .parse fd shouldClose)
    (found : s.connections.find fd = some c) (k : Nat) (es : List Event) (s' : Server) :
    handledAt k ⟨s, ⟨.parse, es⟩, s'⟩ =
      if c.serial = k ∧ (c.parser.tryParse {}).1 = .messageReady then
        some ⟨(c.parser.tryParse {}).2.1, es, s'.connections.find fd⟩
      else none := by
  simp only [handledAt, loop, found]

/-- **Only an iteration of the parse loop handles a message.** -/
theorem Step.handles (hs : Sound s) {l : Label} (h : Step D s l s') (k : Nat) :
    Handles k ⟨s, l, s'⟩ := by
  have hacts := h.acts hs
  obtain ⟨input, es⟩ := l
  dsimp only at hacts
  cases hacts with
  | eventFd | listenFd | clientFd | epollFails | drained | taken | acceptFails | ignored | join
  | idle | notify => exact .nothing rfl (List.forall_mem_nil _)
  | dropped | sent | accept | hungUp | received | shutdown | stopped | skipped | answering
  | respond =>
      refine .nothing rfl fun e he => ?_
      rw [List.mem_singleton.mp he]
      rfl
  | cutOff | overflowed =>
      refine .nothing rfl fun e he => ?_
      rcases List.mem_cons.mp he with rfl | he
      · rfl
      · rw [List.mem_singleton.mp he]
        rfl
  | starved loop found short =>
      refine .nothing ((handledAt_parse loop found k _ _).trans (if_neg ?_)) (List.forall_mem_nil _)
      rintro ⟨-, hready⟩
      obtain ⟨r, long, -⟩ := Parser.tryParse_ready hready
      exact absurd long (Nat.not_le.mpr short)
  | refused loop found long bad =>
      refine .nothing ((handledAt_parse loop found k _ _).trans (if_neg ?_)) fun e he => ?_
      · rintro ⟨-, hready⟩
        obtain ⟨r, -, read, -⟩ := Parser.tryParse_ready hready
        cases bad.symm.trans read
      · rw [List.mem_singleton.mp he]
        rfl
  | @answered fd c c' r e s' loop found long read answered =>
      have hat := handledAt_parse loop found k [e] s'
      by_cases hk : c.serial = k
      · have hready := Parser.tryParse_of_read {} long read
        have hafter : s'.connections.find fd = some c' := by
          rw [answered.routes]
          exact Routed.find_assign_self found c'
        rw [if_pos ⟨hk, hready.1⟩, hready.2, hafter] at hat
        exact .one found hk (request_overlay {} read) hat rfl answered
      · refine .nothing (hat.trans (if_neg fun h => hk h.1)) fun e' he => ?_
        rw [List.mem_singleton.mp he]
        exact (answered.event.silent hk).output

theorem ServerRun.length_handled (h : ServerRun D ts s) (k : Nat) :
    (handled k ts).length = (events ts).countP fun e => (e.output k).isSome := by
  refine Run.invariant (I := fun ts _ =>
    (handled k ts).length = (events ts).countP fun e => (e.output k).isSome) ?_ ?_ h
  · rintro s rfl
    rfl
  · intro ts s l s' hr ih hstep
    rw [handled_append, events_append, events_singleton, List.length_append, List.countP_append, ih]
    refine congrArg _ ?_
    cases hstep.handles (ServerRun.sound hr) k with
    | nothing idle silent =>
        rw [handled, List.filterMap_cons_none idle]
        refine (List.countP_eq_zero.mpr fun e he => ?_).symm
        rw [silent e he]
        nofun
    | one found serial request read shown answered =>
        have houtput := answered.event.output
        rw [serial] at houtput
        dsimp only at shown
        rw [handled, List.filterMap_cons_some read, shown, List.countP_singleton, houtput]
        rfl

/-! ## The two verdicts -/

section Verdicts

variable (token : SessionToken) (expected : UInt64) (r : Request)

theorem inSequence_answer :
    (answer token expected r).1.inSequence = true ↔ r.header.sequenceNumber = expected := by
  unfold answer
  split
  next hseq => exact ⟨nofun, fun heq => absurd heq hseq⟩
  next hseq =>
    split
    next => exact ⟨fun _ => not_not.mp hseq, fun _ => rfl⟩
    next => exact ⟨fun _ => not_not.mp hseq, fun _ => rfl⟩

theorem answer_badSequence_iff :
    (∃ id, (answer token expected r).1.reply = some (.rejected id .badSequence)) ↔
      r.header.sequenceNumber ≠ expected := by
  unfold answer
  split
  next hseq => exact ⟨fun _ => hseq, fun _ => ⟨0, rfl⟩⟩
  next hseq =>
    refine ⟨?_, fun h => absurd h hseq⟩
    rintro ⟨id, hreply⟩
    split at hreply
    next => cases hreply
    next => cases Option.some.inj hreply

theorem answer_accepted_iff (h : r.payload = .heartbeat ∨ r.payload = .logout) :
    (∃ id handle, (answer token expected r).1.reply = some (.accepted id handle)) ↔
      r.header.sequenceNumber = expected := by
  have hnone : orderCommand token r = none := by
    rcases h with h | h
    · rw [orderCommand, h]
    · rw [orderCommand, h]
  by_cases hseq : r.header.sequenceNumber = expected
  · rw [answer, if_neg (not_not.mpr hseq), hnone]
    exact iff_of_true ⟨0, 0, rfl⟩ hseq
  · rw [answer, if_pos hseq]
    refine iff_of_false ?_ hseq
    rintro ⟨id, handle, hreply⟩
    cases Option.some.inj hreply

end Verdicts

theorem payload_of_type {payload : Payload}
    (h : payload.type = .heartbeat ∨ payload.type = .logout) :
    payload = .heartbeat ∨ payload = .logout := by
  cases payload with
  | heartbeat => exact Or.inl rfl
  | logout => exact Or.inr rfl
  | newOrder order =>
      have h : MessageType.newOrder = .heartbeat ∨ MessageType.newOrder = .logout := h
      exact absurd h (by decide)
  | cancelOrder id =>
      have h : MessageType.cancelOrder = .heartbeat ∨ MessageType.cancelOrder = .logout := h
      exact absurd h (by decide)
  | modifyOrder id price quantity =>
      have h : MessageType.modifyOrder = .heartbeat ∨ MessageType.modifyOrder = .logout := h
      exact absurd h (by decide)

/-- The gateway and the session make the same of a message: the same number is
expected behind it, both reject it as BadSequence or neither does, and a heartbeat or
a logout is accepted by both or by neither. -/
structure Agrees (h : Handled) (e : Exchange) : Prop where
  message : e.message = h.message
  expected : h.after.map Connection.expectedSequence = some e.after.expectedSequenceNumber
  badSequence : (∃ id, h.reply = some (.rejected id .badSequence)) ↔
    ∃ id, e.reply = some (.rejected id .badSequence)
  accepted : h.message.type = .heartbeat ∨ h.message.type = .logout →
    ((∃ id handle, h.reply = some (.accepted id handle)) ↔
      ∃ id handle, e.reply = some (.accepted id handle))

/-- **One message**: where the same number is expected, the gateway and the session
agree, whatever the session's orders are. -/
theorem Answered.agrees {c' : Connection} {r : Request} {e : Event} {msg : DecodedMessage}
    {σ : OrderEntrySession} {out : List UInt8} (answered : Answered s fd c r c' e s')
    (hr : msg.request = some r) (hout : out.length = kFrameSize)
    (same : c.expectedSequence = σ.expectedSequenceNumber) :
    Agrees ⟨msg, [e], some c'⟩
      ⟨msg, (σ.handleMessage msg out).1, (σ.handleMessage msg out).2.2,
        (σ.handleMessage msg out).2.1⟩ := by
  have hw := σ.handleMessage_respond hr hout
  have hreply : (⟨msg, [e], some c'⟩ : Handled).reply
      = (answer c.token c.expectedSequence r).1.reply := answered.event.reply
  have hreply' : readReply (σ.handleMessage msg out).2.2 = some (σ.respond r).2.2 :=
    hw.response.reply
  refine ⟨rfl, ?_, ?_, ?_⟩
  · refine congrArg some ?_
    show c'.expectedSequence = (σ.handleMessage msg out).2.1.expectedSequenceNumber
    rw [answered.expected, expected_answer, hw.session, σ.expected_respond, same]
    exact if_congr (inSequence_answer _ _ r) rfl rfl
  · rw [hreply, answer_badSequence_iff, same, ← σ.respond_badSequence_iff r]
    refine exists_congr fun id => ?_
    rw [Exchange.reply, hreply', Option.some.injEq]
  · intro htype
    dsimp only at htype
    rw [(header_of_request hr).2] at htype
    have hpayload := payload_of_type htype
    rw [hreply, answer_accepted_iff _ _ r hpayload, same, ← σ.respond_accepted_iff hpayload]
    refine exists_congr fun id => exists_congr fun handle => ?_
    rw [Exchange.reply, hreply', Option.some.injEq]

/-! ## Whole runs -/

/-- The session was fed what the parse loop has handled for the connection, each
message with a buffer of its own. -/
structure Fed (k : Nat) (ts : List (Taken Server Label))
    (inputs : List (DecodedMessage × List UInt8)) : Prop where
  messages : inputs.map Prod.fst = (handled k ts).map Handled.message
  buffers : ∀ input ∈ inputs, input.2.length = kFrameSize

/-- The session keeps pace with the connection. -/
theorem ServerRun.agrees (h : ServerRun D ts s) (k : Nat) (σ : OrderEntrySession)
    (fresh : σ.expectedSequenceNumber = 1) : ∀ inputs, Fed k ts inputs →
      List.Forall₂ Agrees (handled k ts) (serve σ inputs) ∧
        (sessionAfter σ inputs).expectedSequenceNumber
          = UInt64.ofNat (1 + inSequence k (events ts)) := by
  refine Run.invariant (I := fun ts _ => ∀ inputs, Fed k ts inputs →
    List.Forall₂ Agrees (handled k ts) (serve σ inputs) ∧
      (sessionAfter σ inputs).expectedSequenceNumber
        = UInt64.ofNat (1 + inSequence k (events ts))) ?_ ?_ h
  · rintro s rfl inputs ⟨messages, -⟩
    obtain rfl := List.map_eq_nil_iff.mp messages
    exact ⟨.nil, fresh⟩
  · rintro ts s l s' hr ih hstep inputs ⟨messages, buffers⟩
    have hs := ServerRun.sound hr
    rw [handled_append] at messages ⊢
    cases hstep.handles hs k with
    | nothing idle silent =>
        have hnil : handled k [⟨s, l, s'⟩] = [] := List.filterMap_cons_none idle
        have hzero : inSequence k l.events = 0 := by
          refine List.countP_eq_zero.mpr fun e he => ?_
          rw [silent e he]
          nofun
        rw [hnil, List.append_nil] at messages ⊢
        rw [events_append, events_singleton, inSequence_append, hzero, Nat.add_zero]
        exact ih inputs ⟨messages, buffers⟩
    | @one fd c c' r e found serial request read shown answered =>
        have hone : handled k [⟨s, l, s'⟩] = [⟨DecodedMessage.overlay {} r, [e], some c'⟩] :=
          List.filterMap_cons_some read
        rw [hone, List.map_append] at messages
        obtain ⟨inputs, last, rfl, hinputs, hlast⟩ := List.map_eq_append_iff.mp messages
        obtain ⟨⟨msg, out⟩, rfl, rfl⟩ := List.map_eq_singleton_iff.mp hlast
        obtain ⟨hall, hexpected⟩ := ih inputs
          ⟨hinputs, fun input hmem => buffers input (List.mem_append_left _ hmem)⟩
        have hagrees := answered.agrees request
          (buffers _ (List.mem_append_right _ List.mem_cons_self))
          (((ServerRun.numbered hr k).live found serial).1.trans hexpected.symm)
        have found' : s'.connections.find fd = some c' := by
          rw [answered.routes]
          exact Routed.find_assign_self found c'
        rw [hone, serve_snoc, sessionAfter_snoc]
        refine ⟨List.rel_append hall (.cons hagrees .nil), ?_⟩
        rw [← Option.some.inj hagrees.expected]
        exact ((ServerRun.numbered (hr.next hstep) k).live found'
          (answered.same.serial.trans serial)).1

/-- **The gateway's sequence discipline simulates the session's.**  In every run, a
fresh session that is fed the messages handled for a connection agrees with the parse
loop on each of them, and with the open connection on the next number. -/
theorem sequence_discipline_agrees (h : ServerRun D ts s) (k : Nat) (sessionId : UInt64)
    (inputs : List (DecodedMessage × List UInt8)) (fed : Fed k ts inputs) :
    List.Forall₂ Agrees (handled k ts) (serve { sessionId := sessionId } inputs) ∧
      ∀ fd c, s.connections.find fd = some c → c.serial = k →
        c.expectedSequence
          = (sessionAfter { sessionId := sessionId } inputs).expectedSequenceNumber := by
  obtain ⟨hall, hexpected⟩ := h.agrees k { sessionId := sessionId } rfl inputs fed
  refine ⟨hall, fun fd c found serial => ?_⟩
  rw [hexpected]
  exact ((h.numbered k).live found serial).1

/-! ## Every list of messages is handled in some run -/

theorem ServerRun.can_feed (h : ServerRun D ts s) (hc : Waiting s fd c) (hevent : fd ≠ D.eventFd)
    (hlisten : fd ≠ D.listenFd) {frame : List UInt8} {r : Request}
    (length : frame.length = kFrameSize) (read : readRequest frame = some r) :
    ∃ us s' c', ServerRun D (ts ++ us) s' ∧ Waiting s' fd c' ∧ c'.serial = c.serial ∧
      (handled c.serial us).map Handled.message = [DecodedMessage.overlay {} r] := by
  have hfits : c.parser.Fits frame := by
    rw [Parser.Fits, hc.empty, length]
    decide
  obtain ⟨us, h1, hus⟩ := h.can_receive hc.gateway hevent hlisten hc.found
    (by rw [length]; decide) (by rw [length]; decide) hfits
  -- nothing is handled while the frame is received
  have hnone : handled c.serial us = [] := by
    have hcount := h1.length_handled c.serial
    rw [handled_append, events_append, List.length_append, List.countP_append,
      h.length_handled c.serial, hus] at hcount
    exact List.length_eq_zero_iff.mp (Nat.add_left_cancel hcount)
  generalize hc₁ : ({ c with parser := (c.parser.append frame).2 } : Connection) = c₁ at h1
  have hserial : c₁.serial = c.serial := by
    rw [← hc₁]
  have hcontents : c₁.parser.contents = frame := by
    rw [← hc₁]
    show (c.parser.append frame).2.contents = frame
    rw [(Parser.append_of_fits hfits).2, hc.empty]
    rfl
  have found := Routed.find_assign_self hc.found c₁
  have hframe : readRequest (c₁.parser.contents.take kFrameSize) = some r := by
    rw [hcontents, List.take_of_length_le (Nat.le_of_eq length)]
    exact read
  generalize hs₁ : ({ s with
    toRoutes := s.toRoutes.assign fd c₁, gateway := .parse fd false } : Server) = s₁ at h1
  have loop : s₁.gateway = .parse fd false := by
    rw [← hs₁]
  replace found : s₁.connections.find fd = some c₁ := by
    rw [← hs₁]
    exact found
  have long : kFrameSize ≤ c₁.parser.contents.length := by
    rw [hcontents]
    exact Nat.le_of_eq length.symm
  obtain ⟨c', e, s', h2, answered, found'⟩ := h1.can_take loop found long hframe
  have hempty : c'.parser.contents = [] := by
    rw [answered.taken, hcontents, ← length, List.drop_length]
  have hserial' : c'.serial = c.serial := answered.same.serial.trans hserial
  have hone : (handled c.serial [⟨s₁, ⟨.parse, [e]⟩, s'⟩]).map Handled.message
      = [DecodedMessage.overlay {} r] := by
    have hready := Parser.tryParse_of_read {} long hframe
    rw [handled, List.filterMap_cons_some ((handledAt_parse loop found _ _ _).trans
      (if_pos ⟨hserial, hready.1⟩)), hready.2]
    rfl
  have hpc := answered.pc
  split at hpc
  next =>
    -- behind a logout the loop is left
    rw [List.append_assoc] at h2
    refine ⟨us ++ _, s', c', h2, ⟨hpc, found', hempty⟩, hserial', ?_⟩
    rw [handled_append, hnone]
    exact hone
  next =>
    have h3 := h2.can_leave hpc found' (by rw [hempty]; decide)
    rw [List.append_assoc, List.append_assoc] at h3
    refine ⟨us ++ _, _, c', h3, ⟨rfl, Routed.find_assign_self found' c', hempty⟩, hserial', ?_⟩
    have hidle : handledAt c.serial ⟨s', ⟨.parse, []⟩,
        { s' with toRoutes := s'.toRoutes.assign fd c', gateway := .wait }⟩ = none := by
      refine (handledAt_parse hpc found' _ _ _).trans (if_neg ?_)
      rintro ⟨-, hready⟩
      obtain ⟨-, long, -⟩ := Parser.tryParse_ready hready
      rw [hempty] at long
      exact absurd long (by decide)
    rw [handled_append, handled_append, hnone, handled, handled, List.filterMap_cons_none hidle,
      List.filterMap_nil, List.append_nil, List.nil_append]
    exact hone

/-- Every list of request frames is handled in some run, so what is said of runs is said
of all lists. -/
theorem requests_handled (frames : List (List UInt8 × Request))
    (requests : ∀ f ∈ frames, f.1.length = kFrameSize ∧ readRequest f.1 = some f.2) :
    ∃ ts s c, ServerRun .standard ts s ∧ Waiting s 6 c ∧ c.serial = 0 ∧
      (handled 0 ts).map Handled.message = frames.map fun f => DecodedMessage.overlay {} f.2 := by
  induction frames using List.reverseRecOn with
  | nil =>
      obtain ⟨ts, s, c, h, hevents, hw, hc, hparser, -⟩ := first_connects
      have hempty : c.parser.contents = [] := by
        rw [hparser, Parser.contents_fresh]
      have hnone : (handled 0 ts).length = 0 := by
        rw [h.length_handled, hevents]
        rfl
      refine ⟨ts, s, c, h, ⟨hw, hc.found, hempty⟩, hc.serial, ?_⟩
      rw [List.length_eq_zero_iff.mp hnone]
      rfl
  | append_singleton frames f ih =>
      obtain ⟨ts, s, c, h, hc, serial, hhandled⟩ :=
        ih fun f hf => requests f (List.mem_append_left _ hf)
      obtain ⟨length, read⟩ := requests f (List.mem_append_right _ List.mem_cons_self)
      obtain ⟨us, s', c', h', hc', serial', hone⟩ := h.can_feed hc (by decide) (by decide) length read
      rw [serial] at serial' hone
      refine ⟨ts ++ us, s', c', h', hc', serial', ?_⟩
      rw [handled_append, List.map_append, List.map_append, hhandled, hone]
      rfl

/-- A heartbeat, an order without a price, a cancel out of sequence and a logout. -/
def mixedFrames : List (List UInt8 × Request) :=
  [(messageBytes .heartbeat [] { sequenceNumber := 1 } ++ List.replicate kPayloadSize 0,
      ⟨stamp .heartbeat { sequenceNumber := 1 }, .heartbeat⟩),
    (((OrderMessage.newOrder { sequenceNumber := 2 } { clientOrderId := 7, quantity := 5 }).encode
        blankFrame).2,
      (OrderMessage.newOrder { sequenceNumber := 2 } { clientOrderId := 7, quantity := 5 }).request),
    (((OrderMessage.cancelOrder { sequenceNumber := 9 } { clientOrderId := 7 }).encode
        blankFrame).2,
      (OrderMessage.cancelOrder { sequenceNumber := 9 } { clientOrderId := 7 }).request),
    (messageBytes .logout [] { sequenceNumber := 3 } ++ List.replicate kPayloadSize 0,
      ⟨stamp .logout { sequenceNumber := 3 }, .logout⟩)]

theorem length_controlFrame (type : MessageType) (header : MessageHeader) :
    (messageBytes type [] header ++ List.replicate kPayloadSize 0).length = kFrameSize := by
  rw [List.length_append, length_messageBytes, List.length_replicate]
  rfl

theorem requests_mixedFrames :
    ∀ f ∈ mixedFrames, f.1.length = kFrameSize ∧ readRequest f.1 = some f.2 := by
  intro f hf
  simp only [mixedFrames, List.mem_cons, List.not_mem_nil, or_false] at hf
  rcases hf with rfl | rfl | rfl | rfl
  · exact ⟨length_controlFrame _ _, readRequest_messageBytes rfl rfl rfl⟩
  · exact ⟨length_encode _ length_blankFrame, readRequest_encode _ length_blankFrame rfl rfl⟩
  · exact ⟨length_encode _ length_blankFrame, readRequest_encode _ length_blankFrame rfl rfl⟩
  · exact ⟨length_controlFrame _ _, readRequest_messageBytes rfl rfl rfl⟩

/-- The four are handled in some run, and the session agrees on each of them. -/
theorem sequence_discipline_agrees_mixedFrames :
    ∃ ts s, ServerRun .standard ts s ∧
      (handled 0 ts).map Handled.message
        = mixedFrames.map (fun f => DecodedMessage.overlay {} f.2) ∧
      List.Forall₂ Agrees (handled 0 ts) (serve { sessionId := 9 }
        (mixedFrames.map fun f => (DecodedMessage.overlay {} f.2, blankFrame))) := by
  obtain ⟨ts, s, c, h, -, -, hhandled⟩ := requests_handled mixedFrames requests_mixedFrames
  have fed : Fed 0 ts (mixedFrames.map fun f => (DecodedMessage.overlay {} f.2, blankFrame)) := by
    constructor
    · rw [hhandled, List.map_map]
      rfl
    · intro input hmem
      obtain ⟨f, -, rfl⟩ := List.mem_map.mp hmem
      exact length_blankFrame
  exact ⟨ts, s, h, hhandled, (sequence_discipline_agrees h 0 9 _ fed).1⟩

/-! ## The frames of the fast path

The parse loop builds its frames without the session's helpers. -/

/-- The order that a response to the message names. -/
def namedOrder (msg : DecodedMessage) : UInt64 :=
  (msg.request.map fun r => r.payload.clientOrderId).getD 0

/-- The gateway's frame for the message is the session's; so it names the order that it
rejects, and every frame to the connection bears one session id. -/
structure FrameAgrees (c : Connection) (msg : DecodedMessage) (frame frame' : List UInt8) : Prop where
  bytes : frame = frame'
  names : msg.header.sequenceNumber ≠ c.expectedSequence →
    readReply frame = some (.rejected (namedOrder msg) .badSequence)
  session : (readHeader frame).sessionId = c.token.slot.toUInt64

section Frames

variable {token : SessionToken} {σ : OrderEntrySession} {out : List UInt8} {msg : DecodedMessage}

theorem responseHeader_of_slot (slot : token.slot ≠ 0) (hid : σ.sessionId = token.slot.toUInt64)
    (header : MessageHeader) :
    σ.responseHeader header = { header with sessionId := token.slot.toUInt64 } := by
  have hne : token.slot.toUInt64 ≠ 0 := by
    intro heq
    exact slot (UInt32.toUInt64_inj.mp heq)
  rw [OrderEntrySession.responseHeader, hid, if_neg hne]

/-- The rejects are the same where there is no order to name. -/
theorem badSequenceFrame_eq_iff (slot : token.slot ≠ 0) (hid : σ.sessionId = token.slot.toUInt64)
    (hout : out.length = kFrameSize) (id : UInt64) :
    badSequenceFrame token msg = σ.encodeReject msg.header id .badSequence out ↔ id = 0 := by
  constructor
  · intro heq
    have hgateway := (carries_badSequenceFrame token msg).reply
    rw [heq, (σ.carries_encodeReject msg.header id .badSequence hout).reply] at hgateway
    exact (Reply.rejected.inj (Option.some.inj hgateway)).1
  · rintro rfl
    rw [badSequenceFrame, OrderEntrySession.encodeReject, responseHeader_of_slot slot hid,
      encodeRejected_snd _ _ length_blankFrame, encodeRejected_snd _ _ hout]

/-- The accepts are the same where the client sent its slot. -/
theorem acceptFrame_eq_iff (slot : token.slot ≠ 0) (hid : σ.sessionId = token.slot.toUInt64)
    (hout : out.length = kFrameSize) :
    acceptFrame msg = σ.encodeAccept msg.header 0 0 out ↔
      msg.header.sessionId = token.slot.toUInt64 := by
  constructor
  · intro heq
    have hgateway := (carries_acceptFrame msg).header
    rw [heq, (σ.carries_encodeAccept msg.header 0 0 hout).header,
      responseHeader_of_slot slot hid] at hgateway
    exact (congrArg MessageHeader.sessionId hgateway).symm
  · intro hsession
    rw [acceptFrame, OrderEntrySession.encodeAccept, responseHeader_of_slot slot hid, ← hsession,
      encodeAccepted_snd _ _ length_blankFrame, encodeAccepted_snd _ _ hout]

end Frames

section Loop

variable {msg : DecodedMessage} {p : Parser parserCapacity}

theorem parseStep_of_gap (shouldClose : Bool) (found : s.connections.find fd = some c)
    (parsed : c.parser.tryParse {} = (.messageReady, msg, p))
    (gap : msg.header.sequenceNumber ≠ c.expectedSequence) :
    ∃ s', parseStep s fd shouldClose
      = some (s', [.control c.serial fd .badSequence (badSequenceFrame c.token msg)]) := by
  rw [parseStep, found]
  dsimp only
  rw [parsed, if_neg (by simp), if_neg (by simp), if_pos gap]
  exact ⟨_, rfl⟩

theorem parseStep_of_control (shouldClose : Bool) (found : s.connections.find fd = some c)
    (parsed : c.parser.tryParse {} = (.messageReady, msg, p))
    (hseq : msg.header.sequenceNumber = c.expectedSequence)
    (ht : msg.type = .heartbeat ∨ msg.type = .logout) :
    ∃ s' cause, parseStep s fd shouldClose
      = some (s', [.control c.serial fd cause (acceptFrame msg)]) := by
  rw [parseStep, found]
  dsimp only
  rw [parsed, if_neg (by simp), if_neg (by simp), if_neg (not_not.mpr hseq)]
  rcases ht with ht | ht
  · rw [ht, if_neg (by decide), if_pos rfl]
    exact ⟨_, _, rfl⟩
  · rw [ht, if_pos rfl]
    exact ⟨_, _, rfl⟩

theorem request_of_parsed (parsed : c.parser.tryParse {} = (.messageReady, msg, p)) :
    ∃ r, msg.request = some r := by
  obtain ⟨r, -, read, hmsg⟩ := Parser.tryParse_ready (congrArg Prod.fst parsed)
  rw [parsed] at hmsg
  refine ⟨r, ?_⟩
  rw [show msg = DecodedMessage.overlay {} r from hmsg]
  exact request_overlay {} read

/-- **The frames of the fast path agree with the session's exactly where a message out
of sequence names no order, and one in sequence bears the slot as its session id.** -/
theorem fast_path_frames_agree_iff {σ : OrderEntrySession} {out : List UInt8}
    (shouldClose : Bool) (found : s.connections.find fd = some c) (slot : c.token.slot ≠ 0)
    (parsed : c.parser.tryParse {} = (.messageReady, msg, p))
    (fast : msg.header.sequenceNumber ≠ c.expectedSequence ∨
      msg.type = .heartbeat ∨ msg.type = .logout)
    (hid : σ.sessionId = c.token.slot.toUInt64)
    (same : σ.expectedSequenceNumber = c.expectedSequence) (hout : out.length = kFrameSize) :
    ∃ s' cause frame,
      parseStep s fd shouldClose = some (s', [.control c.serial fd cause frame]) ∧
        (FrameAgrees c msg frame (σ.handleMessage msg out).2.2 ↔
          if msg.header.sequenceNumber ≠ c.expectedSequence then namedOrder msg = 0
          else msg.header.sessionId = c.token.slot.toUInt64) := by
  obtain ⟨r, hr⟩ := request_of_parsed parsed
  have hnamed : namedOrder msg = r.payload.clientOrderId := by
    rw [namedOrder, hr]
    rfl
  by_cases gap : msg.header.sequenceNumber ≠ c.expectedSequence
  · obtain ⟨s', hstep⟩ := parseStep_of_gap shouldClose found parsed gap
    refine ⟨s', _, _, hstep, ?_⟩
    rw [if_pos gap, OrderEntrySession.handleMessage_of_badSequence hr (same ▸ gap), hnamed,
      ← badSequenceFrame_eq_iff slot hid hout r.payload.clientOrderId]
    dsimp only
    refine ⟨fun h => h.bytes, fun heq => ⟨heq, fun _ => ?_, ?_⟩⟩
    · rw [hnamed, heq]
      exact (σ.carries_encodeReject msg.header _ _ hout).reply
    · rw [(carries_badSequenceFrame c.token msg).header]
      rfl
  · have hseq := not_not.mp gap
    have ht := fast.resolve_left gap
    obtain ⟨s', cause, hstep⟩ := parseStep_of_control shouldClose found parsed hseq ht
    refine ⟨s', cause, _, hstep, ?_⟩
    have hframe : acceptFrame msg = σ.advance.encodeAccept msg.header 0 0 out ↔
        msg.header.sessionId = c.token.slot.toUInt64 :=
      acceptFrame_eq_iff slot hid hout
    rw [if_neg gap, OrderEntrySession.handleMessage_of_control (hseq.trans same.symm) ht]
    dsimp only
    refine ⟨fun h => hframe.mp h.bytes, fun hsession => ⟨hframe.mpr hsession, fun h => ?_, ?_⟩⟩
    · exact absurd h gap
    · rw [(carries_acceptFrame msg).header]
      exact hsession

end Loop

/-- A second client has sent a chunk, and the gateway is about to parse it. -/
structure SecondClient (s : Server) (c : Connection) (bs : List UInt8) : Prop where
  loop : s.gateway = .parse 7 false
  found : s.connections.find 7 = some c
  token : c.token = tokenOf 1
  expected : c.expectedSequence = 1
  contents : c.parser.contents = bs

theorem second_sends (bs : List UInt8) (pos : 0 < bs.length) (le : bs.length ≤ 1024) :
    ∃ ts s c, ServerRun .standard ts s ∧ SecondClient s c bs := by
  obtain ⟨ts, s, h, hw, hn, -, hfds⟩ := many_accepts 1
  have hfresh := hfds 7 (Int.le_refl _)
  have hs := ServerRun.sound h
  obtain ⟨us, h1, -, hnone⟩ := h.can_accept hw (by decide) 7 (by decide) hfresh
  have hfound := Routed.find_link_self hnone
  have hfits : (Parser.fresh : Parser parserCapacity).Fits bs := by
    rw [Parser.Fits, Parser.contents_fresh]
    exact Nat.le_trans le (by decide)
  obtain ⟨vs, h2, -⟩ := h1.can_receive hw (by decide) (by decide) hfound pos le hfits
  refine ⟨_, _, _, h2, rfl, Routed.find_assign_self hfound _, ?_, rfl, ?_⟩
  · show s.nextToken = tokenOf 1
    rw [hs.routed.nextToken_eq, hn]
  · show (Parser.fresh.append bs).2.contents = bs
    rw [(Parser.append_of_fits hfits).2, Parser.contents_fresh, List.nil_append]

theorem SecondClient.parsed {frame : List UInt8} {r : Request} (h : SecondClient s c frame)
    (length : frame.length = kFrameSize) (read : readRequest frame = some r) :
    ∃ p, c.parser.tryParse {} = (.messageReady, DecodedMessage.overlay {} r, p) := by
  have htake : c.parser.contents.take kFrameSize = frame := by
    rw [h.contents, List.take_of_length_le (Nat.le_of_eq length)]
  have long : kFrameSize ≤ c.parser.contents.length := by
    rw [h.contents, length]
  obtain ⟨hstatus, hmsg⟩ := Parser.tryParse_of_read {} long (htake.symm ▸ read)
  exact ⟨_, Prod.ext hstatus (Prod.ext hmsg rfl)⟩

theorem SecondClient.slot {bs : List UInt8} (h : SecondClient s c bs) :
    c.token.slot = 1 ∧ c.token.slot ≠ 0 := by
  rw [h.token]
  decide

/-- The session that a connection would have. -/
def sessionOf (c : Connection) : OrderEntrySession where
  sessionId := c.token.slot.toUInt64
  expectedSequenceNumber := c.expectedSequence

/-- A heartbeat of a client that knows its session. -/
def heartbeatOf (sessionId : UInt64) : Request :=
  ⟨stamp .heartbeat { sequenceNumber := 1, sessionId := sessionId }, .heartbeat⟩

theorem second_beats (sessionId : UInt64) :
    ∃ ts s c bs p, ServerRun .standard ts s ∧ SecondClient s c bs ∧
      c.parser.tryParse {} = (.messageReady, DecodedMessage.overlay {} (heartbeatOf sessionId), p) := by
  have hlen := length_controlFrame .heartbeat { sequenceNumber := 1, sessionId := sessionId }
  obtain ⟨ts, s, c, h, hc⟩ := second_sends _ (by rw [hlen]; decide) (by rw [hlen]; decide)
  obtain ⟨p, hp⟩ := hc.parsed hlen (readRequest_messageBytes rfl rfl rfl)
  exact ⟨ts, s, c, _, p, h, hc, hp⟩

/-- The heartbeat of a client that sends its slot is answered as the session would. -/
theorem fast_path_frames_agree_iff_heartbeat :
    ∃ ts s c msg p s' cause frame, ServerRun .standard ts s ∧
      s.connections.find 7 = some c ∧ c.parser.tryParse {} = (.messageReady, msg, p) ∧
      parseStep s 7 false = some (s', [.control c.serial 7 cause frame]) ∧
      FrameAgrees c msg frame ((sessionOf c).handleMessage msg blankFrame).2.2 := by
  obtain ⟨ts, s, c, bs, p, h, hc, hp⟩ := second_beats 1
  have hid : (sessionOf c).sessionId = c.token.slot.toUInt64 := rfl
  obtain ⟨s', cause, frame, hstep, hiff⟩ := fast_path_frames_agree_iff false hc.found hc.slot.2 hp
    (Or.inr (Or.inl rfl)) hid rfl length_blankFrame
  refine ⟨ts, s, c, _, p, s', cause, frame, h, hc.found, hp, hstep, hiff.mpr ?_⟩
  rw [if_neg (by rw [hc.expected]; decide), hc.slot.1]
  rfl

/-- The order of a client that has lost count. -/
def strayOrder : OrderMessage :=
  .newOrder { sequenceNumber := 9 } { clientOrderId := 7, price := 100, quantity := 5 }

/-- A second client sends the message, and the gateway's frame is not the session's. -/
def FramesDiffer (msg : DecodedMessage) : Prop :=
  ∃ ts s c p s' cause frame, ServerRun .standard ts s ∧ s.connections.find 7 = some c ∧
    c.token.slot ≠ 0 ∧ c.parser.tryParse {} = (.messageReady, msg, p) ∧
    parseStep s 7 false = some (s', [.control c.serial 7 cause frame]) ∧
    frame ≠ ((sessionOf c).handleMessage msg blankFrame).2.2

theorem reject_differs : FramesDiffer (DecodedMessage.overlay {} strayOrder.request) := by
  have hlen : (strayOrder.encode blankFrame).2.length = kFrameSize :=
    length_encode strayOrder length_blankFrame
  have read : readRequest (strayOrder.encode blankFrame).2 = some strayOrder.request :=
    readRequest_encode strayOrder length_blankFrame rfl rfl
  obtain ⟨ts, s, c, h, hc⟩ := second_sends _ (by rw [hlen]; decide) (by rw [hlen]; decide)
  obtain ⟨p, hp⟩ := hc.parsed hlen read
  have gap : (DecodedMessage.overlay {} strayOrder.request).header.sequenceNumber
      ≠ c.expectedSequence := by
    rw [hc.expected]
    decide
  obtain ⟨s', hstep⟩ := parseStep_of_gap false hc.found hp gap
  refine ⟨ts, s, c, p, s', _, _, h, hc.found, hc.slot.2, hp, hstep, fun heq => ?_⟩
  rw [OrderEntrySession.handleMessage_of_badSequence (request_overlay {} read) gap] at heq
  dsimp only at heq
  exact absurd ((badSequenceFrame_eq_iff hc.slot.2 rfl length_blankFrame _).mp heq)
    (by decide : (7 : UInt64) ≠ 0)

theorem accept_differs : FramesDiffer (DecodedMessage.overlay {} (heartbeatOf 0)) := by
  obtain ⟨ts, s, c, bs, p, h, hc, hp⟩ := second_beats 0
  have hseq : (DecodedMessage.overlay {} (heartbeatOf 0)).header.sequenceNumber
      = c.expectedSequence := hc.expected.symm
  obtain ⟨s', cause, hstep⟩ := parseStep_of_control false hc.found hp hseq (Or.inl rfl)
  refine ⟨ts, s, c, p, s', cause, _, h, hc.found, hc.slot.2, hp, hstep, fun heq => ?_⟩
  rw [OrderEntrySession.handleMessage_of_control hseq (Or.inl rfl)] at heq
  dsimp only at heq
  have hid : (sessionOf c).advance.sessionId = c.token.slot.toUInt64 := rfl
  have hsession := (acceptFrame_eq_iff hc.slot.2 hid length_blankFrame).mp heq
  rw [hc.slot.1] at hsession
  exact absurd hsession (by decide)

theorem fast_path_frames_differ :
    FramesDiffer (DecodedMessage.overlay {} strayOrder.request) ∧
      FramesDiffer (DecodedMessage.overlay {} (heartbeatOf 0)) :=
  ⟨reject_differs, accept_differs⟩

end TradingGateway.Gateway
