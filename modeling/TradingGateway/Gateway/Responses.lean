/-
# `Gateway.Responses` — engine responses reach their own connection, in order

The engine-path frames of a run, against the connections whose messages they
answer.

| | |
| :-- | :-- |
| `responses_reach_their_connection` | every frame goes to the descriptor of the open connection whose command is answered; a response without one behind its slot is dropped |
| `responses_keep_order` | the frames sent to one connection answer its order messages in order, each at most once |

Both rest on the flow of `Gateway.Flow`, and on tokens being unique while no slot
was assigned `2^32` times.  The second statement does not read the ghost fields:
the frames of a connection are those sent to its descriptor while it is open.
-/
import TradingGateway.Gateway.Flow
import TradingGateway.Gateway.Progress

namespace TradingGateway.Gateway

open Lib Lib.Cyclic OrderEntry Spsc

variable {D : Descriptors} {ts us vs : List (Taken Server Label)} {s s' : Server}

/-! ## Assignments and commands seen in a run -/

/-- How often the slot was assigned. -/
def slotAssignments (slot : Nat) (es : List Event) : Nat :=
  es.countP fun
    | .accepted _ _ token => token.slot.toNat = slot
    | _ => false

theorem slotAssignments_append (slot : Nat) (es fs : List Event) :
    slotAssignments slot (es ++ fs) = slotAssignments slot es + slotAssignments slot fs :=
  List.countP_append

theorem slotAssignments_eq_zero {es : List Event}
    (h : ∀ k fd token, Event.accepted k fd token ∉ es) (slot : Nat) :
    slotAssignments slot es = 0 := by
  refine List.countP_eq_zero.mpr fun e he => ?_
  cases e with
  | accepted k fd token => exact absurd he (h k fd token)
  | _ => nofun

/-- What a command event says of its message. -/
def Event.Built : Event → Prop
  | .command k msg cmd _ => IsOrder msg ∧ cmd = toCommand (tokenOf k) msg
  | _ => True

/-- The serials of commands are those of accepted connections. -/
def Event.Accepted (n : Nat) : Event → Prop
  | .command k _ _ _ => k < n
  | _ => True

theorem Seen.built (hs : Sound s) {e : Event} (h : Seen s e) : e.Built ∧ e.Accepted s.accepts := by
  cases h with
  | engine engine =>
      cases e with
      | command => exact absurd engine id
      | _ => exact ⟨trivial, trivial⟩
  | command found order =>
      obtain ⟨-, -, htoken, hlt⟩ := hs.routed.entry found
      exact ⟨⟨order, by rw [htoken]⟩, hlt⟩
  | _ => exact ⟨trivial, trivial⟩

theorem Event.Accepted.mono {e : Event} {m n : Nat} (h : e.Accepted m) (hle : m ≤ n) :
    e.Accepted n := by
  cases e with
  | command k msg cmd enqueued => exact Nat.lt_of_lt_of_le h hle
  | _ => exact trivial

/-- What every event says of the connections accepted so far, it says at the end of
the run. -/
theorem ServerRun.forall_seen {P : Nat → Event → Prop}
    (mono : ∀ {m n : Nat} {e : Event}, P m e → m ≤ n → P n e)
    (seen : ∀ {s : Server} {e : Event}, Sound s → Seen s e → P s.accepts e)
    (h : ServerRun D ts s) : ∀ e ∈ events ts, P s.accepts e := by
  refine Run.invariant (I := fun ts s => ∀ e ∈ events ts, P s.accepts e) ?_ ?_ h
  · rintro s -
    exact nofun
  · intro ts s l s' hr ih hstep
    have hs := ServerRun.sound hr
    have hmove := hstep.move hs
    rw [events_append, events_singleton]
    intro e he
    rcases List.mem_append.mp he with he | he
    · exact mono (ih e he) (hmove.accepts_le hs)
    · exact mono (seen hs (hmove.seen he)) (hmove.accepts_le hs)

/-- The accept count says how often each slot was assigned, and bounds the serials
seen. -/
theorem ServerRun.counts (h : ServerRun D ts s) :
    (∀ i < kMaxSlots, slotAssignments i (events ts) = assignments s.accepts i) ∧
      ∀ e ∈ events ts, e.Built ∧ e.Accepted s.accepts := by
  constructor
  · refine Run.invariant (I := fun ts s =>
      ∀ i < kMaxSlots, slotAssignments i (events ts) = assignments s.accepts i) ?_ ?_ h
    · rintro s rfl i hi
      show 0 = assignments 0 i
      simp only [assignments, kMaxSlots] at *
      omega
    · intro ts s l s' hr hcount hstep i hi
      have hs := ServerRun.sound hr
      rw [events_append, events_singleton, slotAssignments_append, hcount i hi]
      rcases (hstep.move hs).accepts hs.routed with ⟨fd, hes, hacc⟩ | ⟨hes, hacc⟩
      · show _ + slotAssignments i l.events = _
        rw [hes, hacc, assignments_succ hi, slotAssignments, List.countP_singleton]
        simp only [toNat_slot_tokenOf, decide_eq_true_eq]
      · show _ + slotAssignments i l.events = _
        rw [slotAssignments_eq_zero hes, hacc, Nat.add_zero]
  · refine h.forall_seen (P := fun n e => e.Built ∧ e.Accepted n) ?_ ?_
    · rintro m n e ⟨hbuilt, haccepted⟩ hle
      exact ⟨hbuilt, haccepted.mono hle⟩
    · intro s e hs hseen
      exact hseen.built hs

theorem ServerRun.session_of_ordered (h : ServerRun D ts s) {rsp : Traced EngineResponse}
    (hrsp : rsp ∈ ordered (events ts)) :
    rsp.source < s.accepts ∧ rsp.value.session = tokenOf rsp.source ∧
      ∃ msg cmd, Event.command rsp.source msg cmd true ∈ events ts ∧
        engineRespond cmd = some rsp.value := by
  obtain ⟨e, he, hsome⟩ := List.mem_filterMap.mp hrsp
  cases e with
  | command k msg cmd enqueued =>
      cases enqueued with
      | false => cases hsome
      | true =>
          obtain ⟨value, hval, rfl⟩ := Option.map_eq_some_iff.mp hsome
          obtain ⟨⟨horder, hcmd⟩, hlt⟩ := h.counts.2 _ he
          obtain ⟨rsp', hrsp', hsession, -⟩ := engineRespond_toCommand (tokenOf k) horder
          refine ⟨hlt, ?_, msg, cmd, he, hval⟩
          have hval : engineRespond cmd = some value := hval
          rw [hcmd, hrsp'] at hval
          rw [← Option.some.inj hval]
          exact hsession
  | _ => cases hsome

/-! ## The two ends of the response drain -/

theorem Seen.of_engineFrame {fd : Int} {frame : List UInt8} {rsp : Traced EngineResponse}
    (h : Seen s (.engineFrame fd frame rsp)) :
    s.gateway = .deliver rsp ∧ fd = (s.slot rsp.value.session.slot).fd ∧
      frame = encodeResponse rsp.value blankFrame := by
  cases h with
  | engine engine => exact engine

theorem Step.dropped_iff (hs : Sound s) {l : Label} (h : Step D s l s')
    (hinput : l.input = .drain) {rsp : Traced EngineResponse}
    (head : s.rspQueue.items.head? = some rsp) :
    Event.dropped rsp ∈ l.events ↔ ¬ Deliverable s.toRoutes rsp.value.session := by
  have hacts := h.acts hs
  obtain ⟨_, es⟩ := l
  dsimp only at *
  subst hinput
  cases hacts with
  | drained pc empty =>
      rw [empty] at head
      cases head
  | dropped pc head' stale =>
      obtain rfl := Option.some.inj (head.symm.trans head')
      exact iff_of_true List.mem_cons_self stale
  | taken pc head' passes =>
      obtain rfl := Option.some.inj (head.symm.trans head')
      exact iff_of_false nofun (not_not.mpr passes)

/-- While tokens are unique, the slot check asks for the one connection whose
message is answered. -/
theorem deliverable_iff (hs : Sound s) (hbound : ∀ i < kMaxSlots, assignments s.accepts i < 2 ^ 32)
    {rsp : Traced EngineResponse} (hlt : rsp.source < s.accepts)
    (hsession : rsp.value.session = tokenOf rsp.source) :
    Deliverable s.toRoutes rsp.value.session ↔
      ∃ fd c, s.connections.find fd = some c ∧ c.serial = rsp.source ∧ s.Names c := by
  constructor
  · intro h
    obtain ⟨c, hc, htoken⟩ := h.owner hs.routed
    obtain ⟨hfd, -, hc_token, hc_lt⟩ := hs.routed.entry hc
    refine ⟨_, c, hc, tokenOf_injective hbound hc_lt hlt ?_, ?_, ?_⟩
    · rw [← hc_token, htoken, hsession]
    · rw [htoken, hfd]
    · rw [htoken, h.1]
  · rintro ⟨fd, c, hc, hserial, hnames⟩
    obtain ⟨hfd, hpos, hc_token, -⟩ := hs.routed.entry hc
    have htoken : c.token = rsp.value.session := by
      rw [hc_token, hserial, hsession]
    rw [← htoken]
    refine ⟨hnames.generation, ?_⟩
    rw [hnames.fd, hfd]
    exact hpos

section Cut

variable {t : Taken Server Label}

theorem ServerRun.at_step (h : ServerRun D (us ++ t :: vs) s) :
    ServerRun D us t.src ∧ Step D t.src t.label t.dst ∧ Move t.src t.label.events t.dst := by
  obtain ⟨hsrc, hstep, -⟩ := h.cut
  exact ⟨hsrc, hstep, hstep.move (ServerRun.sound hsrc)⟩

theorem ServerRun.bound_at (h : ServerRun D (us ++ t :: vs) s)
    (hbound : ∀ slot < kMaxSlots, slotAssignments slot (events (us ++ t :: vs)) < 2 ^ 32) :
    ∀ i < kMaxSlots, assignments t.src.accepts i < 2 ^ 32 := by
  intro i hi
  have := hbound i hi
  rw [events_append, slotAssignments_append, h.at_step.1.counts.1 i hi] at this
  exact Nat.lt_of_le_of_lt (Nat.le_add_right _ _) this

theorem ServerRun.ordered_of_inFlight (h : ServerRun D us s) {rsp : Traced EngineResponse}
    (hrsp : rsp ∈ inFlight s) : rsp ∈ ordered (events us) :=
  h.flow.subset (List.mem_append_right _ hrsp)

/-- Behind a frame that is sent stands an enqueued command, and the open connection
it came from. -/
theorem ServerRun.of_engineFrame (h : ServerRun D (us ++ t :: vs) s)
    (hbound : ∀ slot < kMaxSlots, slotAssignments slot (events (us ++ t :: vs)) < 2 ^ 32)
    {fd : Int} {frame : List UInt8} {rsp : Traced EngineResponse}
    (hmem : Event.engineFrame fd frame rsp ∈ t.label.events) :
    frame = encodeResponse rsp.value blankFrame ∧
      (∃ msg cmd, Event.command rsp.source msg cmd true ∈ events us ∧
        engineRespond cmd = some rsp.value) ∧
      ∃ c, t.src.connections.find fd = some c ∧ c.serial = rsp.source := by
  obtain ⟨hsrc, -, hmove⟩ := h.at_step
  have hs := ServerRun.sound hsrc
  obtain ⟨pc, rfl, rfl⟩ := (hmove.seen hmem).of_engineFrame
  have hflight : rsp ∈ inFlight t.src := by
    rw [inFlight, pc]
    exact List.mem_cons_self
  obtain ⟨hlt, hsession, hordered⟩ := hsrc.session_of_ordered (hsrc.ordered_of_inFlight hflight)
  obtain ⟨c, hc, htoken⟩ := (hs.delivering pc).owner hs.routed
  obtain ⟨-, -, hc_token, hc_lt⟩ := hs.routed.entry hc
  refine ⟨rfl, hordered, c, hc, tokenOf_injective (h.bound_at hbound) hc_lt hlt ?_⟩
  rw [← hc_token, htoken, hsession]

end Cut

/-! ## Engine responses are never misrouted -/

/-- **Engine-path frames reach the connection whose message they answer, and a
response that has lost its connection is dropped.** -/
theorem responses_reach_their_connection (h : ServerRun D ts s)
    (hbound : ∀ slot < kMaxSlots, slotAssignments slot (events ts) < 2 ^ 32)
    {us vs : List (Taken Server Label)} {t : Taken Server Label} (hts : ts = us ++ t :: vs) :
    (∀ fd frame rsp, Event.engineFrame fd frame rsp ∈ t.label.events →
      frame = encodeResponse rsp.value blankFrame ∧
      (∃ msg cmd, Event.command rsp.source msg cmd true ∈ events us ∧
        engineRespond cmd = some rsp.value) ∧
      ∃ c, t.src.connections.find fd = some c ∧ c.serial = rsp.source) ∧
    ∀ rsp, t.label.input = .drain → t.src.rspQueue.items.head? = some rsp →
      (Event.dropped rsp ∈ t.label.events ↔
        ¬ ∃ fd c, t.src.connections.find fd = some c ∧ c.serial = rsp.source ∧ t.src.Names c) := by
  subst hts
  obtain ⟨hsrc, hstep, hmove⟩ := h.at_step
  have hs := ServerRun.sound hsrc
  refine ⟨fun _ _ _ hmem => h.of_engineFrame hbound hmem, ?_⟩
  · intro rsp hinput hhead
    have hflight : rsp ∈ inFlight t.src := by
      refine List.mem_append_right _ (List.mem_append_left _ ?_)
      exact List.mem_of_mem_head? hhead
    obtain ⟨hlt, hsession, -⟩ := hsrc.session_of_ordered (hsrc.ordered_of_inFlight hflight)
    rw [← deliverable_iff hs (h.bound_at hbound) hlt hsession]
    exact hstep.dropped_iff hs hinput hhead

theorem slotAssignments_lt {es : List Event} (h : es.length < 2 ^ 32) (slot : Nat) :
    slotAssignments slot es < 2 ^ 32 :=
  Nat.lt_of_le_of_lt List.countP_le_length h

/-- A first client's order is answered on its own descriptor. -/
theorem responses_reach_their_connection_firstOrder :
    ∃ ts s us t vs rsp, ServerRun .standard ts s ∧ ts = us ++ t :: vs ∧
      Event.engineFrame 6 (encodeResponse rsp.value blankFrame) rsp ∈ t.label.events ∧
      (∃ msg cmd, Event.command rsp.source msg cmd true ∈ events us ∧
        engineRespond cmd = some rsp.value) ∧
      ∃ c, t.src.connections.find 6 = some c ∧ c.serial = rsp.source := by
  obtain ⟨ts, s, msg, enqueued, h, hevents⟩ := first_answered
  have hmem : Event.engineFrame 6 (encodeResponse firstResponse blankFrame) ⟨firstResponse, 0⟩
      ∈ events ts := by
    rw [hevents]
    simp
  have hbound : ∀ slot < kMaxSlots, slotAssignments slot (events ts) < 2 ^ 32 := by
    intro slot _
    rw [hevents]
    exact slotAssignments_lt (by exact (by decide : 6 < 2 ^ 32)) slot
  obtain ⟨t, ht, he⟩ := List.mem_flatMap.mp hmem
  obtain ⟨us, vs, hts⟩ := List.append_of_mem ht
  obtain ⟨-, hcommand, hconnection⟩ :=
    (responses_reach_their_connection h hbound hts).1 _ _ _ he
  exact ⟨ts, s, us, t, vs, _, h, hts, he, hcommand, hconnection⟩

/-! ## Engine responses keep their order -/

/-- The engine-path frames sent to the connection with serial `k`: those handed to
`send` for its descriptor while it was open. -/
def framesTo (k : Nat) (t : Taken Server Label) : List (List UInt8) :=
  t.label.events.filterMap fun
    | .engineFrame fd frame _ =>
        (t.src.connections.find fd).bind fun c => if c.serial = k then some frame else none
    | _ => none

/-- What the in-sequence order messages of the connection with serial `k` ask for. -/
def orderReplies (k : Nat) (es : List Event) : List Reply :=
  es.filterMap fun
    | .command j msg _ _ => if j = k then orderReply msg else none
    | _ => none

theorem ServerRun.framesTo_eq (h : ServerRun D ts s)
    (hbound : ∀ slot < kMaxSlots, slotAssignments slot (events ts) < 2 ^ 32) (k : Nat) :
    ts.flatMap (framesTo k) = (sent (events ts)).filterMap fun rsp =>
      if rsp.source = k then some (encodeResponse rsp.value blankFrame) else none := by
  rw [sent, List.filterMap_filterMap, events, List.filterMap_flatMap]
  refine List.flatMap_congr fun t ht => List.filterMap_congr fun e he => ?_
  obtain ⟨us, vs, rfl⟩ := List.append_of_mem ht
  cases e with
  | engineFrame fd frame rsp =>
      obtain ⟨rfl, -, c, hc, hserial⟩ := h.of_engineFrame hbound he
      show (t.src.connections.find fd).bind _ = if rsp.source = k then _ else _
      rw [hc, ← hserial]
      rfl
  | _ => rfl

theorem ServerRun.orderReply_of_ordered (h : ServerRun D ts s) {k : Nat} {msg : DecodedMessage}
    {cmd : EngineCommand} {enqueued : Bool} (he : Event.command k msg cmd enqueued ∈ events ts)
    {rsp : EngineResponse} (hrsp : engineRespond cmd = some rsp) : orderReply msg = some rsp.reply := by
  obtain ⟨⟨horder, hcmd⟩, -⟩ := h.counts.2 _ he
  obtain ⟨rsp', hrsp', -, hreply⟩ := engineRespond_toCommand (tokenOf k) horder
  rw [hcmd, hrsp'] at hrsp
  rw [hreply, Option.some.inj hrsp]

/-- **The engine-path frames sent to a connection answer its order messages in
their order, each at most once.** -/
theorem responses_keep_order (h : ServerRun D ts s)
    (hbound : ∀ slot < kMaxSlots, slotAssignments slot (events ts) < 2 ^ 32) (k : Nat) :
    ((ts.flatMap (framesTo k)).map readReply).Sublist ((orderReplies k (events ts)).map some) := by
  have hsent : (sent (events ts)).Sublist (ordered (events ts)) :=
    (List.sublist_append_left _ _).trans h.flow
  rw [h.framesTo_eq hbound, List.map_filterMap]
  refine (hsent.filterMap _).trans ?_
  rw [ordered, List.filterMap_filterMap, orderReplies, List.map_filterMap]
  refine sublist_filterMap fun e he b hb => ?_
  cases e with
  | command j msg cmd enqueued =>
      cases enqueued with
      | false => cases hb
      | true =>
          obtain ⟨rsp, hrsp, hb⟩ := Option.bind_eq_some_iff.mp hb
          obtain ⟨value, hval, rfl⟩ := Option.map_eq_some_iff.mp hrsp
          have hreply := h.orderReply_of_ordered he hval
          dsimp only at hb ⊢
          by_cases hj : j = k
          · rw [if_pos hj] at hb ⊢
            rw [hreply]
            rw [← Option.some.inj hb]
            exact congrArg some (carries_encodeResponse value length_blankFrame).reply.symm
          · rw [if_neg hj] at hb
            cases hb
  | _ => cases hb

/-- A cancel of the first client's order. -/
def firstCancel : OrderMessage := .cancelOrder { sequenceNumber := 2 } { clientOrderId := 7 }

/-- The command it stands for, and the engine's answer. -/
def cancelCommand : EngineCommand :=
  { type := .cancel, session := tokenOf 0, requestSequence := 2, clientOrderId := 7 }

def cancelResponse : EngineResponse :=
  { type := .cancelled, session := tokenOf 0, clientOrderId := 7 }

/-- The first client's order is answered; it cancels it, and hangs up before the engine gets
to that. -/
theorem first_cancels :
    ∃ ts s msg msg', ServerRun .standard ts s ∧
      events ts =
        [.accepted 0 6 (tokenOf 0), .received 0 firstFrame, .command 0 msg firstCommand true,
          .popped ⟨firstCommand, 0⟩, .responded ⟨firstResponse, 0⟩ true,
          .engineFrame 6 (encodeResponse firstResponse blankFrame) ⟨firstResponse, 0⟩,
          .received 0 (firstCancel.encode blankFrame).2, .command 0 msg' cancelCommand true,
          .closed 0 (tokenOf 0) true, .popped ⟨cancelCommand, 0⟩,
          .responded ⟨cancelResponse, 0⟩ true, .dropped ⟨cancelResponse, 0⟩] := by
  obtain ⟨ts, s, c, msg, h, hevents, hc, serial, token, hexpected, hm, hcmds, hrsps⟩ :=
    first_answered_waits
  have hcmd : orderCommand c.token firstCancel.request = some cancelCommand := by
    rw [token]
    rfl
  obtain ⟨us, s₁, c₁, msg', h1, hus, hordered⟩ := h.can_order (m := firstCancel) hc (by decide)
    (by decide) rfl rfl hexpected.symm hcmd
  have hroom : s.cmdQueue.HasRoom := by
    rw [Queue.HasRoom, hcmds]
    decide
  have hpushed : (s.cmdQueue.push ⟨cancelCommand, c.serial⟩).1 = true := by
    rw [Queue.push_fst]
    exact decide_eq_true hroom
  have hqueued : s₁.cmdQueue.items = [⟨cancelCommand, 0⟩] := by
    rw [hordered.cmdQueue, Queue.push_snd, if_pos hroom, hcmds, serial]
    rfl
  have hroom₁ : s₁.cmdQueue.HasRoom := by
    rw [Queue.HasRoom, hqueued]
    decide
  have hserial : c₁.serial = 0 := hordered.next.serial.trans serial
  have htoken : c₁.token = tokenOf 0 := hordered.next.token.trans token
  -- the client hangs up
  have hfound := hordered.waiting.found
  obtain ⟨vs, t, h2, -, -, hvs, ht⟩ := h1.can_hangUp hordered.waiting.gateway (by decide)
    (by decide) hfound
  rw [closeConn_of_find hfound] at h2 ht
  have hhead : (s₁.cmdQueue.push (sessionClosed c₁)).2.items.head? = some ⟨cancelCommand, 0⟩ := by
    rw [Queue.push_snd, if_pos hroom₁, hqueued]
    rfl
  -- the engine answers
  obtain ⟨ws, h3, hws⟩ := h2.can_respond (hordered.matching.trans hm) hhead
    (rfl : engineRespond cancelCommand = some cancelResponse)
  have hroom' : s₁.rspQueue.HasRoom := by
    rw [Queue.HasRoom, hordered.rspQueue, hrsps]
    decide
  have hanswered : events ws = [.popped ⟨cancelCommand, 0⟩, .responded ⟨cancelResponse, 0⟩ true] := by
    rw [hws, Queue.push_fst]
    exact congrArg (fun b => [_, Event.responded _ b]) (decide_eq_true hroom')
  have hone : (s₁.rspQueue.push ⟨cancelResponse, 0⟩).2.items = [⟨cancelResponse, 0⟩] := by
    rw [Queue.push_snd, if_pos hroom', hordered.rspQueue, hrsps]
    rfl
  -- and the answer is dropped
  have hlost : ¬ Deliverable (s₁.toRoutes.unlink 6 c₁.token) (tokenOf 0) := by
    intro hpass
    have hfd := hpass.2
    rw [Routes.slot, Routed.cells_unlink ((ServerRun.sound h1).routed.slot_lt hfound), htoken,
      if_pos rfl] at hfd
    exact absurd hfd (show ¬ (0 : Int) ≤ -1 by decide)
  obtain ⟨xs, q, h4, -, -, hxs⟩ := h3.can_drain_one hordered.waiting.gateway hone
  have hdropped : events xs = [.dropped ⟨cancelResponse, 0⟩] := hxs hlost
  have hclosed : t.label.events = [.closed 0 (tokenOf 0) true] := by
    rw [ht, Queue.push_fst, ← htoken, ← hserial]
    exact congrArg (fun b => [Event.closed _ _ b]) (decide_eq_true hroom₁)
  refine ⟨_, _, msg, msg', h4, ?_⟩
  rw [events_append, events_append, events_append, events_append, events_append vs,
    events_singleton, hevents, hus, hvs, hclosed, hanswered, hdropped, hpushed, serial]
  rfl

theorem responses_keep_order_firstCancel :
    ∃ ts s, ServerRun .standard ts s ∧ (sent (events ts)).length = 1 ∧
      orderReplies 0 (events ts) = [firstResponse.reply, cancelResponse.reply] ∧
      Event.dropped ⟨cancelResponse, 0⟩ ∈ events ts ∧
      ((ts.flatMap (framesTo 0)).map readReply).Sublist
        ((orderReplies 0 (events ts)).map some) := by
  obtain ⟨ts, s, msg, msg', h, hevents⟩ := first_cancels
  have hbound : ∀ slot < kMaxSlots, slotAssignments slot (events ts) < 2 ^ 32 := by
    intro slot _
    rw [hevents]
    exact slotAssignments_lt (by exact (by decide : 12 < 2 ^ 32)) slot
  have hmem : Event.command 0 msg firstCommand true ∈ events ts := by
    rw [hevents]
    simp
  have hmem' : Event.command 0 msg' cancelCommand true ∈ events ts := by
    rw [hevents]
    simp
  have hfirst : orderReply msg = some firstResponse.reply := h.orderReply_of_ordered hmem rfl
  have hsecond : orderReply msg' = some cancelResponse.reply := h.orderReply_of_ordered hmem' rfl
  refine ⟨ts, s, h, ?_, ?_, ?_, responses_keep_order h hbound 0⟩
  · rw [hevents]
    rfl
  · rw [hevents]
    simp only [orderReplies, List.filterMap_cons, List.filterMap_nil, if_true, hfirst, hsecond]
  · rw [hevents]
    simp

end TradingGateway.Gateway
