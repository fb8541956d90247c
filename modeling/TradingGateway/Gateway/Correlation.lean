/-
# `Gateway.Correlation` — which request a response answers

A client that has several requests under way tells the responses apart by their
sequence number.

| frame | which message it answers | sequence number in its header |
| :-- | :-- | :-- |
| control | the one the parse loop has read | the message's |
| engine | that of the order whose response is next in the queue | 0 |

Engine frames are matched with messages by position, since nothing in a response
names its request: responses are pushed in the order in which the orders were popped,
so the next one to leave the queue answers the next of the orders whose push found
room (`answeredOrders`).  The header that `encode_response` builds has the default
number, so responses are correlated exactly where no engine frame answers a message
with another one (`responses_correlated_iff`).
-/
import TradingGateway.Gateway.Handover
import TradingGateway.Gateway.Responses

namespace TradingGateway.Gateway

open Lib OrderEntry Spsc

variable {D : Descriptors} {ts us vs : List (Taken Server Label)} {s s' : Server}
  {es : List Event}

/-! ## Which order a response answers -/

/-- The elements whose flag is set. -/
def pick {α : Type*} (l : List α) (flags : List Bool) : List α :=
  (l.zip flags).filterMap fun p => if p.2 then some p.1 else none

/-- Whether the pushes of the matching thread found room, one after the other. -/
def pushes (es : List Event) : List Bool :=
  es.filterMap fun
    | .responded _ enqueued => some enqueued
    | _ => none

/-- The orders whose responses were placed in the response queue. -/
def answeredOrders (es : List Event) : List (Traced EngineCommand) :=
  pick ((popped es).filter fun cmd => cmd.value.IsOrder) (pushes es)

theorem forall₂_pick {α β : Type*} {R : α → β → Prop} :
    ∀ {as : List α} {bs cs : List β} {flags : List Bool}, List.Forall₂ R as (bs ++ cs) →
      flags.length = bs.length → List.Forall₂ R (pick as flags) (pick bs flags) := by
  intro as bs cs flags h hlength
  induction bs generalizing as flags with
  | nil =>
      obtain rfl := List.length_eq_zero_iff.mp hlength
      rw [pick, List.zip_nil_right]
      exact .nil
  | cons b bs ih =>
      obtain ⟨flag, flags, rfl⟩ := List.exists_cons_of_length_eq_add_one hlength
      cases h with
      | @cons a _ as _ hab hrest =>
          have hrest := ih hrest (Nat.succ.inj hlength)
          cases flag with
          | true => exact .cons hab hrest
          | false => exact hrest

theorem length_pushes (es : List Event) : (pushes es).length = (responded es).length := by
  induction es with
  | nil => rfl
  | cons e es ih =>
      cases e with
      | responded rsp enqueued => exact congrArg Nat.succ ih
      | _ => exact ih

theorem placed_eq_pick (es : List Event) : placed es = pick (responded es) (pushes es) := by
  induction es with
  | nil => rfl
  | cons e es ih =>
      cases e with
      | responded rsp enqueued =>
          cases enqueued with
          | true => exact congrArg (rsp :: ·) ih
          | false => exact ih
      | _ => exact ih

theorem ServerRun.placed_answer (h : ServerRun D ts s) :
    List.Forall₂ (fun cmd rsp => cmd.response = some rsp) (answeredOrders (events ts))
      (placed (events ts)) := by
  rw [placed_eq_pick]
  exact forall₂_pick h.orders_respond (length_pushes _)

theorem ServerRun.message_of_popped (h : ServerRun D ts s) {cmd : Traced EngineCommand}
    (hmem : cmd ∈ popped (events ts)) (order : cmd.value.IsOrder) :
    ∃ msg, Event.command cmd.source msg cmd.value true ∈ events ts := by
  have henqueued : cmd ∈ enqueued (events ts) := by
    rw [h.commands]
    exact List.mem_append_left _ hmem
  obtain ⟨e, he, hsome⟩ := List.mem_filterMap.mp henqueued
  cases e with
  | command k msg value enqueued =>
      cases enqueued with
      | true =>
          obtain rfl := Option.some.inj hsome
          exact ⟨msg, he⟩
      | false => cases hsome
  | closed k token enqueued =>
      cases enqueued with
      | true =>
          obtain rfl := Option.some.inj hsome
          have order : EngineCommandType.sessionClosed ∈
            [EngineCommandType.newLimit, .cancel, .modify] := order
          exact absurd order (by decide)
      | false => cases hsome
  | shutdownCommand enqueued =>
      cases enqueued with
      | true =>
          obtain rfl := Option.some.inj hsome
          exact absurd order (by decide)
      | false => cases hsome
  | _ => cases hsome

/-- After the events, the next response to leave the queue answers the order `cmd`,
which was read from `msg`. -/
structure NextAnswers (es : List Event) (cmd : Traced EngineCommand) (msg : DecodedMessage) :
    Prop where
  position : (answeredOrders es)[(gone es).length]? = some cmd
  message : Event.command cmd.source msg cmd.value true ∈ es

theorem mem_pick {α : Type*} {l : List α} {flags : List Bool} {a : α} (h : a ∈ pick l flags) :
    a ∈ l := by
  obtain ⟨⟨b, flag⟩, hmem, hsome⟩ := List.mem_filterMap.mp h
  cases flag with
  | true =>
      obtain rfl := Option.some.inj hsome
      exact (List.of_mem_zip hmem).1
  | false => cases hsome

theorem ServerRun.nextAnswers (h : ServerRun D ts s) {rsp : Traced EngineResponse}
    (pc : s.gateway = .deliver rsp) :
    ∃ cmd msg, NextAnswers (events ts) cmd msg ∧ cmd.response = some rsp := by
  have hplaced : placed (events ts) = gone (events ts) ++ rsp :: s.rspQueue.items := by
    rw [h.responses, pc]
    rfl
  have hall := h.placed_answer
  rw [hplaced] at hall
  have hdrop := List.forall₂_drop_append _ _ _ hall
  obtain ⟨cmd, cmds, hrsp, -, hcmds⟩ := List.forall₂_cons_right_iff.mp hdrop
  have hposition : (answeredOrders (events ts))[(gone (events ts)).length]? = some cmd := by
    rw [← List.head?_drop, hcmds]
    rfl
  have hmem := List.mem_filter.mp (mem_pick (List.mem_of_getElem? hposition))
  obtain ⟨msg, he⟩ := h.message_of_popped hmem.1 (of_decide_eq_true hmem.2)
  exact ⟨cmd, msg, ⟨hposition, he⟩, hrsp⟩

/-! ## The numbers in the frames -/

theorem requestSequence_toCommand (token : SessionToken) (msg : DecodedMessage) :
    (toCommand token msg).requestSequence = msg.header.sequenceNumber := by
  unfold toCommand
  dsimp only
  split_ifs
  all_goals rfl

theorem ServerRun.number_unique (h : ServerRun D ts s) {cmd cmd' : Traced EngineCommand}
    {msg msg' : DecodedMessage} (hmsg : NextAnswers (events ts) cmd msg)
    (hmsg' : NextAnswers (events ts) cmd' msg') :
    msg.header.sequenceNumber = msg'.header.sequenceNumber := by
  obtain rfl := Option.some.inj (hmsg.position.symm.trans hmsg'.position)
  obtain ⟨⟨-, hcmd⟩, -⟩ := h.counts.2 _ hmsg.message
  obtain ⟨⟨-, hcmd'⟩, -⟩ := h.counts.2 _ hmsg'.message
  rw [← requestSequence_toCommand (tokenOf cmd.source) msg,
    ← requestSequence_toCommand (tokenOf cmd.source) msg', ← hcmd, ← hcmd']

/-- `encode_response` leaves the number at its default. -/
theorem sequenceNumber_encodeResponse (rsp : EngineResponse) :
    (readHeader (encodeResponse rsp blankFrame)).sequenceNumber = 0 := by
  rw [(carries_encodeResponse rsp length_blankFrame).header]
  rfl

theorem sequenceNumber_answer {token : SessionToken} {expected : UInt64} {r : Request}
    {header : MessageHeader} {reply : Reply}
    (h : (answer token expected r).1 = .control header reply) :
    header.sequenceNumber = r.header.sequenceNumber := by
  unfold answer at h
  split at h
  next =>
    rw [← (Output.control.inj h).1]
    rfl
  next =>
    split at h
    next => cases h
    next =>
      rw [← (Output.control.inj h).1]
      rfl

theorem Shows.of_control {c : Connection} {fd fd' : Int} {q q' : CommandQueue} {o : Output}
    {next : Option UInt64} {e : Event} {k : Nat} {cause : Control} {frame : List UInt8}
    (h : Shows c fd q q' o next e) (he : e = .control k fd' cause frame) :
    c.serial = k ∧ fd = fd' ∧ controlOutput frame = some o := by
  cases h with
  | control read last kept =>
      obtain ⟨rfl, rfl, rfl, rfl⟩ := Event.control.inj he
      exact ⟨rfl, rfl, read⟩
  | command order pushed => cases he

/-- A control frame answers the request at the head of the connection's buffer. -/
theorem Move.of_control (h : Move s es s') {k : Nat} {fd : Int} {cause : Control}
    {frame : List UInt8} (he : Event.control k fd cause frame ∈ es) :
    ∃ c r, s.connections.find fd = some c ∧ c.serial = k ∧
      readRequest (c.parser.contents.take kFrameSize) = some r ∧
      controlOutput frame = some (answer c.token c.expectedSequence r).1 := by
  cases h with
  | quiet routes engine pc passed => exact absurd (engine _ he) id
  | closed found routes engine aside =>
      rcases List.mem_append.mp he with he | he
      · exact absurd (engine _ he) id
      · cases List.mem_singleton.mp he
  | overflowed found le full routes aside =>
      rcases List.mem_cons.mp he with heq | he
      · cases heq
      · cases List.mem_singleton.mp he
  | starved | exited => cases he
  | accepted | received | refused => cases List.mem_singleton.mp he
  | @answered fd' c c' r e s' loop found long read answered =>
      obtain ⟨hk, rfl, houtput⟩ := answered.event.of_control (List.mem_singleton.mp he).symm
      exact ⟨c, r, found, hk, read, houtput⟩

theorem Move.sequenceNumber_control (h : Move s es s') {k : Nat} {fd : Int} {cause : Control}
    {frame : List UInt8} (he : Event.control k fd cause frame ∈ es) :
    ∃ c r, s.connections.find fd = some c ∧ c.serial = k ∧
      readRequest (c.parser.contents.take kFrameSize) = some r ∧
      (readHeader frame).sequenceNumber = r.header.sequenceNumber := by
  obtain ⟨c, r, found, hk, read, houtput⟩ := h.of_control he
  obtain ⟨reply, -, hcontrol⟩ := Option.map_eq_some_iff.mp houtput
  exact ⟨c, r, found, hk, read, sequenceNumber_answer hcontrol.symm⟩

/-! ## Correlation -/

/-- Every response frame bears the sequence number of the message it answers. -/
structure Correlated (ts : List (Taken Server Label)) : Prop where
  control : ∀ us t vs, ts = us ++ t :: vs → ∀ k fd cause frame,
    Event.control k fd cause frame ∈ t.label.events →
      ∃ c r, t.src.connections.find fd = some c ∧ c.serial = k ∧
        readRequest (c.parser.contents.take kFrameSize) = some r ∧
        (readHeader frame).sequenceNumber = r.header.sequenceNumber
  engine : ∀ us t vs, ts = us ++ t :: vs → ∀ fd frame rsp,
    Event.engineFrame fd frame rsp ∈ t.label.events →
      ∃ cmd msg, NextAnswers (events us) cmd msg ∧ Answers cmd rsp ∧
        (readHeader frame).sequenceNumber = msg.header.sequenceNumber

section Cut

variable {t : Taken Server Label} {fd : Int} {frame : List UInt8} {rsp : Traced EngineResponse}

theorem ServerRun.engineFrame_answers (h : ServerRun D (us ++ t :: vs) s)
    (he : Event.engineFrame fd frame rsp ∈ t.label.events) :
    (∃ cmd msg, NextAnswers (events us) cmd msg ∧ Answers cmd rsp) ∧
      (readHeader frame).sequenceNumber = 0 := by
  obtain ⟨hsrc, -, hmove⟩ := h.at_step
  obtain ⟨pc, -, rfl⟩ := (hmove.seen he).of_engineFrame
  obtain ⟨cmd, msg, hmsg, hrsp⟩ := hsrc.nextAnswers pc
  exact ⟨⟨cmd, msg, hmsg, answers_of_response hrsp⟩, sequenceNumber_encodeResponse rsp.value⟩

end Cut

/-- **Responses can be correlated with requests exactly where no engine frame answers
a message whose sequence number is not 0.** -/
theorem responses_correlated_iff (h : ServerRun D ts s) :
    Correlated ts ↔ ∀ us t vs, ts = us ++ t :: vs → ∀ fd frame rsp,
      Event.engineFrame fd frame rsp ∈ t.label.events → ∀ cmd msg,
        NextAnswers (events us) cmd msg → msg.header.sequenceNumber = 0 := by
  constructor
  · rintro ⟨-, hengine⟩ us t vs rfl fd frame rsp he cmd msg hmsg
    obtain ⟨cmd', msg', hmsg', -, hnumber⟩ := hengine us t vs rfl fd frame rsp he
    rw [h.at_step.1.number_unique hmsg hmsg', ← hnumber]
    exact (h.engineFrame_answers he).2
  · intro hzero
    constructor
    · rintro us t vs rfl k fd cause frame he
      exact h.at_step.2.2.sequenceNumber_control he
    · rintro us t vs rfl fd frame rsp he
      obtain ⟨⟨cmd, msg, hmsg, hanswers⟩, hnumber⟩ := h.engineFrame_answers he
      refine ⟨cmd, msg, hmsg, hanswers, ?_⟩
      rw [hnumber, hzero us t vs rfl fd frame rsp he cmd msg hmsg]

theorem responses_correlated_iff_firstOrder :
    ∃ ts s, ServerRun .standard ts s ∧
      Event.engineFrame 6 (encodeResponse firstResponse blankFrame) ⟨firstResponse, 0⟩
        ∈ events ts ∧
      (Correlated ts ↔ ∀ us t vs, ts = us ++ t :: vs → ∀ fd frame rsp,
        Event.engineFrame fd frame rsp ∈ t.label.events → ∀ cmd msg,
          NextAnswers (events us) cmd msg → msg.header.sequenceNumber = 0) := by
  obtain ⟨ts, s, msg, enqueued, h, hevents⟩ := first_answered
  refine ⟨ts, s, h, ?_, responses_correlated_iff h⟩
  rw [hevents]
  exact List.mem_of_mem_getLast? rfl

/-- The first client's order has the number 1, and the frame that answers it has 0. -/
theorem response_uncorrelated :
    ∃ ts s, ServerRun .standard ts s ∧ ¬ Correlated ts := by
  obtain ⟨ts, s, msg, enqueued, h, hevents⟩ := first_answered
  refine ⟨ts, s, h, fun hcorrelated => ?_⟩
  have hmem : Event.engineFrame 6 (encodeResponse firstResponse blankFrame) ⟨firstResponse, 0⟩
      ∈ events ts := by
    rw [hevents]
    exact List.mem_of_mem_getLast? rfl
  obtain ⟨t, ht, he⟩ := List.mem_flatMap.mp hmem
  obtain ⟨us, vs, rfl⟩ := List.append_of_mem ht
  obtain ⟨cmd, msg', hmsg, -, hnumber⟩ := hcorrelated.engine us t vs rfl _ _ _ he
  rw [(h.engineFrame_answers he).2] at hnumber
  -- the only command there is has the number 1
  have hcommand : Event.command cmd.source msg' cmd.value true ∈ events (us ++ t :: vs) := by
    rw [events_append]
    exact List.mem_append_left _ hmsg.message
  obtain ⟨⟨-, hbuilt⟩, -⟩ := h.counts.2 _ hcommand
  rw [hevents] at hcommand
  have hfirst : cmd.value = firstCommand := by
    simp only [List.mem_cons, reduceCtorEq, false_or, or_false, List.not_mem_nil] at hcommand
    exact (Event.command.inj hcommand).2.2.1
  rw [← requestSequence_toCommand (tokenOf cmd.source) msg', ← hbuilt, hfirst] at hnumber
  exact absurd hnumber (by decide)

end TradingGateway.Gateway
