/-
# `Gateway.Reference` — what a connection does, as a function of its bytes

The behaviour a connection should show, with no server in sight: the requests in
its byte stream are answered one after the other by a machine whose state is the
expected sequence number.

| request | answer | expected |
| :-- | :-- | :-- |
| out of sequence | Rejected(BadSequence) | unchanged |
| Heartbeat | Accepted | + 1 |
| Logout | Accepted | the machine stops |
| NewOrder, CancelOrder, ModifyOrder | the command for the engine | + 1 |

`reference token stream` are the answers to a whole stream.  The second half says
where the same things show in the events of a run: `behaviour k` reads off what
the connection with serial `k` was sent by the parse loop and what was pushed for
it, up to and including its first bad frame or in-sequence logout.
-/
import TradingGateway.Gateway.Server
import TradingGateway.Lib.StreamMachine

namespace TradingGateway.Gateway

open Lib OrderEntry Lib.StreamMachine

/-! ## The machine -/

/-- A control frame as its reader sees it, or a command for the engine. -/
inductive Output where
  | control (header : MessageHeader) (reply : Reply)
  | command (cmd : EngineCommand)
deriving DecidableEq, Repr

/-- The command an order request stands for. -/
def orderCommand (token : SessionToken) (r : Request) : Option EngineCommand :=
  match r.payload with
  | .newOrder order =>
      some
        { type := .newLimit
          session := token
          requestSequence := r.header.sequenceNumber
          clientOrderId := order.clientOrderId
          side := order.side
          price := order.price
          quantity := order.quantity }
  | .cancelOrder id =>
      some
        { type := .cancel
          session := token
          requestSequence := r.header.sequenceNumber
          clientOrderId := id }
  | .modifyOrder id price quantity =>
      some
        { type := .modify
          session := token
          requestSequence := r.header.sequenceNumber
          clientOrderId := id
          price := price
          quantity := quantity }
  | .heartbeat | .logout => none

/-- Rejected(BadSequence): the request's header under the connection's slot. -/
def rejection (token : SessionToken) (r : Request) : Output :=
  .control (stamp .rejected { r.header with sessionId := token.slot.toUInt64 })
    (.rejected 0 .badSequence)

/-- The Accepted of a heartbeat or a logout. -/
def acceptance (r : Request) : Output :=
  .control (stamp .accepted r.header) (.accepted 0 0)

/-- The answer to one request, and the next expected number unless it was a logout. -/
def answer (token : SessionToken) (expected : UInt64) (r : Request) : Output × Option UInt64 :=
  if r.header.sequenceNumber ≠ expected then (rejection token r, some expected)
  else
    match orderCommand token r with
    | some cmd => (.command cmd, some (expected + 1))
    | none => (acceptance r, if r.payload = .logout then none else some (expected + 1))

/-- The behaviour of a connection on a stream. -/
def reference (token : SessionToken) (stream : List UInt8) : List Output :=
  answers kFrameSize readRequest (answer token) 1 stream

/-- The stream holds a bad frame or an in-sequence logout. -/
def StreamEnds (token : SessionToken) (stream : List UInt8) : Prop :=
  Ends kFrameSize readRequest (answer token) 1 stream

/-! ## What the parse loop makes of a message

The code branches on the type in the header, the reference on the payload. -/

section Message

variable {bs : List UInt8} {r : Request} (out : DecodedMessage)

theorem header_overlay (out : DecodedMessage) (r : Request) : (out.overlay r).header = r.header := by
  rcases r with ⟨h, _ | _ | _ | _ | _⟩ <;> rfl

theorem type_overlay (hr : readRequest bs = some r) : (out.overlay r).type = r.payload.type := by
  rw [← type_of_readRequest hr]
  rcases r with ⟨h, _ | _ | _ | _ | _⟩ <;> rfl

/-- The code's command is the request's. -/
theorem orderCommand_eq (token : SessionToken) (hr : readRequest bs = some r) :
    orderCommand token r =
      if (out.overlay r).type = .logout ∨ (out.overlay r).type = .heartbeat then none
      else some (toCommand token (out.overlay r)) := by
  have htype := type_overlay out hr
  rw [toCommand, htype]
  obtain ⟨h, payload⟩ := r
  cases payload with
  | newOrder order => rfl
  | cancelOrder id => rfl
  | modifyOrder id price quantity => rfl
  | heartbeat => rfl
  | logout => rfl

theorem payload_eq_logout_iff {payload : Payload} :
    payload = .logout ↔ payload.type = MessageType.logout := by
  cases payload with
  | logout => exact ⟨fun _ => rfl, fun _ => rfl⟩
  | _ => exact ⟨nofun, nofun⟩

/-- A request that is neither logout nor heartbeat is an order. -/
theorem isOrder_overlay (hr : readRequest bs = some r) (hl : (out.overlay r).type ≠ .logout)
    (hh : (out.overlay r).type ≠ .heartbeat) : IsOrder (out.overlay r) := by
  rw [IsOrder, type_overlay out hr]
  rw [type_overlay out hr] at hl hh
  obtain ⟨h, payload⟩ := r
  cases payload with
  | newOrder order => exact Or.inl rfl
  | cancelOrder id => exact Or.inr (Or.inl rfl)
  | modifyOrder id price quantity => exact Or.inr (Or.inr rfl)
  | heartbeat => exact absurd rfl hh
  | logout => exact absurd rfl hl

variable {token : SessionToken} {expected : UInt64}

theorem answer_of_gap (h : r.header.sequenceNumber ≠ expected) :
    answer token expected r = (rejection token r, some expected) :=
  if_pos h

/-- A command is the answer to an order message in sequence. -/
theorem order_of_answer {cmd : EngineCommand} (h : (answer token expected r).1 = .command cmd) :
    r.header.sequenceNumber = expected ∧ orderCommand token r = some cmd := by
  by_cases hseq : r.header.sequenceNumber = expected
  case neg =>
    rw [answer_of_gap hseq] at h
    cases h
  rw [answer, if_neg (not_not.mpr hseq)] at h
  cases hcmd : orderCommand token r with
  | some cmd' =>
      rw [hcmd] at h
      exact ⟨hseq, congrArg some (Output.command.inj h)⟩
  | none =>
      rw [hcmd] at h
      cases h

theorem answer_of_logout (hr : readRequest bs = some r) (h : r.header.sequenceNumber = expected)
    (ht : (out.overlay r).type = .logout) : answer token expected r = (acceptance r, none) := by
  rw [answer, if_neg (not_not.mpr h), orderCommand_eq out token hr, if_pos (Or.inl ht)]
  rw [type_overlay out hr] at ht
  dsimp only
  rw [if_pos (payload_eq_logout_iff.mpr ht)]

theorem answer_of_heartbeat (hr : readRequest bs = some r) (h : r.header.sequenceNumber = expected)
    (ht : (out.overlay r).type = .heartbeat) :
    answer token expected r = (acceptance r, some (expected + 1)) := by
  rw [answer, if_neg (not_not.mpr h), orderCommand_eq out token hr, if_pos (Or.inr ht)]
  rw [type_overlay out hr] at ht
  dsimp only
  rw [if_neg fun hl => absurd (ht.symm.trans (payload_eq_logout_iff.mp hl)) (by decide)]

theorem answer_of_order (hr : readRequest bs = some r) (h : r.header.sequenceNumber = expected)
    (hl : (out.overlay r).type ≠ .logout) (hh : (out.overlay r).type ≠ .heartbeat) :
    answer token expected r
      = (.command (toCommand token (out.overlay r)), some (expected + 1)) := by
  rw [answer, if_neg (not_not.mpr h), orderCommand_eq out token hr, if_neg (not_or.mpr ⟨hl, hh⟩)]

/-- The output a control frame shows to its reader. -/
def controlOutput (frame : List UInt8) : Option Output :=
  (readReply frame).map (Output.control (readHeader frame))

theorem controlOutput_of_carries {frame : List UInt8} {h : MessageHeader} {reply : Reply}
    (hc : Carries frame h reply) : controlOutput frame = some (.control (stamp reply.type h) reply) := by
  rw [controlOutput, hc.reply, hc.header]
  rfl

theorem controlOutput_badSequenceFrame (token : SessionToken) (r : Request) :
    controlOutput (badSequenceFrame token (out.overlay r)) = some (rejection token r) := by
  rw [controlOutput_of_carries (carries_badSequenceFrame token _), header_overlay]
  rfl

theorem controlOutput_acceptFrame (r : Request) :
    controlOutput (acceptFrame (out.overlay r)) = some (acceptance r) := by
  rw [controlOutput_of_carries (carries_acceptFrame _), header_overlay]
  rfl

end Message

/-! ## The machine in the events of a run -/

/-- What the event shows of the connection with serial `k`. -/
def Event.output (k : Nat) : Event → Option Output
  | .control j _ _ frame => if j = k then controlOutput frame else none
  | .command j _ cmd _ => if j = k then some (.command cmd) else none
  | _ => none

/-- The parser refused a frame of the connection, or its logout was answered. -/
def Event.Finishes (k : Nat) : Event → Prop
  | .protocolError j => j = k
  | .control j _ cause _ => j = k ∧ cause = .logout
  | _ => False

instance (k : Nat) (e : Event) : Decidable (e.Finishes k) := by
  cases e <;> unfold Event.Finishes <;> infer_instance

/-- The bytes received from the connection. -/
def Event.bytes (k : Nat) : Event → List UInt8
  | .received j bs => if j = k then bs else []
  | _ => []

/-- The byte stream of the connection with serial `k`. -/
def received (k : Nat) (es : List Event) : List UInt8 := es.flatMap (Event.bytes k)

/-- The connection has had its first bad frame or in-sequence logout. -/
def Finished (k : Nat) (es : List Event) : Prop := ∃ e ∈ es, e.Finishes k

/-- Its outputs up to and including that. -/
def behaviour (k : Nat) : List Event → List Output
  | [] => []
  | e :: es => (e.output k).toList ++ if e.Finishes k then [] else behaviour k es

section Behaviour

variable {k : Nat} {es : List Event}

theorem received_append (k : Nat) (es fs : List Event) :
    received k (es ++ fs) = received k es ++ received k fs :=
  List.flatMap_append

theorem finished_append {fs : List Event} :
    Finished k (es ++ fs) ↔ Finished k es ∨ Finished k fs := by
  constructor
  · rintro ⟨e, he, hf⟩
    exact (List.mem_append.mp he).imp (fun h => ⟨e, h, hf⟩) fun h => ⟨e, h, hf⟩
  · rintro (⟨e, he, hf⟩ | ⟨e, he, hf⟩)
    · exact ⟨e, List.mem_append_left _ he, hf⟩
    · exact ⟨e, List.mem_append_right _ he, hf⟩

theorem behaviour_append (h : ¬ Finished k es) (fs : List Event) :
    behaviour k (es ++ fs) = behaviour k es ++ behaviour k fs := by
  induction es with
  | nil => rfl
  | cons e es ih =>
      have he : ¬ e.Finishes k := fun hf => h ⟨e, List.mem_cons_self, hf⟩
      have hes : ¬ Finished k es := fun ⟨d, hd, hf⟩ => h ⟨d, List.mem_cons_of_mem _ hd, hf⟩
      rw [List.cons_append, behaviour, behaviour, if_neg he, if_neg he, ih hes, List.append_assoc]

theorem behaviour_append_of_finished (h : Finished k es) (fs : List Event) :
    behaviour k (es ++ fs) = behaviour k es := by
  induction es with
  | nil =>
      obtain ⟨e, he, -⟩ := h
      cases he
  | cons e es ih =>
      rw [List.cons_append, behaviour, behaviour]
      by_cases he : e.Finishes k
      · rw [if_pos he, if_pos he]
      · obtain ⟨d, hd, hf⟩ := h
        rcases List.mem_cons.mp hd with rfl | hd
        · exact absurd hf he
        · rw [if_neg he, if_neg he, ih ⟨d, hd, hf⟩]

end Behaviour

end TradingGateway.Gateway
