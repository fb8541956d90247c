/-
# `Gateway.SentFrames` — what goes to `send`

Frames are built in four places, three branches of the parse loop and
`encode_response`.  Each fills in a payload of its own:

| branch | payload |
| :-- | :-- |
| out of sequence | Rejected, with the reason BadSequence and nothing else |
| in-sequence heartbeat, logout | Accepted, all zero |
| engine response | of the response's type, with its order id; a Rejected also its reason, a Trade its price and quantity |

The parse loop copies the header of the request, so that its frames are valid because
`try_parse` has checked magic and version; the encoder overrides type and length.
`encode_response` starts from a fresh header.  Nothing is asked of the state in which a
frame is sent: any parser, token, expected number and response will do.
-/
import TradingGateway.Gateway.Server
import TradingGateway.OrderEntry.RoundTrip

namespace TradingGateway.Gateway

open OrderEntry

/-- The payload that a branch of the parse loop fills in. -/
def Control.body : Control → Body
  | badSequence => .rejected { reason := .badSequence }
  | heartbeat | logout => .accepted {}

/-- The payload that `encode_response` fills in. -/
def EngineResponse.body (rsp : EngineResponse) : Body :=
  match rsp.type with
  | .accepted => .accepted { clientOrderId := rsp.clientOrderId }
  | .rejected => .rejected { clientOrderId := rsp.clientOrderId, reason := rsp.rejectReason }
  | .cancelled => .cancelled { clientOrderId := rsp.clientOrderId }
  | .modified => .modified { clientOrderId := rsp.clientOrderId }
  | .trade =>
      .trade { clientOrderId := rsp.clientOrderId, price := rsp.price, quantity := rsp.quantity }

/-- The frame that was passed to `send`, and the payload it is meant to say. -/
def Event.sent : Event → Option (List UInt8 × Body)
  | control _ _ cause frame => some (frame, cause.body)
  | engineFrame _ frame rsp => some (frame, rsp.value.body)
  | _ => none

/-- The frame is a valid response that says the payload, with nothing reserved in it. -/
def SaysExactly (frame : List UInt8) (body : Body) : Prop :=
  IsResponse frame body ∧ body.ReservedZero

/-! ## The frames -/

theorem saysExactly_encodeResponse (rsp : EngineResponse) {out : List UInt8}
    (hout : out.length = kFrameSize) : SaysExactly (encodeResponse rsp out) rsp.body := by
  have hresponse : ∀ body : Body, body.IsReply → IsResponse
      (body.encode { payloadLength := UInt16.ofNat kPayloadSize } out).2 body :=
    fun body reply => isResponse_encode _ body reply rfl rfl hout
  unfold encodeResponse EngineResponse.body
  cases rsp.type with
  | accepted => exact ⟨hresponse (.accepted _) trivial, rfl, rfl⟩
  | rejected => exact ⟨hresponse (.rejected _) trivial, rfl, rfl⟩
  | cancelled => exact ⟨hresponse (.cancelled _) trivial, rfl, rfl⟩
  | modified => exact ⟨hresponse (.modified _) trivial, rfl, rfl⟩
  | trade => exact ⟨hresponse (.trade _) trivial, trivial⟩

section FastPath

variable {msg : DecodedMessage} (magic : msg.header.magic = kMagic)
  (version : msg.header.version = kVersion)

include magic version

theorem saysExactly_badSequenceFrame (token : SessionToken) :
    SaysExactly (badSequenceFrame token msg) Control.badSequence.body := by
  have hframe : IsResponse (Control.badSequence.body.encode
      { msg.header with sessionId := token.slot.toUInt64 } blankFrame).2 Control.badSequence.body :=
    isResponse_encode { msg.header with sessionId := token.slot.toUInt64 }
      Control.badSequence.body trivial magic version length_blankFrame
  exact ⟨hframe, rfl, rfl⟩

theorem saysExactly_acceptFrame {cause : Control} (h : cause = .heartbeat ∨ cause = .logout) :
    SaysExactly (acceptFrame msg) cause.body := by
  have hframe : IsResponse ((Body.accepted {}).encode msg.header blankFrame).2 (.accepted {}) :=
    isResponse_encode msg.header (.accepted {}) trivial magic version length_blankFrame
  rcases h with rfl | rfl
  · exact ⟨hframe, rfl, rfl⟩
  · exact ⟨hframe, rfl, rfl⟩

end FastPath

/-! ## The steps -/

/-- Everything that the events send is exactly what was meant. -/
def AllExact (es : List Event) : Prop :=
  ∀ e ∈ es, ∀ frame body, e.sent = some (frame, body) → SaysExactly frame body

theorem allExact_nil : AllExact [] := List.forall_mem_nil _

theorem AllExact.cons {e : Event} {es : List Event}
    (h : ∀ frame body, e.sent = some (frame, body) → SaysExactly frame body) (hes : AllExact es) :
    AllExact (e :: es) :=
  List.forall_mem_cons.mpr ⟨h, hes⟩

/-- An event that sends nothing. -/
theorem AllExact.silent {e : Event} {es : List Event} (h : e.sent = none) (hes : AllExact es) :
    AllExact (e :: es) := by
  refine .cons (fun frame body hsent => ?_) hes
  rw [h] at hsent
  cases hsent

variable {D : Descriptors} {s : Server}

theorem allExact_closeConn (fd : Int) : AllExact (closeConn s fd).2 := by
  unfold closeConn
  split
  next => exact .silent rfl allExact_nil
  next => exact allExact_nil

theorem allExact_drainStep : AllExact (drainStep s).2 := by
  unfold drainStep
  dsimp only
  split
  next => exact allExact_nil
  next =>
    split
    next => exact .silent rfl allExact_nil
    next => exact allExact_nil

theorem allExact_deliverStep (rsp : Traced EngineResponse) (sent : Int) :
    AllExact (deliverStep s rsp sent).2 := by
  have hframe : ∀ fd frame body,
      (Event.engineFrame fd (encodeResponse rsp.value blankFrame) rsp).sent = some (frame, body) →
        SaysExactly frame body := by
    intro fd frame body hsent
    obtain ⟨rfl, rfl⟩ := Prod.mk.inj (Option.some.inj hsent)
    exact saysExactly_encodeResponse rsp.value length_blankFrame
  unfold deliverStep
  dsimp only
  split
  next => exact .cons (hframe _) (allExact_closeConn _)
  next => exact .cons (hframe _) allExact_nil

theorem allExact_dispatchStep (fd : Int) (epollIn : Bool) (r : RecvResult) :
    AllExact (dispatchStep s fd epollIn r).2 := by
  unfold dispatchStep
  dsimp only
  split
  next => exact allExact_nil
  next =>
    split
    next => exact allExact_nil
    next =>
      cases r with
      | closed => exact allExact_closeConn fd
      | wouldBlock => exact allExact_nil
      | failed => exact allExact_closeConn fd
      | bytes bs pos le =>
          dsimp only
          split
          next => exact .silent rfl (allExact_closeConn fd)
          next => exact .silent rfl allExact_nil

theorem allExact_pollStep : AllExact (pollStep s).2 := by
  unfold pollStep
  dsimp only
  split
  next => exact allExact_nil
  next =>
    split
    next => exact .silent rfl allExact_nil
    next =>
      split
      next => exact .silent rfl allExact_nil
      next => exact .silent rfl allExact_nil

/-- The parser hands out nothing without the protocol's magic and version. -/
theorem header_of_parsed {C : ParserCapacity} {p : Parser C} {out : DecodedMessage}
    (more : (p.tryParse out).1 ≠ .needMoreData) (error : (p.tryParse out).1 ≠ .protocolError) :
    (p.tryParse out).2.1.header.magic = kMagic ∧
      (p.tryParse out).2.1.header.version = kVersion := by
  rcases p.tryParse_cases out with ⟨-, heq⟩ | ⟨-, -, heq⟩ | ⟨r, q, -, read, heq, -⟩
  · exact absurd (congrArg Prod.fst heq) more
  · exact absurd (congrArg Prod.fst heq) error
  · obtain ⟨hframe, hheader, -⟩ := header_of_readRequest read
    rw [heq]
    show (out.overlay r).header.magic = kMagic ∧ (out.overlay r).header.version = kVersion
    rw [← (header_of_request (request_overlay out read)).1, hheader]
    exact ⟨hframe.magic, hframe.version⟩

theorem allExact_parseStep {fd : Int} {shouldClose : Bool} {s' : Server} {es : List Event}
    (h : parseStep s fd shouldClose = some (s', es)) : AllExact es := by
  unfold parseStep at h
  split at h
  next => cases h
  next conn _ =>
    dsimp only at h
    have hcontrol : ∀ {serial fd cause frame}, SaysExactly frame cause.body →
        AllExact [.control serial fd cause frame] := by
      intro serial fd cause frame hframe
      refine .cons (fun frame' body hsent => ?_) allExact_nil
      obtain ⟨rfl, rfl⟩ := Prod.mk.inj (Option.some.inj hsent)
      exact hframe
    split at h
    next =>
      obtain ⟨-, rfl⟩ := Prod.mk.inj (Option.some.inj h)
      exact allExact_nil
    next more =>
    split at h
    next =>
      obtain ⟨-, rfl⟩ := Prod.mk.inj (Option.some.inj h)
      exact .silent rfl allExact_nil
    next error =>
    obtain ⟨magic, version⟩ := header_of_parsed more error
    split_ifs at h with hseq hlogout hheartbeat hclose
    all_goals obtain ⟨-, rfl⟩ := Prod.mk.inj (Option.some.inj h)
    · exact hcontrol (saysExactly_badSequenceFrame magic version conn.token)
    · exact hcontrol (saysExactly_acceptFrame magic version (Or.inr rfl))
    · exact hcontrol (saysExactly_acceptFrame magic version (Or.inl rfl))
    · exact .silent rfl (allExact_closeConn fd)
    · exact .silent rfl allExact_nil

/-- **Every frame the gateway sends is a valid response that says what its branch filled
in**: in every step from any state whatever, and for every engine response. -/
theorem sent_frames_are_exact :
    (∀ (D : Descriptors) (s s' : Server) (l : Label), Step D s l s' →
      ∀ e ∈ l.events, ∀ frame body, e.sent = some (frame, body) → SaysExactly frame body) ∧
    ∀ (rsp : EngineResponse) (out : List UInt8), out.length = kFrameSize →
      SaysExactly (encodeResponse rsp out) rsp.body := by
  refine ⟨?_, fun rsp out hout => saysExactly_encodeResponse rsp hout⟩
  rintro D s s' ⟨input, es⟩ h
  have fired : ∀ {x : Server × List Event}, some x = some (s', es) → AllExact x.2 → AllExact es := by
    intro x hx hall
    obtain rfl := Option.some.inj hx
    exact hall
  show AllExact es
  unfold Step step at h
  dsimp only at h
  split at h
  next => split_ifs at h <;> exact fired h allExact_nil
  next => exact fired h allExact_nil
  next => exact fired h allExact_drainStep
  next rsp _ => exact fired h (allExact_deliverStep rsp _)
  next =>
    split_ifs at h
    exact fired h (.silent rfl allExact_nil)
  next => exact fired h allExact_nil
  next => exact fired h (allExact_dispatchStep _ _ _)
  next => exact allExact_parseStep h
  next => exact fired h (.silent rfl allExact_nil)
  next => exact fired h allExact_nil
  next => exact fired h allExact_pollStep
  next => exact fired h (.silent rfl allExact_nil)
  next => exact fired h allExact_nil
  next => cases h

end TradingGateway.Gateway
