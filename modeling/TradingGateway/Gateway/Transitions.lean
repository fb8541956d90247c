/-
# `Gateway.Transitions` — what one step can do

`Acts D s input es s'` is `step` read backwards: one constructor for each thing that
a step from a sound state can do, with everything that is known then.  Whatever is
said of a step is said by going through them.

Most invariants are about the connections, and most steps leave them alone.
`Move s es s'` says what a step that shows the events `es` did to them:

| move | connections | gateway |
| :-- | :-- | :-- |
| `quiet` | unchanged | anywhere |
| `accepted` | one more | stays in the accept loop |
| `closed` | one less | outside the parse loop |
| `received` | bytes behind a parser's | enters the parse loop |
| `overflowed` | one less, its parser was full | outside the parse loop |
| `starved` | unchanged | leaves the parse loop, less than a frame is left |
| `refused` | unchanged | leaves the parse loop at a bad frame |
| `answered` | one request read | as the reference has it |
| `exited` | unchanged | the descriptors are closed |

`Sound` is the invariant under which this is so: the routes are, an open
connection's descriptor is open, the parse loop is about an open connection, and
what is about to be delivered passed the slot check.  `Step.move` and
`Move.sound` prove the two together.
-/
import TradingGateway.Gateway.Reference
import TradingGateway.Gateway.Routing

namespace TradingGateway.Gateway

open Lib Lib.Cyclic OrderEntry Spsc

/-! ## The invariant -/

/-- The descriptor whose receive step the gateway is in the parse loop of. -/
def GatewayPc.loop : GatewayPc → Option Int
  | .parse fd _ => some fd
  | _ => none

/-- The slot check of the response drain. -/
def Deliverable (r : Routes) (tok : SessionToken) : Prop :=
  (r.slot tok.slot).generation = tok.generation ∧ 0 ≤ (r.slot tok.slot).fd

structure Sound (s : Server) : Prop where
  routed : Routed s.toRoutes
  held : s.gateway ≠ .exited → ∀ {fd c}, s.connections.find fd = some c → fd ∈ s.openFds
  looping : ∀ {fd b}, s.gateway = .parse fd b → b = false ∧ ∃ c, s.connections.find fd = some c
  delivering : ∀ {rsp}, s.gateway = .deliver rsp → Deliverable s.toRoutes rsp.value.session

theorem Sound.find_eq_none {s : Server} (hs : Sound s) (alive : s.gateway ≠ .exited) {fd : Int}
    (fresh : fd ∉ s.openFds) : s.connections.find fd = none := by
  rw [Option.eq_none_iff_forall_ne_some]
  intro c hc
  exact fresh (hs.held alive hc)

/-- What passes the slot check has an open connection behind it, which holds the
token's slot and generation. -/
theorem Deliverable.owner {r : Routes} {tok : SessionToken} (h : Deliverable r tok)
    (hr : Routed r) : ∃ c, r.connections.find (r.slot tok.slot).fd = some c ∧ c.token = tok := by
  have hlt : tok.slot.toNat < kMaxSlots := by
    by_contra hge
    have hfd := h.2
    rw [Routes.slot, cells, Vector.getElem?_eq_none (Nat.not_lt.mp hge)] at hfd
    exact absurd hfd (by decide)
  obtain ⟨c, hc, hslot, hgen⟩ := hr.slotOwner _ hlt h.2
  exact ⟨c, hc, SessionToken.ext (UInt32.toNat.inj hslot) (hgen.trans h.1)⟩

/-! ## Moves -/

/-- The event is one of the engine path, seen in a step from `s`: a frame is that of
the response to be delivered, and what is dropped failed the slot check. -/
def Event.Engine (s : Server) : Event → Prop
  | .engineFrame fd frame rsp =>
      s.gateway = .deliver rsp ∧ fd = (s.slot rsp.value.session.slot).fd ∧
        frame = encodeResponse rsp.value blankFrame
  | .dropped rsp => ¬ Deliverable s.toRoutes rsp.value.session
  | .popped _ | .responded _ _ | .shutdownCommand _ => True
  | _ => False

/-- A gateway step outside the parse loop, behind which nothing is to be delivered. -/
structure Aside (s s' : Server) : Prop where
  alive : s.gateway ≠ .exited
  outside : s.gateway.loop = none
  outside' : s'.gateway.loop = none
  idle : ∀ rsp, s'.gateway ≠ .deliver rsp

/-- The event that shows an answer to the connection `c`: a control frame sent to
`fd`, or a command pushed to `q`, which leaves `q'`. -/
inductive Shows (c : Connection) (fd : Int) (q q' : CommandQueue) :
    Output → Option UInt64 → Event → Prop
  | control {cause : Control} {frame : List UInt8} {o : Output} {next : Option UInt64}
      (read : controlOutput frame = some o) (last : cause = .logout ↔ next = none)
      (kept : q' = q) : Shows c fd q q' o next (.control c.serial fd cause frame)
  | command {msg : DecodedMessage} (order : IsOrder msg)
      (pushed : q' = (q.push ⟨toCommand c.token msg, c.serial⟩).2) :
      Shows c fd q q' (.command (toCommand c.token msg)) (some (c.expectedSequence + 1))
        (.command c.serial msg (toCommand c.token msg)
          (q.push ⟨toCommand c.token msg, c.serial⟩).1)

/-- One request of the connection `c` is answered as the reference has it: `c'` is
the connection behind it, `e` shows the answer. -/
structure Answered (s : Server) (fd : Int) (c : Connection) (r : Request) (c' : Connection)
    (e : Event) (s' : Server) : Prop where
  same : Routed.SameIdentity c c'
  taken : c'.parser.contents = c.parser.contents.drop kFrameSize
  expected : c'.expectedSequence
    = (answer c.token c.expectedSequence r).2.getD (c.expectedSequence + 1)
  event : Shows c fd s.cmdQueue s'.cmdQueue (answer c.token c.expectedSequence r).1
    (answer c.token c.expectedSequence r).2 e
  routes : s'.toRoutes = s.assign fd c'
  pc : s'.gateway =
    if (answer c.token c.expectedSequence r).2 = none then .wait else .parse fd false
  rspQueue : s'.rspQueue = s.rspQueue
  matching : s'.matching = s.matching

/-- What one step can do. -/
inductive Move (s : Server) : List Event → Server → Prop
  | quiet {es : List Event} {s' : Server} (routes : s'.toRoutes = s.toRoutes)
      (engine : ∀ e ∈ es, e.Engine s)
      (pc : s'.gateway = s.gateway ∨
        s.gateway ≠ .exited ∧ s.gateway.loop = none ∧ s'.gateway.loop = none)
      (passed : ∀ rsp, s'.gateway = .deliver rsp → Deliverable s.toRoutes rsp.value.session) :
      Move s es s'
  | accepted {fd : Int} {s' : Server} (pos : 0 ≤ fd) (free : s.connections.find fd = none)
      (routes : s'.toRoutes = s.link fd) (aside : Aside s s') :
      Move s [.accepted s.accepts fd s.nextToken] s'
  | closed {fd : Int} {c : Connection} {es : List Event} {enqueued : Bool} {s' : Server}
      (found : s.connections.find fd = some c) (routes : s'.toRoutes = s.unlink fd c.token)
      (engine : ∀ e ∈ es, e.Engine s) (aside : Aside s s') :
      Move s (es ++ [.closed c.serial c.token enqueued]) s'
  | received {fd : Int} {c : Connection} {bs : List UInt8} {s' : Server}
      (found : s.connections.find fd = some c) (le : bs.length ≤ 1024) (fits : c.parser.Fits bs)
      (routes : s'.toRoutes = s.assign fd { c with parser := (c.parser.append bs).2 })
      (outside : s.gateway.loop = none) (alive : s.gateway ≠ .exited)
      (pc : s'.gateway = .parse fd false) :
      Move s [.received c.serial bs] s'
  | overflowed {fd : Int} {c : Connection} {bs : List UInt8} {enqueued : Bool} {s' : Server}
      (found : s.connections.find fd = some c) (le : bs.length ≤ 1024) (full : ¬ c.parser.Fits bs)
      (routes : s'.toRoutes = (s.assign fd c).unlink fd c.token) (aside : Aside s s') :
      Move s [.received c.serial bs, .closed c.serial c.token enqueued] s'
  | starved {fd : Int} {c : Connection} {s' : Server} (loop : s.gateway = .parse fd false)
      (found : s.connections.find fd = some c) (short : c.parser.contents.length < kFrameSize)
      (routes : s'.toRoutes = s.assign fd c) (pc : s'.gateway = .wait) :
      Move s [] s'
  | refused {fd : Int} {c : Connection} {s' : Server} (loop : s.gateway = .parse fd false)
      (found : s.connections.find fd = some c) (long : kFrameSize ≤ c.parser.contents.length)
      (bad : readRequest (c.parser.contents.take kFrameSize) = none)
      (routes : s'.toRoutes = s.assign fd c) (pc : s'.gateway = .wait) :
      Move s [.protocolError c.serial] s'
  | answered {fd : Int} {c c' : Connection} {r : Request} {e : Event} {s' : Server}
      (loop : s.gateway = .parse fd false) (found : s.connections.find fd = some c)
      (long : kFrameSize ≤ c.parser.contents.length)
      (read : readRequest (c.parser.contents.take kFrameSize) = some r)
      (answered : Answered s fd c r c' e s') : Move s [e] s'
  | exited {fds : List Int} {s' : Server} (routes : s'.toRoutes = { s.toRoutes with openFds := fds })
      (outside : s.gateway.loop = none) (pc : s'.gateway = .exited) :
      Move s [] s'

/-- What an event tells of the state it was seen in. -/
inductive Seen (s : Server) : Event → Prop
  | engine {e : Event} (engine : e.Engine s) : Seen s e
  | accepted {fd : Int} : Seen s (.accepted s.accepts fd s.nextToken)
  | closed {fd : Int} {c : Connection} {enqueued : Bool}
      (found : s.connections.find fd = some c) : Seen s (.closed c.serial c.token enqueued)
  | received {fd : Int} {c : Connection} {bs : List UInt8}
      (found : s.connections.find fd = some c) : Seen s (.received c.serial bs)
  | protocolError {fd : Int} {c : Connection} (found : s.connections.find fd = some c) :
      Seen s (.protocolError c.serial)
  | control {fd : Int} {c : Connection} {cause : Control} {frame : List UInt8}
      (found : s.connections.find fd = some c) : Seen s (.control c.serial fd cause frame)
  | command {fd : Int} {c : Connection} {msg : DecodedMessage} {enqueued : Bool}
      (found : s.connections.find fd = some c) (order : IsOrder msg) :
      Seen s (.command c.serial msg (toCommand c.token msg) enqueued)

theorem Shows.seen {s : Server} {c : Connection} {fd : Int} {q q' : CommandQueue} {o : Output}
    {next : Option UInt64} {e : Event} (h : Shows c fd q q' o next e)
    (found : s.connections.find fd = some c) : Seen s e := by
  cases h with
  | control read last kept => exact .control found
  | command order pushed => exact .command found order

theorem Move.seen {s s' : Server} {es : List Event} (h : Move s es s') {e : Event} (he : e ∈ es) :
    Seen s e := by
  cases h with
  | quiet routes engine pc passed => exact .engine (engine e he)
  | closed found routes engine aside =>
      rcases List.mem_append.mp he with he | he
      · exact .engine (engine e he)
      · rw [List.mem_singleton.mp he]
        exact .closed found
  | overflowed found le full routes aside =>
      rcases List.mem_cons.mp he with rfl | he
      · exact .received found
      · rw [List.mem_singleton.mp he]
        exact .closed found
  | starved | exited => cases he
  | accepted pos free routes aside =>
      rw [List.mem_singleton.mp he]
      exact .accepted
  | received found le fits routes outside alive pc =>
      rw [List.mem_singleton.mp he]
      exact .received found
  | refused loop found long bad routes pc =>
      rw [List.mem_singleton.mp he]
      exact .protocolError found
  | answered loop found long read answered =>
      rw [List.mem_singleton.mp he]
      exact answered.event.seen found

theorem Shows.ne_accepted {c : Connection} {fd : Int} {q q' : CommandQueue} {o : Output}
    {next : Option UInt64} {e : Event} (h : Shows c fd q q' o next e) (k : Nat) (j : Int)
    (token : SessionToken) : e ≠ .accepted k j token := by
  cases h with
  | control read last kept => nofun
  | command order pushed => nofun

theorem Move.accepts {s s' : Server} {es : List Event} (hr : Routed s.toRoutes) (h : Move s es s') :
    (∃ fd, es = [.accepted s.accepts fd (tokenOf s.accepts)] ∧ s'.accepts = s.accepts + 1) ∨
      (∀ k fd token, Event.accepted k fd token ∉ es) ∧ s'.accepts = s.accepts := by
  have hacc : ∀ {r : Routes}, s'.toRoutes = r → r.accepts = s.accepts → s'.accepts = s.accepts :=
    fun h h' => (congrArg Routes.accepts h).trans h'
  cases h with
  | @accepted fd s' pos free routes aside =>
      refine Or.inl ⟨fd, ?_, congrArg Routes.accepts routes⟩
      rw [hr.nextToken_eq]
  | quiet routes engine pc passed => exact Or.inr ⟨fun _ _ _ he => engine _ he, hacc routes rfl⟩
  | closed found routes engine aside =>
      refine Or.inr ⟨fun _ _ _ he => ?_, hacc routes rfl⟩
      rcases List.mem_append.mp he with he | he
      · exact engine _ he
      · cases List.mem_singleton.mp he
  | overflowed found le full routes aside => exact Or.inr ⟨by simp, hacc routes rfl⟩
  | starved loop found short routes pc => exact Or.inr ⟨nofun, hacc routes rfl⟩
  | exited routes outside pc => exact Or.inr ⟨nofun, hacc routes rfl⟩
  | received found le fits routes outside alive pc => exact Or.inr ⟨by simp, hacc routes rfl⟩
  | refused loop found long bad routes pc => exact Or.inr ⟨by simp, hacc routes rfl⟩
  | answered loop found long read answered =>
      refine Or.inr ⟨fun k fd token he => ?_, hacc answered.routes rfl⟩
      exact answered.event.ne_accepted k fd token (List.mem_singleton.mp he).symm

/-! ## What one step does -/

section Steps

variable {D : Descriptors} {s : Server}

/-- The command that tells of the end of a session. -/
def sessionClosed (c : Connection) : Traced EngineCommand :=
  ⟨{ type := .sessionClosed, session := c.token }, c.serial⟩

theorem closeConn_of_find {fd : Int} {c : Connection} (h : s.connections.find fd = some c) :
    closeConn s fd =
      ({ s with
          toRoutes := s.toRoutes.unlink fd c.token
          cmdQueue := (s.cmdQueue.push (sessionClosed c)).2 },
        [.closed c.serial c.token (s.cmdQueue.push (sessionClosed c)).1]) := by
  rw [closeConn, h]
  rfl

/-- One iteration of the parse loop.  The flag is never set in it, so the push is not
followed by a close. -/
theorem parseStep_cases {fd : Int} {c : Connection} (loop : s.gateway = .parse fd false)
    (found : s.connections.find fd = some c) :
    (c.parser.contents.length < kFrameSize ∧
      parseStep s fd false
        = some ({ s with toRoutes := s.toRoutes.assign fd c, gateway := .wait }, [])) ∨
    (kFrameSize ≤ c.parser.contents.length ∧
      readRequest (c.parser.contents.take kFrameSize) = none ∧
      parseStep s fd false
        = some ({ s with toRoutes := s.toRoutes.assign fd c, gateway := .wait },
            [.protocolError c.serial])) ∨
    ∃ r c' e s', kFrameSize ≤ c.parser.contents.length ∧
      readRequest (c.parser.contents.take kFrameSize) = some r ∧
      parseStep s fd false = some (s', [e]) ∧ Answered s fd c r c' e s' := by
  have twice : ∀ d d', ((s.connections.assign fd d).assign fd d') = s.connections.assign fd d' :=
    fun d d' => UnorderedMap.assign_assign (by rw [found]; nofun) d'
  rw [parseStep, found]
  dsimp only
  rcases c.parser.tryParse_cases {} with ⟨short, heq⟩ | ⟨long, bad, heq⟩ |
    ⟨r, q, long, read, heq, taken⟩
  · rw [heq, if_pos rfl]
    exact Or.inl ⟨short, rfl⟩
  · rw [heq, if_neg nofun, if_pos rfl]
    exact Or.inr (Or.inl ⟨long, bad, rfl⟩)
  · rw [heq, if_neg nofun, if_neg nofun]
    dsimp only
    rw [header_overlay]
    refine Or.inr (Or.inr ⟨r, ?_⟩)
    by_cases hseq : r.header.sequenceNumber ≠ c.expectedSequence
    · rw [if_pos hseq]
      refine ⟨{ c with parser := q }, _, _, long, read, rfl, ⟨rfl, rfl, rfl⟩, taken, ?_, ?_, rfl,
        ?_, rfl, rfl⟩ <;>
        rw [answer_of_gap hseq]
      · rfl
      · exact .control (controlOutput_badSequenceFrame _ _ _) ⟨nofun, nofun⟩ rfl
      · exact loop
    · rw [if_neg hseq, twice]
      have hseq := not_not.mp hseq
      let next : Connection :=
        { c with parser := q, expectedSequence := c.expectedSequence + 1 }
      by_cases hl : (DecodedMessage.overlay {} r).type = .logout
      · rw [if_pos hl]
        refine ⟨next, _, _, long, read, rfl, ⟨rfl, rfl, rfl⟩, taken, ?_, ?_, rfl, ?_, rfl, rfl⟩ <;>
          rw [answer_of_logout {} read hseq hl]
        · rfl
        · exact .control (controlOutput_acceptFrame _ _) ⟨fun _ => rfl, fun _ => rfl⟩ rfl
        · rfl
      by_cases hh : (DecodedMessage.overlay {} r).type = .heartbeat
      · rw [if_neg hl, if_pos hh]
        refine ⟨next, _, _, long, read, rfl, ⟨rfl, rfl, rfl⟩, taken, ?_, ?_, rfl, ?_, rfl, rfl⟩ <;>
          rw [answer_of_heartbeat {} read hseq hh]
        · rfl
        · exact .control (controlOutput_acceptFrame _ _) ⟨nofun, nofun⟩ rfl
        · exact loop
      · rw [if_neg hl, if_neg hh, if_neg nofun]
        refine ⟨next, _, _, long, read, rfl, ⟨rfl, rfl, rfl⟩, taken, ?_, ?_, rfl, ?_, rfl, rfl⟩ <;>
          rw [answer_of_order {} read hseq hl hh]
        · rfl
        · exact .command (isOrder_overlay _ read hl hh) rfl
        · exact loop

/-- `step` from a state in which the invariant holds, one constructor for each thing
that it can do. -/
inductive Acts (D : Descriptors) (s : Server) : Input → List Event → Server → Prop
  | eventFd {fd : Int} {epollIn : Bool} (pc : s.gateway = .wait) :
      Acts D s (.event fd epollIn) [] { s with eventCount := 0, gateway := .drain }
  | listenFd {fd : Int} {epollIn : Bool} (pc : s.gateway = .wait) :
      Acts D s (.event fd epollIn) [] { s with gateway := .accepting epollIn }
  | clientFd {fd : Int} {epollIn : Bool} (pc : s.gateway = .wait) :
      Acts D s (.event fd epollIn) [] { s with gateway := .dispatch fd epollIn }
  | epollFails (pc : s.gateway = .wait) :
      Acts D s .epollFails [] { s with gateway := .shutdown }
  | drained (pc : s.gateway = .drain) (empty : s.rspQueue.items = []) :
      Acts D s .drain [] { s with rspQueue := s.rspQueue.pop.2, gateway := .wait }
  | dropped {rsp : Traced EngineResponse} (pc : s.gateway = .drain)
      (head : s.rspQueue.items.head? = some rsp)
      (stale : ¬ Deliverable s.toRoutes rsp.value.session) :
      Acts D s .drain [.dropped rsp] { s with rspQueue := s.rspQueue.pop.2 }
  | taken {rsp : Traced EngineResponse} (pc : s.gateway = .drain)
      (head : s.rspQueue.items.head? = some rsp)
      (passes : Deliverable s.toRoutes rsp.value.session) :
      Acts D s .drain [] { s with rspQueue := s.rspQueue.pop.2, gateway := .deliver rsp }
  | sent {rsp : Traced EngineResponse} {sent : Int} (pc : s.gateway = .deliver rsp) :
      Acts D s (.deliver sent)
        [.engineFrame (s.slot rsp.value.session.slot).fd (encodeResponse rsp.value blankFrame) rsp]
        { s with gateway := .drain }
  | cutOff {rsp : Traced EngineResponse} {sent fd : Int} {c : Connection}
      (pc : s.gateway = .deliver rsp) (target : fd = (s.slot rsp.value.session.slot).fd)
      (found : s.connections.find fd = some c) :
      Acts D s (.deliver sent)
        [.engineFrame fd (encodeResponse rsp.value blankFrame) rsp,
          .closed c.serial c.token (s.cmdQueue.push (sessionClosed c)).1]
        { s with
          toRoutes := s.unlink fd c.token
          cmdQueue := (s.cmdQueue.push (sessionClosed c)).2
          gateway := .drain }
  | accept {epollIn : Bool} {fd : Int} (pc : s.gateway = .accepting epollIn) (pos : 0 ≤ fd)
      (fresh : fd ∉ s.openFds) :
      Acts D s (.accept fd) [.accepted s.accepts fd s.nextToken] { s with toRoutes := s.link fd }
  | acceptFails {epollIn : Bool} (pc : s.gateway = .accepting epollIn) :
      Acts D s .acceptFails [] { s with gateway := .dispatch D.listenFd epollIn }
  | ignored {fd : Int} {epollIn : Bool} {r : RecvResult} (pc : s.gateway = .dispatch fd epollIn) :
      Acts D s (.recv r) [] { s with gateway := .wait }
  | hungUp {fd : Int} {epollIn : Bool} {r : RecvResult} {c : Connection}
      (pc : s.gateway = .dispatch fd epollIn) (found : s.connections.find fd = some c) :
      Acts D s (.recv r) [.closed c.serial c.token (s.cmdQueue.push (sessionClosed c)).1]
        { s with
          toRoutes := s.unlink fd c.token
          cmdQueue := (s.cmdQueue.push (sessionClosed c)).2
          gateway := .wait }
  | received {fd : Int} {epollIn : Bool} {c : Connection} {bs : List UInt8} {pos : 0 < bs.length}
      {le : bs.length ≤ 1024} (pc : s.gateway = .dispatch fd epollIn)
      (found : s.connections.find fd = some c) (fits : c.parser.Fits bs) :
      Acts D s (.recv (.bytes bs pos le)) [.received c.serial bs]
        { s with
          toRoutes := s.assign fd { c with parser := (c.parser.append bs).2 }
          gateway := .parse fd false }
  | overflowed {fd : Int} {epollIn : Bool} {c : Connection} {bs : List UInt8}
      {pos : 0 < bs.length} {le : bs.length ≤ 1024} (pc : s.gateway = .dispatch fd epollIn)
      (found : s.connections.find fd = some c) (full : ¬ c.parser.Fits bs) :
      Acts D s (.recv (.bytes bs pos le))
        [.received c.serial bs, .closed c.serial c.token (s.cmdQueue.push (sessionClosed c)).1]
        { s with
          toRoutes := (s.assign fd c).unlink fd c.token
          cmdQueue := (s.cmdQueue.push (sessionClosed c)).2
          gateway := .wait }
  | starved {fd : Int} {c : Connection} (loop : s.gateway = .parse fd false)
      (found : s.connections.find fd = some c) (short : c.parser.contents.length < kFrameSize) :
      Acts D s .parse [] { s with toRoutes := s.assign fd c, gateway := .wait }
  | refused {fd : Int} {c : Connection} (loop : s.gateway = .parse fd false)
      (found : s.connections.find fd = some c) (long : kFrameSize ≤ c.parser.contents.length)
      (bad : readRequest (c.parser.contents.take kFrameSize) = none) :
      Acts D s .parse [.protocolError c.serial]
        { s with toRoutes := s.assign fd c, gateway := .wait }
  | answered {fd : Int} {c c' : Connection} {r : Request} {e : Event} {s' : Server}
      (loop : s.gateway = .parse fd false) (found : s.connections.find fd = some c)
      (long : kFrameSize ≤ c.parser.contents.length)
      (read : readRequest (c.parser.contents.take kFrameSize) = some r)
      (answered : Answered s fd c r c' e s') (eventCount : s'.eventCount = s.eventCount) :
      Acts D s .parse [e] s'
  | shutdown (pc : s.gateway = .shutdown) :
      Acts D s .shutdown [.shutdownCommand (s.cmdQueue.push ⟨{ type := .shutdown }, 0⟩).1]
        { s with
          cmdQueue := (s.cmdQueue.push ⟨{ type := .shutdown }, 0⟩).2
          gateway := .join }
  | join {fds : List Int} (pc : s.gateway = .join) :
      Acts D s .join [] { s with gateway := .exited, openFds := fds }
  | idle (pc : s.matching = .poll) (empty : s.cmdQueue.items = []) :
      Acts D s .poll [] { s with cmdQueue := s.cmdQueue.pop.2 }
  | stopped {cmd : Traced EngineCommand} (pc : s.matching = .poll)
      (head : s.cmdQueue.items.head? = some cmd) (type : cmd.value.type = .shutdown) :
      Acts D s .poll [.popped cmd] { s with cmdQueue := s.cmdQueue.pop.2, matching := .stopped }
  | skipped {cmd : Traced EngineCommand} (pc : s.matching = .poll)
      (head : s.cmdQueue.items.head? = some cmd) (silent : engineRespond cmd.value = none) :
      Acts D s .poll [.popped cmd] { s with cmdQueue := s.cmdQueue.pop.2 }
  | answering {cmd : Traced EngineCommand} {rsp : EngineResponse} (pc : s.matching = .poll)
      (head : s.cmdQueue.items.head? = some cmd) (answer : engineRespond cmd.value = some rsp) :
      Acts D s .poll [.popped cmd]
        { s with cmdQueue := s.cmdQueue.pop.2, matching := .respond ⟨rsp, cmd.source⟩ }
  | respond {rsp : Traced EngineResponse} (pc : s.matching = .respond rsp) :
      Acts D s .respond [.responded rsp (s.rspQueue.push rsp).1]
        { s with rspQueue := (s.rspQueue.push rsp).2, matching := .notify }
  | notify (pc : s.matching = .notify) :
      Acts D s .notify []
        { s with eventCount := notifyCount s.eventCount, matching := .poll }

theorem drainStep_acts (pc : s.gateway = .drain) :
    Acts D s .drain (drainStep s).2 (drainStep s).1 := by
  unfold drainStep
  dsimp only
  rw [Queue.pop_fst]
  split
  next empty => exact .drained pc (List.head?_eq_none_iff.mp empty)
  next rsp head =>
    split
    next hfail =>
      refine .dropped pc head ?_
      rintro ⟨hgen, hfd⟩
      exact hfail.elim (fun h => h hgen) (Int.not_lt.mpr hfd)
    next hpass =>
      rw [not_or, not_not, Int.not_lt] at hpass
      exact .taken pc head hpass

theorem deliverStep_acts (hs : Sound s) {rsp : Traced EngineResponse} (sent : Int)
    (pc : s.gateway = .deliver rsp) :
    Acts D s (.deliver sent) (deliverStep s rsp sent).2 (deliverStep s rsp sent).1 := by
  obtain ⟨c, hc, -⟩ := (hs.delivering pc).owner hs.routed
  have hclose := closeConn_of_find (s := { s with gateway := .drain }) hc
  unfold deliverStep
  dsimp only
  split
  next =>
    rw [hclose]
    exact .cutOff pc rfl hc
  next => exact .sent pc

theorem dispatchStep_acts {fd : Int} {epollIn : Bool} (r : RecvResult)
    (pc : s.gateway = .dispatch fd epollIn) :
    Acts D s (.recv r) (dispatchStep s fd epollIn r).2 (dispatchStep s fd epollIn r).1 := by
  unfold dispatchStep
  dsimp only
  split
  next => exact .ignored pc
  next =>
    split
    next => exact .ignored pc
    next c hc =>
      have hclose := closeConn_of_find (s := { s with gateway := .wait }) hc
      cases r with
      | closed =>
          dsimp only
          rw [hclose]
          exact .hungUp pc hc
      | wouldBlock => exact .ignored pc
      | failed =>
          dsimp only
          rw [hclose]
          exact .hungUp pc hc
      | bytes bs pos le =>
          dsimp only
          by_cases hfits : c.parser.Fits bs
          · rw [(Parser.append_of_fits hfits).1]
            exact .received pc hc hfits
          · rw [Parser.append_of_not_fits hfits]
            have hfound : (s.connections.assign fd c).find fd = some c :=
              Routed.find_assign_self hc c
            have hclose := closeConn_of_find
              (s := { s with gateway := .wait, connections := s.connections.assign fd c }) hfound
            dsimp only [Bool.not_false, if_true]
            rw [hclose]
            exact .overflowed pc hc hfits

theorem eventCount_parseStep {fd : Int} {s' : Server} {es : List Event}
    (h : parseStep s fd false = some (s', es)) : s'.eventCount = s.eventCount := by
  unfold parseStep at h
  split at h
  next => cases h
  next c _ =>
    dsimp only at h
    rw [if_neg Bool.false_ne_true] at h
    split_ifs at h with hmore herror hseq hlogout hheartbeat
    all_goals
      obtain ⟨rfl, -⟩ := Prod.mk.inj (Option.some.inj h)
      rfl

theorem parseStep_acts {fd : Int} {c : Connection} {s' : Server} {es : List Event}
    (loop : s.gateway = .parse fd false) (found : s.connections.find fd = some c)
    (h : parseStep s fd false = some (s', es)) : Acts D s .parse es s' := by
  rcases parseStep_cases loop found with ⟨short, heq⟩ | ⟨long, bad, heq⟩ |
    ⟨r, c', e, t, long, read, heq, answered⟩
  · obtain ⟨rfl, rfl⟩ := Prod.mk.inj (Option.some.inj (heq.symm.trans h))
    exact .starved loop found short
  · obtain ⟨rfl, rfl⟩ := Prod.mk.inj (Option.some.inj (heq.symm.trans h))
    exact .refused loop found long bad
  · obtain ⟨rfl, rfl⟩ := Prod.mk.inj (Option.some.inj (heq.symm.trans h))
    exact .answered loop found long read answered (eventCount_parseStep h)

theorem pollStep_acts (pc : s.matching = .poll) : Acts D s .poll (pollStep s).2 (pollStep s).1 := by
  unfold pollStep
  dsimp only
  rw [Queue.pop_fst]
  split
  next empty => exact .idle pc (List.head?_eq_none_iff.mp empty)
  next cmd head =>
    split
    next type => exact .stopped pc head type
    next =>
      split
      next silent => exact .skipped pc head silent
      next rsp answer => exact .answering pc head answer

/-- **Every step is one of these.** -/
theorem Step.acts (hs : Sound s) {l : Label} {s' : Server} (h : Step D s l s') :
    Acts D s l.input l.events s' := by
  obtain ⟨input, es⟩ := l
  unfold Step step at h
  dsimp only at h ⊢
  have fired : ∀ {x : Server × List Event}, some x = some (s', es) → Acts D s input x.2 x.1 →
      Acts D s input es s' := by
    intro x hx hacts
    obtain rfl := Option.some.inj hx
    exact hacts
  split at h
  next pc =>
    split_ifs at h
    · exact fired h (.eventFd pc)
    · exact fired h (.listenFd pc)
    · exact fired h (.clientFd pc)
  next pc => exact fired h (.epollFails pc)
  next pc => exact fired h (drainStep_acts pc)
  next pc => exact fired h (deliverStep_acts hs _ pc)
  next pc =>
    split_ifs at h with hfd
    exact fired h (.accept pc hfd.1 hfd.2)
  next pc => exact fired h (.acceptFails pc)
  next pc => exact fired h (dispatchStep_acts _ pc)
  next pc =>
    obtain ⟨rfl, c, hc⟩ := hs.looping pc
    exact parseStep_acts pc hc h
  next pc => exact fired h (.shutdown pc)
  next pc _ => exact fired h (.join pc)
  next pc => exact fired h (pollStep_acts pc)
  next pc => exact fired h (.respond pc)
  next pc => exact fired h (.notify pc)
  next => cases h

theorem Step.parses (hs : Sound s) {l : Label} {s' : Server} (h : Step D s l s')
    (input : l.input = .parse) {fd : Int} {c : Connection} (loop : s.gateway = .parse fd false)
    (found : s.connections.find fd = some c) (long : kFrameSize ≤ c.parser.contents.length) :
    (readRequest (c.parser.contents.take kFrameSize) = none ∧
        l.events = [.protocolError c.serial]) ∨
      ∃ r c' e, readRequest (c.parser.contents.take kFrameSize) = some r ∧ l.events = [e] ∧
        Answered s fd c r c' e s' := by
  have hacts := h.acts hs
  obtain ⟨_, es⟩ := l
  dsimp only at input hacts ⊢
  subst input
  cases hacts with
  | starved loop' found' short =>
      obtain ⟨rfl, -⟩ := GatewayPc.parse.inj (loop.symm.trans loop')
      obtain rfl := Option.some.inj (found.symm.trans found')
      exact absurd long (Nat.not_le.mpr short)
  | refused loop' found' long' bad =>
      obtain ⟨rfl, -⟩ := GatewayPc.parse.inj (loop.symm.trans loop')
      obtain rfl := Option.some.inj (found.symm.trans found')
      exact Or.inl ⟨bad, rfl⟩
  | @answered _ _ c' r e _ loop' found' long' read answered _ =>
      obtain ⟨rfl, -⟩ := GatewayPc.parse.inj (loop.symm.trans loop')
      obtain rfl := Option.some.inj (found.symm.trans found')
      exact Or.inr ⟨r, c', e, read, rfl, answered⟩

/-! ## Every step is a move -/

theorem Move.elsewhere (hs : Sound s) {es : List Event} {s' : Server}
    (routes : s'.toRoutes = s.toRoutes) (pc : s'.gateway = s.gateway)
    (engine : ∀ e ∈ es, e.Engine s) : Move s es s' := by
  refine .quiet routes engine (.inl pc) ?_
  intro rsp h
  exact hs.delivering (pc ▸ h)

/-- Where no connection is touched and the gateway stays outside the parse loop. -/
theorem Move.outside {es : List Event} {s' : Server} (routes : s'.toRoutes = s.toRoutes)
    (engine : ∀ e ∈ es, e.Engine s) (aside : Aside s s') : Move s es s' := by
  refine .quiet routes engine (.inr ⟨aside.alive, aside.outside, aside.outside'⟩) ?_
  intro rsp h
  exact absurd h (aside.idle rsp)

theorem Aside.of_pc {s' : Server} {pc pc' : GatewayPc} (h : s.gateway = pc) (h' : s'.gateway = pc')
    (alive : pc ≠ .exited) (outside : pc.loop = none) (outside' : pc'.loop = none)
    (idle : ∀ rsp, pc' ≠ .deliver rsp) : Aside s s' := by
  subst h h'
  exact ⟨alive, outside, outside', idle⟩

theorem Move.closed_only {fd : Int} {c : Connection} {enqueued : Bool} {s' : Server}
    (found : s.connections.find fd = some c) (routes : s'.toRoutes = s.unlink fd c.token)
    (aside : Aside s s') : Move s [.closed c.serial c.token enqueued] s' := by
  show Move s ([] ++ [_]) s'
  exact .closed found routes (List.forall_mem_nil _) aside

/-- **Every step is a move.** -/
theorem Step.move (hs : Sound s) {l : Label} {s' : Server} (h : Step D s l s') :
    Move s l.events s' := by
  have hacts := h.acts hs
  obtain ⟨input, es⟩ := l
  dsimp only at hacts ⊢
  cases hacts with
  | eventFd pc | listenFd pc | clientFd pc | epollFails pc | acceptFails pc | drained pc
  | ignored pc => exact .outside rfl (List.forall_mem_nil _) (.of_pc pc rfl nofun rfl rfl nofun)
  | dropped pc head stale => exact .elsewhere hs rfl rfl (List.forall_mem_singleton.mpr stale)
  | @taken rsp pc head passes =>
      refine .quiet rfl (List.forall_mem_nil _) (.inr ⟨?_, ?_, rfl⟩) ?_
      · rw [pc]
        nofun
      · rw [pc]
        rfl
      · intro rsp' h
        obtain rfl := GatewayPc.deliver.inj h
        exact passes
  | sent pc =>
      refine .outside rfl (List.forall_mem_singleton.mpr ⟨pc, rfl, rfl⟩) ?_
      exact .of_pc pc rfl nofun rfl rfl nofun
  | @cutOff rsp sent fd c pc target found =>
      have frame : ∀ e ∈ [Event.engineFrame fd (encodeResponse rsp.value blankFrame) rsp],
          e.Engine s := List.forall_mem_singleton.mpr ⟨pc, target, rfl⟩
      show Move s ([_] ++ [_]) _
      exact .closed found rfl frame (.of_pc pc rfl nofun rfl rfl nofun)
  | accept pc pos fresh =>
      have alive : s.gateway ≠ .exited := by
        rw [pc]
        nofun
      exact .accepted pos (hs.find_eq_none alive fresh) rfl (.of_pc pc pc nofun rfl rfl nofun)
  | hungUp pc found => exact .closed_only found rfl (.of_pc pc rfl nofun rfl rfl nofun)
  | @received fd epollIn c bs pos le pc found fits =>
      refine .received found le fits rfl ?_ ?_ rfl
      · rw [pc]
        rfl
      · rw [pc]
        nofun
  | @overflowed fd epollIn c bs pos le pc found full =>
      exact .overflowed found le full rfl (.of_pc pc rfl nofun rfl rfl nofun)
  | starved loop found short => exact .starved loop found short rfl rfl
  | refused loop found long bad => exact .refused loop found long bad rfl rfl
  | answered loop found long read answered _ => exact .answered loop found long read answered
  | shutdown pc =>
      refine .outside rfl (List.forall_mem_singleton.mpr trivial) ?_
      exact .of_pc pc rfl nofun rfl rfl nofun
  | join pc =>
      refine .exited rfl ?_ rfl
      rw [pc]
      rfl
  | idle | notify => exact .elsewhere hs rfl rfl (List.forall_mem_nil _)
  | stopped | skipped | answering | respond =>
      exact .elsewhere hs rfl rfl (List.forall_mem_singleton.mpr trivial)

end Steps

/-! ## The invariant is kept -/

section Kept

variable {D : Descriptors} {s s' : Server}

theorem sound_fresh (D : Descriptors) : Sound (Server.fresh D) where
  routed := routed_fresh D
  held := fun _ _ _ h => by cases h
  looping := nofun
  delivering := nofun

/-- Outside the parse loop, and with nothing to deliver, two of the clauses are
void. -/
theorem Aside.sound (h : Aside s s') (routed : Routed s'.toRoutes)
    (held : ∀ {fd c}, s'.connections.find fd = some c → fd ∈ s'.openFds) : Sound s' where
  routed := routed
  held := fun _ _ _ => held
  looping := fun {fd b} hpc => by
    have := h.outside'
    rw [hpc] at this
    cases this
  delivering := fun {rsp} hpc => absurd hpc (h.idle rsp)

theorem held_unlink {r : Routes} {fd j : Int} {tok : SessionToken} {c : Connection}
    (held : ∀ {fd c}, r.connections.find fd = some c → fd ∈ r.openFds)
    (h : (r.unlink fd tok).connections.find j = some c) : j ∈ (r.unlink fd tok).openFds := by
  rw [Routed.find_unlink] at h
  split at h
  next => cases h
  next hne => exact List.mem_filter.mpr ⟨held h, decide_eq_true hne⟩

theorem held_assign {r : Routes} {fd j : Int} {c c' d : Connection}
    (held : ∀ {fd c}, r.connections.find fd = some c → fd ∈ r.openFds)
    (hc : r.connections.find fd = some c)
    (h : (r.assign fd c').connections.find j = some d) : j ∈ r.openFds := by
  rw [Routed.find_assign hc] at h
  split at h
  next heq => exact heq ▸ held hc
  next => exact held h

theorem Sound.of_assign {fd : Int} {c c' : Connection} (hs : Sound s)
    (alive : s.gateway ≠ .exited) (found : s.connections.find fd = some c)
    (same : Routed.SameIdentity c c') (routes : s'.toRoutes = s.assign fd c')
    (pc : s'.gateway = .wait ∨ s'.gateway = .parse fd false) : Sound s' where
  routed := routes ▸ hs.routed.assign found same
  held := fun _ {j d} hd => by
    rw [routes] at hd ⊢
    exact held_assign (r := s.toRoutes) (hs.held alive) found hd
  looping := fun {j b} hpc => by
    rcases pc with hwait | hparse
    · cases hwait.symm.trans hpc
    · obtain ⟨rfl, rfl⟩ := GatewayPc.parse.inj (hparse.symm.trans hpc)
      refine ⟨rfl, c', ?_⟩
      rw [routes]
      exact Routed.find_assign_self found c'
  delivering := fun {rsp} hpc => by
    rcases pc with hwait | hparse
    · cases hwait.symm.trans hpc
    · cases hparse.symm.trans hpc

/-- **Every move keeps the invariant.** -/
theorem Move.sound (hs : Sound s) {es : List Event} (h : Move s es s') : Sound s' := by
  cases h with
  | quiet routes engine pc passed =>
      refine ⟨routes ▸ hs.routed, ?_, ?_, ?_⟩
      · intro hne fd c hc
        rw [routes] at hc ⊢
        rcases pc with heq | ⟨alive, -, -⟩
        · exact hs.held (heq ▸ hne) hc
        · exact hs.held alive hc
      · intro fd b hpc
        rw [routes]
        rcases pc with heq | ⟨-, -, outside'⟩
        · exact hs.looping (heq ▸ hpc)
        · rw [hpc] at outside'
          cases outside'
      · intro rsp hpc
        rw [routes]
        exact passed rsp hpc
  | accepted pos free routes aside =>
      refine aside.sound (routes ▸ hs.routed.link pos free) ?_
      intro j d hd
      rw [routes] at hd ⊢
      rw [Routed.find_link free] at hd
      split at hd
      next heq => exact heq ▸ List.mem_cons_self
      next => exact List.mem_cons_of_mem _ (hs.held aside.alive hd)
  | closed found routes engine aside =>
      refine aside.sound (routes ▸ hs.routed.unlink found) ?_
      intro j d hd
      rw [routes] at hd ⊢
      exact held_unlink (hs.held aside.alive) hd
  | received found le fits routes outside alive pc =>
      refine hs.of_assign alive found ?_ routes (.inr pc)
      exact ⟨rfl, rfl, rfl⟩
  | overflowed found le full routes aside =>
      have routed := (hs.routed.assign found (.self _)).unlink (Routed.find_assign_self found _)
      refine aside.sound (routes ▸ routed) ?_
      intro j d hd
      rw [routes] at hd ⊢
      exact held_unlink (held_assign (hs.held aside.alive) found) hd
  | starved loop found short routes pc =>
      exact hs.of_assign (by simp [loop]) found (.self _) routes (.inl pc)
  | refused loop found long bad routes pc =>
      exact hs.of_assign (by simp [loop]) found (.self _) routes (.inl pc)
  | answered loop found long read answered =>
      refine hs.of_assign (by simp [loop]) found answered.same answered.routes ?_
      rw [answered.pc]
      split
      next => exact .inl rfl
      next => exact .inr rfl
  | exited routes outside pc =>
      refine ⟨?_, ?_, ?_, ?_⟩
      · rw [routes]
        exact ⟨hs.routed.nextSlot_eq, hs.routed.generation_eq, hs.routed.entry, hs.routed.unique,
          hs.routed.slotOwner⟩
      · intro hne
        exact absurd pc hne
      · intro fd b hpc
        cases pc.symm.trans hpc
      · intro rsp hpc
        cases pc.symm.trans hpc

/-- The invariant holds in every reachable state, so every step of a run is a move. -/
theorem ServerRun.sound {ts : List (Taken Server Label)} (h : ServerRun D ts s) : Sound s :=
  Run.invariant_state (fun _ hs => hs ▸ sound_fresh D) (fun _ _ _ hs hstep => (hstep.move hs).sound hs) h

theorem ServerRun.sound_of_mem {ts : List (Taken Server Label)} (h : ServerRun D ts s)
    {t : Taken Server Label} (ht : t ∈ ts) : Sound t.src ∧ Move t.src t.label.events t.dst := by
  obtain ⟨⟨us, hus⟩, hstep⟩ := h.of_mem ht
  exact ⟨ServerRun.sound hus, hstep.move (ServerRun.sound hus)⟩

theorem Move.accepts_le (hs : Sound s) {es : List Event} (h : Move s es s') :
    s.accepts ≤ s'.accepts := by
  rcases h.accepts hs.routed with ⟨fd, -, heq⟩ | ⟨-, heq⟩
  · rw [heq]
    exact Nat.le_succ _
  · exact Nat.le_of_eq heq.symm

theorem ServerRun.accepted_of_lt {ts : List (Taken Server Label)} (h : ServerRun D ts s) :
    ∀ k < s.accepts, ∃ fd, Event.accepted k fd (tokenOf k) ∈ events ts := by
  refine Run.invariant (I := fun ts s =>
    ∀ k < s.accepts, ∃ fd, Event.accepted k fd (tokenOf k) ∈ events ts) ?_ ?_ h
  · rintro s rfl k hk
    exact absurd hk (Nat.not_lt_zero k)
  · intro ts s l s' hr ih hstep k hk
    have hs := ServerRun.sound hr
    rw [events_append, events_singleton]
    rcases (hstep.move hs).accepts hs.routed with ⟨fd, hes, heq⟩ | ⟨-, heq⟩
    · rw [heq] at hk
      rcases Nat.lt_succ_iff_lt_or_eq.mp hk with hk | rfl
      · exact (ih k hk).imp fun _ he => List.mem_append_left _ he
      · refine ⟨fd, List.mem_append_right _ ?_⟩
        show _ ∈ l.events
        rw [hes]
        exact List.mem_cons_self
    · rw [heq] at hk
      exact (ih k hk).imp fun _ he => List.mem_append_left _ he

theorem ServerRun.token_of_accepted {ts : List (Taken Server Label)} (h : ServerRun D ts s)
    {k : Nat} {fd : Int} {token : SessionToken} (hacc : Event.accepted k fd token ∈ events ts) :
    token = tokenOf k := by
  obtain ⟨t, ht, he⟩ := List.mem_flatMap.mp hacc
  obtain ⟨hs, hmove⟩ := h.sound_of_mem ht
  cases hmove.seen he with
  | engine engine => exact absurd engine id
  | accepted => exact hs.routed.nextToken_eq

end Kept

end TradingGateway.Gateway
