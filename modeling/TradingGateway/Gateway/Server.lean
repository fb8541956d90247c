/-
# `Gateway.Server` — the two threads of the epoll server

`epoll_server.cpp`.  A state holds what the gateway thread owns (connections,
slots, the allocator), what the two threads share (the queues and the eventfd
counter), the descriptors the kernel has open, and a program counter for each
thread.  A step is one of the two threads going on by at most one queue
operation; what the kernel answers is the step's input.

| gateway at | next |
| :-- | :-- |
| `wait` | takes the next event of a batch, or `epoll_wait` fails |
| `drain` | pops a response |
| `deliver` | `send`s its frame |
| `accepting` | `accept`s, or gives up and goes on to `dispatch` like any event |
| `dispatch` | looks the connection up and `recv`s |
| `parse` | one iteration of the parse loop |
| `shutdown`, `join`, `exited` | after the loop |

Which events a batch holds is left open, so a stale event for a descriptor that
was closed and reused within the batch is among them; an `epoll_wait` that was
interrupted is no step at all.  A queue operation is one
step here.  Where the load in the slow path of a `push` or a `pop` observes the
latest store, every interleaving of the accesses of the calls is one of such
steps; an acquire load may observe an older one, and then a call may answer full
or empty early, which is not among them (`Gateway.Threads` has both).

Three fields are ghost: no step reads them.  `accepts` counts the accepted
connections, `Connection.serial` is that count when the connection was accepted,
and `Traced.source` is the serial of the connection whose message produced the
command, or the response to it.
-/
import TradingGateway.Gateway.EngineMessages
import TradingGateway.Lib.Runs
import TradingGateway.Lib.UnorderedMap
import TradingGateway.Spsc.RingBuffer

namespace TradingGateway.Gateway

open Lib Lib.Cyclic OrderEntry Spsc

def kMaxSlots : Nat := 1024

/-- `kQueueCapacity`. -/
def kQueueCapacity : Capacity := ⟨4096, by decide, by decide⟩

/-- `FrameParser<4096>`. -/
def parserCapacity : ParserCapacity := ⟨4096, by decide, ⟨12, rfl⟩, by decide⟩

/-! ## Data -/

/-- A queue element and, as ghost, the connection it goes back to. -/
structure Traced (α : Type*) where
  value : α
  source : Nat
deriving DecidableEq, Repr

instance {α : Type*} [Inhabited α] : Inhabited (Traced α) := ⟨⟨default, 0⟩⟩

abbrev CommandQueue := Queue (Traced EngineCommand) kQueueCapacity
abbrev ResponseQueue := Queue (Traced EngineResponse) kQueueCapacity

structure Connection where
  parser : Parser parserCapacity
  token : SessionToken
  expectedSequence : UInt64 := 1
  fd : Int
  serial : Nat

structure SessionSlot where
  fd : Int := -1
  generation : UInt32 := 0
deriving DecidableEq, Repr

instance : Inhabited SessionSlot := ⟨{}⟩

/-- What `recv` answers: the bytes it wrote to the buffer of 1024, 0, or an error. -/
inductive RecvResult where
  | bytes (bs : List UInt8) (pos : 0 < bs.length) (le : bs.length ≤ 1024)
  | closed
  | wouldBlock
  | failed

inductive GatewayPc where
  | wait
  | drain
  | deliver (rsp : Traced EngineResponse)
  | accepting (epollIn : Bool)
  | dispatch (fd : Int) (epollIn : Bool)
  | parse (fd : Int) (shouldClose : Bool)
  | shutdown
  | join
  | exited
deriving DecidableEq

inductive MatchingPc where
  | poll
  | respond (rsp : Traced EngineResponse)
  | notify
  | stopped
deriving DecidableEq

/-- The descriptors of the process before the loop. -/
structure Descriptors where
  listenFd : Int
  eventFd : Int
  epollFd : Int
  others : List Int

/-- What routing is made of: the connections, the slot table with its allocator,
and the descriptors the kernel has open. -/
structure Routes where
  connections : UnorderedMap Int Connection
  slots : Vector SessionSlot kMaxSlots
  nextSlot : UInt32
  openFds : List Int
  accepts : Nat

structure Server extends Routes where
  cmdQueue : CommandQueue
  rspQueue : ResponseQueue
  eventCount : Nat
  gateway : GatewayPc
  matching : MatchingPc

/-- `slots[i]`. -/
def Routes.slot (r : Routes) (i : UInt32) : SessionSlot := cells r.slots i.toNat

/-- The server when `epoll_wait` is first called. -/
def Server.fresh (D : Descriptors) : Server where
  connections := .empty
  slots := Vector.replicate kMaxSlots {}
  nextSlot := 0
  openFds := D.listenFd :: D.eventFd :: D.epollFd :: D.others
  accepts := 0
  cmdQueue := .fresh
  rspQueue := .fresh
  eventCount := 0
  gateway := .wait
  matching := .poll

/-! ## What can be seen of a step -/

/-- Why the parse loop sent a control frame. -/
inductive Control where
  | badSequence
  | heartbeat
  | logout
deriving DecidableEq, Repr

/-- What a step does that a client, the engine or a log can see; connections
appear under their serial. -/
inductive Event where
  | accepted (serial : Nat) (fd : Int) (token : SessionToken)
  | received (serial : Nat) (bytes : List UInt8)
  | protocolError (serial : Nat)
  | control (serial : Nat) (fd : Int) (cause : Control) (frame : List UInt8)
  | command (serial : Nat) (msg : DecodedMessage) (cmd : EngineCommand) (enqueued : Bool)
  | closed (serial : Nat) (token : SessionToken) (enqueued : Bool)
  | engineFrame (fd : Int) (frame : List UInt8) (rsp : Traced EngineResponse)
  | dropped (rsp : Traced EngineResponse)
  | popped (cmd : Traced EngineCommand)
  | responded (rsp : Traced EngineResponse) (enqueued : Bool)
  | shutdownCommand (enqueued : Bool)
deriving DecidableEq

/-! ## The gateway thread -/

/-- A connection taken out: its slot cleared, its entry erased, its descriptor
closed. -/
def Routes.unlink (r : Routes) (fd : Int) (tok : SessionToken) : Routes :=
  { r with
    slots := r.slots.setIfInBounds tok.slot.toNat { r.slot tok.slot with fd := -1 }
    connections := r.connections.erase fd
    openFds := r.openFds.filter (· ≠ fd) }

/-- `close_conn`. -/
def closeConn (s : Server) (fd : Int) : Server × List Event :=
  match s.connections.find fd with
  | some conn =>
      let tok := conn.token
      let cmd : EngineCommand := { type := .sessionClosed, session := tok }
      let pushed := s.cmdQueue.push ⟨cmd, conn.serial⟩
      ({ s with toRoutes := s.toRoutes.unlink fd tok, cmdQueue := pushed.2 },
        [.closed conn.serial tok pushed.1])
  | none => ({ s with openFds := s.openFds.filter (· ≠ fd) }, [])

/-- The slot that the next accepted connection gets. -/
def Routes.allocated (r : Routes) : UInt32 := r.nextSlot % UInt32.ofNat kMaxSlots

/-- The token that the next accepted connection gets. -/
def Routes.nextToken (r : Routes) : SessionToken :=
  ⟨r.allocated, (r.slot r.allocated).generation + 1⟩

/-- The body of the accept loop for a descriptor that `accept` returned. -/
def Routes.link (r : Routes) (clientFd : Int) : Routes :=
  { r with
    nextSlot := r.nextSlot + 1
    slots := r.slots.setIfInBounds r.allocated.toNat ⟨clientFd, r.nextToken.generation⟩
    connections := r.connections.emplace clientFd
      { parser := .fresh, token := r.nextToken, fd := clientFd, serial := r.accepts }
    openFds := clientFd :: r.openFds
    accepts := r.accepts + 1 }

def acceptConn (s : Server) (clientFd : Int) : Server × List Event :=
  ({ s with toRoutes := s.toRoutes.link clientFd }, [.accepted s.accepts clientFd s.nextToken])

/-- One turn of the response drain up to `send`. -/
def drainStep (s : Server) : Server × List Event :=
  let popped := s.rspQueue.pop
  let s := { s with rspQueue := popped.2 }
  match popped.1 with
  | none => ({ s with gateway := .wait }, [])
  | some rsp =>
      let slot := s.slot rsp.value.session.slot
      if slot.generation ≠ rsp.value.session.generation ∨ slot.fd < 0 then (s, [.dropped rsp])
      else ({ s with gateway := .deliver rsp }, [])

/-- `send` in the response drain; `sent` is what it returned. -/
def deliverStep (s : Server) (rsp : Traced EngineResponse) (sent : Int) : Server × List Event :=
  let fd := (s.slot rsp.value.session.slot).fd
  let frame := encodeResponse rsp.value blankFrame
  let s := { s with gateway := .drain }
  if sent ≠ (frame.length : Int) then
    let closed := closeConn s fd
    (closed.1, .engineFrame fd frame rsp :: closed.2)
  else (s, [.engineFrame fd frame rsp])

/-- Client data, from the look-up to the parse loop. -/
def dispatchStep (s : Server) (fd : Int) (epollIn : Bool) (r : RecvResult) :
    Server × List Event :=
  let s := { s with gateway := .wait }
  if !epollIn then (s, [])
  else
    match s.connections.find fd with
    | none => (s, [])
    | some conn =>
        match r with
        | .closed => closeConn s fd
        | .wouldBlock => (s, [])
        | .failed => closeConn s fd
        | .bytes bs _ _ =>
            let appended := conn.parser.append bs
            let s := { s with
              connections := s.connections.assign fd { conn with parser := appended.2 } }
            if !appended.1 then
              let closed := closeConn s fd
              (closed.1, .received conn.serial bs :: closed.2)
            else ({ s with gateway := .parse fd false }, [.received conn.serial bs])

/-- One iteration of the parse loop.  `should_close` is a local of the receive
step: a `break` leaves the loop and forgets it, and `close_conn` is only called
behind the push.  `none` where the connection is gone, which the loop never
meets. -/
def parseStep (s : Server) (fd : Int) (shouldClose : Bool) : Option (Server × List Event) :=
  match s.connections.find fd with
  | none => none
  | some conn =>
      let parsed := conn.parser.tryParse {}
      let msg := parsed.2.1
      let conn := { conn with parser := parsed.2.2 }
      let s := { s with connections := s.connections.assign fd conn }
      if parsed.1 = .needMoreData then some ({ s with gateway := .wait }, [])
      else if parsed.1 = .protocolError then
        some ({ s with gateway := .wait }, [.protocolError conn.serial])
      else if msg.header.sequenceNumber ≠ conn.expectedSequence then
        some (s, [.control conn.serial fd .badSequence (badSequenceFrame conn.token msg)])
      else
        let conn := { conn with expectedSequence := conn.expectedSequence + 1 }
        let s := { s with connections := s.connections.assign fd conn }
        if msg.type = .logout then
          some ({ s with gateway := .wait },
            [.control conn.serial fd .logout (acceptFrame msg)])
        else if msg.type = .heartbeat then
          some (s, [.control conn.serial fd .heartbeat (acceptFrame msg)])
        else
          let cmd := toCommand conn.token msg
          let pushed := s.cmdQueue.push ⟨cmd, conn.serial⟩
          let s := { s with cmdQueue := pushed.2 }
          let event := Event.command conn.serial msg cmd pushed.1
          if shouldClose then
            let closed := closeConn s fd
            some (closed.1, event :: closed.2)
          else some (s, [event])

/-! ## The matching thread -/

/-- `cmd_q.pop` and the `switch` behind it. -/
def pollStep (s : Server) : Server × List Event :=
  let popped := s.cmdQueue.pop
  let s := { s with cmdQueue := popped.2 }
  match popped.1 with
  | none => (s, [])
  | some cmd =>
      if cmd.value.type = .shutdown then ({ s with matching := .stopped }, [.popped cmd])
      else
        match engineRespond cmd.value with
        | none => (s, [.popped cmd])
        | some rsp => ({ s with matching := .respond ⟨rsp, cmd.source⟩ }, [.popped cmd])

/-- `write(notify_fd, 1)`: the counter of an eventfd saturates at `2^64 - 2`. -/
def notifyCount (n : Nat) : Nat := if n = 2 ^ 64 - 2 then n else n + 1

/-! ## Steps -/

/-- What the scheduler and the kernel decide. -/
inductive Input where
  | event (fd : Int) (epollIn : Bool)
  | epollFails
  | drain
  | deliver (sent : Int)
  | accept (clientFd : Int)
  | acceptFails
  | recv (r : RecvResult)
  | parse
  | shutdown
  | join
  | poll
  | respond
  | notify

/-- An input and what was seen. -/
structure Label where
  input : Input
  events : List Event

/-- One step; `none` where the thread the input is for is not there. -/
def step (D : Descriptors) (s : Server) (input : Input) : Option (Server × List Event) :=
  match input, s.gateway, s.matching with
  | .event fd epollIn, .wait, _ =>
      if fd = D.eventFd then some ({ s with eventCount := 0, gateway := .drain }, [])
      else if fd = D.listenFd then some ({ s with gateway := .accepting epollIn }, [])
      else some ({ s with gateway := .dispatch fd epollIn }, [])
  | .epollFails, .wait, _ => some ({ s with gateway := .shutdown }, [])
  | .drain, .drain, _ => some (drainStep s)
  | .deliver sent, .deliver rsp, _ => some (deliverStep s rsp sent)
  | .accept clientFd, .accepting _, _ =>
      -- the kernel returns a descriptor that is not open
      if 0 ≤ clientFd ∧ clientFd ∉ s.openFds then some (acceptConn s clientFd) else none
  | .acceptFails, .accepting epollIn, _ =>
      some ({ s with gateway := .dispatch D.listenFd epollIn }, [])
  | .recv r, .dispatch fd epollIn, _ => some (dispatchStep s fd epollIn r)
  | .parse, .parse fd shouldClose, _ => parseStep s fd shouldClose
  | .shutdown, .shutdown, _ =>
      let cmd : EngineCommand := { type := .shutdown }
      let pushed := s.cmdQueue.push ⟨cmd, 0⟩
      some ({ s with cmdQueue := pushed.2, gateway := .join }, [.shutdownCommand pushed.1])
  | .join, .join, .stopped =>
      some
        ({ s with
            gateway := .exited
            openFds := s.openFds.filter fun fd =>
              fd ∉ s.connections.keys ∧ fd ≠ D.epollFd ∧ fd ≠ D.eventFd ∧ fd ≠ D.listenFd }, [])
  | .poll, _, .poll => some (pollStep s)
  | .respond, _, .respond rsp =>
      let pushed := s.rspQueue.push rsp
      some ({ s with rspQueue := pushed.2, matching := .notify }, [.responded rsp pushed.1])
  | .notify, _, .notify =>
      some ({ s with eventCount := notifyCount s.eventCount, matching := .poll }, [])
  | _, _, _ => none

/-- The steps of the server. -/
def Step (D : Descriptors) (s : Server) (l : Label) (s' : Server) : Prop :=
  step D s l.input = some (s', l.events)

/-- A run from the first `epoll_wait` on. -/
abbrev ServerRun (D : Descriptors) (ts : List (Taken Server Label)) (s : Server) : Prop :=
  Run (· = Server.fresh D) (Step D) ts s

/-- Everything seen in a run. -/
def events (ts : List (Taken Server Label)) : List Event := ts.flatMap fun t => t.label.events

theorem events_append (us vs : List (Taken Server Label)) :
    events (us ++ vs) = events us ++ events vs :=
  List.flatMap_append

theorem events_singleton (t : Taken Server Label) : events [t] = t.label.events :=
  List.append_nil _

end TradingGateway.Gateway
