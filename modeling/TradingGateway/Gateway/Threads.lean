/-
# `Gateway.Threads` — the two threads, and their calls of the queues access by access

`Gateway.Server` lets a thread go on by one queue operation at a time, as if `push` and
`pop` were instants.  Here each thread is the code it is in `epoll_server.cpp`: what it
does from one stop to the next, with its calls of `cmd_queue` and `rsp_queue` in their
places, in the terms of `Lib.Duplex`.

| | calls of the queues |
| :-- | :-- |
| run at once | the server of `Gateway.Server` (`step_gateway`, `step_matching`) |
| run at once, by pictures | `PicturedRun`: a full or empty queue may be an old picture |
| run access by access | `SplitRun`: two `SpscRingBufferAtomicV3`, one for each direction |

In the last the other thread may go on between any two accesses of a call, so both may be
inside the same queue.  What it shows depends on what the loads of the slow paths observe
(`split_runs`):

| loads observe | shows the same runs as |
| :-- | :-- |
| the latest store | the server |
| any store that is not older | the server by pictures |

The second is what acquire loads promise.  There a queue that has room may refuse and one
that holds something may be empty, which no `ServerRun` shows; where the loads are up to
date, every statement about `ServerRun` and what is seen in it is one about `SplitRun`.
-/
import TradingGateway.Gateway.Server
import TradingGateway.Lib.Duplex
import TradingGateway.Spsc.Pictures

namespace TradingGateway.Gateway

open Lib Lib.BoundedFifo Lib.QueueMachine Lib.Duplex OrderEntry Spsc

/-! ## The gateway thread -/

/-- What the gateway thread owns, and where it is. -/
structure GatewayState extends Routes where
  pc : GatewayPc

/-- The whole system with the queues of the server. -/
abbrev WholeServer := Whole GatewayState MatchingPc Nat CommandQueue ResponseQueue

def WholeServer.server (w : WholeServer) : Server where
  toRoutes := w.a.toRoutes
  cmdQueue := w.down
  rspQueue := w.up
  eventCount := w.shared
  gateway := w.a.pc
  matching := w.b

def Server.whole (s : Server) : WholeServer where
  a := ⟨s.toRoutes, s.gateway⟩
  b := s.matching
  shared := s.eventCount
  down := s.cmdQueue
  up := s.rspQueue

/-- The server behind the gateway's code. -/
def Server.after (s : Server)
    (x : (GatewayState × List Event) × CommandQueue × ResponseQueue) : Server × List Event :=
  ({ s with
      toRoutes := x.1.1.toRoutes
      gateway := x.1.1.pc
      cmdQueue := x.2.1
      rspQueue := x.2.2 }, x.1.2)

/-- What was seen of a whole system. -/
def WholeRun.seen {σ : Type} (ts : List (Taken σ ((Input ⊕ Input) × List Event))) : List Event :=
  ts.flatMap fun t => t.label.2

/-- `should_close`, in the parse loop. -/
def GatewayPc.shouldClose : GatewayPc → Bool
  | .parse _ shouldClose => shouldClose
  | _ => false

/-- A queue of the server, access by access.  Nothing is `emplace`d. -/
abbrev SplitQueue (α : Type) [Inhabited α] := Interleaving.State α Empty kQueueCapacity

/-- The server whose calls of the queues are made of accesses. -/
abbrev SplitServer :=
  Split (Traced EngineCommand) (Traced EngineResponse) GatewayState MatchingPc Nat
    (SplitQueue (Traced EngineCommand)) (SplitQueue (Traced EngineResponse)) Input Input Event

/-- What was seen in it. -/
def SplitRun.seen (ts : List (Taken SplitServer (List Event))) : List Event :=
  ts.flatMap Taken.label

/-- The server that a split one stands for: its queues hold what the slots hold, and a
thread inside a call is where it was before. -/
structure SplitServer.For (s : SplitServer) (s' : Server) : Prop where
  routes : s'.toRoutes = s.a.origin.toRoutes
  gateway : s'.gateway = s.a.origin.pc
  matching : s'.matching = s.b.origin
  eventCount : s'.eventCount = s.shared
  commands : s'.cmdQueue.items = s.down.ring.contents
  responses : s'.rspQueue.items = s.up.ring.contents

end TradingGateway.Gateway
