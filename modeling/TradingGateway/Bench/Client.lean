/-
# `Bench.Client` — bench clients, the server, and the streams between them

`epoll_bench_client.cpp`.  A client connects, makes its round trips one after the other,
each an order and the 64 bytes that come back, and hangs up.  What `send` and `recv`
return is not looked at, and the frame that came back is the buffer the next order is
encoded into.

A `System` is the server of `Gateway.Server` with clients that each run this program, and
for each of them the two byte streams of its connection:

| | moves bytes |
| :-- | :-- |
| the client's `send` | to the end of `up` |
| the server's `recv` | from the front of `up`, a chunk of any size |
| the server's `send` | to the end of `down` |
| the client's `recv` | 64 of them from the front of `down` |

Clients are numbered in the order in which they connect, which is the order in which the
kernel hands them to `accept`, so a client's number is its connection's serial.

What the kernel is held to is in `System.Allows`: a stream loses nothing, `recv` answers 0
only behind the last byte of a client that has hung up, and an error only where it has; the
64 bytes of a frame find room in the socket buffer of a client that has not, which has at
most one of them to read; `accept` returns a client that has connected; and `epoll_wait`
does not fail.  Which events are reported, to whom and when, is left open as before, so
what is shown of every run does not rest on them.

What can be reached is another matter: there the kernel is held to `System.Prompt`, where
`epoll_wait` reports a descriptor that is ready and no other, and `accept` and `recv` answer
what is there.  A wake-up that the matching thread does not write never comes.

Options, clock and statistics are left out, but for the two numbers of round trips.
-/
import TradingGateway.Gateway.Reference

namespace TradingGateway.Bench

open Lib OrderEntry Gateway Spsc

/-! ## The client -/

/-- The options that the protocol depends on. -/
structure Options where
  messages : Int32 := 100000
  warmup : Int32 := 1000

/-- The round trips of `main`, those of the warm-up first; a loop up to a negative number
makes none.  With a negative `messages` the program ends behind the warm-up, in the
constructor of `rtts`, and it is the kernel that closes its socket. -/
def Options.rounds (opts : Options) : Nat :=
  opts.warmup.toNatClampNeg + opts.messages.toNatClampNeg

/-- `encode_order`. -/
def encodeOrder (frame : List UInt8) (seq : UInt64) : List UInt8 :=
  let h : MessageHeader := { sequenceNumber := seq, sessionId := 1 }
  let order : NewOrder := { clientOrderId := seq, side := .buy, price := 10000, quantity := 1 }
  (encodeNewOrder h order frame).2

/-- Where a client is, and how many round trips are left then. -/
inductive ClientPc where
  | connecting
  | sending (left : Nat)
  | receiving (left : Nat)
  | closed
deriving DecidableEq

/-- A client, and the streams of its connection.  `replies` is ghost: the frames that came
back, the latest last. -/
structure Client where
  pc : ClientPc := .connecting
  frame : List UInt8 := blankFrame
  seq : UInt64 := 1
  up : List UInt8 := []
  down : List UInt8 := []
  replies : List (List UInt8) := []

/-- `connect`. -/
def Client.connect (rounds : Nat) (c : Client) : Option Client :=
  match c.pc with
  | .connecting => some { c with pc := .sending rounds }
  | _ => none

/-- `encode_order(frame, seq++)` and the `send` of `send_recv`. -/
def Client.send (c : Client) : Option Client :=
  match c.pc with
  | .sending (left + 1) =>
      let frame := encodeOrder c.frame c.seq
      some
        { c with
          pc := .receiving left
          frame := frame
          seq := c.seq + 1
          up := c.up ++ frame }
  | _ => none

/-- The `recv` of `send_recv`: `MSG_WAITALL` waits for the whole frame. -/
def Client.recv (c : Client) : Option Client :=
  match c.pc with
  | .receiving left =>
      if kFrameSize ≤ c.down.length then
        let frame := c.down.take kFrameSize
        some
          { c with
            pc := .sending left
            frame := frame
            down := c.down.drop kFrameSize
            replies := c.replies ++ [frame] }
      else none
  | _ => none

/-- `close`, behind the last round trip. -/
def Client.close (c : Client) : Option Client :=
  match c.pc with
  | .sending 0 => some { c with pc := .closed }
  | _ => none

/-! ## The system -/

/-- The server, the clients by number, and how many of them have connected. -/
structure System where
  server : Server
  clients : Nat → Client
  connected : Nat

def System.fresh (D : Descriptors) : System where
  server := .fresh D
  clients := fun _ => {}
  connected := 0

/-- The client at the other end of a descriptor of the server. -/
def System.peer (s : System) (fd : Int) : Option Client :=
  (s.server.connections.find fd).map fun conn => s.clients conn.serial

/-- The client that the server is about to read from. -/
def System.reading (s : System) : Option Client :=
  match s.server.gateway with
  | .dispatch fd _ => s.peer fd
  | _ => none

/-- The client that the server is about to send a response to. -/
def System.writing (s : System) : Option Client :=
  match s.server.gateway with
  | .deliver rsp => s.peer (s.server.slot rsp.value.session.slot).fd
  | _ => none

/-- What `recv` may answer at the server's end. -/
def Client.Answers (c : Client) : RecvResult → Prop
  | .bytes bs _ _ => bs <+: c.up
  | .closed => c.pc = .closed ∧ c.up = []
  | .failed => c.pc = .closed
  | .wouldBlock => True

instance (c : Client) (r : RecvResult) : Decidable (c.Answers r) := by
  cases r <;> unfold Client.Answers <;> infer_instance

/-- What the kernel may answer the server. -/
def System.Allows (s : System) : Input → Prop
  | .epollFails => False
  | .accept _ => s.server.accepts < s.connected
  | .recv r => ∀ c ∈ s.reading, c.Answers r
  | .deliver sent => ∀ c ∈ s.writing, c.pc ≠ .closed → sent = kFrameSize
  | _ => True

instance (s : System) (input : Input) : Decidable (s.Allows input) := by
  cases input <;> unfold System.Allows <;> infer_instance

/-- The descriptors that are ready to be read. -/
def System.Readable (D : Descriptors) (s : System) (fd : Int) : Prop :=
  if fd = D.eventFd then s.server.eventCount ≠ 0
  else if fd = D.listenFd then s.server.accepts < s.connected
  else ∃ c ∈ s.peer fd, c.up ≠ [] ∨ c.pc = .closed

instance (D : Descriptors) (s : System) (fd : Int) : Decidable (s.Readable D fd) := by
  unfold System.Readable
  infer_instance

/-- What the kernel answers the server when it reports what is ready, and nothing else. -/
def System.Prompt (D : Descriptors) (s : System) : Input → Prop
  | .event fd epollIn => epollIn = true ∧ s.Readable D fd
  | .acceptFails => s.server.accepts = s.connected
  | .recv .wouldBlock => ∀ c ∈ s.reading, c.up = [] ∧ c.pc ≠ .closed
  | input => s.Allows input

theorem System.Prompt.allows {D : Descriptors} {s : System} {input : Input}
    (h : s.Prompt D input) : s.Allows input := by
  cases input with
  | recv r =>
      cases r with
      | wouldBlock => exact fun _ _ => trivial
      | bytes | closed | failed => exact h
  | event | acceptFails => exact trivial
  | epollFails | drain | deliver | accept | parse | shutdown | join | poll | respond | notify =>
      exact h

/-- The bytes that the server's step hands to `send` for the connection with serial `k`. -/
def bytesTo (connections : UnorderedMap Int Connection) (k : Nat) : Event → List UInt8
  | .control j _ _ frame => if j = k then frame else []
  | .engineFrame fd frame _ =>
      match connections.find fd with
      | some conn => if conn.serial = k then frame else []
      | none => []
  | _ => []

/-- The streams behind a step of the server. -/
def System.carry (s : System) (es : List Event) (k : Nat) : Client :=
  let c := s.clients k
  { c with
    up := c.up.drop (received k es).length
    down := c.down ++ es.flatMap (bytesTo s.server.connections k) }

/-- Who goes on. -/
inductive Act where
  | server (input : Input)
  | connect
  | send (k : Nat)
  | recv (k : Nat)
  | close (k : Nat)

/-- A client's step. -/
def System.act (s : System) (k : Nat) (c : Option Client) : Option (System × List Event) :=
  c.map fun c => ({ s with clients := Function.update s.clients k c }, [])

/-- One step, with what is seen of it at the server; at most `bound` clients connect. -/
def System.step (D : Descriptors) (opts : Nat → Options) (bound : Nat) (s : System) :
    Act → Option (System × List Event)
  | .server input =>
      if s.Allows input then
        (Gateway.step D s.server input).map fun x =>
          ({ s with server := x.1, clients := s.carry x.2 }, x.2)
      else none
  | .connect =>
      if s.connected < bound then
        let s' := { s with connected := s.connected + 1 }
        s'.act s.connected ((s.clients s.connected).connect (opts s.connected).rounds)
      else none
  | .send k => s.act k (s.clients k).send
  | .recv k => s.act k (s.clients k).recv
  | .close k => s.act k (s.clients k).close

/-- An act and what was seen of it. -/
structure SystemLabel where
  act : Act
  events : List Event

def SystemStep (D : Descriptors) (opts : Nat → Options) (bound : Nat) (s : System)
    (l : SystemLabel) (s' : System) : Prop :=
  s.step D opts bound l.act = some (s', l.events)

/-- A step in which the kernel is prompt. -/
def PromptStep (D : Descriptors) (opts : Nat → Options) (bound : Nat) (s : System)
    (l : SystemLabel) (s' : System) : Prop :=
  SystemStep D opts bound s l s' ∧ ∀ input, l.act = .server input → s.Prompt D input

abbrev SystemRun (D : Descriptors) (opts : Nat → Options) (bound : Nat)
    (ts : List (Taken System SystemLabel)) (s : System) : Prop :=
  Run (· = System.fresh D) (SystemStep D opts bound) ts s

/-- Everything seen at the server. -/
def seen (ts : List (Taken System SystemLabel)) : List Event := ts.flatMap fun t => t.label.events

end TradingGateway.Bench
