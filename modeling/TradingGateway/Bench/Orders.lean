/-
# `Bench.Orders` — what a bench client sends, and what becomes of it

The orders of a bench client are numbered from 1, in the sequence number and in the client
order id.  Whatever part of them the server has received, it has answered a number of them
with the commands they stand for and the rest is still to be read (`Tracks.orders`): no
frame is refused and none is out of sequence.
-/
import TradingGateway.Bench.Client
import TradingGateway.Gateway.Streams
import TradingGateway.Gateway.Window

namespace TradingGateway.Bench

open Lib Lib.StreamDecoder Lib.StreamMachine OrderEntry Gateway Spsc

/-! ## Orders and answers -/

/-- An order as `encode_order` has it. -/
def orderMessage (seq : UInt64) : OrderMessage :=
  .newOrder { sequenceNumber := seq, sessionId := 1 }
    { clientOrderId := seq, side := .buy, price := 10000, quantity := 1 }

/-- The number of the order behind `i` others. -/
def seqOf (i : Nat) : UInt64 := UInt64.ofNat (i + 1)

def orderFrame (i : Nat) : List UInt8 := encodeOrder blankFrame (seqOf i)

/-- The first `n` orders. -/
def orders (n : Nat) : List UInt8 := (List.range n).flatMap orderFrame

def orderRequest (i : Nat) : Request := (orderMessage (seqOf i)).request

/-- The command an order of client `k` stands for. -/
def commandOf (k i : Nat) : EngineCommand :=
  { type := .newLimit
    session := tokenOf k
    requestSequence := seqOf i
    clientOrderId := seqOf i
    price := 10000
    quantity := 1 }

/-- The engine's response to it. -/
def answerTo (k i : Nat) : Traced EngineResponse :=
  ⟨{ type := .accepted, session := tokenOf k, clientOrderId := seqOf i }, k⟩

/-- The frame of the response, which does not depend on the session. -/
def acceptedFrame (i : Nat) : List UInt8 :=
  encodeResponse { type := .accepted, clientOrderId := seqOf i } blankFrame

theorem length_encodeOrder {frame : List UInt8} (h : frame.length = kFrameSize) (seq : UInt64) :
    (encodeOrder frame seq).length = kFrameSize :=
  length_encode (orderMessage seq) h

/-- An order fills the whole frame, whatever was in it. -/
theorem encodeOrder_eq {frame : List UInt8} (h : frame.length = kFrameSize) (seq : UInt64) :
    encodeOrder frame seq = encodeOrder blankFrame seq := by
  have hdrop : ∀ {out : List UInt8}, out.length = kFrameSize → out.drop (kHeaderSize + 8 * 4) = [] :=
    fun hout => List.drop_eq_nil_of_le (Nat.le_of_eq hout)
  show ((orderMessage seq).encode frame).2 = ((orderMessage seq).encode blankFrame).2
  rw [encode_eq _ h, encode_eq _ length_blankFrame]
  exact congrArg _ ((hdrop h).trans (hdrop length_blankFrame).symm)

theorem length_orderFrame (i : Nat) : (orderFrame i).length = kFrameSize :=
  length_encodeOrder length_blankFrame _

theorem orders_succ (n : Nat) : orders (n + 1) = orders n ++ orderFrame n := by
  rw [orders, List.range_succ, List.flatMap_append, List.flatMap_singleton]
  rfl

theorem length_orders (n : Nat) : (orders n).length = kFrameSize * n := by
  induction n with
  | zero => rfl
  | succ n ih => rw [orders_succ, List.length_append, ih, length_orderFrame, Nat.mul_succ]

theorem length_acceptedFrame (i : Nat) : (acceptedFrame i).length = kFrameSize :=
  (carries_encodeResponse _ length_blankFrame).length

theorem readReply_acceptedFrame (i : Nat) :
    readReply (acceptedFrame i) = some (.accepted (seqOf i) 0) := by
  have h := (carries_encodeResponse { type := .accepted, clientOrderId := seqOf i }
    length_blankFrame).reply
  rw [acceptedFrame]
  -- the frame is not to be computed
  generalize encodeResponse { type := .accepted, clientOrderId := seqOf i } blankFrame = bs at h ⊢
  rw [h]
  exact congrArg some rfl

theorem encodeResponse_answerTo (k i : Nat) :
    encodeResponse (answerTo k i).value blankFrame = acceptedFrame i := rfl

theorem readRequest_orderFrame (i : Nat) : readRequest (orderFrame i) = some (orderRequest i) :=
  readRequest_encode (orderMessage (seqOf i)) length_blankFrame rfl rfl

theorem decoded_orders (n : Nat) :
    Decoded kFrameSize readRequest (orders n) ((List.range n).map orderRequest) [] := by
  induction n with
  | zero => exact Decoded.start
  | succ n ih =>
      have hfeed := ih.feed (orderFrame n)
      rw [List.nil_append, ← orders_succ] at hfeed
      have hframe : (orderFrame n).take kFrameSize = orderFrame n :=
        List.take_of_length_le (Nat.le_of_eq (length_orderFrame n))
      have htake := hfeed.take (Nat.le_of_eq (length_orderFrame n).symm)
        (hframe.symm ▸ readRequest_orderFrame n)
      rw [List.drop_eq_nil_of_le (Nat.le_of_eq (length_orderFrame n))] at htake
      rw [List.range_succ, List.map_append]
      exact htake

theorem seqOf_succ (i : Nat) : seqOf i + 1 = seqOf (i + 1) := by
  rw [seqOf, seqOf, UInt64.ofNat_add (i + 1) 1]
  rfl

theorem run_orders (k n : Nat) :
    StreamMachine.run (Gateway.answer (tokenOf k)) 1 ((List.range n).map orderRequest)
      = ((List.range n).map fun i => .command (commandOf k i), some (seqOf n)) := by
  induction n with
  | zero => rfl
  | succ n ih =>
      have hanswer : Gateway.answer (tokenOf k) (seqOf n) (orderRequest n)
          = (.command (commandOf k n), some (seqOf n + 1)) := by
        have hseq : (orderRequest n).header.sequenceNumber = seqOf n := rfl
        rw [Gateway.answer, if_neg (not_not.mpr hseq)]
        rfl
      rw [List.range_succ, List.map_append, List.map_singleton, run_snoc ih, hanswer, seqOf_succ,
        List.map_append, List.map_singleton]

/-! ## What the server has read of them -/

theorem read_orders {stream up rest : List UInt8} {items : List Request} {n : Nat}
    (h : Decoded kFrameSize readRequest stream items rest) (hstream : stream ++ up = orders n) :
    items.length ≤ n ∧ items = (List.range items.length).map orderRequest := by
  have hpre := (h.feed up).prefix_decodeStream (by decide)
  rw [hstream, ← (decoded_orders n).eq_decodeStream (by decide) (Or.inl (by decide))] at hpre
  have hle := hpre.length_le
  rw [List.length_map, List.length_range] at hle
  refine ⟨hle, ?_⟩
  have htake := List.prefix_iff_eq_take.mp hpre
  rw [← List.map_take, List.take_range, Nat.min_eq_left hle] at htake
  exact htake

/-- The server's account of what it received: `m` orders read, and the rest. -/
structure ReadOrders (k m : Nat) (es : List Event) (s : Server) (rest : List UInt8) : Prop where
  behaviour : behaviour k es = (List.range m).map fun i => .command (commandOf k i)
  length : (received k es).length = kFrameSize * m + rest.length
  short : rest.length < kFrameSize ∨ InLoop s k
  connection : ∀ {fd c}, s.connections.find fd = some c → c.serial = k →
    c.parser.contents = rest ∧ c.expectedSequence = seqOf m

section Account

variable {k n : Nat} {es : List Event} {s : Server} {up : List UInt8}

theorem Tracks.not_finished (h : Tracks k es s) (hstream : received k es ++ up = orders n) :
    ¬ Finished k es := by
  intro hfin
  obtain ⟨-, hends⟩ := h.finished hfin up
  rw [hstream, StreamEnds, Ends,
    ← (decoded_orders n).eq_decodeStream (by decide) (Or.inl (by decide)), run_orders,
    length_orders, List.length_map, List.length_range] at hends
  rcases hends with hnone | hle
  · cases hnone
  · exact absurd hle (Nat.not_le.mpr (Nat.lt_add_of_pos_right (by decide)))

/-- **Of what was received, a number of orders was read and answered.** -/
theorem Tracks.orders (h : Tracks k es s) (hstream : received k es ++ up = orders n) :
    ∃ m rest, m ≤ n ∧ ReadOrders k m es s rest := by
  obtain ⟨rest, expected, ⟨items, hdec, hrun⟩, hshort, hconn⟩ :=
    h.running (not_finished h hstream)
  obtain ⟨hle, hitems⟩ := read_orders hdec hstream
  rw [hitems, run_orders] at hrun
  obtain ⟨hbehaviour, hexpected⟩ := Prod.mk.inj hrun
  obtain rfl := Option.some.inj hexpected
  exact ⟨items.length, rest, hle, hbehaviour.symm, hdec.length_eq, hshort, hconn⟩

end Account

/-! ## What is asked of the engine -/

/-- The response that goes back to client `k`. -/
def isFor (k : Nat) (rsp : Traced EngineResponse) : Bool := rsp.source = k

theorem source_of_response {cmd : Traced EngineCommand} {rsp : Traced EngineResponse}
    (h : cmd.response = some rsp) : rsp.source = cmd.source := by
  obtain ⟨value, -, rfl⟩ := Option.map_eq_some_iff.mp h
  rfl

/-- The engine is asked for the commands a connection showed. -/
theorem asked_filter {k : Nat} {es : List Event} (h : ¬ Finished k es) :
    (asked es).filter (isFor k) = (behaviour k es).filterMap fun
      | .command cmd => Traced.response ⟨cmd, k⟩
      | .control _ _ => none := by
  induction es with
  | nil => rfl
  | cons e es ih =>
      have he : ¬ e.Finishes k := fun hf => h ⟨e, List.mem_cons_self, hf⟩
      have hes : ¬ Finished k es := fun ⟨d, hd, hf⟩ => h ⟨d, List.mem_cons_of_mem _ hd, hf⟩
      rw [behaviour, if_neg he, List.filterMap_append, ← ih hes, asked, asked, List.filterMap_cons]
      cases e with
      | command j msg cmd enqueued =>
          have houtput : (Event.command j msg cmd enqueued).output k
              = if j = k then some (.command cmd) else none := rfl
          rw [houtput]
          dsimp only
          by_cases heq : j = k
          · rw [if_pos heq, heq]
            cases hrsp : Traced.response ⟨cmd, k⟩ with
            | none => simp [hrsp]
            | some rsp => simp [hrsp, isFor, source_of_response hrsp]
          · rw [if_neg heq]
            cases hrsp : Traced.response ⟨cmd, j⟩ with
            | none => rfl
            | some rsp => simp [isFor, source_of_response hrsp, heq]
      | control j fd cause frame =>
          have houtput : (Event.control j fd cause frame).output k
              = if j = k then controlOutput frame else none := rfl
          rw [houtput, controlOutput]
          by_cases heq : j = k
          · rw [if_pos heq]
            cases readReply frame <;> rfl
          · rw [if_neg heq]
            rfl
      | _ => rfl

theorem ReadOrders.asked {k m : Nat} {es : List Event} {s : Server} {rest : List UInt8}
    (h : ReadOrders k m es s rest) (hnot : ¬ Finished k es) :
    (asked es).filter (isFor k) = (List.range m).map (answerTo k) := by
  rw [asked_filter hnot, h.behaviour, List.filterMap_map]
  show (List.range m).filterMap (some ∘ answerTo k) = _
  rw [List.filterMap_eq_map]

end TradingGateway.Bench
