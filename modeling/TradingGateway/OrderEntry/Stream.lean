/-
# `OrderEntry.Stream` — the parser over whole streams

Two statements about streams rather than frames.

* **Refinement.**  A run is any sequence of `append` and `try_parse` calls on a
  fresh parser.  Every call answers as the buffered bytes say it must
  (`Call.Meets`), and the messages produced are the frame-by-frame decoding of
  the accepted bytes: a prefix of it at any time, all of it right after a call
  that found no further message (`refines_stream_decoder`).

* **Agreement with the client.**  Order messages encoded by the client, cut into
  chunks anywhere and drained after each chunk come out as they went in
  (`encoded_stream_comes_out`).

The first is a simulation: `Decoded` relates the accepted bytes, the messages so
far and the buffered bytes, and each call is one of its two moves or none.
-/
import TradingGateway.Lib.Runs
import TradingGateway.Lib.StreamDecoder
import TradingGateway.OrderEntry.FrameParser

namespace TradingGateway.OrderEntry

open Lib Lib.Bytes Lib.StreamDecoder

variable {C : ParserCapacity}

/-! ## Runs of calls -/

/-- A call with its arguments and its answers. -/
inductive Call where
  | append (chunk : List UInt8) (accepted : Bool)
  | tryParse (prior : DecodedMessage) (status : FrameParser.Status) (out : DecodedMessage)
deriving DecidableEq

namespace Call

/-- The call makes of `p` what it answers. -/
def Step (p : FrameParser C) : Call → FrameParser C → Prop
  | append chunk accepted, p' => p.append chunk = (accepted, p')
  | tryParse prior status out, p' => p.tryParse prior = (status, out, p')

/-- The bytes a call added to the stream. -/
def fed : Call → List UInt8
  | append chunk true => chunk
  | _ => []

/-- The message a call produced. -/
def produced : Call → List DecodedMessage
  | tryParse _ .messageReady out => [out]
  | _ => []

/-- The call found no further message. -/
def Stops : Call → Prop
  | tryParse _ status _ => status = .needMoreData ∨ status = .protocolError
  | append _ _ => False

/-- What the call may answer and do, by the buffered bytes. -/
def Meets (call : Call) (src dst : FrameParser C) : Prop :=
  match call with
  | append chunk accepted =>
      (accepted = true ↔ chunk = [] ∨ chunk.length ≤ C.value - src.contents.length) ∧
        (accepted = true → dst.contents = src.contents ++ chunk) ∧
        (accepted = false → dst = src)
  | tryParse prior status out =>
      (status = .needMoreData ↔ src.contents.length < kFrameSize) ∧
        (status = .messageReady ↔ kFrameSize ≤ src.contents.length ∧
          IsRequestFrame (src.contents.take kFrameSize)) ∧
        (status = .protocolError ↔ kFrameSize ≤ src.contents.length ∧
          ¬ IsRequestFrame (src.contents.take kFrameSize)) ∧
        (status = .messageReady → out.request = readRequest (src.contents.take kFrameSize) ∧
          dst.contents = src.contents.drop kFrameSize) ∧
        (status ≠ .messageReady → out = prior ∧ dst = src)

theorem Meets.stuck {p p' : FrameParser C} {c : Call} (h : c.Meets p p') (hstop : c.Stops) :
    p'.contents.length < kFrameSize ∨ readRequest (p'.contents.take kFrameSize) = none := by
  cases c with
  | append chunk accepted => exact absurd hstop id
  | tryParse prior status out =>
      obtain ⟨hneed, -, herr, -, hidle⟩ := h
      rcases hstop with rfl | rfl
      · obtain ⟨-, rfl⟩ := hidle nofun
        exact Or.inl (hneed.mp rfl)
      · obtain ⟨-, rfl⟩ := hidle nofun
        exact Or.inr (readRequest_eq_none_iff.mpr (herr.mp rfl).2)

end Call

/-- The bytes accepted in a run. -/
def fed (ts : List (Taken (FrameParser C) Call)) : List UInt8 :=
  ts.flatMap fun t => t.label.fed

/-- The messages produced in a run. -/
def produced (ts : List (Taken (FrameParser C) Call)) : List DecodedMessage :=
  ts.flatMap fun t => t.label.produced

/-- A run of calls on a fresh parser. -/
abbrev CallRun (ts : List (Taken (FrameParser C) Call)) (p : FrameParser C) : Prop :=
  Run (· = FrameParser.fresh) Call.Step ts p

/-- The run so far as the reference sees it. -/
structure Simulates (ts : List (Taken (FrameParser C) Call)) (p : FrameParser C) : Prop where
  wellFormed : p.WellFormed
  decoded : ∃ rs, (produced ts).map DecodedMessage.request = rs.map some ∧
    Decoded kFrameSize readRequest (fed ts) rs p.contents

theorem Simulates.idle {ts : List (Taken (FrameParser C) Call)} {p : FrameParser C} {c : Call}
    (h : Simulates ts p) (hf : c.fed = []) (hp : c.produced = []) :
    Simulates (ts ++ [⟨p, c, p⟩]) p := by
  have hfed : fed (ts ++ [⟨p, c, p⟩]) = fed ts := by simp [fed, hf]
  have hproduced : produced (ts ++ [⟨p, c, p⟩]) = produced ts := by simp [produced, hp]
  refine ⟨h.wellFormed, ?_⟩
  rw [hfed, hproduced]
  exact h.decoded

/-- **One call**: it answers as it must, and the simulation goes on. -/
theorem Simulates.step {ts : List (Taken (FrameParser C) Call)} {p p' : FrameParser C} {c : Call}
    (h : Simulates ts p) (hs : Call.Step p c p') :
    c.Meets p p' ∧ Simulates (ts ++ [⟨p, c, p'⟩]) p' := by
  obtain ⟨rs, hrs, hdec⟩ := h.decoded
  cases c with
  | append chunk accepted =>
      have hs : p.append chunk = (accepted, p') := hs
      have hempty : chunk = [] → chunk.length ≤ C.value - p.contents.length := by
        rintro rfl
        exact Nat.zero_le _
      rcases h.wellFormed.append_spec chunk with ⟨hle, hok, hwf, hc⟩ | ⟨hlt, heq⟩
      · rw [hs] at hok hwf hc
        obtain rfl : accepted = true := hok
        refine ⟨⟨⟨fun _ => Or.inr hle, fun _ => rfl⟩, fun _ => hc, nofun⟩, hwf, rs, ?_, ?_⟩
        · simpa [produced, Call.produced] using hrs
        · have hfed : fed (ts ++ [⟨p, .append chunk true, p'⟩]) = fed ts ++ chunk := by
            simp [fed, Call.fed]
          rw [hfed, hc]
          exact hdec.feed chunk
      · obtain ⟨rfl, rfl⟩ := Prod.mk.inj (heq.symm.trans hs)
        refine ⟨⟨⟨nofun, fun hfit => ?_⟩, nofun, fun _ => rfl⟩, h.idle rfl rfl⟩
        exact absurd (hfit.elim hempty id) (Nat.not_le.mpr hlt)
  | tryParse prior status out =>
      have hs : p.tryParse prior = (status, out, p') := hs
      rcases h.wellFormed.tryParse_spec prior with ⟨hlt, heq⟩ | ⟨hge, hr, heq⟩ |
        ⟨r, q, hge, hr, heq, hwf, hc⟩
      · obtain ⟨rfl, heq⟩ := Prod.mk.inj (heq.symm.trans hs)
        obtain ⟨rfl, rfl⟩ := Prod.mk.inj heq
        have hnot : ¬ kFrameSize ≤ p.contents.length := Nat.not_le.mpr hlt
        refine ⟨⟨⟨fun _ => hlt, fun _ => rfl⟩, ⟨nofun, fun hx => absurd hx.1 hnot⟩,
          ⟨nofun, fun hx => absurd hx.1 hnot⟩, nofun, fun _ => ⟨rfl, rfl⟩⟩, h.idle rfl rfl⟩
      · obtain ⟨rfl, heq⟩ := Prod.mk.inj (heq.symm.trans hs)
        obtain ⟨rfl, rfl⟩ := Prod.mk.inj heq
        have hbad := readRequest_eq_none_iff.mp hr
        refine ⟨⟨⟨nofun, fun hx => absurd hge (Nat.not_le.mpr hx)⟩,
          ⟨nofun, fun hx => absurd hx.2 hbad⟩, ⟨fun _ => ⟨hge, hbad⟩, fun _ => rfl⟩, nofun,
          fun _ => ⟨rfl, rfl⟩⟩, h.idle rfl rfl⟩
      · obtain ⟨rfl, heq⟩ := Prod.mk.inj (heq.symm.trans hs)
        obtain ⟨rfl, rfl⟩ := Prod.mk.inj heq
        have hframe := (header_of_readRequest hr).1
        have hreq : (prior.overlay r).request = some r := request_overlay prior hr
        refine ⟨⟨⟨nofun, fun hx => absurd hge (Nat.not_le.mpr hx)⟩,
          ⟨fun _ => ⟨hge, hframe⟩, fun _ => rfl⟩, ⟨nofun, fun hx => absurd hframe hx.2⟩,
          fun _ => ⟨hreq.trans hr.symm, hc⟩, fun hx => absurd rfl hx⟩, hwf, rs ++ [r], ?_, ?_⟩
        · simpa [produced, Call.produced, hreq] using hrs
        · have hfed : fed (ts ++ [⟨p, .tryParse prior .messageReady (prior.overlay r), q⟩])
              = fed ts := by simp [fed, Call.fed]
          rw [hfed, hc]
          exact hdec.take hge hr

theorem CallRun.simulates {ts : List (Taken (FrameParser C) Call)} {p : FrameParser C}
    (h : CallRun ts p) : (∀ t ∈ ts, t.label.Meets t.src t.dst) ∧ Simulates ts p := by
  refine Run.invariant (I := fun ts p => (∀ t ∈ ts, t.label.Meets t.src t.dst) ∧
    Simulates ts p) ?_ ?_ h
  · rintro s rfl
    refine ⟨fun t ht => absurd ht List.not_mem_nil, FrameParser.wellFormed_fresh, [], rfl, ?_⟩
    rw [FrameParser.contents_fresh]
    exact Decoded.start
  · rintro ts s l s' - ⟨hall, hsim⟩ hs
    obtain ⟨hmeets, hsim'⟩ := hsim.step hs
    refine ⟨fun t ht => ?_, hsim'⟩
    rcases List.mem_append.mp ht with ht | ht
    · exact hall t ht
    · rw [List.mem_singleton.mp ht]
      exact hmeets

/-- **The parser refines the reference stream decoder**, for every sequence of
calls: every call answers by the buffered bytes, what was produced is a prefix
of the decoding of the accepted bytes, and is all of it right after a call that
found no further message. -/
theorem refines_stream_decoder {ts : List (Taken (FrameParser C) Call)} {p : FrameParser C}
    (h : CallRun ts p) :
    (∀ t ∈ ts, t.label.Meets t.src t.dst) ∧
      (produced ts).map DecodedMessage.request
        <+: (decodeStream kFrameSize readRequest (fed ts)).map some ∧
      ∀ us t, ts = us ++ [t] → t.label.Stops →
        (produced ts).map DecodedMessage.request
          = (decodeStream kFrameSize readRequest (fed ts)).map some := by
  obtain ⟨hall, hsim⟩ := h.simulates
  obtain ⟨rs, hrs, hdec⟩ := hsim.decoded
  have hpos : 0 < kFrameSize := by decide
  refine ⟨hall, ?_, ?_⟩
  · rw [hrs]
    exact (hdec.prefix_decodeStream hpos).map some
  · rintro us t rfl hstop
    have hmeets := hall t (List.mem_append_right _ (List.mem_singleton_self _))
    obtain ⟨-, -, hdst⟩ := h.last
    rw [hdst] at hmeets
    rw [hrs, hdec.eq_decodeStream hpos (hmeets.stuck hstop)]

/-! A run from its calls alone. -/

/-- A call before it is made. -/
inductive Invocation where
  | append (chunk : List UInt8)
  | tryParse (prior : DecodedMessage)

/-- Make a call. -/
def perform (p : FrameParser C) : Invocation → Option (FrameParser C × Call)
  | .append chunk => some ((p.append chunk).2, .append chunk (p.append chunk).1)
  | .tryParse prior =>
      some ((p.tryParse prior).2.2,
        .tryParse prior (p.tryParse prior).1 (p.tryParse prior).2.1)

theorem perform_step {p p' : FrameParser C} {i : Invocation} {c : Call}
    (h : perform p i = some (p', c)) : Call.Step p c p' := by
  cases i <;> cases h <;> rfl

theorem CallRun.of_replay {is : List Invocation} {ts : List (Taken (FrameParser C) Call)}
    {p : FrameParser C} (h : replay perform .fresh is = some (ts, p)) : CallRun ts p := by
  have hstart : CallRun [] (FrameParser.fresh (C := C)) := .start rfl
  exact hstart.replay (fun _ _ _ _ => perform_step) h

/-- The smallest capacity: one frame. -/
def oneFrame : ParserCapacity := ⟨64, rfl, ⟨6, rfl⟩, by decide⟩

/-- Room for a second frame behind the first. -/
def twoFrames : ParserCapacity := ⟨128, rfl, ⟨7, rfl⟩, by decide⟩

/-- Buffers that a client may encode into. -/
def zeroBuffer : List UInt8 := List.replicate kFrameSize 0
def onesBuffer : List UInt8 := List.replicate kFrameSize 255

/-- Two requests cut behind their boundary, a chunk too long by one byte, and a frame that
is no request. -/
def mixedCalls : List Invocation :=
  let first := ((OrderMessage.newOrder { sequenceNumber := 1 }
    { clientOrderId := 7, side := .sell, price := 100, quantity := 5 }).encode zeroBuffer).2
  let second := ((OrderMessage.cancelOrder { sequenceNumber := 2 }
    { clientOrderId := 7 }).encode onesBuffer).2
  [.append (first ++ second.take 6), .tryParse {}, .tryParse {}, .append (List.replicate 123 0),
    .append (second.drop 6 ++ onesBuffer), .tryParse {}, .tryParse {}]

theorem refines_stream_decoder_mixedCalls :
    ∃ (ts : List (Taken (FrameParser twoFrames) Call)) (p : FrameParser twoFrames),
      replay perform .fresh mixedCalls = some (ts, p) ∧ (produced ts).length = 2 ∧
        Call.append (List.replicate 123 0) false ∈ ts.map Taken.label ∧
        (∀ t ∈ ts, t.label.Meets t.src t.dst) ∧
        (produced ts).map DecodedMessage.request
          = (decodeStream kFrameSize readRequest (fed ts)).map some := by
  have hcheck : (replay perform (FrameParser.fresh (C := twoFrames)) mixedCalls).map
      (fun r => ((produced r.1).length, r.1.map Taken.label |>.contains
        (.append (List.replicate 123 0) false), r.1.getLast?.map Taken.label))
      = some (2, true, some (.tryParse {} .protocolError {})) := by decide +kernel
  obtain ⟨⟨ts, p⟩, hr, hfound⟩ := Option.map_eq_some_iff.mp hcheck
  obtain ⟨htwo, hfound⟩ := Prod.mk.inj hfound
  obtain ⟨hrefused, hlast⟩ := Prod.mk.inj hfound
  obtain ⟨t, hlast, hlabel⟩ := Option.map_eq_some_iff.mp hlast
  obtain ⟨us, hus⟩ := List.getLast?_eq_some_iff.mp hlast
  obtain ⟨hmeets, -, hall⟩ := refines_stream_decoder (CallRun.of_replay hr)
  refine ⟨ts, p, hr, htwo, List.contains_iff_mem.mp hrefused, hmeets, hall us t hus ?_⟩
  rw [hlabel]
  exact Or.inr rfl

/-! ## Draining -/

namespace Parser

/-- `try_parse` until it reports no further message; every call is handed a
message of the content `prior`. -/
def drain (prior : DecodedMessage) (p : Parser C) :
    List DecodedMessage × FrameParser.Status × Parser C :=
  match _h : p.tryParse prior with
  | (.messageReady, out, p') =>
      let rest := p'.drain prior
      (out :: rest.1, rest.2)
  | (status, _, p') => ([], status, p')
termination_by p.contents.length
decreasing_by
  rcases p.tryParse_cases prior with ⟨-, heq⟩ | ⟨-, -, heq⟩ | ⟨r, q, hge, -, heq, hc⟩
  · rw [_h] at heq
    cases heq
  · rw [_h] at heq
    cases heq
  · rw [_h] at heq
    cases heq
    rw [hc, List.length_drop]
    exact Nat.sub_lt (Nat.lt_of_lt_of_le (by decide) hge) (by decide)

/-- One chunk of a stream: what the parser was, what it answered, what it is. -/
structure Receipt (C : ParserCapacity) where
  chunk : List UInt8
  before : Parser C
  accepted : Bool
  messages : List DecodedMessage
  status : FrameParser.Status
  after : Parser C

/-- Append a chunk and drain. -/
def receive (prior : DecodedMessage) (p : Parser C) (chunk : List UInt8) : Receipt C :=
  let appended := p.append chunk
  let drained := appended.2.drain prior
  ⟨chunk, p, appended.1, drained.1, drained.2.1, drained.2.2⟩

/-- All chunks of a stream, one after the other. -/
def receiveAll (prior : DecodedMessage) : Parser C → List (List UInt8) →
    List (Receipt C) × Parser C
  | p, [] => ([], p)
  | p, chunk :: chunks =>
      let r := p.receive prior chunk
      let rest := receiveAll prior r.after chunks
      (r :: rest.1, rest.2)

section Drain

variable {prior out : DecodedMessage} {p q : Parser C}

theorem drain_of_needMoreData (h : p.tryParse prior = (.needMoreData, out, q)) :
    p.drain prior = ([], .needMoreData, q) := by
  rw [drain]
  split
  next h' => rw [h] at h'; cases h'
  next h' => rw [h] at h'; cases h'; rfl

theorem drain_of_protocolError (h : p.tryParse prior = (.protocolError, out, q)) :
    p.drain prior = ([], .protocolError, q) := by
  rw [drain]
  split
  next h' => rw [h] at h'; cases h'
  next h' => rw [h] at h'; cases h'; rfl

theorem drain_of_messageReady (h : p.tryParse prior = (.messageReady, out, q)) :
    p.drain prior = (out :: (q.drain prior).1, (q.drain prior).2) := by
  rw [drain]
  split
  next h' => rw [h] at h'; cases h'; rfl
  next hne h' => rw [h] at h'; cases h'; exact absurd rfl hne

end Drain

/-- What a drain takes off the front, and why it stops. -/
theorem drain_spec (prior : DecodedMessage) (p : Parser C) {s : List UInt8} {rs : List Request}
    (h : Decoded kFrameSize readRequest s rs p.contents) :
    ∃ rs', (p.drain prior).1.map DecodedMessage.request = rs'.map some ∧
      Decoded kFrameSize readRequest s (rs ++ rs') (p.drain prior).2.2.contents ∧
      (((p.drain prior).2.1 = .needMoreData ∧ (p.drain prior).2.2.contents.length < kFrameSize) ∨
        ((p.drain prior).2.1 = .protocolError ∧
          kFrameSize ≤ (p.drain prior).2.2.contents.length ∧
          readRequest ((p.drain prior).2.2.contents.take kFrameSize) = none)) := by
  induction hk : p.contents.length using Nat.strongRecOn generalizing p rs with
  | _ k ih =>
      subst hk
      rcases p.tryParse_cases prior with ⟨hlt, heq⟩ | ⟨hge, hr, heq⟩ | ⟨r, q, hge, hr, heq, hc⟩
      · rw [drain_of_needMoreData heq]
        exact ⟨[], rfl, by rwa [List.append_nil], Or.inl ⟨rfl, hlt⟩⟩
      · rw [drain_of_protocolError heq]
        exact ⟨[], rfl, by rwa [List.append_nil], Or.inr ⟨rfl, hge, hr⟩⟩
      · rw [drain_of_messageReady heq]
        have hlt : q.contents.length < p.contents.length := by
          rw [hc, List.length_drop]
          exact Nat.sub_lt (Nat.lt_of_lt_of_le (by decide) hge) (by decide)
        have hnext : Decoded kFrameSize readRequest s (rs ++ [r]) q.contents :=
          hc ▸ h.take hge hr
        obtain ⟨rs', hrs', hdec, hstop⟩ := ih _ hlt q hnext rfl
        refine ⟨r :: rs', ?_, ?_, hstop⟩
        · rw [List.map_cons, hrs', request_overlay prior hr, List.map_cons]
        · rwa [List.append_assoc] at hdec

section Receive

variable (prior : DecodedMessage) {all rs : List Request} {p : Parser C} {s : List UInt8}

theorem receive_spec {chunk later : List UInt8} (h : Decoded kFrameSize readRequest s rs p.contents)
    (hall : Decoded kFrameSize readRequest (s ++ chunk ++ later) all []) (hfit : p.Fits chunk) :
    let r := p.receive prior chunk
    (r.accepted = true ∧ r.status = .needMoreData ∧ r.after.contents.length < kFrameSize) ∧
      ∃ rs', r.messages.map DecodedMessage.request = rs'.map some ∧
        Decoded kFrameSize readRequest (s ++ chunk) (rs ++ rs') r.after.contents := by
  obtain ⟨hok, hc⟩ := append_of_fits hfit
  have hfed : Decoded kFrameSize readRequest (s ++ chunk) rs (p.append chunk).2.contents :=
    hc ▸ h.feed chunk
  obtain ⟨rs', hrs', hdec, hstop⟩ := drain_spec prior _ hfed
  rcases hstop with hneed | ⟨-, hge, hnone⟩
  · exact ⟨⟨hok, hneed⟩, rs', hrs', hdec⟩
  · obtain ⟨r, hr⟩ := hdec.progress (by decide) hall hge
    rw [hnone] at hr
    cases hr

theorem receiveAll_spec (chunks : List (List UInt8))
    (h : Decoded kFrameSize readRequest s rs p.contents)
    (hall : Decoded kFrameSize readRequest (s ++ chunks.flatten) all [])
    (hfit : ∀ r ∈ (p.receiveAll prior chunks).1, r.before.Fits r.chunk) :
    (∃ rs', ((p.receiveAll prior chunks).1.flatMap Receipt.messages).map
          DecodedMessage.request = rs'.map some ∧
        Decoded kFrameSize readRequest (s ++ chunks.flatten) (rs ++ rs')
          (p.receiveAll prior chunks).2.contents) ∧
      (∀ r ∈ (p.receiveAll prior chunks).1, r.accepted = true ∧ r.status = .needMoreData ∧
        r.after.contents.length < kFrameSize) ∧
      (p.contents.length < kFrameSize →
        (p.receiveAll prior chunks).2.contents.length < kFrameSize) := by
  induction chunks generalizing p s rs with
  | nil =>
      refine ⟨⟨[], rfl, ?_⟩, fun r hr => absurd hr List.not_mem_nil, id⟩
      rw [List.flatten_nil, List.append_nil, List.append_nil]
      exact h
  | cons chunk chunks ih =>
      rw [List.flatten_cons, ← List.append_assoc] at hall ⊢
      obtain ⟨hneed, rs₁, hrs₁, hdec₁⟩ :=
        receive_spec prior h hall (hfit _ List.mem_cons_self)
      obtain ⟨⟨rs₂, hrs₂, hdec₂⟩, hrest, hshort⟩ :=
        ih hdec₁ hall fun r hr => hfit r (List.mem_cons_of_mem _ hr)
      refine ⟨⟨rs₁ ++ rs₂, ?_, ?_⟩, ?_, fun _ => hshort hneed.2.2⟩
      · rw [List.map_append, ← hrs₁, ← hrs₂, ← List.map_append]
        rfl
      · rw [← List.append_assoc]
        exact hdec₂
      · intro r hr
        rcases List.mem_cons.mp hr with rfl | hr
        · exact hneed
        · exact hrest r hr

/-- Chunks that leave room for a partial frame always fit. -/
theorem receiveAll_fits (chunks : List (List UInt8))
    (h : Decoded kFrameSize readRequest s rs p.contents)
    (hall : Decoded kFrameSize readRequest (s ++ chunks.flatten) all [])
    (hshort : p.contents.length < kFrameSize)
    (hroom : ∀ chunk ∈ chunks, chunk.length + kFrameSize ≤ C.value + 1) :
    ∀ r ∈ (p.receiveAll prior chunks).1, r.before.Fits r.chunk := by
  induction chunks generalizing p s rs with
  | nil => exact fun r hr => absurd hr List.not_mem_nil
  | cons chunk chunks ih =>
      rw [List.flatten_cons, ← List.append_assoc] at hall
      have hfit : p.Fits chunk := by
        have hle := hroom chunk List.mem_cons_self
        show chunk.length ≤ C.value - p.contents.length
        omega
      obtain ⟨hneed, rs₁, -, hdec₁⟩ := receive_spec prior h hall hfit
      intro r hr
      rcases List.mem_cons.mp hr with rfl | hr
      · exact hfit
      · exact ih hdec₁ hall hneed.2.2 (fun c hc => hroom c (List.mem_cons_of_mem _ hc)) r hr

end Receive

end Parser

/-- The frames of a client: each order message encoded into a buffer of its own. -/
def encodeAll (sent : List (OrderMessage × List UInt8)) : List (List UInt8) :=
  sent.map fun s => (s.1.encode s.2).2

section Sent

variable {sent : List (OrderMessage × List UInt8)} {chunks : List (List UInt8)}

theorem decoded_encodeAll (hbuffer : ∀ s ∈ sent, s.2.length = kFrameSize)
    (hheader : ∀ s ∈ sent, s.1.header.magic = kMagic ∧ s.1.header.version = kVersion)
    (hcut : chunks.flatten = (encodeAll sent).flatten) :
    Decoded kFrameSize readRequest ([] ++ chunks.flatten) (sent.map fun s => s.1.request) [] := by
  refine ⟨encodeAll sent, by rw [List.nil_append, List.append_nil, hcut], ?_, ?_⟩
  · intro b hb
    obtain ⟨s, hs, rfl⟩ := List.mem_map.mp hb
    exact length_encode s.1 (hbuffer s hs)
  · rw [encodeAll, List.map_map, List.map_map]
    refine List.map_congr_left fun s hs => ?_
    exact readRequest_encode s.1 (hbuffer s hs) (hheader s hs).1 (hheader s hs).2

theorem decoded_fresh :
    Decoded kFrameSize readRequest ([] : List UInt8) ([] : List Request)
      (Parser.fresh : Parser C).contents := by
  rw [Parser.contents_fresh]
  exact Decoded.start

/-- However they are cut, chunks of at most `Capacity - 63` bytes fit. -/
theorem encoded_stream_fits (hbuffer : ∀ s ∈ sent, s.2.length = kFrameSize)
    (hheader : ∀ s ∈ sent, s.1.header.magic = kMagic ∧ s.1.header.version = kVersion)
    (hcut : chunks.flatten = (encodeAll sent).flatten) (prior : DecodedMessage)
    (hroom : ∀ chunk ∈ chunks, chunk.length + kFrameSize ≤ C.value + 1) :
    ∀ r ∈ ((Parser.fresh : Parser C).receiveAll prior chunks).1, r.before.Fits r.chunk := by
  refine Parser.receiveAll_fits prior chunks decoded_fresh
    (decoded_encodeAll hbuffer hheader hcut) ?_ hroom
  rw [Parser.contents_fresh]
  decide

end Sent

/-- **Client encoders, chunking and parser agree on whole streams.**  Order
messages under the protocol's magic and version, encoded into 64-byte buffers of
any content, cut anywhere into chunks that fit when they are appended, come out
as they went in; every drain ends for want of data with less than a frame
buffered, and the last one leaves nothing. -/
theorem encoded_stream_comes_out (sent : List (OrderMessage × List UInt8))
    (hbuffer : ∀ s ∈ sent, s.2.length = kFrameSize)
    (hheader : ∀ s ∈ sent, s.1.header.magic = kMagic ∧ s.1.header.version = kVersion)
    (chunks : List (List UInt8)) (hcut : chunks.flatten = (encodeAll sent).flatten)
    (prior : DecodedMessage)
    (hfit : ∀ r ∈ ((Parser.fresh : Parser C).receiveAll prior chunks).1, r.before.Fits r.chunk) :
    (((Parser.fresh : Parser C).receiveAll prior chunks).1.flatMap
          Parser.Receipt.messages).map DecodedMessage.request = sent.map (fun s => some s.1.request) ∧
      (∀ r ∈ ((Parser.fresh : Parser C).receiveAll prior chunks).1, r.accepted = true ∧
        r.status = .needMoreData ∧ r.after.contents.length < kFrameSize) ∧
      ((Parser.fresh : Parser C).receiveAll prior chunks).2.contents = [] := by
  have hall := decoded_encodeAll hbuffer hheader hcut
  obtain ⟨⟨rs, hrs, hdec⟩, hrest, hshort⟩ :=
    Parser.receiveAll_spec prior chunks decoded_fresh hall hfit
  have hlast := hshort (by rw [Parser.contents_fresh]; decide)
  obtain ⟨hout, hnil⟩ := hdec.complete (by decide) hall hlast
  refine ⟨?_, hrest, hnil⟩
  rw [List.nil_append] at hout
  rw [hrs, hout, List.map_map]
  rfl

/-- An order, a change of it, and its cancel. -/
def threeOrders : List (OrderMessage × List UInt8) :=
  [(.newOrder { sequenceNumber := 1, sessionId := 9 }
      { clientOrderId := 7, side := .sell, price := 100, quantity := 5 }, zeroBuffer),
    (.modifyOrder { sequenceNumber := 2, sessionId := 9 }
      { clientOrderId := 7, newPrice := 101, newQuantity := 4 }, onesBuffer),
    (.cancelOrder { sequenceNumber := 3, sessionId := 9 } { clientOrderId := 7 }, onesBuffer)]

/-- Cut across both of the frames' boundaries. -/
def acrossFrames : List (List UInt8) :=
  let stream := (encodeAll threeOrders).flatten
  [stream.take 30, (stream.drop 30).take 65, (stream.drop 95).take 65, stream.drop 160]

theorem encoded_stream_comes_out_acrossFrames :
    let received := (Parser.fresh : Parser twoFrames).receiveAll {} acrossFrames
    (received.1.flatMap Parser.Receipt.messages).map DecodedMessage.request
        = threeOrders.map (fun s => some s.1.request) ∧
      received.2.contents = [] := by
  have hbuffer : ∀ s ∈ threeOrders, s.2.length = kFrameSize := by decide
  have hheader : ∀ s ∈ threeOrders,
      s.1.header.magic = kMagic ∧ s.1.header.version = kVersion := by decide
  have hcut : acrossFrames.flatten = (encodeAll threeOrders).flatten := by decide +kernel
  have hroom : ∀ chunk ∈ acrossFrames, chunk.length + kFrameSize ≤ twoFrames.value + 1 := by
    decide +kernel
  obtain ⟨hout, -, hnil⟩ := encoded_stream_comes_out threeOrders hbuffer hheader acrossFrames hcut
    {} (encoded_stream_fits hbuffer hheader hcut {} hroom)
  exact ⟨hout, hnil⟩

end TradingGateway.OrderEntry
