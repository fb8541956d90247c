/-
# `Bench.Served` — every bench client is served

Up to 1024 clients of `epoll_bench_client.cpp` in the whole run, which make their round trips
at any pace and hang up behind the last: what a client gets back is the Accepted of each of its
orders, in their order, and nothing else; no command, no response and no session end is lost
on the way, and no response is dropped.

The invariant `Sane` adds what comes back to `Orderly`: the answers that the server has
sent to a client are with the client or still in `down` (`Fed`).  A client has at most one
order that is not answered, so the server has at most one thing under way for it and one
more for its end: far from the 4095 of `Gateway.Window`.  And 1024 connections have a slot
each, so none of them is without its own.
-/
import TradingGateway.Bench.Orderly

namespace TradingGateway.Bench

open Lib OrderEntry Gateway Spsc

/-! ## Answers -/

/-- The frames that answer `n` orders, those behind the first `m`. -/
def acceptedFrames (m n : Nat) : List UInt8 := (List.range' m n).flatMap acceptedFrame

theorem acceptedFrames_add (m a b : Nat) :
    acceptedFrames m (a + b) = acceptedFrames m a ++ acceptedFrames (m + a) b := by
  rw [acceptedFrames, acceptedFrames, acceptedFrames, ← List.flatMap_append,
    List.range'_append_1]

theorem acceptedFrames_succ (m n : Nat) :
    acceptedFrames m (n + 1) = acceptedFrame m ++ acceptedFrames (m + 1) n := by
  rw [acceptedFrames, acceptedFrames, List.range'_succ, List.flatMap_cons]

/-- The responses that were sent to client `k`. -/
def answered (k : Nat) (es : List Event) : Nat := (sent es).countP (isFor k)

theorem answered_append (k : Nat) (es fs : List Event) :
    answered k (es ++ fs) = answered k es + answered k fs := by
  rw [answered, sent, List.filterMap_append, List.countP_append]
  rfl

/-- A client and its answers: of those sent to it, it has read `m`, and `w` more are on their
way. -/
structure Fed (rounds k : Nat) (es : List Event) (c : Client) (n m w : Nat) : Prop where
  sends : Sends rounds k es c n m
  replies : c.replies = (List.range m).map acceptedFrame
  coming : c.down = acceptedFrames m w
  answered : answered k es = m + w

namespace Fed

variable {rounds k n m w : Nat} {es fs : List Event} {c c' : Client}

theorem fresh (rounds k : Nat) : Fed rounds k [] {} 0 0 0 where
  sends := .fresh rounds k
  replies := rfl
  coming := rfl
  answered := rfl

/-- The next 64 bytes that a client reads are the answer it waits for. -/
theorem moves (h : Fed rounds k es c n m w) (hmoves : Moves rounds c c') :
    ∃ n' m' w', Fed rounds k es c' n' m' w' := by
  obtain ⟨n', m', hsends⟩ := h.sends.moves hmoves
  -- where nothing is read
  have unread : c'.replies = c.replies → c'.down = c.down → ∃ n' m' w', Fed rounds k es c' n' m' w' := by
    intro hreplies hdown
    have hm : m' = m := by rw [← hsends.replies, hreplies, h.sends.replies]
    exact ⟨n', m, w, hm ▸ hsends, hreplies.trans h.replies, hdown.trans h.coming, h.answered⟩
  cases hmoves with
  | connect pc | send pc | close pc => exact unread rfl rfl
  | recv pc whole =>
      cases w with
      | zero =>
          rw [h.coming, acceptedFrames, List.range'_zero] at whole
          exact absurd whole (by decide)
      | succ w =>
          have hcoming := h.coming
          rw [acceptedFrames_succ] at hcoming
          have htake : c.down.take kFrameSize = acceptedFrame m := by
            rw [hcoming, List.take_left' (length_acceptedFrame m)]
          have hm : m' = m + 1 := by
            rw [← hsends.replies, List.length_append, h.sends.replies, List.length_singleton]
          subst hm
          refine ⟨n', m + 1, w, hsends, ?_, ?_, ?_⟩
          · rw [htake, h.replies, List.range_succ, List.map_append, List.map_singleton]
          · rw [hcoming, List.drop_left' (length_acceptedFrame m)]
          · rw [h.answered, Nat.add_assoc, Nat.add_comm 1]

theorem carry (h : Fed rounds k es c n m w) (hup : received k fs <+: c.up) {a : Nat}
    {bs : List UInt8} (hdown : bs = acceptedFrames (m + w) a) (hanswered : Bench.answered k fs = a) :
    Fed rounds k (es ++ fs)
      { c with up := c.up.drop (received k fs).length, down := c.down ++ bs } n m (w + a) where
  sends := h.sends.carry hup _
  replies := h.replies
  coming := by rw [acceptedFrames_add, ← hdown, h.coming]
  answered := by rw [answered_append, h.answered, hanswered, Nat.add_assoc]

end Fed

/-! ## What is in flight -/

/-- Nothing found its queue full, and no response was dropped. -/
structure Intact (es : List Event) : Prop where
  kept : ∀ e ∈ es, e.lost = false
  delivered : ∀ rsp, Event.dropped rsp ∉ es

theorem Intact.gone_eq_sent {es : List Event} (h : Intact es) : gone es = sent es := by
  refine List.filterMap_congr fun e he => ?_
  cases e with
  | dropped rsp => exact absurd he (h.delivered rsp)
  | _ => rfl

section InFlight

variable {D : Descriptors} {us : List (Taken Server Label)} {s : Server} {rounds k n m w : Nat}
  {c : Client}

theorem Fed.inFlight (h : Fed rounds k (events us) c n m w) (hrun : ServerRun D us s)
    (hi : Intact (events us)) :
    ∃ q rest, m + w + q ≤ n ∧ ReadOrders k (m + w + q) (events us) s rest ∧
      (inFlight s).filter (isFor k) = (List.range' (m + w) q).map (answerTo k) := by
  have ht := hrun.tracks k
  obtain ⟨r, rest, hle, hread⟩ := Tracks.orders ht h.sends.sent
  have hasked := hread.asked (Tracks.not_finished ht h.sends.sent)
  rw [← hrun.gone_append_inFlight hi.kept, hi.gone_eq_sent, List.filter_append,
    List.range_eq_range'] at hasked
  obtain ⟨as, bs, hsplit, hsent, hflight⟩ := List.map_eq_append_iff.mp hasked.symm
  obtain ⟨i, hi, rfl, rfl⟩ := List.range'_eq_append_iff.mp hsplit
  have hanswered := h.answered
  rw [Bench.answered, List.countP_eq_length_filter, ← hsent, List.length_map,
    List.length_range'] at hanswered
  subst hanswered
  rw [Nat.zero_add, Nat.mul_one] at hflight
  obtain ⟨q, rfl⟩ := Nat.exists_eq_add_of_le hi
  rw [Nat.add_sub_cancel_left] at hflight
  exact ⟨q, rest, hle, hread, hflight.symm⟩

/-- There is one such response at most, and its client waits for it. -/
theorem Fed.of_inFlight (h : Fed rounds k (events us) c n m w) (hrun : ServerRun D us s)
    (hi : Intact (events us)) {rsp : Traced EngineResponse} (hrsp : rsp ∈ Gateway.inFlight s)
    (hk : rsp.source = k) : n = m + 1 ∧ w = 0 ∧ rsp = answerTo k m := by
  obtain ⟨q, rest, hle, -, hflight⟩ := h.inFlight hrun hi
  have hmem : rsp ∈ (Gateway.inFlight s).filter (isFor k) :=
    List.mem_filter.mpr ⟨hrsp, decide_eq_true hk⟩
  rw [hflight] at hmem
  obtain ⟨i, hi, rfl⟩ := List.mem_map.mp hmem
  have hbounds := h.sends.stage.bounds
  rw [List.mem_range'_1] at hi
  obtain rfl : i = m := by omega
  exact ⟨by omega, by omega, rfl⟩

theorem length_inFlight_le_accepts (hrun : ServerRun D us s) (hi : Intact (events us))
    (hfed : ∀ k, ∃ rounds c n m w, Fed rounds k (events us) c n m w) :
    (Gateway.inFlight s).length ≤ s.accepts := by
  have hnodup : ((Gateway.inFlight s).map Traced.source).Nodup := by
    refine List.nodup_iff_count_le_one.mpr fun k => ?_
    obtain ⟨rounds, c, n, m, w, h⟩ := hfed k
    obtain ⟨q, rest, hle, -, hflight⟩ := h.inFlight hrun hi
    have hlen := congrArg List.length hflight
    rw [List.length_map, List.length_range'] at hlen
    have hbounds := h.sends.stage.bounds
    have hcount : ((Gateway.inFlight s).map Traced.source).count k
        = ((Gateway.inFlight s).filter (isFor k)).length := by
      rw [List.count, List.countP_map, List.countP_eq_length_filter]
      rfl
    omega
  have hsubset : (Gateway.inFlight s).map Traced.source ⊆ List.range s.accepts := by
    intro k hk
    obtain ⟨rsp, hrsp, rfl⟩ := List.mem_map.mp hk
    exact List.mem_range.mpr (hrun.session_of_ordered (hrun.ordered_of_inFlight hrsp)).1
  have hle := (List.subperm_of_subset hnodup hsubset).length_le
  rwa [List.length_map, List.length_range] at hle

end InFlight

/-! ## A step of the server -/

theorem Shows.unsent {c : Connection} {fd : Int} {q q' : CommandQueue} {o : Output}
    {next : Option UInt64} {e : Event} (h : Shows c fd q q' o next e) (hengine : refuses e = false) :
    sent [e] = [] ∧ ∀ connections k, bytesTo connections k e = [] := by
  cases h with
  | control => cases hengine
  | command => exact ⟨rfl, fun _ _ => rfl⟩

section Steps

variable {D : Descriptors} {s s' : Server} {input : Input} {es : List Event}

theorem offered_le (hs : Sound s) (h : Gateway.Step D s ⟨input, es⟩ s') : offered es ≤ 2 := by
  refine List.countP_le_length.trans ?_
  have hacts := h.acts hs
  dsimp only at hacts
  cases hacts with
  | cutOff | overflowed => exact le_refl 2
  | dropped | sent | accept | hungUp | received | refused | answered | shutdown | stopped
  | skipped | answering | respond => exact Nat.le_succ 1
  | _ => exact Nat.zero_le 2

/-- What is sent is the response that is delivered, where the engine alone answers. -/
theorem sent_cases (hs : Sound s) (h : Gateway.Step D s ⟨input, es⟩ s')
    (hengine : ∀ e ∈ es, refuses e = false) :
    sent es = [] ∧ (∀ k, es.flatMap (bytesTo s.connections k) = []) ∨
      ∃ fd frame rsp, Event.engineFrame fd frame rsp ∈ es ∧ s.gateway = .deliver rsp ∧
        sent es = [rsp] ∧
        ∀ k, es.flatMap (bytesTo s.connections k)
          = bytesTo s.connections k (.engineFrame fd frame rsp) := by
  have hacts := h.acts hs
  dsimp only at hacts
  cases hacts with
  | sent pc =>
      exact Or.inr ⟨_, _, _, List.mem_cons_self, pc, rfl, fun k => List.append_nil _⟩
  | cutOff pc target found =>
      exact Or.inr ⟨_, _, _, List.mem_cons_self, pc, rfl, fun k => List.append_nil _⟩
  | answered loop found long read answered =>
      obtain ⟨hsent, hbytes⟩ := Shows.unsent answered.event (hengine _ List.mem_cons_self)
      exact Or.inl ⟨hsent, fun k => (List.append_nil _).trans (hbytes _ k)⟩
  | _ => exact Or.inl ⟨rfl, fun k => rfl⟩

end Steps

/-! ## The server and its clients -/

/-- The server behind the run `us`, with at most 1024 clients. -/
structure Sane (D : Descriptors) (opts : Nat → Options) (us : List (Taken Server Gateway.Label))
    (s : System) : Prop extends Orderly D opts us s where
  fed : ∀ k, ∃ n m w, Fed (opts k).rounds k (events us) (s.clients k) n m w
  intact : Intact (events us)
  connected : s.connected ≤ kMaxSlots
  routable : Routable s.server.toRoutes

theorem assignments_lt {n i : Nat} (h : n ≤ kMaxSlots) (hi : i < kMaxSlots) :
    assignments n i < 2 ^ 32 := by
  simp only [assignments, kMaxSlots] at *
  omega

namespace Sane

variable {D : Descriptors} {opts : Nat → Options} {us : List (Taken Server Gateway.Label)}
  {s : System} {s' : Server} {input : Input} {es : List Event}

/-- A response in flight is the answer to the order that its client waits for. -/
theorem of_inFlight (h : Sane D opts us s) {rsp : Traced EngineResponse}
    (hrsp : rsp ∈ inFlight s.server) :
    ∃ m, Fed (opts rsp.source).rounds rsp.source (events us) (s.clients rsp.source) (m + 1) m 0 ∧
      rsp = answerTo rsp.source m := by
  obtain ⟨n, m, w, hfed⟩ := h.fed rsp.source
  obtain ⟨rfl, rfl, heq⟩ := hfed.of_inFlight h.run h.intact hrsp rfl
  exact ⟨m, hfed, heq⟩

theorem open_of_inFlight (h : Sane D opts us s) {rsp : Traced EngineResponse}
    (hrsp : rsp ∈ inFlight s.server) : Deliverable s.server.toRoutes rsp.value.session := by
  obtain ⟨hlt, hsession, -⟩ := h.run.session_of_ordered (h.run.ordered_of_inFlight hrsp)
  obtain ⟨m, hfed, -⟩ := h.of_inFlight hrsp
  obtain ⟨fd, c, found, hserial⟩ := h.held _ hlt (hfed.sends.stage.bounds.2.2 rfl)
  have hbound : ∀ i < kMaxSlots, assignments s.server.accepts i < 2 ^ 32 :=
    fun i hi => assignments_lt (h.accepts.trans h.connected) hi
  exact (deliverable_iff h.sound hbound hlt hsession).mpr
    ⟨fd, c, found, hserial, h.routable.named found⟩

section Server

theorem kept_next (h : Sane D opts us s) (hstep : Gateway.Step D s.server ⟨input, es⟩ s') :
    ∀ e ∈ es, e.lost = false := by
  refine hstep.kept h.sound (le_refl 4095) ?_
  have hunder := h.run.underWay_le_inFlight
  rw [h.run.stops_of_inside h.inside, List.length_nil] at hunder
  have hflight := length_inFlight_le_accepts h.run h.intact fun k => ⟨_, _, h.fed k⟩
  have hoffered := offered_le h.sound hstep
  have haccepts : s.server.accepts ≤ 1024 := h.accepts.trans h.connected
  dsimp only
  omega

theorem delivered_next (h : Sane D opts us s) (hstep : Gateway.Step D s.server ⟨input, es⟩ s')
    (rsp : Traced EngineResponse) : Event.dropped rsp ∉ es := by
  intro he
  have hflight : rsp ∈ inFlight s.server ∧ ¬ Deliverable s.server.toRoutes rsp.value.session := by
    have hacts := hstep.acts h.sound
    dsimp only at hacts
    cases hacts with
    | dropped pc head stale =>
        obtain rfl := Event.dropped.inj (List.mem_singleton.mp he)
        refine ⟨?_, stale⟩
        rw [inFlight, items_of_head head]
        exact List.mem_append_right _ List.mem_cons_self
    | answered loop found long read answered =>
        have houtput := answered.event.output
        rw [← List.mem_singleton.mp he] at houtput
        cases houtput
    | _ => simp at he
  exact hflight.2 (h.open_of_inFlight hflight.1)

theorem routable_next (h : Sane D opts us s) (hallows : s.Allows input)
    (hstep : Gateway.Step D s.server ⟨input, es⟩ s') : Routable s'.toRoutes := by
  have hmove := hstep.move h.sound
  dsimp only at hmove
  refine (hmove.routable_iff h.sound h.routable).mpr ?_
  rintro ⟨j, i, token, he⟩ ⟨fd, c, found, hslot⟩
  have haccepts := h.accepts_next hallows hstep
  rcases hmove.accepts h.sound.routed with ⟨-, -, heq⟩ | ⟨hnone, -⟩
  · obtain ⟨-, -, htoken, hlt⟩ := h.sound.routed.entry found
    have hslots := congrArg UInt32.toNat hslot
    rw [htoken, toNat_slot_tokenOf, h.sound.routed.toNat_allocated] at hslots
    have hconnected := h.connected
    simp only [kMaxSlots] at hslots hconnected
    omega
  · exact hnone j i token he

/-- **The streams**: what the server sends a client answers its next order. -/
theorem fed_next (h : Sane D opts us s) (hallows : s.Allows input)
    (hstep : Gateway.Step D s.server ⟨input, es⟩ s') (k : Nat) :
    ∃ n m w, Fed (opts k).rounds k (events us ++ es) (s.carry es k) n m w := by
  obtain ⟨n, m, w, hfed⟩ := h.fed k
  have hup := h.received_prefix hallows hstep k
  have nothing : answered k es = 0 → es.flatMap (bytesTo s.server.connections k) = [] →
      ∃ n m w, Fed (opts k).rounds k (events us ++ es) (s.carry es k) n m w :=
    fun hanswered hbytes => ⟨n, m, w + 0, hfed.carry hup hbytes hanswered⟩
  rcases sent_cases h.sound hstep (h.engine_next hallows hstep) with
    ⟨hsent, hbytes⟩ | ⟨fd, frame, rsp, he, pc, hsent, hbytes⟩
  · refine nothing ?_ (hbytes k)
    rw [answered, hsent]
    rfl
  · have hflight : rsp ∈ inFlight s.server := by
      rw [inFlight, pc]
      exact List.mem_cons_self
    obtain ⟨hrun, -⟩ := h.run_next hstep
    have haccepts := (h.accepts_next hallows hstep).trans h.connected
    obtain ⟨rfl, -, c, found, hserial⟩ := ServerRun.of_engineFrame hrun
      (fun i hi => hrun.counts.1 i hi ▸ assignments_lt haccepts hi) he
    have hto : es.flatMap (bytesTo s.server.connections k)
        = if rsp.source = k then encodeResponse rsp.value blankFrame else [] := by
      rw [hbytes k, ← hserial, bytesTo, found]
    have hcount : answered k es = if rsp.source = k then 1 else 0 := by
      rw [answered, hsent, List.countP_singleton, isFor]
      exact if_congr decide_eq_true_iff rfl rfl
    by_cases hk : rsp.source = k
    · rw [if_pos hk] at hto hcount
      obtain ⟨rfl, rfl, rfl⟩ := hfed.of_inFlight h.run h.intact hflight hk
      refine ⟨_, _, _, hfed.carry hup ?_ hcount⟩
      rw [hto, encodeResponse_answerTo]
      exact (List.append_nil _).symm
    · rw [if_neg hk] at hto hcount
      exact nothing hcount hto

/-- **A step of the server.** -/
theorem serve (h : Sane D opts us s) (hallows : s.Allows input)
    (hstep : Gateway.Step D s.server ⟨input, es⟩ s') :
    Sane D opts (us ++ [⟨s.server, ⟨input, es⟩, s'⟩])
      { s with server := s', clients := s.carry es } := by
  have hevents := (h.run_next hstep).2
  refine ⟨h.toOrderly.serve hallows hstep, ?_, ⟨?_, ?_⟩, h.connected,
    h.routable_next hallows hstep⟩
  all_goals rw [hevents]
  · exact h.fed_next hallows hstep
  · exact List.forall_mem_append.mpr ⟨h.intact.kept, h.kept_next hstep⟩
  · intro rsp he
    rcases List.mem_append.mp he with he | he
    · exact h.intact.delivered rsp he
    · exact h.delivered_next hstep rsp he

end Server

/-- **A step of a client.** -/
theorem act (h : Sane D opts us s) {bound k connected : Nat} {c : Client}
    (hbound : bound ≤ kMaxSlots) (hmoves : Moves (opts k).rounds (s.clients k) c)
    (hconnected : Connects s bound k connected) :
    Sane D opts us
      { s with connected := connected, clients := Function.update s.clients k c } where
  toOrderly := h.toOrderly.act hmoves hconnected
  fed := fun j => by
    dsimp only
    by_cases heq : j = k
    · subst heq
      obtain ⟨n, m, w, hfed⟩ := h.fed j
      rw [Function.update_self]
      exact hfed.moves hmoves
    · rw [Function.update_of_ne heq]
      exact h.fed j
  intact := h.intact
  connected := by
    rcases hconnected with rfl | ⟨rfl, -, hlt⟩
    · exact h.connected
    · exact Nat.le_trans hlt hbound
  routable := h.routable

/-- **One step** of the system. -/
theorem next (h : Sane D opts us s) {bound : Nat} (hbound : bound ≤ kMaxSlots) {l : SystemLabel}
    {s' : System} (hstep : SystemStep D opts bound s l s') :
    ∃ us', Sane D opts us' s' ∧ events us' = events us ++ l.events := by
  rcases hstep.cases with
    ⟨input, s₁, hallows, hserver, rfl⟩ | ⟨hnil, k, c, connected, hmoves, hconnected, rfl⟩
  · exact ⟨_, h.serve hallows hserver, (h.run_next hserver).2⟩
  · exact ⟨us, h.act hbound hmoves hconnected, by rw [hnil, List.append_nil]⟩

end Sane

theorem sane_fresh (D : Descriptors) (opts : Nat → Options) : Sane D opts [] (System.fresh D) where
  toOrderly := orderly_fresh D opts
  fed := fun k => ⟨0, 0, 0, .fresh _ k⟩
  intact := ⟨List.forall_mem_nil _, fun _ => List.not_mem_nil⟩
  connected := Nat.zero_le _
  routable := .fresh D

/-- **Every run** of at most 1024 clients. -/
theorem SystemRun.sane {D : Descriptors} {opts : Nat → Options} {bound : Nat}
    {ts : List (Taken System SystemLabel)} {s : System} (h : SystemRun D opts bound ts s)
    (hbound : bound ≤ kMaxSlots) : ∃ us, Sane D opts us s ∧ events us = seen ts := by
  refine Run.invariant (I := fun ts s => ∃ us, Sane D opts us s ∧ events us = seen ts) ?_ ?_ h
  · rintro s rfl
    exact ⟨[], sane_fresh D opts, rfl⟩
  · rintro ts s l s' - ⟨us, hsane, hevents⟩ hstep
    obtain ⟨us', hsane', hevents'⟩ := hsane.next hbound hstep
    exact ⟨us', hsane', by rw [hevents', hevents, seen_append, seen_singleton]⟩

end TradingGateway.Bench
