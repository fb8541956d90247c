/-
# `Gateway.Window` — how much may be under way before something is lost

The gateway and the engine push without looking at what `push` answers, so whatever finds
its queue full is lost (`Gateway.Exhaustion`, `Gateway.Handover`).  Here is when nothing
is.  A command is under way from the moment it is offered to the command queue until its
response is sent or dropped, or the engine takes it and has nothing to say.

| counted | events |
| :-- | :-- |
| offered | orders, session ends and the shutdown, with or without room for them |
| settled | responses sent or dropped, commands popped that call for none |

While nothing is lost, what is offered is settled or in one of the four places of
`Gateway.Flow` (`offered_eq`), and none of the two queues holds more than all of them
together.  So a window of 4095, the capacity of one queue, is enough for both and for any
number of clients, and one more is not (`lossless_window_iff`).
-/
import TradingGateway.Gateway.Closing
import TradingGateway.Gateway.Shutdown

namespace TradingGateway.Gateway

open Lib OrderEntry Spsc

/-! ## What is under way -/

/-- A command is offered to the command queue. -/
def Event.offers : Event → Bool
  | .command _ _ _ _ | .closed _ _ _ | .shutdownCommand _ => true
  | _ => false

/-- A command is settled. -/
def Event.settles : Event → Bool
  | .engineFrame _ _ _ | .dropped _ => true
  | .popped cmd => cmd.response.isNone
  | _ => false

/-- Something found its queue full. -/
def Event.lost : Event → Bool
  | .command _ _ _ enqueued | .closed _ _ enqueued | .shutdownCommand enqueued
  | .responded _ enqueued => !enqueued
  | _ => false

/-- The commands offered. -/
def offered (es : List Event) : Nat := es.countP Event.offers

/-- The commands settled. -/
def settled (es : List Event) : Nat := es.countP Event.settles

/-- What is in the four places. -/
def underWay (s : Server) : Nat :=
  s.gateway.delivering.length + s.rspQueue.items.length + s.matching.responding.length
    + s.cmdQueue.items.length

/-- The responses to every order, whether it was enqueued or not. -/
def asked (es : List Event) : List (Traced EngineResponse) :=
  es.filterMap fun
    | .command k _ cmd _ => Traced.response ⟨cmd, k⟩
    | _ => none

/-- At most `w` commands are under way, at any time. -/
def Windowed (w : Nat) (ts : List (Taken Server Label)) : Prop :=
  ∀ us, us <+: ts → offered (events us) ≤ settled (events us) + w

/-- Nothing finds its queue full, and every order is answered, or its response is on its
way, in the order of the orders. -/
structure Lossless (ts : List (Taken Server Label)) (s : Server) : Prop where
  kept : ∀ e ∈ events ts, e.lost = false
  answered : gone (events ts) ++ inFlight s = asked (events ts)

theorem offered_append (es fs : List Event) : offered (es ++ fs) = offered es + offered fs :=
  List.countP_append

theorem settled_append (es fs : List Event) : settled (es ++ fs) = settled es + settled fs :=
  List.countP_append

theorem Windowed.of_append {w : Nat} {us vs : List (Taken Server Label)} (h : Windowed w (us ++ vs)) :
    Windowed w us :=
  fun _ hpre => h _ (hpre.trans (List.prefix_append us vs))

/-! ## Where nothing is lost -/

section Counts

variable {es : List Event}

theorem length_enqueued (h : ∀ e ∈ es, e.lost = false) : (enqueued es).length = offered es := by
  rw [enqueued, List.length_filterMap_eq_countP, offered]
  refine List.countP_congr fun e he => ?_
  have hkept := h e he
  cases e with
  | command k msg cmd enqueued | closed k token enqueued | shutdownCommand enqueued =>
      cases enqueued with
      | true => exact iff_of_true rfl rfl
      | false => cases hkept
  | _ => simp [Event.enqueued, Event.offers]

theorem placed_eq_responded (h : ∀ e ∈ es, e.lost = false) : placed es = responded es := by
  refine List.filterMap_congr fun e he => ?_
  cases e with
  | responded rsp enqueued =>
      cases enqueued with
      | true => rfl
      | false => cases h _ he
  | _ => rfl

theorem ordered_eq_asked (h : ∀ e ∈ es, e.lost = false) : ordered es = asked es := by
  refine List.filterMap_congr fun e he => ?_
  cases e with
  | command k msg cmd enqueued =>
      cases enqueued with
      | true => rfl
      | false => cases h _ he
  | _ => rfl

theorem settled_eq (es : List Event) :
    settled es = (gone es).length + (popped es).countP fun cmd => cmd.response.isNone := by
  rw [gone, popped, List.length_filterMap_eq_countP, List.countP_filterMap, settled]
  induction es with
  | nil => rfl
  | cons e es ih =>
      rw [List.countP_cons, List.countP_cons, List.countP_cons, ih]
      cases e with
      | popped cmd =>
          cases hrsp : cmd.response <;> simp [Event.settles, hrsp, Nat.add_assoc]
      | engineFrame fd frame rsp => simp [Event.settles, Nat.add_right_comm]
      | dropped rsp => simp [Event.settles, Nat.add_right_comm]
      | _ => rfl

theorem length_popped (es : List Event) :
    (popped es).length = ((popped es).filterMap Traced.response).length
      + (popped es).countP fun cmd => cmd.response.isNone := by
  rw [List.length_filterMap_eq_countP,
    List.length_eq_countP_add_countP fun cmd : Traced EngineCommand => cmd.response.isSome]
  congr 1
  refine List.countP_congr fun cmd _ => ?_
  cases cmd.response <;> simp

end Counts

section Runs

variable {D : Descriptors} {ts : List (Taken Server Label)} {s : Server}

/-- **While nothing is lost, what is offered is settled or under way.** -/
theorem ServerRun.offered_eq (h : ServerRun D ts s) (hkept : ∀ e ∈ events ts, e.lost = false) :
    offered (events ts) = settled (events ts) + underWay s := by
  have hcommands := congrArg List.length h.commands
  have hanswers := congrArg List.length h.answers
  have hresponses := congrArg List.length h.responses
  have hpopped := length_popped (events ts)
  rw [placed_eq_responded hkept] at hresponses
  simp only [List.length_append, length_enqueued hkept] at hcommands hanswers hresponses
  rw [settled_eq, underWay]
  omega

theorem ServerRun.gone_append_inFlight (h : ServerRun D ts s)
    (hkept : ∀ e ∈ events ts, e.lost = false) :
    gone (events ts) ++ inFlight s = asked (events ts) := by
  rw [← ordered_eq_asked hkept, ← response_enqueued, h.commands, List.filterMap_append, h.answers,
    ← placed_eq_responded hkept, h.responses, inFlight]
  simp only [List.append_assoc]

theorem hasRoom_of_underWay (h : s.cmdQueue.items.length < 4095) : s.cmdQueue.HasRoom :=
  Nat.succ_lt_succ h

theorem Shows.kept {c : Connection} {fd : Int} {q q' : CommandQueue} {o : Output}
    {next : Option UInt64} {e : Event} (h : Shows c fd q q' o next e)
    (room : e.offers = true → e.settles = false → q.HasRoom) : e.lost = false := by
  cases h with
  | control read last kept => rfl
  | command order pushed =>
      rw [Queue.push_fst, decide_eq_true (room rfl rfl)]
      rfl

/-- **One step** within the window loses nothing. -/
theorem Step.kept {s' : Server} {l : Label} {w : Nat} (hs : Sound s) (h : Step D s l s')
    (hw : w ≤ 4095) (hlt : underWay s + offered l.events ≤ settled l.events + w) :
    ∀ e ∈ l.events, e.lost = false := by
  have hacts := h.acts hs
  obtain ⟨input, es⟩ := l
  dsimp only at hacts hlt ⊢
  have room : ∀ cmd : Traced EngineCommand, s.cmdQueue.items.length < 4095 →
      (s.cmdQueue.push cmd).1 = true := by
    intro cmd hlen
    rw [Queue.push_fst]
    exact decide_eq_true (hasRoom_of_underWay hlen)
  rw [underWay] at hlt
  cases hacts with
  | @cutOff rsp sent fd c pc target found =>
      -- the response that is being delivered leaves its place to the command
      have hlen : s.gateway.delivering.length + s.rspQueue.items.length
          + s.matching.responding.length + s.cmdQueue.items.length + 1 ≤ 1 + w := hlt
      rw [pc, GatewayPc.delivering, List.length_singleton] at hlen
      rw [room (sessionClosed c) (by omega)]
      simp [Event.lost]
  | @hungUp fd epollIn r c pc found =>
      have hlen : _ + s.cmdQueue.items.length + 1 ≤ 0 + w := hlt
      rw [room (sessionClosed c) (by omega)]
      simp [Event.lost]
  | @overflowed fd epollIn c bs pos le pc found full =>
      have hlen : _ + s.cmdQueue.items.length + 1 ≤ 0 + w := hlt
      rw [room (sessionClosed c) (by omega)]
      simp [Event.lost]
  | answered loop found long read answered _ =>
      refine List.forall_mem_singleton.mpr (answered.event.kept fun hoffers hsettles => ?_)
      rw [offered, settled, List.countP_singleton, List.countP_singleton, hoffers, hsettles] at hlt
      have hlen : _ + s.cmdQueue.items.length + 1 ≤ 0 + w := hlt
      exact hasRoom_of_underWay (by omega)
  | shutdown pc =>
      have hlen : _ + s.cmdQueue.items.length + 1 ≤ 0 + w := hlt
      rw [room _ (by omega)]
      simp [Event.lost]
  | @respond rsp pc =>
      have hlen : s.gateway.delivering.length + s.rspQueue.items.length
          + s.matching.responding.length + s.cmdQueue.items.length ≤ 0 + w := hlt
      rw [pc, MatchingPc.responding, List.length_singleton] at hlen
      have hroom : s.rspQueue.HasRoom := by
        show s.rspQueue.items.length + 1 < 4096
        omega
      rw [Queue.push_fst, decide_eq_true hroom]
      simp [Event.lost]
  | _ => simp [Event.lost]

/-- **A window of 4095 loses nothing.** -/
theorem lossless_of_windowed {w : Nat} (h : ServerRun D ts s) (hw : w ≤ 4095)
    (window : Windowed w ts) : Lossless ts s := by
  have hkept : ∀ e ∈ events ts, e.lost = false := by
    induction h with
    | start h =>
        intro e he
        cases he
    | @next ts s s' l h hstep ih =>
        have ih := ih window.of_append
        have hoffered := ServerRun.offered_eq h ih
        have hlast := window _ (List.prefix_refl _)
        rw [events_append, events_singleton, offered_append, settled_append, hoffered] at hlast
        have hnew := hstep.kept (ServerRun.sound h) hw (by dsimp only at hlast; omega)
        intro e he
        rw [events_append, events_singleton] at he
        rcases List.mem_append.mp he with he | he
        · exact ih e he
        · exact hnew e he
  exact ⟨hkept, h.gone_append_inFlight hkept⟩

end Runs

/-! ## Sessions -/

/-- The connections closed. -/
def closes (es : List Event) : Nat :=
  es.countP fun
    | .closed _ _ _ => true
    | _ => false

section Sessions

variable {D : Descriptors} {ts : List (Taken Server Label)} {s s' : Server}

theorem closes_append (es fs : List Event) : closes (es ++ fs) = closes es + closes fs :=
  List.countP_append

theorem closes_eq_zero {es : List Event} (h : ∀ k token b, Event.closed k token b ∉ es) :
    closes es = 0 := by
  refine List.countP_eq_zero.mpr fun e he => ?_
  cases e with
  | closed k token b => exact absurd he (h k token b)
  | _ => nofun

theorem Move.closes {es : List Event} (h : Move s es s') :
    closes es + s'.connections.size + s.accepts = s.connections.size + s'.accepts := by
  have same : Gateway.closes es = 0 → s'.connections.size = s.connections.size →
      s'.accepts = s.accepts →
      Gateway.closes es + s'.connections.size + s.accepts = s.connections.size + s'.accepts := by
    intro hes hsize haccepts
    rw [hes, hsize, haccepts, Nat.zero_add]
  have engine : ∀ {es : List Event}, (∀ e ∈ es, e.Engine s) → Gateway.closes es = 0 :=
    fun hes => closes_eq_zero fun k token b hmem => hes _ hmem
  -- where a connection is taken out of `r`
  have gone : ∀ {r : Routes} {fd : Int} {c : Connection}, r.connections.find fd = some c →
      (r.unlink fd c.token).connections.size + 1 = r.connections.size :=
    fun found => UnorderedMap.size_erase (found ▸ Option.some_ne_none _)
  cases h with
  | quiet routes hes =>
      exact same (engine hes) (by rw [routes]) (by rw [routes])
  | accepted pos free routes =>
      have hsize : s'.connections.size = s.connections.size + 1 := by
        rw [routes]
        exact UnorderedMap.size_emplace free
      have haccepts : s'.accepts = s.accepts + 1 := by
        rw [routes]
        rfl
      rw [closes_eq_zero (by simp), hsize, haccepts]
      omega
  | @closed fd c es enqueued s' found routes hes =>
      have hsize := gone found
      rw [← routes] at hsize
      have haccepts : s'.accepts = s.accepts := by
        rw [routes]
        rfl
      rw [closes_append, engine hes, haccepts]
      show 0 + 1 + _ + _ = _
      omega
  | @received fd c bs s' found le fits routes =>
      refine same rfl ?_ (by rw [routes]; rfl)
      rw [routes]
      exact s.connections.size_assign _ _
  | @overflowed fd c bs enqueued s' found le full routes =>
      have hsize := gone (Routed.find_assign_self found c)
      rw [← routes] at hsize
      have hassign : (s.assign fd c).connections.size = s.connections.size :=
        s.connections.size_assign _ _
      have haccepts : s'.accepts = s.accepts := by
        rw [routes]
        rfl
      rw [haccepts]
      show 1 + _ + _ = _
      omega
  | starved loop found short routes | refused loop found long bad routes =>
      refine same rfl ?_ (by rw [routes]; rfl)
      rw [routes]
      exact s.connections.size_assign _ _
  | answered loop found long read answered =>
      refine same ?_ ?_ ?_
      · refine closes_eq_zero fun k token b hmem => ?_
        exact answered.event.ne_closed k token b (List.mem_singleton.mp hmem).symm
      · rw [answered.routes]
        exact s.connections.size_assign _ _
      · rw [answered.routes]
        rfl
  | exited routes => exact same rfl (by rw [routes]) (by rw [routes])

/-- **What was accepted is open or was closed.** -/
theorem ServerRun.closes (h : ServerRun D ts s) :
    closes (events ts) + s.connections.size = s.accepts := by
  refine Run.invariant (I := fun ts s => Gateway.closes (events ts) + s.connections.size = s.accepts)
    ?_ ?_ h
  · rintro s rfl
    rfl
  · intro ts s l s' hr ih hstep
    have hs := ServerRun.sound hr
    have hmove := (hstep.move hs).closes
    rw [events_append, events_singleton, closes_append]
    dsimp only at hmove ⊢
    omega

theorem silent_enqueued_le {es : List Event} (h : ∀ e ∈ es, e.Built) :
    ((Gateway.enqueued es).countP fun cmd => cmd.response.isNone)
      ≤ Gateway.closes es + (stops es).length := by
  induction es with
  | nil => exact le_refl 0
  | cons e es ih =>
      obtain ⟨hbuilt, hes⟩ := List.forall_mem_cons.mp h
      have hrest := ih hes
      have hone : ((Gateway.enqueued [e]).countP fun cmd => cmd.response.isNone)
          ≤ Gateway.closes [e] + (stops [e]).length := by
        cases e with
        | command k msg cmd enqueued =>
            obtain ⟨horder, hcmd⟩ := hbuilt
            obtain ⟨rsp, hrsp, -⟩ := engineRespond_toCommand (tokenOf k) horder
            cases enqueued with
            | false => exact le_refl 0
            | true =>
                have hsome : (Traced.response ⟨cmd, k⟩).isNone = false := by
                  rw [Traced.response, hcmd, hrsp]
                  rfl
                show [_].countP _ ≤ 0 + 0
                rw [List.countP_singleton, hsome]
                exact le_refl 0
        | closed k token enqueued | shutdownCommand enqueued =>
            cases enqueued with
            | true => exact le_refl 1
            | false => exact Nat.zero_le _
        | _ => exact le_refl 0
      have hsplit : Gateway.enqueued (e :: es) = Gateway.enqueued [e] ++ Gateway.enqueued es :=
        List.filterMap_append (l := [e])
      have hcloses := closes_append [e] es
      have hstops := stops_append [e] es
      rw [List.singleton_append] at hcloses hstops
      rw [hsplit, List.countP_append, hcloses, hstops, List.length_append]
      omega

/-- The commands that call for no answer are those of the sessions ended, and the last. -/
theorem ServerRun.silent_le (h : ServerRun D ts s) :
    (s.cmdQueue.items.countP fun cmd => cmd.response.isNone)
      ≤ Gateway.closes (events ts) + (stops (events ts)).length := by
  have hle := silent_enqueued_le fun e he => (h.counts.2 e he).1
  rw [h.commands, List.countP_append] at hle
  exact (Nat.le_add_left _ _).trans hle

/-- **What is under way**: what is in flight, and at most one command more for every
connection. -/
theorem ServerRun.underWay_le_inFlight (h : ServerRun D ts s) :
    underWay s ≤ (inFlight s).length + s.accepts + (stops (events ts)).length := by
  have hsilent := h.silent_le
  have hcloses := h.closes
  have hitems := List.length_eq_countP_add_countP (fun cmd : Traced EngineCommand =>
    cmd.response.isSome) (l := s.cmdQueue.items)
  have hnone : (s.cmdQueue.items.countP fun cmd => decide ¬cmd.response.isSome)
      = s.cmdQueue.items.countP fun cmd => cmd.response.isNone := by
    refine List.countP_congr fun cmd _ => ?_
    cases cmd.response <;> simp
  rw [hnone] at hitems
  simp only [underWay, inFlight, List.length_append, List.length_filterMap_eq_countP]
  omega

end Sessions

/-! ## Where something is -/

/-- Clients that come and go, and an engine that does not get to it: nothing is seen but
connections and their ends. -/
theorem clients_come_and_go (n : Nat) :
    ∃ ts s, ServerRun .standard ts s ∧ s.gateway = .wait ∧ (6 : Int) ∉ s.openFds ∧
      offered (events ts) = n ∧ settled (events ts) = 0 ∧ popped (events ts) = [] := by
  induction n with
  | zero => exact ⟨[], _, .start rfl, rfl, by decide, rfl, rfl, rfl⟩
  | succ n ih =>
      obtain ⟨ts, s, h, hw, hfree, hoffered, hsettled, hpopped⟩ := ih
      obtain ⟨us, h1, hus, hnone⟩ := h.can_accept hw (by decide) 6 (by decide) hfree
      have hfound := Routed.find_link_self hnone
      have hevent : (6 : Int) ≠ Descriptors.standard.eventFd := by decide
      have h2 := h1.can_dispatch hw hevent (by decide)
      have h3 := h2.extend (.recv .closed)
        (congrArg some ((dispatchStep_closed hfound).trans (closeConn_of_find hfound)))
      refine ⟨_, _, h3, rfl, ?_, ?_, ?_, ?_⟩
      · intro hmem
        exact absurd (List.mem_filter.mp hmem).2 (by decide)
      · rw [events_append, events_append, events_append, offered_append, offered_append,
          offered_append, hoffered, hus]
        rfl
      · rw [events_append, events_append, events_append, settled_append, settled_append,
          settled_append, hsettled, hus]
        rfl
      · rw [events_append, events_append, events_append, popped, List.filterMap_append,
          List.filterMap_append, List.filterMap_append, hus]
        rw [popped] at hpopped
        rw [hpopped]
        rfl

theorem ServerRun.underWay_le {D : Descriptors} {ts : List (Taken Server Label)} {s : Server}
    (h : ServerRun D ts s) (hkept : ∀ e ∈ events ts, e.lost = false)
    (hpopped : popped (events ts) = []) : underWay s ≤ 4095 := by
  have hanswers := h.answers
  rw [hpopped] at hanswers
  obtain ⟨hresponded, hresponding⟩ := List.append_eq_nil_iff.mp hanswers.symm
  have hresponses := h.responses
  rw [placed_eq_responded hkept, hresponded] at hresponses
  obtain ⟨hdelivering, hitems⟩ :=
    List.append_eq_nil_iff.mp (List.append_eq_nil_iff.mp hresponses.symm).2
  have hlt : s.cmdQueue.items.length < 4096 := s.cmdQueue.wellFormed.length_lt
  rw [underWay, hdelivering, hitems, hresponding]
  exact Nat.le_of_lt_succ (by simpa using hlt)

/-- **The window within which no order, session end or response is ever lost is 4095**, for
both queues together, any number of clients and every interleaving: every run that keeps to
it is lossless, and with one command more there is a run that is not. -/
theorem lossless_window_iff (w : Nat) :
    (∀ D ts s, ServerRun D ts s → Windowed w ts → Lossless ts s) ↔ w ≤ 4095 := by
  constructor
  · intro hall
    by_contra hw
    obtain ⟨ts, s, h, -, -, hoffered, hsettled, hpopped⟩ := clients_come_and_go 4096
    have window : Windowed w ts := by
      rintro us ⟨vs, rfl⟩
      rw [events_append, offered_append] at hoffered
      omega
    have hlossless := hall _ _ _ h window
    have heq := h.offered_eq hlossless.kept
    have hle := h.underWay_le hlossless.kept hpopped
    omega
  · intro hw D ts s h window
    exact lossless_of_windowed h hw window

end TradingGateway.Gateway
