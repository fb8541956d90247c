/-
# `Gateway.Handover` — from the matching thread to the gateway

The matching thread pushes a response and then writes the eventfd; the gateway
reads the eventfd and then pops until a pop fails.  `HandOver s input es s'` says
what a step does to the response queue, the counter and the two program counters:

| step | |
| :-- | :-- |
| `idle` | touches neither queue nor counter |
| `draining` | leaves the gateway in its drain |
| `drained` | is the pop that fails, so the queue is empty |
| `pushed` | pushes, and leaves the matching thread in front of its write |
| `wrote` | writes, so the counter is not 0 |

Two laws of the hand-over follow by cases.  No wake-up is lost
(`no_lost_wakeup`): this is the order of push and write on one side and of read and
pops on the other.  And the matching thread conserves orders exactly while its pushes
find room (`orders_answered_iff`), since it does not look at what `push` returns.
-/
import TradingGateway.Gateway.Progress

namespace TradingGateway.Gateway

open Lib OrderEntry Spsc

variable {D : Descriptors} {ts : List (Taken Server Label)} {s s' : Server} {es : List Event}

/-! ## Steps, seen from the response queue -/

/-- Between the read of the eventfd and the pop that fails. -/
def GatewayPc.Draining : GatewayPc → Prop
  | .drain | .deliver _ => True
  | _ => False

/-- The step has nothing to do with the hand-over. -/
structure Undisturbed (s : Server) (es : List Event) (s' : Server) : Prop where
  rspQueue : s'.rspQueue = s.rspQueue
  eventCount : s'.eventCount = s.eventCount
  matching : s'.matching = s.matching
  silent : responded es = []

/-- What a step does to the hand-over. -/
inductive HandOver (s : Server) : Input → List Event → Server → Prop
  | idle {input : Input} {es : List Event} {s' : Server} (other : input ≠ .respond)
      (silent : responded es = []) (rspQueue : s'.rspQueue = s.rspQueue)
      (eventCount : s'.eventCount = s.eventCount)
      (gateway : s.gateway.Draining → s'.gateway.Draining)
      (matching : s.matching = .notify → s'.matching = .notify) : HandOver s input es s'
  | draining {input : Input} {es : List Event} {s' : Server} (other : input ≠ .respond)
      (silent : responded es = []) (pc : s'.gateway.Draining) : HandOver s input es s'
  | drained {input : Input} {s' : Server} (other : input ≠ .respond)
      (empty : s'.rspQueue.items = []) : HandOver s input [] s'
  | pushed {rsp : Traced EngineResponse} {s' : Server} (pc : s'.matching = .notify) :
      HandOver s .respond [.responded rsp (s.rspQueue.push rsp).1] s'
  | wrote {input : Input} {s' : Server} (other : input ≠ .respond) (count : s'.eventCount ≠ 0) :
      HandOver s input [] s'

theorem Undisturbed.handOver (h : Undisturbed s es s') {input : Input} (other : input ≠ .respond)
    {pc : GatewayPc} (hpc : s.gateway = pc) (outside : ¬ pc.Draining) : HandOver s input es s' := by
  refine .idle other h.silent h.rspQueue h.eventCount ?_ ?_
  · rw [hpc]
    exact fun hdrain => absurd hdrain outside
  · rw [h.matching]
    exact id

theorem notifyCount_ne_zero (n : Nat) : notifyCount n ≠ 0 := by
  rw [notifyCount]
  split
  next heq =>
    rw [heq]
    decide
  next => exact Nat.succ_ne_zero _

/-- **Every step of the server is one of the five.** -/
theorem Step.handOver {l : Label} (hs : Sound s) (h : Step D s l s') :
    HandOver s l.input l.events s' := by
  have hacts := h.acts hs
  obtain ⟨input, es⟩ := l
  dsimp only at hacts ⊢
  cases hacts with
  | eventFd | taken | sent | cutOff => exact .draining nofun rfl trivial
  | dropped pc head stale =>
      refine .draining nofun rfl ?_
      show s.gateway.Draining
      rw [pc]
      trivial
  | drained pc empty =>
      refine .drained nofun ?_
      show s.rspQueue.pop.2.items = []
      rw [items_of_empty empty, empty]
  | listenFd pc | clientFd pc | epollFails pc | acceptFails pc | join pc | accept pc | shutdown pc
  | ignored pc | hungUp pc | received pc | overflowed pc | starved pc | refused pc =>
      refine Undisturbed.handOver ?_ ?_ pc id
      · exact ⟨rfl, rfl, rfl, rfl⟩
      · nofun
  | answered loop found long read answered eventCount =>
      have hsilent := answered.event.flow.2.2.1
      exact Undisturbed.handOver ⟨answered.rspQueue, eventCount, answered.matching, hsilent⟩ nofun
        loop id
  | idle | skipped => exact .idle nofun rfl rfl rfl id id
  | stopped pc | answering pc =>
      refine .idle nofun rfl rfl rfl id fun h => ?_
      rw [pc] at h
      cases h
  | respond pc => exact .pushed rfl
  | notify pc => exact .wrote nofun (notifyCount_ne_zero _)

/-! ## No wake-up is lost -/

/-- While responses are pending, one of the two threads is on its way to them, or the
counter wakes the gateway. -/
def Awake (s : Server) : Prop :=
  s.rspQueue.items ≠ [] → s.matching ≠ .notify → ¬ s.gateway.Draining → s.eventCount ≠ 0

theorem HandOver.awake {input : Input} (h : HandOver s input es s') (hs : Awake s) : Awake s' := by
  intro pending written outside
  cases h with
  | idle other silent rspQueue eventCount gateway matching =>
      rw [rspQueue] at pending
      rw [eventCount]
      exact hs pending (mt matching written) (mt gateway outside)
  | draining other silent pc => exact absurd pc outside
  | drained other empty => exact absurd empty pending
  | pushed pc => exact absurd pc written
  | wrote other count => exact count

theorem ServerRun.awake (h : ServerRun D ts s) : Awake s := by
  refine Run.invariant (I := fun _ s => Awake s) ?_ ?_ h
  · rintro s rfl pending
    exact absurd Queue.items_fresh pending
  · intro ts s l s' hr hs hstep
    exact (hstep.handOver (ServerRun.sound hr)).awake hs

/-- **Where responses are pending and neither thread is on its way to them, the
counter is not 0**, so `epoll_wait` returns. -/
theorem no_lost_wakeup (h : ServerRun D ts s) (pending : s.rspQueue.items ≠ [])
    (written : s.matching ≠ .notify) (outside : ¬ s.gateway.Draining) : s.eventCount ≠ 0 :=
  h.awake pending written outside

/-- The engine has answered one order, and the gateway has not looked yet. -/
theorem no_lost_wakeup_oneOrder :
    ∃ ts s, ServerRun .standard ts s ∧ s.rspQueue.items ≠ [] ∧ s.gateway = .wait ∧
      s.eventCount ≠ 0 := by
  obtain ⟨ts, s, c, h, hn⟩ := orders_sent 1
  have pending : s.rspQueue.items ≠ [] := by
    intro hnil
    have hlength := hn.rspQueue
    rw [hnil] at hlength
    exact absurd hlength (by decide)
  refine ⟨ts, s, h, pending, hn.waiting.gateway, no_lost_wakeup h pending ?_ ?_⟩
  · rw [hn.matching]
    nofun
  · rw [hn.waiting.gateway]
    exact id

/-! ## The matching thread conserves orders -/

/-- The commands of order messages. -/
def EngineCommand.IsOrder (cmd : EngineCommand) : Prop :=
  cmd.type ∈ [EngineCommandType.newLimit, .cancel, .modify]

instance (cmd : EngineCommand) : Decidable cmd.IsOrder :=
  inferInstanceAs (Decidable (cmd.type ∈ [EngineCommandType.newLimit, .cancel, .modify]))

/-- The order commands that the matching thread has popped and finished handling:
all but the one whose response it is about to push. -/
def finishedOrders (es : List Event) (m : MatchingPc) : List (Traced EngineCommand) :=
  let orders := (popped es).filter fun cmd => cmd.value.IsOrder
  match m with
  | .respond _ => orders.dropLast
  | _ => orders

/-- The response goes to the command's session and names its order. -/
structure Answers (cmd : Traced EngineCommand) (rsp : Traced EngineResponse) : Prop where
  session : rsp.value.session = cmd.value.session
  clientOrderId : rsp.value.clientOrderId = cmd.value.clientOrderId

/-- The responses placed in the queue answer the orders finished, one each and in
pop order. -/
def OrdersAnswered (es : List Event) (m : MatchingPc) : Prop :=
  List.Forall₂ Answers (finishedOrders es m) (placed es)

theorem response_isSome_iff (cmd : Traced EngineCommand) :
    cmd.response.isSome ↔ cmd.value.IsOrder := by
  rw [Traced.response, Option.isSome_map, engineRespond, EngineCommand.IsOrder]
  cases cmd.value.type with
  | newLimit | cancel | modify => exact iff_of_true rfl (by decide)
  | sessionClosed | shutdown => exact iff_of_false (by simp) (by decide)

theorem answers_of_response {cmd : Traced EngineCommand} {rsp : Traced EngineResponse}
    (h : cmd.response = some rsp) : Answers cmd rsp := by
  obtain ⟨value, hvalue, rfl⟩ := Option.map_eq_some_iff.mp h
  unfold engineRespond at hvalue
  cases htype : cmd.value.type with
  | newLimit | cancel | modify =>
      rw [htype] at hvalue
      obtain rfl := Option.some.inj hvalue
      exact ⟨rfl, rfl⟩
  | sessionClosed | shutdown =>
      rw [htype] at hvalue
      cases hvalue

theorem forall₂_filterMap {α β : Type*} (f : α → Option β) (l : List α) :
    List.Forall₂ (fun a b => f a = some b) (l.filter fun a => (f a).isSome) (l.filterMap f) := by
  induction l with
  | nil => exact .nil
  | cons a l ih =>
      cases hf : f a with
      | none =>
          rw [List.filterMap_cons_none hf, List.filter_cons_of_neg (by rw [hf]; nofun)]
          exact ih
      | some b =>
          rw [List.filterMap_cons_some hf, List.filter_cons_of_pos (by rw [hf]; rfl)]
          exact .cons hf ih

theorem ServerRun.orders_respond (h : ServerRun D ts s) :
    List.Forall₂ (fun cmd rsp => cmd.response = some rsp)
      ((popped (events ts)).filter fun cmd => cmd.value.IsOrder)
      (responded (events ts) ++ s.matching.responding) := by
  have hall := forall₂_filterMap Traced.response (popped (events ts))
  have horders : ((popped (events ts)).filter fun cmd => cmd.response.isSome)
      = (popped (events ts)).filter fun cmd => cmd.value.IsOrder := by
    refine List.filter_congr fun cmd _ => ?_
    rw [Bool.eq_iff_iff, response_isSome_iff, decide_eq_true_iff]
  rwa [h.answers, horders] at hall

/-- What the matching thread has pushed answers the orders it is done with, whether
or not the pushes found room. -/
theorem ServerRun.responded_finished (h : ServerRun D ts s) :
    List.Forall₂ Answers (finishedOrders (events ts) s.matching) (responded (events ts)) := by
  have hall := h.orders_respond.imp fun _ _ => answers_of_response
  have hlength := hall.length_eq
  have htake := List.forall₂_take_append _ _ _ hall
  unfold finishedOrders
  cases hm : s.matching with
  | respond rsp =>
      rw [hm, List.length_append] at hlength
      show List.Forall₂ Answers (List.dropLast _) _
      rw [List.dropLast_eq_take, hlength]
      exact htake
  | poll | notify | stopped =>
      rw [hm] at hall
      rw [← List.append_nil (responded (events ts))]
      exact hall

theorem placed_eq_responded_iff :
    placed es = responded es ↔ ∀ rsp, Event.responded rsp false ∉ es := by
  constructor
  · intro heq rsp hmem
    obtain ⟨us, vs, rfl⟩ := List.append_of_mem hmem
    have hlength := congrArg List.length heq
    have hus := (placed_sublist us).length_le
    have hvs := (placed_sublist vs).length_le
    have hplaced : placed (us ++ .responded rsp false :: vs) = placed us ++ placed vs :=
      List.filterMap_append
    have hresponded : responded (us ++ .responded rsp false :: vs)
        = responded us ++ rsp :: responded vs :=
      List.filterMap_append
    rw [hplaced, hresponded, List.length_append, List.length_append, List.length_cons] at hlength
    omega
  · intro hnone
    refine List.filterMap_congr fun e he => ?_
    cases e with
    | responded rsp enqueued =>
        cases enqueued with
        | true => rfl
        | false => exact absurd he (hnone rsp)
    | _ => rfl

theorem HandOver.loses_iff {input : Input} (h : HandOver s input es s') :
    (∃ rsp, Event.responded rsp false ∈ es) ↔ input = .respond ∧ ¬ s.rspQueue.HasRoom := by
  have quiet : responded es = [] → input ≠ .respond →
      ((∃ rsp, Event.responded rsp false ∈ es) ↔ input = .respond ∧ ¬ s.rspQueue.HasRoom) := by
    intro hnil hne
    refine iff_of_false ?_ fun h => hne h.1
    rintro ⟨rsp, hmem⟩
    have hrsp : rsp ∈ responded es := List.mem_filterMap.mpr ⟨_, hmem, rfl⟩
    rw [hnil] at hrsp
    cases hrsp
  cases h with
  | idle other silent => exact quiet silent other
  | draining other silent => exact quiet silent other
  | drained other => exact quiet rfl other
  | wrote other => exact quiet rfl other
  | @pushed rsp _ pc =>
      rw [Queue.push_fst]
      constructor
      · rintro ⟨rsp', hmem⟩
        obtain ⟨-, hfull⟩ := Event.responded.inj (List.mem_singleton.mp hmem)
        exact ⟨rfl, of_decide_eq_false hfull.symm⟩
      · rintro ⟨-, hfull⟩
        refine ⟨rsp, ?_⟩
        rw [decide_eq_false hfull]
        exact List.mem_cons_self

theorem ServerRun.ordersAnswered_iff (h : ServerRun D ts s) :
    OrdersAnswered (events ts) s.matching ↔ ∀ rsp, Event.responded rsp false ∉ events ts := by
  have hfinished := h.responded_finished
  rw [← placed_eq_responded_iff]
  constructor
  · intro hanswered
    refine (placed_sublist _).eq_of_length ?_
    rw [← hanswered.length_eq, hfinished.length_eq]
  · intro heq
    rw [OrdersAnswered, heq]
    exact hfinished

/-- **The matching thread conserves orders exactly while the response queue has room
at each of its pushes.** -/
theorem orders_answered_iff (h : ServerRun D ts s) :
    OrdersAnswered (events ts) s.matching ↔
      ∀ t ∈ ts, t.label.input = .respond → t.src.rspQueue.HasRoom := by
  rw [h.ordersAnswered_iff]
  constructor
  · intro hnone t ht hinput
    by_contra hfull
    obtain ⟨⟨us, hus⟩, hstep⟩ := h.of_mem ht
    obtain ⟨rsp, hmem⟩ :=
      (hstep.handOver (ServerRun.sound hus)).loses_iff.mpr ⟨hinput, hfull⟩
    exact hnone rsp (List.mem_flatMap.mpr ⟨t, ht, hmem⟩)
  · intro hroom rsp hmem
    obtain ⟨t, ht, he⟩ := List.mem_flatMap.mp hmem
    obtain ⟨⟨us, hus⟩, hstep⟩ := h.of_mem ht
    obtain ⟨hinput, hfull⟩ :=
      (hstep.handOver (ServerRun.sound hus)).loses_iff.mp ⟨rsp, he⟩
    exact hfull (hroom t ht hinput)

theorem orders_answered_iff_oneOrder :
    ∃ ts s msg, ServerRun .standard ts s ∧ Event.command 0 msg firstCommand true ∈ events ts ∧
      (OrdersAnswered (events ts) s.matching ↔
        ∀ t ∈ ts, t.label.input = .respond → t.src.rspQueue.HasRoom) := by
  obtain ⟨ts, s, msg, enqueued, h, hevents⟩ := first_answered
  refine ⟨ts, s, msg, h, ?_, orders_answered_iff h⟩
  rw [hevents]
  exact List.mem_cons_of_mem _ (List.mem_cons_of_mem _ List.mem_cons_self)

/-- The response to the 4096th order is lost when the gateway has not got to any. -/
theorem response_lost :
    ∃ ts s, ServerRun .standard ts s ∧ ¬ OrdersAnswered (events ts) s.matching := by
  obtain ⟨ts, s, c, h, hn⟩ := orders_sent 4095
  obtain ⟨us, s', c', h', -, hmem⟩ := hn.succ h
  have hfull : ¬ s.rspQueue.HasRoom := by
    rw [Queue.HasRoom, hn.rspQueue]
    decide
  rw [decide_eq_false hfull] at hmem
  refine ⟨ts ++ us, s', h', fun hanswered => ?_⟩
  refine h'.ordersAnswered_iff.mp hanswered ⟨firstResponse, 0⟩ ?_
  rw [events_append]
  exact List.mem_append_right _ hmem

end TradingGateway.Gateway
