/-
# `Gateway.Flow` — from the command queue to the sockets

A command, or the response to it, is in one of four places on its way from the parse
loop to `send`:

    the command queue                  what the engine will answer
    the response about to be pushed    matching thread at `respond`
    the response queue                 oldest first
    the response about to be sent      gateway at `deliver`

Each place is a channel, and over a run what went into it is what came out followed
by what is in it.

| law | in | out | in it |
| :-- | :-- | :-- | :-- |
| `ServerRun.commands` | `enqueued` | `popped` | the command queue |
| `ServerRun.answers` | the answers to `popped` | `responded` | `responding` |
| `ServerRun.responses` | `placed` | `gone` | `delivering`, then the response queue |

What is lost is lost between the laws: a command that finds its queue full is not
`enqueued`, a response that does is `responded` but not `placed`, and one whose
connection is gone is `gone` but not `sent`.  `Step.passes` is the three laws for one
step.  Put together they say that what was sent and what is in flight answers the
commands enqueued for orders, in their order and each at most once
(`ServerRun.flow`).
-/
import TradingGateway.Gateway.Transitions

namespace TradingGateway.Gateway

open Lib OrderEntry Spsc

/-! ## What is in flight -/

/-- The response the engine will give to a queued command. -/
def Traced.response (cmd : Traced EngineCommand) : Option (Traced EngineResponse) :=
  (engineRespond cmd.value).map fun rsp => ⟨rsp, cmd.source⟩

def GatewayPc.delivering : GatewayPc → List (Traced EngineResponse)
  | .deliver rsp => [rsp]
  | _ => []

def MatchingPc.responding : MatchingPc → List (Traced EngineResponse)
  | .respond rsp => [rsp]
  | _ => []

/-- Everything on its way to a client. -/
def inFlight (s : Server) : List (Traced EngineResponse) :=
  s.gateway.delivering ++ (s.rspQueue.items ++ (s.matching.responding ++
    s.cmdQueue.items.filterMap Traced.response))

/-! ## What was seen of it -/

/-- The command that the event put in the command queue. -/
def Event.enqueued : Event → Option (Traced EngineCommand)
  | .command k _ cmd true => some ⟨cmd, k⟩
  | .closed k token true => some ⟨{ type := .sessionClosed, session := token }, k⟩
  | .shutdownCommand true => some ⟨{ type := .shutdown }, 0⟩
  | _ => none

/-- The commands that found room in the command queue. -/
def enqueued (es : List Event) : List (Traced EngineCommand) := es.filterMap Event.enqueued

/-- The commands the matching thread took. -/
def popped (es : List Event) : List (Traced EngineCommand) :=
  es.filterMap fun
    | .popped cmd => some cmd
    | _ => none

/-- The responses it pushed, with or without room for them. -/
def responded (es : List Event) : List (Traced EngineResponse) :=
  es.filterMap fun
    | .responded rsp _ => some rsp
    | _ => none

/-- The responses that found room in the response queue. -/
def placed (es : List Event) : List (Traced EngineResponse) :=
  es.filterMap fun
    | .responded rsp true => some rsp
    | _ => none

/-- The responses the gateway is done with. -/
def gone (es : List Event) : List (Traced EngineResponse) :=
  es.filterMap fun
    | .engineFrame _ _ rsp => some rsp
    | .dropped rsp => some rsp
    | _ => none

/-- The responses whose frames were handed to `send`. -/
def sent (es : List Event) : List (Traced EngineResponse) :=
  es.filterMap fun
    | .engineFrame _ _ rsp => some rsp
    | _ => none

/-- The responses the engine will give to the commands enqueued for orders. -/
def ordered (es : List Event) : List (Traced EngineResponse) :=
  es.filterMap fun
    | .command k _ cmd true => Traced.response ⟨cmd, k⟩
    | _ => none

/-- Nothing of the flow is seen. -/
structure Still (es : List Event) : Prop where
  enqueued : enqueued es = []
  popped : popped es = []
  responded : responded es = []
  placed : placed es = []
  gone : gone es = []

/-! ## The queues -/

theorem items_push {α : Type*} [Inhabited α] {C : Capacity} (q : Queue α C) (v : α) :
    (q.push v).2.items = q.items ++ if (q.push v).1 then [v] else [] := by
  rw [Queue.push_fst, Queue.push_snd]
  by_cases hroom : q.HasRoom
  · rw [if_pos hroom, if_pos (decide_eq_true hroom)]
  · rw [if_neg hroom, if_neg (Bool.eq_false_iff.mp (decide_eq_false hroom)), List.append_nil]

theorem items_pop {α : Type*} [Inhabited α] {C : Capacity} (q : Queue α C) :
    q.items = q.pop.1.toList ++ q.pop.2.items := by
  rw [Queue.pop_fst, Queue.pop_snd]
  cases q.items with
  | nil => rfl
  | cons v vs => rfl

/-! ## One step -/

/-- The three laws, for one step. -/
structure Passes (s : Server) (es : List Event) (s' : Server) : Prop where
  commands : s.cmdQueue.items ++ enqueued es = popped es ++ s'.cmdQueue.items
  answers : s.matching.responding ++ (popped es).filterMap Traced.response
    = responded es ++ s'.matching.responding
  responses : (s.gateway.delivering ++ s.rspQueue.items) ++ placed es
    = gone es ++ (s'.gateway.delivering ++ s'.rspQueue.items)

section Steps

variable {s s' : Server} {es : List Event}

theorem Passes.of_enqueued (hes : popped es = [] ∧ responded es = [] ∧ placed es = [] ∧ gone es = [])
    (hc : s'.cmdQueue.items = s.cmdQueue.items ++ enqueued es) (hm : s'.matching = s.matching)
    (hr : s'.rspQueue = s.rspQueue) (hd : s'.gateway.delivering = s.gateway.delivering) :
    Passes s es s' := by
  obtain ⟨hpopped, hresponded, hplaced, hgone⟩ := hes
  refine ⟨?_, ?_, ?_⟩
  · rw [hpopped, hc]
    rfl
  · rw [hpopped, hresponded, hm]
    exact List.append_nil _
  · rw [hplaced, hgone, hr, hd]
    exact List.append_nil _

theorem Passes.of_still (hes : Still es) (hc : s'.cmdQueue = s.cmdQueue)
    (hm : s'.matching = s.matching) (hr : s'.rspQueue = s.rspQueue)
    (hd : s'.gateway.delivering = s.gateway.delivering) : Passes s es s' := by
  refine .of_enqueued ⟨hes.popped, hes.responded, hes.placed, hes.gone⟩ ?_ hm hr hd
  rw [hc, hes.enqueued, List.append_nil]

theorem still_nil : Still [] := ⟨rfl, rfl, rfl, rfl, rfl⟩

theorem items_pushed {q : CommandQueue} {cmd : Traced EngineCommand} {es : List Event}
    (h : enqueued es = if (q.push cmd).1 then [cmd] else []) :
    (q.push cmd).2.items = q.items ++ enqueued es := by
  rw [items_push, h]

/-- What `close_conn` shows is the push of its command. -/
theorem enqueued_closed (c : Connection) (b : Bool) :
    enqueued [.closed c.serial c.token b] = if b then [sessionClosed c] else [] := by
  cases b with
  | true => rfl
  | false => rfl

theorem Shows.flow {c : Connection} {fd : Int} {q q' : CommandQueue} {o : Output}
    {next : Option UInt64} {e : Event} (h : Shows c fd q q' o next e) :
    q'.items = q.items ++ enqueued [e] ∧
      popped [e] = [] ∧ responded [e] = [] ∧ placed [e] = [] ∧ gone [e] = [] := by
  cases h with
  | control read last kept =>
      rw [kept]
      exact ⟨(List.append_nil _).symm, rfl, rfl, rfl, rfl⟩
  | @command msg order pushed =>
      refine ⟨?_, rfl, rfl, rfl, rfl⟩
      rw [pushed]
      refine items_pushed ?_
      cases (q.push ⟨toCommand c.token msg, c.serial⟩).1 with
      | true => rfl
      | false => rfl

theorem items_of_head {α : Type*} [Inhabited α] {C : Capacity} {q : Queue α C} {v : α}
    (head : q.items.head? = some v) : q.items = v :: q.pop.2.items := by
  have hitems := items_pop q
  rw [Queue.pop_fst, head] at hitems
  exact hitems

theorem items_of_empty {α : Type*} [Inhabited α] {C : Capacity} {q : Queue α C}
    (empty : q.items = []) : q.pop.2.items = q.items := by
  rw [Queue.pop_snd, empty]
  rfl

end Steps

/-- **One step, in all three places.** -/
theorem Step.passes {D : Descriptors} {s s' : Server} {l : Label} (hs : Sound s)
    (h : Step D s l s') : Passes s l.events s' := by
  have hacts := h.acts hs
  obtain ⟨input, es⟩ := l
  dsimp only at hacts ⊢
  have away : ∀ {pc pc' : GatewayPc}, s.gateway = pc → pc.delivering = [] → pc'.delivering = [] →
      pc'.delivering = s.gateway.delivering := by
    intro pc pc' hpc h h'
    rw [hpc, h, h']
  -- a command that calls for no answer is popped
  have silent : ∀ {cmd : Traced EngineCommand} {m : MatchingPc}, s.matching = .poll →
      engineRespond cmd.value = none → m.responding = [] →
      s.matching.responding ++ (popped [.popped cmd]).filterMap Traced.response
        = responded [.popped cmd] ++ m.responding := by
    intro cmd m pc hnone hm
    have hrsp : cmd.response = none := by
      rw [Traced.response, hnone]
      rfl
    rw [pc, hm]
    exact List.filterMap_cons_none hrsp
  cases hacts with
  | eventFd pc | listenFd pc | clientFd pc | epollFails pc | acceptFails pc | join pc | ignored pc =>
      exact .of_still still_nil rfl rfl rfl (away pc rfl rfl)
  | accept pc pos fresh => exact .of_still ⟨rfl, rfl, rfl, rfl, rfl⟩ rfl rfl rfl rfl
  | drained pc empty =>
      refine ⟨List.append_nil _, List.append_nil _, ?_⟩
      rw [pc, items_of_empty empty]
      exact List.append_nil _
  | dropped pc head stale =>
      refine ⟨List.append_nil _, List.append_nil _, ?_⟩
      rw [pc, items_of_head head]
      exact List.append_nil _
  | taken pc head passes =>
      refine ⟨List.append_nil _, List.append_nil _, ?_⟩
      rw [pc, items_of_head head]
      exact List.append_nil _
  | sent pc =>
      refine ⟨List.append_nil _, List.append_nil _, ?_⟩
      rw [pc]
      exact List.append_nil _
  | @cutOff rsp sent fd c pc target found =>
      refine ⟨(items_pushed (enqueued_closed c _)).symm, List.append_nil _, ?_⟩
      rw [pc]
      exact List.append_nil _
  | @hungUp fd epollIn r c pc found =>
      refine .of_enqueued ⟨rfl, rfl, rfl, rfl⟩ ?_ rfl rfl (away pc rfl rfl)
      exact items_pushed (enqueued_closed c _)
  | received pc found fits =>
      exact .of_still ⟨rfl, rfl, rfl, rfl, rfl⟩ rfl rfl rfl (away pc rfl rfl)
  | @overflowed fd epollIn c bs pos le pc found full =>
      refine .of_enqueued ⟨rfl, rfl, rfl, rfl⟩ ?_ rfl rfl (away pc rfl rfl)
      exact items_pushed (enqueued_closed c _)
  | starved loop found short => exact .of_still still_nil rfl rfl rfl (away loop rfl rfl)
  | refused loop found long bad =>
      exact .of_still ⟨rfl, rfl, rfl, rfl, rfl⟩ rfl rfl rfl (away loop rfl rfl)
  | answered loop found long read answered _ =>
      obtain ⟨hitems, hes⟩ := answered.event.flow
      refine .of_enqueued hes hitems answered.matching answered.rspQueue ?_
      rw [answered.pc]
      split
      next => exact away loop rfl rfl
      next => exact away loop rfl rfl
  | shutdown pc =>
      refine .of_enqueued ⟨rfl, rfl, rfl, rfl⟩ (items_pushed ?_) rfl rfl (away pc rfl rfl)
      cases (s.cmdQueue.push ⟨{ type := .shutdown }, 0⟩).1 with
      | true => rfl
      | false => rfl
  | idle pc empty =>
      refine ⟨?_, List.append_nil _, List.append_nil _⟩
      rw [items_of_empty empty]
      exact List.append_nil _
  | stopped pc head type =>
      refine ⟨?_, silent pc ?_ rfl, List.append_nil _⟩
      · rw [items_of_head head]
        exact List.append_nil _
      · rw [engineRespond, type]
  | skipped pc head hnone =>
      refine ⟨?_, silent pc hnone (congrArg MatchingPc.responding pc), List.append_nil _⟩
      rw [items_of_head head]
      exact List.append_nil _
  | @answering cmd rsp pc head answer =>
      refine ⟨?_, ?_, List.append_nil _⟩
      · rw [items_of_head head]
        exact List.append_nil _
      · have hrsp : cmd.response = some ⟨rsp, cmd.source⟩ := by
          rw [Traced.response, answer]
          rfl
        rw [pc]
        exact List.filterMap_cons_some hrsp
  | @respond rsp pc =>
      refine ⟨List.append_nil _, ?_, ?_⟩
      · rw [pc]
        rfl
      · rw [items_push, List.append_assoc]
        cases (s.rspQueue.push rsp).1 with
        | true => rfl
        | false => rfl
  | notify pc =>
      refine ⟨List.append_nil _, ?_, List.append_nil _⟩
      rw [pc]
      rfl

/-! ## Runs -/

section Runs

variable {D : Descriptors} {ts : List (Taken Server Label)} {s : Server}

theorem flatMap_events {β : Type*} (f : Event → Option β) (ts : List (Taken Server Label)) :
    (ts.flatMap fun t => t.label.events.filterMap f) = (events ts).filterMap f :=
  (List.filterMap_flatMap ..).symm

/-- The command queue loses nothing and keeps the order. -/
theorem ServerRun.commands (h : ServerRun D ts s) :
    enqueued (events ts) = popped (events ts) ++ s.cmdQueue.items := by
  have hinit : ∀ s, s = Server.fresh D → s.cmdQueue.items = [] := by
    rintro s rfl
    exact Queue.items_fresh
  have hlaw := Run.conserve (fun s : Server => s.cmdQueue.items)
    (fun l : Label => enqueued l.events) (fun l => popped l.events) hinit
    (fun _ _ _ _ hr hstep => (hstep.passes (ServerRun.sound hr)).commands) h
  have henqueued : (ts.flatMap fun t => enqueued t.label.events) = enqueued (events ts) :=
    flatMap_events _ ts
  have hpopped : (ts.flatMap fun t => popped t.label.events) = popped (events ts) :=
    flatMap_events _ ts
  rwa [henqueued, hpopped] at hlaw

theorem ServerRun.answers (h : ServerRun D ts s) :
    (popped (events ts)).filterMap Traced.response
      = responded (events ts) ++ s.matching.responding := by
  have hinit : ∀ s, s = Server.fresh D → s.matching.responding = [] := by
    rintro s rfl
    rfl
  have hlaw := Run.conserve (fun s : Server => s.matching.responding)
    (fun l : Label => (popped l.events).filterMap Traced.response)
    (fun l => responded l.events) hinit
    (fun _ _ _ _ hr hstep => (hstep.passes (ServerRun.sound hr)).answers) h
  have hpopped : (ts.flatMap fun t => (popped t.label.events).filterMap Traced.response)
      = (popped (events ts)).filterMap Traced.response := by
    rw [← List.filterMap_flatMap]
    exact congrArg _ (flatMap_events _ ts)
  have hresponded : (ts.flatMap fun t => responded t.label.events) = responded (events ts) :=
    flatMap_events _ ts
  rwa [hpopped, hresponded] at hlaw

theorem ServerRun.responses (h : ServerRun D ts s) :
    placed (events ts) = gone (events ts) ++ (s.gateway.delivering ++ s.rspQueue.items) := by
  have hinit : ∀ s, s = Server.fresh D → s.gateway.delivering ++ s.rspQueue.items = [] := by
    rintro s rfl
    have hitems : (Server.fresh D).rspQueue.items = [] := Queue.items_fresh
    rw [hitems]
    rfl
  have hlaw := Run.conserve (fun s : Server => s.gateway.delivering ++ s.rspQueue.items)
    (fun l : Label => placed l.events) (fun l => gone l.events) hinit
    (fun _ _ _ _ hr hstep => (hstep.passes (ServerRun.sound hr)).responses) h
  have hplaced : (ts.flatMap fun t => placed t.label.events) = placed (events ts) :=
    flatMap_events _ ts
  have hgone : (ts.flatMap fun t => gone t.label.events) = gone (events ts) :=
    flatMap_events _ ts
  rwa [hplaced, hgone] at hlaw

end Runs

/-! ## From end to end -/

section Losses

theorem sublist_filterMap {α β : Type*} {f g : α → Option β} {l : List α}
    (h : ∀ a ∈ l, ∀ b, f a = some b → g a = some b) : (l.filterMap f).Sublist (l.filterMap g) := by
  induction l with
  | nil => exact List.Sublist.refl _
  | cons a l ih =>
      have ih := ih fun b hb => h b (List.mem_cons_of_mem _ hb)
      have ha := h a List.mem_cons_self
      cases hf : f a with
      | none =>
          rw [List.filterMap_cons_none hf]
          cases hg : g a with
          | none => rwa [List.filterMap_cons_none hg]
          | some b =>
              rw [List.filterMap_cons_some hg]
              exact ih.cons b
      | some b =>
          rw [List.filterMap_cons_some hf, List.filterMap_cons_some (ha b hf)]
          exact ih.cons_cons b

variable (es : List Event)

theorem placed_sublist : (placed es).Sublist (responded es) := by
  refine sublist_filterMap fun e _ rsp h => ?_
  cases e with
  | responded rsp' enqueued =>
      cases enqueued with
      | true => exact h
      | false => cases h
  | _ => cases h

theorem sent_sublist : (sent es).Sublist (gone es) := by
  refine sublist_filterMap fun e _ rsp h => ?_
  cases e with
  | engineFrame fd frame rsp' => exact h
  | _ => cases h

/-- Only the commands enqueued for orders call for an answer. -/
theorem response_enqueued : (enqueued es).filterMap Traced.response = ordered es := by
  rw [enqueued, List.filterMap_filterMap]
  refine List.filterMap_congr fun e _ => ?_
  cases e with
  | command k msg cmd enqueued =>
      cases enqueued with
      | true => rfl
      | false => rfl
  | closed k token enqueued =>
      cases enqueued with
      | true => rfl
      | false => rfl
  | shutdownCommand enqueued =>
      cases enqueued with
      | true => rfl
      | false => rfl
  | _ => rfl

end Losses

/-- **What was sent and what is in flight answers the commands enqueued, in their
order and each at most once.** -/
theorem ServerRun.flow {D : Descriptors} {ts : List (Taken Server Label)} {s : Server}
    (h : ServerRun D ts s) :
    (sent (events ts) ++ inFlight s).Sublist (ordered (events ts)) := by
  have hsent : (sent (events ts) ++ (s.gateway.delivering ++ s.rspQueue.items)).Sublist
      (placed (events ts)) := by
    rw [h.responses]
    exact (sent_sublist _).append_right _
  have hplaced : (placed (events ts) ++ s.matching.responding).Sublist
      ((popped (events ts)).filterMap Traced.response) := by
    rw [h.answers]
    exact (placed_sublist _).append_right _
  have hordered : ordered (events ts) = (popped (events ts)).filterMap Traced.response
      ++ s.cmdQueue.items.filterMap Traced.response := by
    rw [← response_enqueued, h.commands, List.filterMap_append]
  rw [hordered, inFlight]
  have hall := (((hsent.append_right s.matching.responding).trans hplaced).append_right
    (s.cmdQueue.items.filterMap Traced.response))
  simpa only [List.append_assoc] using hall

end TradingGateway.Gateway
