/-
# `Gateway.Shutdown` — when the server can still exit

Behind the event loop the gateway pushes one last command, waits in `matching.join()` for
the matching thread to take it, and closes what is open.  What `push` answers is not looked
at.  So the two threads part in one of two ways (`Ending`):

| the shutdown command | then |
| :-- | :-- |
| found room | it is the last in the queue; the engine responds to what is before it, and stops |
| found none | the engine polls on, and `join` never returns |

The way out of the loop is an `epoll_wait` that fails; there is no other.  Where it may,
`main` can return from every state of every run but those behind the second
(`server_can_exit_iff`), and leaves no descriptor of its own open.  An exit is not lossless:
the engine offers a response to every order, but one that finds the response queue full is
gone, and one that is still queued is drained by nobody any more (`AtExit`).
-/
import TradingGateway.Gateway.Turns

namespace TradingGateway.Gateway

open Lib OrderEntry Spsc

/-! ## How the threads part -/

/-- The command behind the loop. -/
def shutdownCommand : Traced EngineCommand := ⟨{ type := .shutdown }, 0⟩

/-- Whether the shutdown commands found room. -/
def stops (es : List Event) : List Bool :=
  es.filterMap fun
    | .shutdownCommand enqueued => some enqueued
    | _ => none

/-- The gateway has pushed its last command. -/
def GatewayPc.Over : GatewayPc → Prop
  | .join | .exited => True
  | _ => False

/-- None of the commands ends the matching thread. -/
def Endless (cmds : List (Traced EngineCommand)) : Prop := ∀ cmd ∈ cmds, cmd.value.type ≠ .shutdown

/-- How far the threads are in parting, and what was seen of it. -/
inductive Ending (s : Server) : List Bool → Prop
  | working (pc : ¬ s.gateway.Over) (running : s.matching ≠ .stopped)
      (endless : Endless s.cmdQueue.items) : Ending s []
  | refused (pc : s.gateway = .join) (running : s.matching ≠ .stopped)
      (endless : Endless s.cmdQueue.items) : Ending s [false]
  | told {cmds : List (Traced EngineCommand)} (pc : s.gateway = .join)
      (running : s.matching ≠ .stopped) (last : s.cmdQueue.items = cmds ++ [shutdownCommand])
      (endless : Endless cmds) : Ending s [true]
  | stopped (pc : s.gateway.Over) (stopped : s.matching = .stopped)
      (empty : s.cmdQueue.items = []) : Ending s [true]

/-! ## One step -/

section Steps

variable {D : Descriptors} {s s' : Server} {bs : List Bool}

theorem Endless.append {cmds cmds' : List (Traced EngineCommand)} (h : Endless cmds)
    (h' : Endless cmds') : Endless (cmds ++ cmds') :=
  List.forall_mem_append.mpr ⟨h, h'⟩

theorem Ending.turn {cmds : List (Traced EngineCommand)} (h : Ending s bs)
    (pc : ¬ s.gateway.Over) (pc' : ¬ s'.gateway.Over) (matching : s'.matching = s.matching)
    (items : s'.cmdQueue.items = s.cmdQueue.items ++ cmds) (endless : Endless cmds) :
    Ending s' bs := by
  cases h with
  | working _ running hitems =>
      refine .working pc' (matching ▸ running) ?_
      rw [items]
      exact hitems.append endless
  | refused hpc | told hpc =>
      rw [hpc] at pc
      exact absurd trivial pc
  | stopped hpc => exact absurd hpc pc

theorem Ending.goes (h : Ending s bs) (pc : s'.gateway = s.gateway)
    (running : s.matching ≠ .stopped) (running' : s'.matching ≠ .stopped)
    (items : s'.cmdQueue.items = s.cmdQueue.items) : Ending s' bs := by
  cases h with
  | working hpc _ endless => exact .working (pc ▸ hpc) running' (items ▸ endless)
  | refused hpc _ endless => exact .refused (pc.trans hpc) running' (items ▸ endless)
  | told hpc _ last endless => exact .told (pc.trans hpc) running' (items.trans last) endless
  | stopped _ hstopped => exact absurd hstopped running

theorem Ending.takes {cmd : Traced EngineCommand} (h : Ending s bs) (pc : s'.gateway = s.gateway)
    (running : s.matching ≠ .stopped) (items : s.cmdQueue.items = cmd :: s'.cmdQueue.items)
    (stops : s'.matching = .stopped ↔ cmd.value.type = .shutdown) : Ending s' bs := by
  cases h with
  | working hpc _ endless =>
      rw [items] at endless
      obtain ⟨hcmd, hrest⟩ := List.forall_mem_cons.mp endless
      exact .working (pc ▸ hpc) (mt stops.mp hcmd) hrest
  | refused hpc _ endless =>
      rw [items] at endless
      obtain ⟨hcmd, hrest⟩ := List.forall_mem_cons.mp endless
      exact .refused (pc.trans hpc) (mt stops.mp hcmd) hrest
  | @told cmds hpc _ last endless =>
      rw [items] at last
      cases cmds with
      | nil =>
          obtain ⟨rfl, hrest⟩ := List.cons.inj last
          refine .stopped ?_ (stops.mpr rfl) hrest
          rw [pc, hpc]
          trivial
      | cons cmd' cmds =>
          obtain ⟨rfl, hrest⟩ := List.cons.inj last
          obtain ⟨hcmd, hcmds⟩ := List.forall_mem_cons.mp endless
          exact .told (pc.trans hpc) (mt stops.mp hcmd) hrest hcmds
  | stopped _ hstopped => exact absurd hstopped running

theorem type_toCommand (token : SessionToken) {msg : DecodedMessage} (h : IsOrder msg) :
    (toCommand token msg).type ≠ .shutdown := by
  intro htype
  obtain ⟨rsp, hrsp, -⟩ := engineRespond_toCommand token h
  rw [engineRespond, htype] at hrsp
  cases hrsp

theorem Shows.endless {c : Connection} {fd : Int} {q q' : CommandQueue} {o : Output}
    {next : Option UInt64} {e : Event} (h : Shows c fd q q' o next e) :
    Endless (enqueued [e]) ∧ stops [e] = [] := by
  cases h with
  | control read last kept => exact ⟨List.forall_mem_nil _, rfl⟩
  | @command msg order pushed =>
      refine ⟨?_, rfl⟩
      cases (q.push ⟨toCommand c.token msg, c.serial⟩).1 with
      | true => exact List.forall_mem_singleton.mpr (type_toCommand c.token order)
      | false => exact List.forall_mem_nil _

theorem endless_closed (c : Connection) (b : Bool) :
    Endless (if b then [sessionClosed c] else []) := by
  cases b with
  | true => exact List.forall_mem_singleton.mpr nofun
  | false => exact List.forall_mem_nil _

/-- `matching.join()` returns when the matching thread has. -/
theorem Step.joined {l : Label} (h : Step D s l s') (hinput : l.input = .join) :
    s.matching = .stopped ∧
      s'.openFds = s.openFds.filter fun fd =>
        fd ∉ s.connections.keys ∧ fd ≠ D.epollFd ∧ fd ≠ D.eventFd ∧ fd ≠ D.listenFd := by
  obtain ⟨_, es⟩ := l
  dsimp only at hinput
  subst hinput
  unfold Step step at h
  dsimp only at h
  split at h
  case h_10 pc stopped =>
    obtain ⟨rfl, -⟩ := Prod.mk.inj (Option.some.inj h)
    exact ⟨stopped, rfl⟩
  all_goals contradiction

/-- The matching thread stops at the command that says so, and at no other. -/
theorem Step.stopped_iff {l : Label} (h : Step D s l s') {cmd : Traced EngineCommand}
    (hinput : l.input = .poll) (hpopped : l.events = [.popped cmd]) :
    s'.matching = .stopped ↔ cmd.value.type = .shutdown := by
  obtain ⟨_, es⟩ := l
  dsimp only at hinput hpopped
  subst hinput hpopped
  unfold Step step at h
  dsimp only at h
  split at h
  case h_11 pc =>
    have hpoll := Option.some.inj h
    unfold pollStep at hpoll
    dsimp only at hpoll
    split at hpoll
    next => cases (Prod.mk.inj hpoll).2
    next cmd' _ =>
      split at hpoll
      next type =>
        obtain ⟨rfl, hes⟩ := Prod.mk.inj hpoll
        obtain rfl := Event.popped.inj (List.singleton_injective hes)
        exact iff_of_true rfl type
      next other =>
        split at hpoll
        all_goals
          obtain ⟨rfl, hes⟩ := Prod.mk.inj hpoll
          obtain rfl := Event.popped.inj (List.singleton_injective hes)
        · exact iff_of_false (pc ▸ nofun) other
        · exact iff_of_false nofun other
  all_goals contradiction

/-- **One step** brings the threads no further apart than the source says. -/
theorem Step.ending (hs : Sound s) {l : Label} (h : Step D s l s') (he : Ending s bs) :
    Ending s' (bs ++ stops l.events) := by
  have hacts := h.acts hs
  have hjoin := h.joined
  obtain ⟨input, es⟩ := l
  dsimp only at hacts hjoin ⊢
  -- a turn of the gateway that leaves the command queue alone
  have turn : ∀ {pc : GatewayPc}, s.gateway = pc → ¬ pc.Over → ¬ s'.gateway.Over →
      s'.matching = s.matching → s'.cmdQueue = s.cmdQueue → Ending s' (bs ++ []) := by
    intro pc hpc hover hover' hm hq
    rw [List.append_nil]
    refine he.turn (hpc ▸ hover) hover' hm ?_ (List.forall_mem_nil _)
    rw [hq, List.append_nil]
  -- and one that closes a connection
  have closes : ∀ {pc : GatewayPc} (c : Connection), s.gateway = pc → ¬ pc.Over →
      ¬ s'.gateway.Over → s'.matching = s.matching →
      s'.cmdQueue = (s.cmdQueue.push (sessionClosed c)).2 → Ending s' (bs ++ []) := by
    intro pc c hpc hover hover' hm hq
    rw [List.append_nil]
    refine he.turn (hpc ▸ hover) hover' hm ?_ 
      (endless_closed c (s.cmdQueue.push (sessionClosed c)).1)
    rw [hq, items_push]
  cases hacts with
  | eventFd pc | listenFd pc | clientFd pc | epollFails pc | drained pc | taken pc
  | sent pc | acceptFails pc | ignored pc | received pc | starved pc | refused pc =>
      exact turn pc id id rfl rfl
  | dropped pc | accept pc => exact turn pc id (pc ▸ id) rfl rfl
  | @cutOff _ _ _ c pc | @hungUp _ _ _ c pc | @overflowed _ _ c _ _ _ pc =>
      exact closes c pc id id rfl rfl
  | answered loop found long read answered eventCount =>
      obtain ⟨hendless, hstops⟩ := answered.event.endless
      rw [hstops, List.append_nil]
      refine he.turn ?_ ?_ answered.matching answered.event.flow.1 hendless
      · rw [loop]
        exact id
      · rw [answered.pc]
        split <;> exact id
  | shutdown pc =>
      have hitems := items_push s.cmdQueue shutdownCommand
      cases he with
      | working hpc running endless =>
          show Ending _ [(s.cmdQueue.push shutdownCommand).1]
          cases hpushed : (s.cmdQueue.push shutdownCommand).1 with
          | true =>
              rw [hpushed] at hitems
              exact .told rfl running hitems endless
          | false =>
              rw [hpushed] at hitems
              exact .refused rfl running ((hitems.trans (List.append_nil _)).symm ▸ endless)
      | refused hpc | told hpc => cases pc.symm.trans hpc
      | stopped hpc =>
          rw [pc] at hpc
          exact absurd hpc id
  | join pc =>
      rw [stops, List.filterMap_nil, List.append_nil]
      have hstopped := (hjoin rfl).1
      cases he with
      | working hpc running | refused hpc running | told hpc running => exact absurd hstopped running
      | stopped hpc hstopped empty => exact .stopped trivial hstopped empty
  | idle pc empty =>
      rw [stops, List.filterMap_nil, List.append_nil]
      have running : s.matching ≠ .stopped := pc ▸ nofun
      exact he.goes rfl running running (items_of_empty empty)
  | stopped pc head type =>
      rw [stops, List.filterMap_cons_none rfl, List.filterMap_nil, List.append_nil]
      exact he.takes rfl (pc ▸ nofun) (items_of_head head) (iff_of_true rfl type)
  | skipped pc head silent =>
      rw [stops, List.filterMap_cons_none rfl, List.filterMap_nil, List.append_nil]
      exact he.takes rfl (pc ▸ nofun) (items_of_head head) (h.stopped_iff rfl rfl)
  | answering pc head answer =>
      rw [stops, List.filterMap_cons_none rfl, List.filterMap_nil, List.append_nil]
      exact he.takes rfl (pc ▸ nofun) (items_of_head head) (h.stopped_iff rfl rfl)
  | respond pc =>
      rw [stops, List.filterMap_cons_none rfl, List.filterMap_nil, List.append_nil]
      exact he.goes rfl (pc ▸ nofun) nofun rfl
  | notify pc =>
      rw [stops, List.filterMap_nil, List.append_nil]
      exact he.goes rfl (pc ▸ nofun) nofun rfl

end Steps

/-! ## The descriptors -/

/-- The descriptors the process has open when the loop begins. -/
def Descriptors.initial (D : Descriptors) : List Int :=
  D.listenFd :: D.eventFd :: D.epollFd :: D.others

/-- What is open was open before, or is a client's. -/
structure Accounted (D : Descriptors) (r : Routes) : Prop where
  perm : r.openFds.Perm (r.connections.keys ++ D.initial)
  apart : ∀ fd ∈ r.connections.keys, fd ∉ D.initial

section Accounts

variable {D : Descriptors} {r : Routes}

theorem Accounted.link (h : Accounted D r) {fd : Int} (fresh : fd ∉ r.openFds) :
    Accounted D (r.link fd) := by
  have hfresh : fd ∉ r.connections.keys ++ D.initial := fun hmem => fresh (h.perm.mem_iff.mpr hmem)
  rw [List.mem_append, not_or] at hfresh
  have hkeys : (r.link fd).connections.keys = fd :: r.connections.keys :=
    UnorderedMap.keys_emplace (not_not.mp (mt UnorderedMap.mem_keys_iff.mpr hfresh.1))
  constructor
  · rw [hkeys]
    exact h.perm.cons fd
  · rw [hkeys]
    exact List.forall_mem_cons.mpr ⟨hfresh.2, h.apart⟩

theorem Accounted.unlink (h : Accounted D r) {fd : Int} {c : Connection}
    (found : r.connections.find fd = some c) (tok : SessionToken) :
    Accounted D (r.unlink fd tok) := by
  have hmem : fd ∈ r.connections.keys := UnorderedMap.mem_keys_iff.mpr (found ▸ nofun)
  have hkeys : (r.unlink fd tok).connections.keys = r.connections.keys.filter (· ≠ fd) :=
    UnorderedMap.keys_erase
  constructor
  · have hinitial : D.initial.filter (· ≠ fd) = D.initial := by
      refine List.filter_eq_self.mpr fun j hj => decide_eq_true ?_
      rintro rfl
      exact h.apart _ hmem hj
    have hperm := h.perm.filter (· ≠ fd)
    rw [List.filter_append, hinitial, ← hkeys] at hperm
    exact hperm
  · rw [hkeys]
    exact fun j hj => h.apart j (List.mem_of_mem_filter hj)

theorem Accounted.assign (h : Accounted D r) (fd : Int) (c : Connection) :
    Accounted D (r.assign fd c) := by
  have hkeys := r.connections.keys_assign fd c
  exact ⟨h.perm.trans (hkeys.symm.append_right _), fun j hj => h.apart j (hkeys.mem_iff.mp hj)⟩

/-- **One step** keeps the account, but for the last, which closes it. -/
theorem Step.accounted {s s' : Server} (hs : Sound s) {l : Label} (h : Step D s l s')
    (open' : s'.gateway ≠ .exited) (ha : Accounted D s.toRoutes) : Accounted D s'.toRoutes := by
  have hacts := h.acts hs
  obtain ⟨input, es⟩ := l
  dsimp only at hacts
  cases hacts with
  | cutOff pc target found | hungUp pc found => exact ha.unlink found _
  | accept pc pos fresh => exact ha.link fresh
  | received => exact ha.assign _ _
  | overflowed pc found full => exact (ha.assign _ _).unlink (Routed.find_assign_self found _) _
  | starved | refused => exact ha.assign _ _
  | answered loop found long read answered eventCount =>
      rw [answered.routes]
      exact ha.assign _ _
  | join => exact absurd rfl open'
  | _ => exact ha

end Accounts

/-- What the process leaves open when `main` returns. -/
def Descriptors.left (D : Descriptors) : List Int :=
  D.others.filter fun fd => fd ≠ D.epollFd ∧ fd ≠ D.eventFd ∧ fd ≠ D.listenFd

theorem Accounted.filter {D : Descriptors} {r : Routes} (h : Accounted D r) :
    (r.openFds.filter fun fd =>
      fd ∉ r.connections.keys ∧ fd ≠ D.epollFd ∧ fd ≠ D.eventFd ∧ fd ≠ D.listenFd).Perm D.left := by
  refine (h.perm.filter _).trans (List.Perm.of_eq ?_)
  have hkeys : (r.connections.keys.filter fun fd =>
      fd ∉ r.connections.keys ∧ fd ≠ D.epollFd ∧ fd ≠ D.eventFd ∧ fd ≠ D.listenFd) = [] := by
    refine List.filter_eq_nil_iff.mpr fun fd hfd hp => ?_
    exact (of_decide_eq_true hp).1 hfd
  rw [List.filter_append, hkeys, List.nil_append, Descriptors.initial, Descriptors.left]
  rw [List.filter_cons_of_neg, List.filter_cons_of_neg, List.filter_cons_of_neg]
  · refine List.filter_congr fun fd hfd => decide_eq_decide.mpr ⟨fun hp => hp.2, fun hp => ?_⟩
    refine ⟨fun hmem => h.apart fd hmem ?_, hp⟩
    exact List.mem_cons_of_mem _ (List.mem_cons_of_mem _ (List.mem_cons_of_mem _ hfd))
  · simp
  · simp
  · simp

theorem Step.exited {D : Descriptors} {s s' : Server} (hs : Sound s) {l : Label}
    (h : Step D s l s') (pc : s.gateway = .exited) :
    s'.gateway = .exited ∧ s'.openFds = s.openFds := by
  have hacts := h.acts hs
  obtain ⟨input, es⟩ := l
  dsimp only at hacts
  cases hacts with
  | idle | stopped | skipped | answering | respond | notify => exact ⟨pc, rfl⟩
  | dropped hpc | accept hpc | eventFd hpc | listenFd hpc | clientFd hpc | epollFails hpc
  | drained hpc | taken hpc | sent hpc | cutOff hpc | acceptFails hpc | ignored hpc | hungUp hpc
  | received hpc | overflowed hpc | starved hpc | refused hpc | answered hpc | shutdown hpc
  | join hpc => cases pc.symm.trans hpc

theorem Step.exits {D : Descriptors} {s s' : Server} (hs : Sound s) {l : Label}
    (h : Step D s l s') (pc : s.gateway ≠ .exited) (pc' : s'.gateway = .exited) :
    l.input = .join := by
  have hacts := h.acts hs
  obtain ⟨input, es⟩ := l
  dsimp only at hacts ⊢
  cases hacts with
  | join => rfl
  | idle | stopped | skipped | answering | respond | notify | dropped | accept =>
      exact absurd pc' pc
  | answered loop found long read answered eventCount =>
      rw [answered.pc] at pc'
      split at pc' <;> cases pc'
  | eventFd | listenFd | clientFd | epollFails | drained | taken | sent | cutOff | acceptFails
  | ignored | hungUp | received | overflowed | starved | refused | shutdown => cases pc'

/-! ## Runs -/

section Runs

variable {D : Descriptors} {ts : List (Taken Server Label)} {s : Server}

theorem stops_append (es fs : List Event) : stops (es ++ fs) = stops es ++ stops fs :=
  List.filterMap_append

theorem ServerRun.ending (h : ServerRun D ts s) : Ending s (stops (events ts)) := by
  refine Run.invariant (I := fun ts s => Ending s (stops (events ts))) ?_ ?_ h
  · rintro s rfl
    refine .working id nofun ?_
    intro cmd hcmd
    rw [show (Server.fresh D).cmdQueue.items = [] from Queue.items_fresh] at hcmd
    cases hcmd
  · intro ts s l s' hr he hstep
    rw [events_append, events_singleton, stops_append]
    exact hstep.ending (ServerRun.sound hr) he

theorem ServerRun.stops_of_inside (h : ServerRun D ts s) (inside : s.gateway.Inside) :
    stops (events ts) = [] := by
  have hover : ¬ s.gateway.Over := by
    intro hover
    rcases inside with hw | hnext
    · rw [hw] at hover
      exact hover
    · cases hpc : s.gateway with
      | join | exited =>
          rw [hpc] at hnext
          exact hnext rfl
      | _ =>
          rw [hpc] at hover
          exact hover
  have hending := h.ending
  generalize stops (events ts) = bs at hending
  cases hending with
  | working => rfl
  | refused pc | told pc =>
      rw [pc] at hover
      exact absurd trivial hover
  | stopped pc => exact absurd pc hover

/-- **The descriptors**: while the server runs, those of its clients and those it began
with; behind `main`, those that were not its own. -/
theorem ServerRun.accounted (h : ServerRun D ts s) :
    (s.gateway ≠ .exited → Accounted D s.toRoutes) ∧
      (s.gateway = .exited → s.openFds.Perm D.left) := by
  refine Run.invariant (I := fun _ s => (s.gateway ≠ .exited → Accounted D s.toRoutes) ∧
    (s.gateway = .exited → s.openFds.Perm D.left)) ?_ ?_ h
  · rintro s rfl
    refine ⟨fun _ => ⟨List.Perm.refl _, List.forall_mem_nil _⟩, nofun⟩
  · rintro ts s l s' hr ⟨hopen, hleft⟩ hstep
    have hs := ServerRun.sound hr
    by_cases pc : s.gateway = .exited
    · obtain ⟨hpc, hfds⟩ := hstep.exited hs pc
      exact ⟨fun hne => absurd hpc hne, fun _ => hfds ▸ hleft pc⟩
    · refine ⟨fun hne => hstep.accounted hs hne (hopen pc), fun hpc => ?_⟩
      rw [(hstep.joined (hstep.exits hs pc hpc)).2]
      exact (hopen pc).filter

/-- The turns of the matching thread until it looks for the next command. -/
def MatchingPc.turns : MatchingPc → Nat
  | .respond _ => 2
  | .notify => 1
  | .poll | .stopped => 0

/-- The input is the matching thread's. -/
def Input.engine : Input → Bool
  | .poll | .respond | .notify => true
  | _ => false

theorem Sound.can_serve (hs : Sound s) (running : s.matching ≠ .stopped)
    (busy : s.matching = .poll → s.cmdQueue.items ≠ []) :
    ∃ l s', Step D s l s' ∧ l.input.engine = true ∧ s'.gateway = s.gateway ∧
      s'.toRoutes = s.toRoutes ∧ stops l.events = [] ∧
      3 * s'.cmdQueue.items.length + s'.matching.turns
        < 3 * s.cmdQueue.items.length + s.matching.turns := by
  cases pc : s.matching with
  | stopped => exact absurd pc running
  | respond rsp =>
      let s₁ := { s with rspQueue := (s.rspQueue.push rsp).2, matching := .notify }
      refine ⟨⟨.respond, [.responded rsp (s.rspQueue.push rsp).1]⟩, s₁, ?_, rfl, rfl, rfl, rfl, ?_⟩
      · simp only [Step, step, pc]
        rfl
      · exact Nat.lt_succ_self _
  | notify =>
      let s₁ := { s with eventCount := notifyCount s.eventCount, matching := .poll }
      refine ⟨⟨.notify, []⟩, s₁, ?_, rfl, rfl, rfl, rfl, Nat.lt_succ_self _⟩
      simp only [Step, step, pc]
      rfl
  | poll =>
      have hstep : Step D s ⟨.poll, (pollStep s).2⟩ (pollStep s).1 := by
        simp only [Step, step, pc]
      have hacts := Step.acts hs hstep
      refine ⟨_, _, hstep, ?_⟩
      dsimp only at hacts ⊢
      generalize (pollStep s).2 = es at hacts ⊢
      generalize (pollStep s).1 = s₁ at hacts ⊢
      cases hacts with
      | idle _ empty => exact absurd empty (busy pc)
      | stopped _ head | answering _ head =>
          refine ⟨rfl, rfl, rfl, rfl, ?_⟩
          rw [items_of_head head, List.length_cons]
          dsimp only [MatchingPc.turns]
          omega
      | skipped _ head silent =>
          refine ⟨rfl, rfl, rfl, rfl, ?_⟩
          rw [items_of_head head, List.length_cons]
          dsimp only
          rw [pc]
          dsimp only [MatchingPc.turns]
          omega

theorem ServerRun.can_serve (h : ServerRun D ts s) :
    ∃ us s', Run (· = s) (Step D) us s' ∧ (∀ t ∈ us, t.label.input.engine = true) ∧
      s'.gateway = s.gateway ∧ s'.toRoutes = s.toRoutes ∧ stops (events us) = [] ∧
      (s'.matching = .stopped ∨ s'.matching = .poll ∧ s'.cmdQueue.items = []) := by
  induction hn : 3 * s.cmdQueue.items.length + s.matching.turns using Nat.strongRecOn
    generalizing ts s with
  | ind n ih =>
      by_cases hdone : s.matching = .stopped ∨ s.matching = .poll ∧ s.cmdQueue.items = []
      · exact ⟨[], s, .start rfl, List.forall_mem_nil _, rfl, rfl, rfl, hdone⟩
      · rw [not_or, not_and] at hdone
        obtain ⟨l, s₁, hstep, hengine, hpc, hroutes, hstops, hlt⟩ :=
          (ServerRun.sound h).can_serve (D := D) hdone.1 hdone.2
        obtain ⟨us, s', hus, hengine', hpc', hroutes', hstops', hend⟩ :=
          ih _ (hn ▸ hlt) (h.next hstep) rfl
        refine ⟨⟨s, l, s₁⟩ :: us, s', .cons hstep hus, List.forall_mem_cons.mpr ⟨hengine, hengine'⟩,
          hpc'.trans hpc, hroutes'.trans hroutes, ?_, hend⟩
        show stops (l.events ++ events us) = []
        rw [stops_append, hstops, hstops']
        rfl

theorem mem_stops {es : List Event} {b : Bool} (h : b ∈ stops es) : Event.shutdownCommand b ∈ es := by
  obtain ⟨e, he, heq⟩ := List.mem_filterMap.mp h
  cases e with
  | shutdownCommand enqueued =>
      obtain rfl := Option.some.inj heq
      exact he
  | _ => cases heq

/-- `main` can return from here, should `epoll_wait` fail. -/
def CanExit (D : Descriptors) (s : Server) : Prop :=
  ∃ us s', Run (· = s) (Step D) us s' ∧ s'.gateway = .exited

theorem CanExit.of_run {us : List (Taken Server Label)} {s' : Server}
    (hus : Run (· = s) (Step D) us s') (h : CanExit D s') : CanExit D s := by
  obtain ⟨vs, s'', hvs, pc⟩ := h
  exact ⟨us ++ vs, s'', hus.append hvs, pc⟩

theorem CanExit.of_step {l : Label} {s' : Server} (hstep : Step D s l s') (h : CanExit D s') :
    CanExit D s :=
  .of_run (.cons hstep (.start rfl)) h

theorem canExit_of_stopped (pc : s.gateway = .join) (stopped : s.matching = .stopped) :
    CanExit D s := by
  obtain ⟨routes, cmdQueue, rspQueue, eventCount, gateway, matching⟩ := s
  dsimp only at pc stopped
  subst pc stopped
  have hstep : Step D ⟨routes, cmdQueue, rspQueue, eventCount, .join, .stopped⟩ ⟨.join, []⟩ _ := rfl
  exact .of_step hstep ⟨[], _, .start rfl, rfl⟩

theorem ServerRun.canExit_of_told (h : ServerRun D ts s) (pc : s.gateway = .join)
    (told : stops (events ts) = [true]) : CanExit D s := by
  obtain ⟨us, s', hus, -, hpc, -, hstops, hend⟩ := h.can_serve
  have hrun : ServerRun D (ts ++ us) s' := h.append hus
  have hending := hrun.ending
  rw [events_append, stops_append, told, hstops] at hending
  refine .of_run hus (canExit_of_stopped (hpc.trans pc) ?_)
  cases hending with
  | told _ running last _ =>
      obtain stopped | ⟨-, empty⟩ := hend
      · exact absurd stopped running
      · rw [empty] at last
        exact absurd last.symm (List.append_ne_nil_of_right_ne_nil _ (List.cons_ne_nil _ _))
  | stopped _ stopped _ => exact stopped

/-- Behind the loop the engine can make room for the shutdown command. -/
theorem ServerRun.canExit_of_shutdown (h : ServerRun D ts s) (pc : s.gateway = .shutdown) :
    CanExit D s := by
  obtain ⟨us, s', hus, -, hpc, -, -, hend⟩ := h.can_serve
  have hrun : ServerRun D (ts ++ us) s' := h.append hus
  have pc' := hpc.trans pc
  have hending := hrun.ending
  generalize hbs : stops (events (ts ++ us)) = bs at hending
  cases hending with
  | refused pc'' | told pc'' => cases pc'.symm.trans pc''
  | stopped pc'' =>
      rw [pc'] at pc''
      exact absurd pc'' id
  | working _ running _ =>
      obtain stopped | ⟨-, empty⟩ := hend
      · exact absurd stopped running
      · have hroom : (s'.cmdQueue.push shutdownCommand).1 = true := by
          rw [Queue.push_fst]
          refine decide_eq_true ?_
          rw [Queue.HasRoom, empty]
          decide
        let s₁ := { s' with
          cmdQueue := (s'.cmdQueue.push shutdownCommand).2, gateway := .join }
        have hstep : Step D s' ⟨.shutdown, [.shutdownCommand true]⟩ s₁ := by
          rw [← hroom]
          simp only [Step, step, pc']
          rfl
        refine .of_run hus (.of_step hstep ?_)
        refine ServerRun.canExit_of_told (hrun.next hstep) rfl ?_
        rw [events_append, events_singleton, stops_append, hbs]
        rfl

/-- From the loop there is a way out, once `epoll_wait` fails. -/
theorem ServerRun.canExit_of_inside (h : ServerRun D ts s)
    (inside : s.gateway.Inside) : CanExit D s := by
  obtain ⟨us, s', hus, hw, -⟩ := h.can_come_back inside
  have hrun : ServerRun D (ts ++ us) s' := h.append hus
  have hstep : Step D s' ⟨.epollFails, []⟩ { s' with gateway := .shutdown } := by
    simp only [Step, step, hw]
  have hrun' : ServerRun D _ { s' with gateway := .shutdown } := hrun.next hstep
  exact .of_run hus (.of_step hstep (hrun'.canExit_of_shutdown rfl))

theorem ServerRun.canExit (h : ServerRun D ts s)
    (hrefused : Event.shutdownCommand false ∉ events ts) : CanExit D s := by
  have hending := h.ending
  generalize hbs : stops (events ts) = bs at hending
  cases hending with
  | working pc running endless =>
      cases hpc : s.gateway with
      | shutdown => exact h.canExit_of_shutdown hpc
      | join | exited =>
          rw [hpc] at pc
          exact absurd trivial pc
      | wait => exact h.canExit_of_inside (Or.inl hpc)
      | drain | deliver | accepting | dispatch | parse =>
          refine h.canExit_of_inside (Or.inr ?_)
          rw [hpc]
          exact Option.some_ne_none _
  | refused pc running endless =>
      exact absurd (mem_stops (hbs ▸ List.mem_singleton_self false)) hrefused
  | told pc running last endless => exact h.canExit_of_told pc hbs
  | stopped pc stopped empty =>
      cases hpc : s.gateway with
      | join => exact canExit_of_stopped hpc stopped
      | exited => exact ⟨[], s, .start rfl, hpc⟩
      | wait | drain | deliver | accepting | dispatch | parse | shutdown =>
          rw [hpc] at pc
          exact absurd pc id

/-- How things stand when `main` returns.  `responded` is what the engine has offered to the
response queue, refused or not; `placed` is what found room there. -/
structure AtExit (D : Descriptors) (es : List Event) (s : Server) : Prop where
  taken : popped es = enqueued es
  responded : responded es = ordered es
  undrained : placed es = gone es ++ s.rspQueue.items
  descriptors : s.openFds.Perm D.left

/-- **When the server can still exit.**  From a state of any run `main` can be brought to
return, by the engine and a kernel whose `epoll_wait` fails, exactly if the shutdown command
was not refused; and where it has returned, the engine has taken every command that found
room and offered a response to every order of them, what is left of those that found room is
still queued, and no descriptor of the server's is open. -/
theorem server_can_exit_iff (D : Descriptors) :
    (∀ ts s, ServerRun D ts s → (CanExit D s ↔ Event.shutdownCommand false ∉ events ts)) ∧
    ∀ ts s, ServerRun D ts s → s.gateway = .exited → AtExit D (events ts) s := by
  constructor
  · intro ts s h
    refine ⟨?_, h.canExit⟩
    rintro ⟨us, s', hus, pc⟩ hrefused
    have hrun : ServerRun D (ts ++ us) s' := h.append hus
    have hend := hrun.ending
    have hmem : false ∈ stops (events (ts ++ us)) := by
      rw [events_append, stops_append]
      exact List.mem_append_left _ (List.mem_filterMap.mpr ⟨_, hrefused, rfl⟩)
    generalize stops (events (ts ++ us)) = bs at hend hmem
    cases hend with
    | working pc' =>
        rw [pc] at pc'
        exact absurd trivial pc'
    | refused pc' => cases pc.symm.trans pc'
    | told | stopped => exact absurd hmem (by decide)
  · intro ts s h pc
    have hend := h.ending
    generalize stops (events ts) = bs at hend
    cases hend with
    | working pc' =>
        rw [pc] at pc'
        exact absurd trivial pc'
    | refused pc' | told pc' => cases pc.symm.trans pc'
    | stopped _ stopped empty =>
        have hcommands := h.commands
        have hanswers := h.answers
        have hresponses := h.responses
        rw [empty, List.append_nil] at hcommands
        rw [stopped] at hanswers
        rw [pc] at hresponses
        refine ⟨hcommands.symm, ?_, hresponses, h.accounted.2 pc⟩
        rw [← response_enqueued, hcommands, hanswers]
        exact (List.append_nil _).symm

end Runs

end TradingGateway.Gateway
