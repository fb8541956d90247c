/-
# `Gateway.Turns` — the gateway comes back to `epoll_wait`

One event is handled before the next, so whoever keeps the gateway busy with one keeps
everybody else waiting.  Two of the three loops in the event loop take from something
that the other side fills at the same time: the response drain pops what the engine is
still pushing, and the parse loop reads what a client has sent.

| at | turns left |
| :-- | :-- |
| `drain`, `deliver` | two for every response in flight, and one |
| `dispatch` | 66 |
| `parse` | one for every frame in the parser, and one |
| `accepting` | 67, not counting the connections accepted |
| `shutdown`, `join` | 2, 1 |

`Server.turns` goes down with every turn of the gateway, and the engine does not raise it
(`Step.turns`): an order is parsed outside the drain, so that while the gateway drains,
the engine can only push what is in flight already.  Hence the bound of `comes_back`,
whatever the engine does in between.
-/
import TradingGateway.Gateway.Progress

namespace TradingGateway.Gateway

open Lib OrderEntry Spsc

/-! ## The turns left -/

/-- The input is a turn of the gateway; an `accept` that returns a connection is not
counted. -/
def Input.turn : Input → Bool
  | .accept _ | .poll | .respond | .notify => false
  | _ => true

/-- The iterations left of the parse loop. -/
def Routes.iterations (r : Routes) (fd : Int) : Nat :=
  match r.connections.find fd with
  | some c => c.parser.contents.length / kFrameSize + 1
  | none => 0

/-- The turns left at a stop, with the routes `r` and `n` responses in flight. -/
def GatewayPc.turns (r : Routes) (n : Nat) : GatewayPc → Nat
  | .wait | .exited => 0
  | .drain => 2 * n + 1
  | .deliver _ => 2 * n
  | .accepting _ => 67
  | .dispatch _ _ => 66
  | .parse fd _ => r.iterations fd
  | .shutdown => 2
  | .join => 1

/-- The turns left until the gateway is back at `epoll_wait`, or is done. -/
def Server.turns (s : Server) : Nat := s.gateway.turns s.toRoutes (inFlight s).length

/-- The next turn of a busy gateway, where the kernel has nothing new for it: `accept` and
`recv` would block, and `send` takes the frame. -/
def GatewayPc.next : GatewayPc → Option Input
  | .drain => some .drain
  | .deliver _ => some (.deliver kFrameSize)
  | .accepting _ => some .acceptFails
  | .dispatch _ _ => some (.recv .wouldBlock)
  | .parse _ _ => some .parse
  | .wait | .shutdown | .join | .exited => none

/-- The turns the gateway took. -/
def turnsTaken (ts : List (Taken Server Label)) : Nat := ts.countP fun t => t.label.input.turn

/-! ## One step -/

section Steps

variable {D : Descriptors} {s s' : Server}

theorem Routes.iterations_of_find {r : Routes} {fd : Int} {c : Connection}
    (found : r.connections.find fd = some c) :
    r.iterations fd = c.parser.contents.length / kFrameSize + 1 := by
  rw [iterations, found]

/-- A parser holds at most 64 frames. -/
theorem Routes.iterations_le (r : Routes) (fd : Int) : r.iterations fd ≤ 65 := by
  rw [iterations]
  split
  next c _ =>
    have hle : c.parser.contents.length ≤ 4096 := c.parser.wellFormed.length_contents_le
    have hframes := Nat.div_le_div_right (c := kFrameSize) hle
    exact Nat.succ_le_succ hframes
  next => exact Nat.zero_le _

theorem Passes.length_inFlight {es : List Event} (h : Passes s es s') :
    (gone es).length + (inFlight s').length ≤ (inFlight s).length + (ordered es).length := by
  have hcommands := congrArg (List.filterMap Traced.response) h.commands
  rw [List.filterMap_append, List.filterMap_append, response_enqueued] at hcommands
  have hcommands := congrArg List.length hcommands
  have hanswers := congrArg List.length h.answers
  have hresponses := congrArg List.length h.responses
  have hplaced : (placed es).length ≤ (responded es).length := (placed_sublist es).length_le
  simp only [List.length_append] at hcommands hanswers hresponses
  simp only [inFlight, List.length_append]
  omega

theorem Step.length_inFlight (hs : Sound s) {l : Label} (h : Step D s l s')
    (quiet : ordered l.events = []) :
    (gone l.events).length + (inFlight s').length ≤ (inFlight s).length := by
  have hle := (h.passes hs).length_inFlight
  rwa [quiet] at hle

theorem GatewayPc.turns_mono {pc : GatewayPc} {r : Routes} {m n : Nat} (h : m ≤ n) :
    pc.turns r m ≤ pc.turns r n := by
  cases pc with
  | drain => exact Nat.succ_le_succ (Nat.mul_le_mul_left 2 h)
  | deliver rsp => exact Nat.mul_le_mul_left 2 h
  | _ => exact le_refl _

theorem iterations_taken {r : Routes} {fd : Int} {c c' : Connection}
    (found : r.connections.find fd = some c) (long : kFrameSize ≤ c.parser.contents.length)
    (taken : c'.parser.contents = c.parser.contents.drop kFrameSize) :
    (r.assign fd c').iterations fd + 1 = r.iterations fd := by
  have found' : (r.assign fd c').connections.find fd = some c' := Routed.find_assign_self found c'
  rw [Routes.iterations_of_find found, Routes.iterations_of_find found', taken, List.length_drop,
    Nat.div_eq_sub_div (by decide) long]

/-- **One step**: a turn of the gateway leaves one turn less, and the engine adds none. -/
theorem Step.turns (hs : Sound s) {l : Label} (h : Step D s l s') (away : s.gateway ≠ .wait) :
    s'.turns + l.input.turn.toNat ≤ s.turns := by
  have hacts := h.acts hs
  have hflight := h.length_inFlight hs
  obtain ⟨input, es⟩ := l
  dsimp only at hacts hflight ⊢
  -- a turn that leads from `pc` to `pc'`, and takes `n` responses from what is in flight
  have turn : ∀ {pc pc' : GatewayPc} (n : Nat), s.gateway = pc → s'.gateway = pc' →
      n + (inFlight s').length ≤ (inFlight s).length →
      (∀ m m', n + m' ≤ m → pc'.turns s'.toRoutes m' + 1 ≤ pc.turns s.toRoutes m) →
      s'.turns + 1 ≤ s.turns := by
    intro pc pc' n hpc hpc' hle hturns
    rw [Server.turns, Server.turns, hpc, hpc']
    exact hturns _ _ hle
  -- a step that leaves the gateway where it is
  have stays : s'.toRoutes = s.toRoutes → s'.gateway = s.gateway →
      0 + (inFlight s').length ≤ (inFlight s).length → s'.turns ≤ s.turns := by
    intro hroutes hpc hle
    rw [Server.turns, Server.turns, hroutes, hpc]
    exact GatewayPc.turns_mono ((Nat.le_add_left _ _).trans hle)
  cases hacts with
  | eventFd pc | listenFd pc | clientFd pc | epollFails pc => exact absurd pc away
  | drained pc empty => exact turn 0 pc rfl (hflight rfl) fun _ _ _ => Nat.le_add_left _ _
  | dropped pc head stale =>
      refine turn 1 pc pc (hflight rfl) fun m m' hm => ?_
      show 2 * m' + 1 + 1 ≤ 2 * m + 1
      omega
  | taken pc head passes =>
      refine turn 0 pc rfl (hflight rfl) fun m m' hm => ?_
      show 2 * m' + 1 ≤ 2 * m + 1
      omega
  | sent pc =>
      refine turn 1 pc rfl (hflight rfl) fun m m' hm => ?_
      show 2 * m' + 1 + 1 ≤ 2 * m
      omega
  | cutOff pc target found =>
      refine turn 1 pc rfl (hflight rfl) fun m m' hm => ?_
      show 2 * m' + 1 + 1 ≤ 2 * m
      omega
  | accept pc pos fresh =>
      have hpc : s.turns = 67 := by
        rw [Server.turns, pc]
        rfl
      rw [hpc, Server.turns, pc]
      exact le_refl _
  | acceptFails pc => exact turn 0 pc rfl (hflight rfl) fun _ _ _ => le_refl _
  | ignored pc | hungUp pc found | overflowed pc found full =>
      exact turn 0 pc rfl (hflight rfl) fun _ _ _ => Nat.succ_le_succ (Nat.zero_le _)
  | received pc found fits =>
      exact turn 0 pc rfl (hflight rfl) fun _ _ _ =>
        Nat.succ_le_succ (Routes.iterations_le _ _)
  | starved loop found short | refused loop found long bad =>
      refine turn 0 loop rfl (hflight rfl) fun _ _ _ => ?_
      show 1 ≤ s.iterations _
      rw [Routes.iterations_of_find found]
      exact Nat.le_add_left _ _
  | @answered fd c c' r e _ loop found long read answered eventCount =>
      show s'.turns + 1 ≤ s.turns
      rw [Server.turns, Server.turns, loop, answered.pc]
      split
      next =>
        show 1 ≤ s.iterations _
        rw [Routes.iterations_of_find found]
        exact Nat.le_add_left _ _
      next =>
        show s'.iterations fd + 1 ≤ s.iterations fd
        rw [answered.routes, iterations_taken found long answered.taken]
  | shutdown pc => exact turn 0 pc rfl (hflight rfl) fun _ _ _ => le_refl _
  | join pc => exact turn 0 pc rfl (hflight rfl) fun _ _ _ => le_refl _
  | idle | stopped | skipped | answering | respond | notify =>
      exact stays rfl rfl (hflight rfl)

theorem GatewayPc.turn_of_next {pc : GatewayPc} {input : Input} (h : pc.next = some input) :
    input.turn = true ∧ input ≠ .epollFails := by
  cases pc with
  | drain | deliver | accepting | dispatch | parse =>
      obtain rfl := Option.some.inj h
      exact ⟨rfl, nofun⟩
  | wait | shutdown | join | exited => cases h

/-- The gateway is in the event loop. -/
def GatewayPc.Inside (pc : GatewayPc) : Prop := pc = .wait ∨ pc.next ≠ none

/-- Only a failing `epoll_wait` leads out of it. -/
theorem Step.inside (hs : Sound s) {l : Label} (h : Step D s l s') (inside : s.gateway.Inside)
    (other : l.input ≠ .epollFails) : s'.gateway.Inside := by
  have hacts := h.acts hs
  obtain ⟨input, es⟩ := l
  dsimp only at hacts other
  cases hacts with
  | epollFails pc => exact absurd rfl other
  | shutdown pc | join pc =>
      rw [pc] at inside
      rcases inside with hw | hnext
      · cases hw
      · exact absurd rfl hnext
  | drained | ignored | hungUp | overflowed | starved | refused => exact Or.inl rfl
  | eventFd | listenFd | clientFd | taken | sent | cutOff | acceptFails | received =>
      exact Or.inr (Option.some_ne_none _)
  | answered loop found long read answered eventCount =>
      rw [answered.pc]
      split
      next => exact Or.inl rfl
      next => exact Or.inr (Option.some_ne_none _)
  | dropped | accept | idle | stopped | skipped | answering | respond | notify => exact inside

/-- The gateway is in one of the two loops that nothing new from the kernel keeps going. -/
def GatewayPc.Looping : GatewayPc → Prop
  | .drain | .deliver _ | .parse _ _ => True
  | _ => False

theorem GatewayPc.next_of_looping {pc : GatewayPc} (h : pc.Looping) :
    pc.next = some .drain ∨ pc.next = some (.deliver kFrameSize) ∨ pc.next = some .parse := by
  cases pc with
  | drain => exact Or.inl rfl
  | deliver rsp => exact Or.inr (Or.inl rfl)
  | parse fd shouldClose => exact Or.inr (Or.inr rfl)
  | wait | accepting | dispatch | shutdown | join | exited => exact h.elim

theorem Step.looping (hs : Sound s) {l : Label} (h : Step D s l s') (loop : s.gateway.Looping) :
    s'.gateway = .wait ∨ s'.gateway.Looping := by
  have hacts := h.acts hs
  obtain ⟨input, es⟩ := l
  dsimp only at hacts
  cases hacts with
  | eventFd pc | listenFd pc | clientFd pc | epollFails pc | accept pc | acceptFails pc
  | ignored pc | hungUp pc | overflowed pc | received pc | shutdown pc | join pc =>
      rw [pc] at loop
      exact loop.elim
  | drained | starved | refused => exact Or.inl rfl
  | taken | sent | cutOff => exact Or.inr trivial
  | answered loop found long read answered eventCount =>
      rw [answered.pc]
      split
      next => exact Or.inl rfl
      next => exact Or.inr trivial
  | dropped | idle | stopped | skipped | answering | respond | notify => exact Or.inr loop

theorem Sound.can_turn (hs : Sound s) {input : Input} (hnext : s.gateway.next = some input) :
    ∃ es s', Step D s ⟨input, es⟩ s' := by
  have enabled : (step D s input).isSome := by
    cases pc : s.gateway with
    | drain | deliver | accepting | dispatch =>
        rw [pc] at hnext
        obtain rfl := Option.some.inj hnext
        simp only [step, pc, Option.isSome_some]
    | parse fd shouldClose =>
        rw [pc] at hnext
        obtain rfl := Option.some.inj hnext
        obtain ⟨rfl, c, found⟩ := hs.looping pc
        rcases parseStep_cases pc found with ⟨-, heq⟩ | ⟨-, -, heq⟩ |
          ⟨_, _, _, _, -, -, heq, -⟩
        all_goals simp only [step, pc, heq, Option.isSome_some]
    | wait | shutdown | join | exited =>
        rw [pc] at hnext
        cases hnext
  obtain ⟨⟨s', es⟩, hstep⟩ := Option.isSome_iff_exists.mp enabled
  exact ⟨es, s', hstep⟩

end Steps

/-! ## Runs -/

section Runs

variable {D : Descriptors} {us : List (Taken Server Label)} {s : Server}

theorem length_inFlight_le (s : Server) : (inFlight s).length ≤ 8192 := by
  have hc : s.cmdQueue.items.length < 4096 := s.cmdQueue.wellFormed.length_lt
  have hr : s.rspQueue.items.length < 4096 := s.rspQueue.wellFormed.length_lt
  have hd : s.gateway.delivering.length ≤ 1 := by
    cases s.gateway with
    | deliver rsp => exact le_refl _
    | _ => exact Nat.zero_le _
  have hm : s.matching.responding.length ≤ 1 := by
    cases s.matching with
    | respond rsp => exact le_refl _
    | _ => exact Nat.zero_le _
  have hf := List.length_filterMap_le Traced.response s.cmdQueue.items
  simp only [inFlight, List.length_append]
  omega

theorem turns_le (s : Server) : s.turns ≤ 16385 := by
  have hle := length_inFlight_le s
  rw [Server.turns]
  cases s.gateway with
  | parse fd shouldClose => exact (s.iterations_le fd).trans (by decide)
  | drain =>
      show 2 * _ + 1 ≤ 16385
      omega
  | deliver rsp =>
      show 2 * _ ≤ 16385
      omega
  | _ => exact of_decide_eq_true rfl

/-- A busy gateway comes back, and needs nothing for it but its own turns. -/
theorem ServerRun.can_come_back (h : ServerRun D us s)
    (inside : s.gateway.Inside) :
    ∃ vs s', Run (· = s) (Step D) vs s' ∧ s'.gateway = .wait ∧
      ∀ t ∈ vs, t.src.gateway.next = some t.label.input := by
  induction hn : s.turns using Nat.strongRecOn generalizing us s with
  | ind n ih =>
      rcases inside with hw | hnext
      · exact ⟨[], s, .start rfl, hw, List.forall_mem_nil _⟩
      · obtain ⟨input, hnext⟩ := Option.ne_none_iff_exists'.mp hnext
        have hs := ServerRun.sound h
        obtain ⟨hturn, hloop⟩ := GatewayPc.turn_of_next hnext
        obtain ⟨es, s₁, hstep⟩ := hs.can_turn (D := D) hnext
        have hinside := hstep.inside hs (Or.inr (hnext ▸ Option.some_ne_none _)) hloop
        have away : s.gateway ≠ .wait := by
          intro hw
          rw [hw] at hnext
          cases hnext
        have hturns := hstep.turns hs away
        rw [hturn, hn] at hturns
        obtain ⟨vs, s', hvs, hw, hall⟩ := ih _ hturns (h.next hstep) hinside rfl
        exact ⟨⟨s, ⟨input, es⟩, s₁⟩ :: vs, s', .cons hstep hvs, hw,
          List.forall_mem_cons.mpr ⟨hnext, hall⟩⟩

/-- And from the response drain it comes back with the queue empty. -/
theorem ServerRun.can_drain (h : ServerRun D us s) (pc : s.gateway = .drain) :
    ∃ vs s', Run (· = s) (Step D) vs s' ∧ s'.gateway = .wait ∧ s'.rspQueue.items = [] ∧
      s'.cmdQueue = s.cmdQueue ∧ s'.matching = s.matching ∧
      ∀ t ∈ vs, t.label.input = .drain ∨ t.label.input = .deliver kFrameSize := by
  induction hn : s.rspQueue.items.length using Nat.strongRecOn generalizing us s with
  | ind n ih =>
      have hstep : Step D s ⟨.drain, (drainStep s).2⟩ (drainStep s).1 := by
        simp only [Step, step, pc]
      have hacts := drainStep_acts (D := D) pc
      generalize (drainStep s).2 = es at hstep hacts
      generalize (drainStep s).1 = s₁ at hstep hacts
      cases hacts with
      | drained _ empty =>
          have hstart : Run (· = s) (Step D) [] s := .start rfl
          refine ⟨_, _, hstart.next hstep, rfl, ?_, rfl, rfl, List.forall_mem_singleton.mpr (Or.inl rfl)⟩
          exact (items_of_empty empty).trans empty
      | dropped _ head stale =>
          have hlt : s.rspQueue.pop.2.items.length < n := by
            rw [← hn, items_of_head head]
            exact Nat.lt_succ_self _
          obtain ⟨vs, s', hvs, hw, hempty, hcmd, hmatching, hall⟩ := ih _ hlt (h.next hstep) pc rfl
          exact ⟨_, s', .cons hstep hvs, hw, hempty, hcmd, hmatching,
            List.forall_mem_cons.mpr ⟨Or.inl rfl, hall⟩⟩
      | @taken rsp _ head passes =>
          have hlt : s.rspQueue.pop.2.items.length < n := by
            rw [← hn, items_of_head head]
            exact Nat.lt_succ_self _
          have hlen : (encodeResponse rsp.value blankFrame).length = kFrameSize :=
            (carries_encodeResponse _ length_blankFrame).length
          let s₁ := { s with rspQueue := s.rspQueue.pop.2, gateway := .deliver rsp }
          have hsend : Step D s₁ ⟨.deliver kFrameSize, [.engineFrame (s₁.slot rsp.value.session.slot).fd
              (encodeResponse rsp.value blankFrame) rsp]⟩ { s₁ with gateway := .drain } := by
            rw [← hlen]
            exact congrArg some deliverStep_of_sent
          obtain ⟨vs, s', hvs, hw, hempty, hcmd, hmatching, hall⟩ :=
            ih _ hlt ((h.next hstep).next hsend) rfl rfl
          exact ⟨_, s', .cons hstep (.cons hsend hvs), hw, hempty, hcmd, hmatching,
            List.forall_mem_cons.mpr ⟨Or.inl rfl, List.forall_mem_cons.mpr ⟨Or.inr rfl, hall⟩⟩⟩

/-- **The gateway comes back.**  Whatever the engine does meanwhile and however much the
clients have sent, an event is handled within `turns` turns, a descriptor accepted aside:
65 in the parse loop, and not more than there can be responses in the response drain.  And
from a busy gateway there is always a way back that waits for neither the engine nor a
client. -/
theorem comes_back (D : Descriptors) :
    (∀ us s vs s', ServerRun D us s → Run (· = s) (Step D) vs s' →
      (∀ t ∈ vs, t.src.gateway ≠ .wait) → turnsTaken vs + s'.turns ≤ s.turns) ∧
    (∀ s : Server, s.turns ≤ 16385 ∧ ∀ fd, s.gateway = .parse fd false → s.turns ≤ 65) ∧
    ∀ us s, ServerRun D us s → s.gateway.next ≠ none →
      ∃ vs s', Run (· = s) (Step D) vs s' ∧ s'.gateway = .wait ∧
        ∀ t ∈ vs, t.src.gateway.next = some t.label.input := by
  refine ⟨?_, ?_, fun us s h hnext => h.can_come_back (Or.inr hnext)⟩
  · intro us s vs s' h hvs away
    refine Run.ranked Server.turns (fun l => l.input.turn) hvs fun t ht => ?_
    obtain ⟨⟨ws, hws⟩, hstep⟩ := hvs.of_mem ht
    exact hstep.turns (ServerRun.sound (h.append hws)) (away t ht)
  · intro s
    refine ⟨turns_le s, fun fd pc => ?_⟩
    rw [Server.turns, pc]
    exact s.iterations_le fd

end Runs

end TradingGateway.Gateway
