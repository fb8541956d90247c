/-
# `Bench.Finish` — every bench client can finish

From wherever a run of at most 1024 bench clients has come to, it can be brought to its end:
every client that has connected makes the round trips it has left and closes.  The server
alone brings about what a client waits for (`Serves`), a stop after the other, and the
kernel reports nothing that is not ready (`System.Prompt`):

| at `epoll_wait` | the server |
| :-- | :-- |
| `can_come_back` | is, whatever it was at |
| `can_accept_all` | has accepted every client that has connected |
| `can_read` | has read and parsed all a client has sent |
| `can_flush` | has answered what it read, and sent the answers |

The last stop is where a lost wake-up would show: the gateway is told of the answers by the
counter of the eventfd alone, which is not 0 while there are any (`ServerRun.awake`).
-/
import TradingGateway.Bench.Served
import TradingGateway.Gateway.Handover
import TradingGateway.Gateway.Shutdown
import Mathlib.Data.Fintype.EquivFin
import Mathlib.Data.Int.Init
import Mathlib.Logic.Relation

namespace TradingGateway.Bench

open Lib OrderEntry Gateway Spsc

/-! ## The server goes on alone -/

/-- A prompt kernel answers so whatever the clients do. -/
def Always : Input → Prop
  | .deliver sent => sent = kFrameSize
  | .drain | .parse | .poll | .respond | .notify => True
  | _ => False

theorem Always.prompt {input : Input} (h : Always input) (D : Descriptors) (s : System) :
    s.Prompt D input := by
  cases input with
  | deliver sent => exact fun _ _ _ => h
  | drain | parse | poll | respond | notify => exact trivial
  | _ => exact absurd h id

theorem always_of_engine {input : Input} (h : input.engine = true) : Always input := by
  cases input with
  | poll | respond | notify => exact trivial
  | _ => cases h

/-- A step of the server, with a prompt kernel. -/
def ServerStep (D : Descriptors) (s s' : System) : Prop :=
  ∃ input es s₁, s.Prompt D input ∧ Gateway.Step D s.server ⟨input, es⟩ s₁ ∧
    s' = { s with server := s₁, clients := s.carry es }

/-- The server takes the system from `s` to `s'`. -/
abbrev Serves (D : Descriptors) : System → System → Prop := Relation.ReflTransGen (ServerStep D)

/-- The system can go from `s` to `s'` with a prompt kernel. -/
abbrev Leads (D : Descriptors) (opts : Nat → Options) (bound : Nat) : System → System → Prop :=
  Relation.ReflTransGen fun s s' => ∃ l, PromptStep D opts bound s l s'

/-- The states of the system, whatever the kernel reported. -/
abbrev Attained (D : Descriptors) (opts : Nat → Options) (bound : Nat) (s : System) : Prop :=
  Reachable (· = System.fresh D) (SystemStep D opts bound) s

/-- The clients are where they were, and nothing is new in their streams to the server. -/
structure Undisturbed (s s' : System) : Prop where
  connected : s'.connected = s.connected
  accepts : s.server.accepts ≤ s'.server.accepts
  pc : ∀ k, (s'.clients k).pc = (s.clients k).pc
  up : ∀ k, (s'.clients k).up <:+ (s.clients k).up

section Serves

variable {D : Descriptors} {opts : Nat → Options} {bound : Nat} {s s' : System}

theorem SystemStep.of_server {input : Input} {es : List Event} {s₁ : Server}
    (hallows : s.Allows input) (hstep : Gateway.Step D s.server ⟨input, es⟩ s₁) :
    SystemStep D opts bound s ⟨.server input, es⟩
      { s with server := s₁, clients := s.carry es } := by
  unfold Gateway.Step at hstep
  rw [SystemStep, System.step, if_pos hallows, hstep, Option.map_some]

theorem ServerStep.prompt (h : ServerStep D s s') : ∃ l, PromptStep D opts bound s l s' := by
  obtain ⟨input, es, s₁, hprompt, hstep, rfl⟩ := h
  refine ⟨_, .of_server hprompt.allows hstep, fun _ heq => ?_⟩
  obtain rfl := Act.server.inj heq
  exact hprompt

theorem Serves.leads (h : Serves D s s') : Leads D opts bound s s' :=
  Relation.ReflTransGen.mono (fun _ _ hstep => hstep.prompt) _ _ h

theorem Attained.leads (h : Attained D opts bound s) (hl : Leads D opts bound s s') :
    Attained D opts bound s' := by
  induction hl with
  | refl => exact h
  | tail _ hstep ih =>
      obtain ⟨ts, hts⟩ := ih
      obtain ⟨l, hstep, -⟩ := hstep
      exact ⟨_, hts.next hstep⟩

theorem Leads.run (h : Leads D opts bound s s') :
    ∃ us, Run (· = s) (PromptStep D opts bound) us s' := by
  induction h with
  | refl => exact ⟨[], .start rfl⟩
  | tail _ hstep ih =>
      obtain ⟨us, hus⟩ := ih
      obtain ⟨l, hstep⟩ := hstep
      exact ⟨_, hus.next hstep⟩

theorem Attained.serves (h : Attained D opts bound s) (hs : Serves D s s') :
    Attained D opts bound s' :=
  h.leads (Serves.leads hs)

theorem Attained.orderly (h : Attained D opts bound s) : ∃ us, Orderly D opts us s := by
  obtain ⟨ts, hts⟩ := h
  obtain ⟨us, horderly, -⟩ := SystemRun.orderly hts
  exact ⟨us, horderly⟩

theorem Serves.undisturbed (h : Serves D s s') (hs : Attained D opts bound s) :
    Undisturbed s s' := by
  induction h with
  | refl => exact ⟨rfl, le_refl _, fun _ => rfl, fun _ => List.suffix_rfl⟩
  | @tail s₁ s₂ h₁ hstep ih =>
      obtain ⟨us, horderly⟩ := (hs.serves h₁).orderly
      obtain ⟨input, es, s₃, hprompt, hstep, rfl⟩ := hstep
      have haccepts := (hstep.move horderly.sound).accepts_le horderly.sound
      exact ⟨ih.connected, ih.accepts.trans haccepts, ih.pc,
        fun k => (List.drop_suffix _ _).trans (ih.up k)⟩

/-- What the server does by itself, it does here. -/
theorem serves_of_run {vs : List (Taken Server Gateway.Label)} {s' : Server}
    (hvs : Run (· = s.server) (Gateway.Step D) vs s') (halways : ∀ t ∈ vs, Always t.label.input) :
    ∃ s₂, Serves D s s₂ ∧ s₂.server = s' := by
  induction hvs with
  | start heq => exact ⟨s, .refl, heq.symm⟩
  | @next ts s₁ s' l _ hstep ih =>
      obtain ⟨s₂, hserves, rfl⟩ := ih fun t ht => halways t (List.mem_append_left _ ht)
      have hlast := halways _ (List.mem_append_right _ List.mem_cons_self)
      exact ⟨_, hserves.tail ⟨l.input, l.events, s', hlast.prompt D s₂, hstep, rfl⟩, rfl⟩

theorem serverStep {input : Input} {es : List Event} {s₁ : Server} (hprompt : s.Prompt D input)
    (hstep : Gateway.Step D s.server ⟨input, es⟩ s₁) :
    ServerStep D s { s with server := s₁, clients := s.carry es } :=
  ⟨input, es, s₁, hprompt, hstep, rfl⟩

/-! ## Its stops -/

theorem can_leave_loop (h : Attained D opts bound s)
    (loop : s.server.gateway = .wait ∨ s.server.gateway.Looping) :
    ∃ s₂, Serves D s s₂ ∧ s₂.server.gateway = .wait := by
  induction hn : s.server.turns using Nat.strongRecOn generalizing s with
  | ind n ih =>
      obtain hw | hloop := loop
      · exact ⟨s, .refl, hw⟩
      obtain ⟨us, horderly⟩ := h.orderly
      have hs := horderly.sound
      obtain ⟨input, hnext, halways⟩ :
          ∃ input, s.server.gateway.next = some input ∧ Always input := by
        obtain hnext | hnext | hnext := GatewayPc.next_of_looping hloop
        · exact ⟨_, hnext, trivial⟩
        · exact ⟨_, hnext, rfl⟩
        · exact ⟨_, hnext, trivial⟩
      obtain ⟨es, s₁, hstep⟩ := hs.can_turn (D := D) hnext
      have away : s.server.gateway ≠ .wait := by
        intro hw
        rw [hw] at hloop
        exact hloop.elim
      have hturns := hstep.turns hs away
      rw [(GatewayPc.turn_of_next hnext).1, hn] at hturns
      have hserve := Relation.ReflTransGen.single (serverStep (halways.prompt D s) hstep)
      obtain ⟨s₂, hs₂, hw⟩ := ih _ hturns (h.serves hserve) (hstep.looping hs hloop) rfl
      exact ⟨s₂, hserve.trans hs₂, hw⟩

theorem exists_recv (D : Descriptors) (s : System) : ∃ r, s.Prompt D (.recv r) := by
  cases hreading : s.reading with
  | none =>
      refine ⟨.wouldBlock, fun c hc => ?_⟩
      rw [hreading] at hc
      cases hc
  | some c =>
      have hall : ∀ {P : Client → Prop}, P c → ∀ d ∈ s.reading, P d := by
        intro P hc d hd
        rw [hreading] at hd
        exact Option.some.inj hd ▸ hc
      by_cases hup : c.up = []
      · by_cases hclosed : c.pc = .closed
        · exact ⟨.closed, hall ⟨hclosed, hup⟩⟩
        · exact ⟨.wouldBlock, hall ⟨hup, hclosed⟩⟩
      · have pos : 0 < (c.up.take 1024).length := by
          rw [List.length_take]
          exact lt_min (by decide) (List.length_pos_iff.mpr hup)
        exact ⟨.bytes (c.up.take 1024) pos (List.length_take_le _ _), hall (List.take_prefix _ _)⟩

theorem can_dispatch (h : Attained D opts bound s) {fd : Int} {epollIn : Bool}
    (pc : s.server.gateway = .dispatch fd epollIn) :
    ∃ s₂, Serves D s s₂ ∧ s₂.server.gateway = .wait := by
  obtain ⟨r, hprompt⟩ := exists_recv D s
  have hstep : Gateway.Step D s.server ⟨.recv r, (dispatchStep s.server fd epollIn r).2⟩
      (dispatchStep s.server fd epollIn r).1 := by
    simp only [Gateway.Step, step, pc]
  obtain ⟨us, horderly⟩ := h.orderly
  have hacts := hstep.acts horderly.sound
  have hloop : (dispatchStep s.server fd epollIn r).1.gateway = .wait ∨
      (dispatchStep s.server fd epollIn r).1.gateway.Looping := by
    generalize (dispatchStep s.server fd epollIn r).1 = s₁ at hacts
    generalize (dispatchStep s.server fd epollIn r).2 = es at hacts
    cases hacts with
    | ignored | hungUp | overflowed => exact Or.inl rfl
    | received => exact Or.inr trivial
  have hserve := Relation.ReflTransGen.single (serverStep hprompt hstep)
  obtain ⟨s₂, hs₂, hw⟩ := can_leave_loop (h.serves hserve) hloop
  exact ⟨s₂, hserve.trans hs₂, hw⟩

theorem exists_fresh (fds : List Int) : ∃ fd : Int, 0 ≤ fd ∧ fd ∉ fds := by
  obtain ⟨n, hn⟩ := Infinite.exists_notMem_finset (fds.map Int.toNat).toFinset
  refine ⟨n, Int.natCast_nonneg n, fun hmem => hn ?_⟩
  exact List.mem_toFinset.mpr (List.mem_map.mpr ⟨n, hmem, Int.toNat_natCast n⟩)

theorem can_accept_pending (h : Attained D opts bound s) {epollIn : Bool}
    (pc : s.server.gateway = .accepting epollIn) :
    ∃ s₂, Serves D s s₂ ∧ s₂.server.gateway = .wait ∧ s₂.server.accepts = s₂.connected := by
  induction hn : s.connected - s.server.accepts using Nat.strongRecOn generalizing s with
  | ind n ih =>
      obtain ⟨us, horderly⟩ := h.orderly
      rcases Nat.lt_or_eq_of_le horderly.accepts with hlt | heq
      · obtain ⟨fd, pos, fresh⟩ := exists_fresh s.server.openFds
        have haccept : Gateway.Step D s.server ⟨.accept fd, (acceptConn s.server fd).2⟩
            (acceptConn s.server fd).1 := by
          simp only [Gateway.Step, step, pc]
          exact if_pos ⟨pos, fresh⟩
        have hprompt : s.Prompt D (.accept fd) := hlt
        have hserve := Relation.ReflTransGen.single (serverStep hprompt haccept)
        have hless : s.connected - (s.server.accepts + 1) < n := by omega
        obtain ⟨s₂, hs₂, hw, hall⟩ := ih _ hless (h.serves hserve) pc rfl
        exact ⟨s₂, hserve.trans hs₂, hw, hall⟩
      · have hfails : Gateway.Step D s.server ⟨.acceptFails, []⟩
            { s.server with gateway := .dispatch D.listenFd epollIn } := by
          simp only [Gateway.Step, step, pc]
        have hprompt : s.Prompt D .acceptFails := heq
        have hserve := Relation.ReflTransGen.single (serverStep hprompt hfails)
        obtain ⟨s₂, hs₂, hw⟩ := can_dispatch (h.serves hserve) rfl
        have hu := Serves.undisturbed (hserve.trans hs₂) h
        obtain ⟨us₂, horderly₂⟩ := (h.serves (hserve.trans hs₂)).orderly
        have hle := horderly₂.accepts
        have hge := hu.accepts
        refine ⟨s₂, hserve.trans hs₂, hw, ?_⟩
        rw [hu.connected] at hle ⊢
        omega

theorem can_come_back (h : Attained D opts bound s) :
    ∃ s₂, Serves D s s₂ ∧ s₂.server.gateway = .wait := by
  obtain ⟨us, horderly⟩ := h.orderly
  have inside := horderly.inside
  cases pc : s.server.gateway with
  | wait => exact ⟨s, .refl, pc⟩
  | drain | deliver | parse =>
      refine can_leave_loop h (Or.inr ?_)
      rw [pc]
      exact trivial
  | accepting epollIn =>
      obtain ⟨s₂, hs₂, hw, -⟩ := can_accept_pending h pc
      exact ⟨s₂, hs₂, hw⟩
  | dispatch fd epollIn => exact can_dispatch h pc
  | shutdown | join | exited =>
      rw [pc] at inside
      rcases inside with hw | hnext
      · cases hw
      · exact absurd rfl hnext

theorem can_accept_all (h : Attained D opts bound s) (hD : D.listenFd ≠ D.eventFd)
    (hw : s.server.gateway = .wait) :
    ∃ s₂, Serves D s s₂ ∧ s₂.server.gateway = .wait ∧ s₂.server.accepts = s₂.connected := by
  obtain ⟨us, horderly⟩ := h.orderly
  rcases Nat.lt_or_eq_of_le horderly.accepts with hlt | heq
  · have hevent : Gateway.Step D s.server ⟨.event D.listenFd true, []⟩
        { s.server with gateway := .accepting true } := by
      simp only [Gateway.Step, step, hw, if_neg hD, if_true]
    have hready : s.Readable D D.listenFd := by
      rw [System.Readable, if_neg hD, if_pos rfl]
      exact hlt
    have hprompt : s.Prompt D (.event D.listenFd true) := ⟨rfl, hready⟩
    have hserve := Relation.ReflTransGen.single (serverStep hprompt hevent)
    obtain ⟨s₂, hs₂, hw₂, hall⟩ := can_accept_pending (h.serves hserve) rfl
    exact ⟨s₂, hserve.trans hs₂, hw₂, hall⟩
  · exact ⟨s, .refl, hw, heq⟩

theorem up_carry (s : System) (es : List Event) (k : Nat) :
    (s.carry es k).up = (s.clients k).up.drop (received k es).length := rfl

theorem can_read (h : Attained D opts bound s) (hw : s.server.gateway = .wait) {k : Nat}
    (hk : k < s.server.accepts) (hopen : (s.clients k).pc ≠ .closed)
    (hle : (s.clients k).up.length ≤ 1024) :
    ∃ s₂, Serves D s s₂ ∧ s₂.server.gateway = .wait ∧ (s₂.clients k).up = [] := by
  obtain ⟨us, horderly⟩ := h.orderly
  obtain ⟨fd, c, found, hserial⟩ := horderly.held k hk hopen
  by_cases hnil : (s.clients k).up = []
  · exact ⟨s, .refl, hw, hnil⟩
  have pos : 0 < (s.clients k).up.length := List.length_pos_iff.mpr hnil
  -- the client's descriptor is none of the server's own
  have hapart : fd ∉ D.initial := by
    refine (horderly.run.accounted.1 (by rw [hw]; exact GatewayPc.noConfusion)).apart fd ?_
    exact UnorderedMap.mem_keys_iff.mpr (found ▸ Option.some_ne_none c)
  have hlisten : fd ≠ D.listenFd := fun heq => hapart (heq ▸ List.mem_cons_self)
  have heventFd : fd ≠ D.eventFd := fun heq =>
    hapart (heq ▸ List.mem_cons_of_mem _ List.mem_cons_self)
  have hfits : c.parser.Fits (s.clients k).up := by
    obtain ⟨n, m, hsends⟩ := horderly.sends k
    have ht := horderly.run.tracks k
    have houtside : ¬ InLoop s.server k := not_inLoop (by rw [hw]; rfl) k
    exact ht.fits (Tracks.not_finished ht hsends.sent) houtside found hserial hle
  have hevent : Gateway.Step D s.server ⟨.event fd true, []⟩
      { s.server with gateway := .dispatch fd true } := by
    simp only [Gateway.Step, step, hw, if_neg heventFd, if_neg hlisten]
  have hready : s.Readable D fd := by
    rw [System.Readable, if_neg heventFd, if_neg hlisten]
    refine ⟨s.clients k, ?_, Or.inl hnil⟩
    rw [System.peer, found, Option.map_some, hserial]
    exact rfl
  have hprompt : s.Prompt D (.event fd true) := ⟨rfl, hready⟩
  have h₁ := serverStep hprompt hevent
  generalize hs₁ : System.mk _ _ _ = s₁ at h₁
  have hrecv : Gateway.Step D s₁.server
      ⟨.recv (.bytes (s.clients k).up pos hle), [.received c.serial (s.clients k).up]⟩
      { s₁.server with
        toRoutes := s₁.server.assign fd { c with parser := (c.parser.append (s.clients k).up).2 }
        gateway := .parse fd false } := by
    subst hs₁
    simp only [Gateway.Step, step]
    exact congrArg some (dispatchStep_received found hfits pos hle)
  have hprompt' : s₁.Prompt D (.recv (.bytes (s.clients k).up pos hle)) := by
    subst hs₁
    intro d hd
    have hd : (s.server.connections.find fd).map (fun conn => s.carry [] conn.serial) = some d := hd
    rw [found, Option.map_some, hserial] at hd
    obtain rfl := Option.some.inj hd
    exact List.prefix_rfl
  have h₂ := serverStep hprompt' hrecv
  have hserve := Relation.ReflTransGen.tail (.single h₁) h₂
  obtain ⟨s₃, hback, hw'⟩ := can_come_back (h.serves hserve)
  refine ⟨s₃, hserve.trans hback, hw', ?_⟩
  have hup := (hback.undisturbed (h.serves hserve)).up k
  have hreceived : received k [.received c.serial (s.clients k).up] = (s.clients k).up :=
    (List.append_nil _).trans (if_pos hserial)
  subst hs₁
  dsimp only at hup
  rw [up_carry, up_carry, hreceived, show received k [] = [] from rfl, List.length_nil,
    List.drop_zero, List.drop_length] at hup
  exact List.suffix_nil.mp hup

/-- What was read is answered, and the answers are sent: where the engine has answered, it
has written the eventfd, so that `epoll_wait` reports it. -/
theorem can_flush (h : Attained D opts bound s) (hw : s.server.gateway = .wait) :
    ∃ s₂, Serves D s s₂ ∧ s₂.server.gateway = .wait ∧ inFlight s₂.server = [] := by
  obtain ⟨us, horderly⟩ := h.orderly
  obtain ⟨vs, s', hvs, hengine, hpc, -, hstops, hend⟩ := horderly.run.can_serve
  rw [hw] at hpc
  -- the engine does not stop, as nobody has told it to
  have hrunning : s'.matching = .poll ∧ s'.cmdQueue.items = [] := by
    refine hend.resolve_left fun hstopped => ?_
    have hending := ServerRun.ending (horderly.run.append hvs)
    rw [events_append, stops_append, horderly.run.stops_of_inside horderly.inside, hstops] at hending
    cases hending with
    | working pc running => exact running hstopped
  obtain ⟨s₁, hs₁, rfl⟩ := serves_of_run hvs fun t ht => always_of_engine (hengine t ht)
  have h₁ := h.serves hs₁
  by_cases hnone : s₁.server.rspQueue.items = []
  · refine ⟨s₁, hs₁, hpc, ?_⟩
    rw [inFlight, hpc, hnone, hrunning.1, hrunning.2]
    rfl
  have hevent : Gateway.Step D s₁.server ⟨.event D.eventFd true, []⟩
      { s₁.server with eventCount := 0, gateway := .drain } := by
    simp only [Gateway.Step, step, hpc, if_true]
  have hcount : s₁.server.eventCount ≠ 0 := by
    obtain ⟨us₁, horderly₁⟩ := h₁.orderly
    refine horderly₁.run.awake hnone ?_ ?_
    · rw [hrunning.1]
      exact MatchingPc.noConfusion
    · rw [hpc]
      exact id
  have hready : s₁.Readable D D.eventFd := by
    rw [System.Readable, if_pos rfl]
    exact hcount
  have hprompt : s₁.Prompt D (.event D.eventFd true) := ⟨rfl, hready⟩
  have hs₂ := hs₁.tail (serverStep hprompt hevent)
  generalize hsystem : System.mk _ _ _ = s₂ at hs₂
  have h₂ := h.serves hs₂
  obtain ⟨us₂, horderly₂⟩ := h₂.orderly
  have hdrain : s₂.server.gateway = .drain := by
    subst hsystem
    rfl
  obtain ⟨ws, s'', hws, hw', hempty, hcmd, hmatching, hall⟩ := horderly₂.run.can_drain hdrain
  obtain ⟨s₃, hs₃, rfl⟩ := serves_of_run hws fun t ht => by
    rcases hall t ht with heq | heq <;> rw [heq]
    · exact trivial
    · exact rfl
  refine ⟨s₃, hs₂.trans hs₃, hw', ?_⟩
  subst hsystem
  rw [inFlight, hw', hempty, hcmd, hmatching]
  dsimp only
  rw [hrunning.1, hrunning.2]
  rfl

end Serves

/-! ## A client goes on -/

/-- Client `k` alone has gone on. -/
structure Others (k : Nat) (s s' : System) : Prop where
  connected : s'.connected = s.connected
  pc : ∀ j ≠ k, (s'.clients j).pc = (s.clients j).pc

section Clients

variable {D : Descriptors} {opts : Nat → Options} {bound k left : Nat} {s s' s'' : System}
  {us : List (Taken Server Gateway.Label)}

theorem Others.trans (h : Others k s s') (h' : Others k s' s'') : Others k s s'' :=
  ⟨h'.connected.trans h.connected, fun j hj => (h'.pc j hj).trans (h.pc j hj)⟩

theorem Undisturbed.others (h : Undisturbed s s') (k : Nat) : Others k s s' :=
  ⟨h.connected, fun j _ => h.pc j⟩

theorem others_update (s : System) (k : Nat) (c : Client) :
    Others k s { s with clients := Function.update s.clients k c } :=
  ⟨rfl, fun _ hj => congrArg Client.pc (Function.update_of_ne hj c s.clients)⟩

theorem leads_of_act (act : Act) {c : Client}
    (hstep : s.step D opts bound act = s.act k (some c)) (hclient : ∀ input, act ≠ .server input) :
    Leads D opts bound s { s with clients := Function.update s.clients k c } :=
  .single ⟨⟨act, []⟩, hstep, fun input heq => absurd heq (hclient input)⟩

theorem send_of_pc (pc : (s.clients k).pc = .sending (left + 1)) :
    ∃ c, (s.clients k).send = some c ∧ c.pc = .receiving left := by
  rw [Client.send, pc]
  exact ⟨_, rfl, rfl⟩

theorem can_send (D : Descriptors) (opts : Nat → Options) (bound : Nat)
    (pc : (s.clients k).pc = .sending (left + 1)) :
    ∃ s', Leads D opts bound s s' ∧ (s'.clients k).pc = .receiving left ∧ Others k s s' := by
  obtain ⟨c, hc, hpc⟩ := send_of_pc pc
  refine ⟨_, leads_of_act (.send k) (by rw [System.step, hc]) nofun, ?_, others_update s k c⟩
  dsimp only
  rw [Function.update_self, hpc]

theorem can_recv (D : Descriptors) (opts : Nat → Options) (bound : Nat)
    (pc : (s.clients k).pc = .receiving left) (whole : kFrameSize ≤ (s.clients k).down.length) :
    ∃ s', Leads D opts bound s s' ∧ (s'.clients k).pc = .sending left ∧ Others k s s' := by
  obtain ⟨c, hc, hpc⟩ : ∃ c, (s.clients k).recv = some c ∧ c.pc = .sending left := by
    rw [Client.recv, pc]
    exact ⟨_, if_pos whole, rfl⟩
  refine ⟨_, leads_of_act (.recv k) (by rw [System.step, hc]) nofun, ?_, others_update s k c⟩
  dsimp only
  rw [Function.update_self, hpc]

theorem can_close (D : Descriptors) (opts : Nat → Options) (bound : Nat)
    (pc : (s.clients k).pc = .sending 0) :
    ∃ s', Leads D opts bound s s' ∧ (s'.clients k).pc = .closed ∧ Others k s s' := by
  obtain ⟨c, hc, hpc⟩ : ∃ c, (s.clients k).close = some c ∧ c.pc = .closed := by
    rw [Client.close, pc]
    exact ⟨_, rfl, rfl⟩
  refine ⟨_, leads_of_act (.close k) (by rw [System.step, hc]) nofun, ?_, others_update s k c⟩
  dsimp only
  rw [Function.update_self, hpc]

theorem Attained.sane (h : Attained D opts bound s) (hbound : bound ≤ kMaxSlots) :
    ∃ us, Sane D opts us s := by
  obtain ⟨ts, hts⟩ := h
  obtain ⟨us, hsane, -⟩ := SystemRun.sane hts hbound
  exact ⟨us, hsane⟩

theorem Sane.length_up (h : Sane D opts us s) (k : Nat) : (s.clients k).up.length ≤ 1024 := by
  obtain ⟨n, m, w, hfed⟩ := h.fed k
  obtain ⟨q, rest, hle, hread, -⟩ := hfed.inFlight h.run h.intact
  have hlength := congrArg List.length hfed.sends.sent
  rw [List.length_append, hread.length, length_orders] at hlength
  have hbounds := hfed.sends.stage.bounds
  simp only [kFrameSize] at hlength
  omega

/-- Where the server has read what a client sent, it has asked the engine for all of it. -/
theorem Orderly.caught_up (h : Orderly D opts us s) (hw : s.server.gateway = .wait)
    (hup : (s.clients k).up = []) :
    ∃ n m, Sends (opts k).rounds k (events us) (s.clients k) n m ∧
      (asked (events us)).filter (isFor k) = (List.range n).map (answerTo k) := by
  obtain ⟨n, m, hsends⟩ := h.sends k
  have ht := h.run.tracks k
  obtain ⟨q, rest, -, hread⟩ := Tracks.orders ht hsends.sent
  have hlength := congrArg List.length hsends.sent
  rw [hup, List.append_nil, hread.length, length_orders] at hlength
  have hshort := hread.short.resolve_right (not_inLoop (by rw [hw]; rfl) k)
  have hn : q = n := by
    simp only [kFrameSize] at hlength hshort
    omega
  exact ⟨n, m, hsends, hn ▸ hread.asked (Tracks.not_finished ht hsends.sent)⟩

theorem Sane.caught_up (h : Sane D opts us s) (hw : s.server.gateway = .wait)
    (hflight : inFlight s.server = []) (hup : (s.clients k).up = []) :
    ∃ m w, Fed (opts k).rounds k (events us) (s.clients k) (m + w) m w := by
  obtain ⟨n, m, w, hfed⟩ := h.fed k
  obtain ⟨n', m', hsends, hasked⟩ := h.toOrderly.caught_up hw hup
  have hlength := congrArg List.length hasked
  rw [← h.run.gone_append_inFlight h.intact.kept, hflight, List.append_nil,
    h.intact.gone_eq_sent, ← List.countP_eq_length_filter, List.length_map, List.length_range]
    at hlength
  have hn' : m + w = n' := hfed.answered.symm.trans hlength
  have hm' : m' = m := hsends.replies.symm.trans hfed.sends.replies
  subst hn' hm'
  exact ⟨m', w, hsends, hfed.replies, hfed.coming, hfed.answered⟩

/-- The answer that a client waits for can come. -/
theorem can_be_answered (h : Attained D opts bound s) (hbound : bound ≤ kMaxSlots)
    (hD : D.listenFd ≠ D.eventFd) (hk : k < s.connected) (pc : (s.clients k).pc = .receiving left) :
    ∃ s', Leads D opts bound s s' ∧ (s'.clients k).pc = .sending left ∧ Others k s s' := by
  obtain ⟨s₁, hs₁, hw₁⟩ := can_come_back h
  have h₁ := h.serves hs₁
  obtain ⟨s₂, hs₂, hw₂, haccepts⟩ := can_accept_all h₁ hD hw₁
  have h₂ := h₁.serves hs₂
  have hu₂ := Serves.undisturbed (hs₁.trans hs₂) h
  have hopen : (s₂.clients k).pc ≠ .closed := by
    rw [hu₂.pc, pc]
    exact ClientPc.noConfusion
  have hk₂ : k < s₂.server.accepts := by
    rw [haccepts, hu₂.connected]
    exact hk
  obtain ⟨us₂, hsane₂⟩ := h₂.sane hbound
  obtain ⟨s₃, hs₃, hw₃, hup₃⟩ := can_read h₂ hw₂ hk₂ hopen (hsane₂.length_up k)
  have h₃ := h₂.serves hs₃
  obtain ⟨s₄, hs₄, hw₄, hflight⟩ := can_flush h₃ hw₃
  have hserves : Serves D s s₄ := ((hs₁.trans hs₂).trans hs₃).trans hs₄
  have hu := hserves.undisturbed h
  have hup : (s₄.clients k).up = [] := by
    have hsuffix := (hs₄.undisturbed h₃).up k
    rw [hup₃] at hsuffix
    exact List.suffix_nil.mp hsuffix
  obtain ⟨us₄, hsane₄⟩ := (h.serves hserves).sane hbound
  obtain ⟨m, w, hfed⟩ := hsane₄.caught_up hw₄ hflight hup
  have hpc : (s₄.clients k).pc = .receiving left := (hu.pc k).trans pc
  have hstage := hfed.sends.stage
  rw [hpc] at hstage
  have hw : w = 1 := by
    generalize hn : m + w = n at hstage
    cases hstage with
    | receiving total => omega
  have hwhole : kFrameSize ≤ (s₄.clients k).down.length := by
    rw [hfed.coming, hw, acceptedFrames_succ, List.length_append, length_acceptedFrame]
    exact Nat.le_add_right _ _
  obtain ⟨s', hs', hpc', hothers⟩ := can_recv D opts bound hpc hwhole
  exact ⟨s', (Serves.leads hserves).trans hs', hpc', (hu.others k).trans hothers⟩

theorem can_finish (h : Attained D opts bound s) (hbound : bound ≤ kMaxSlots)
    (hD : D.listenFd ≠ D.eventFd) (hk : k < s.connected) (pc : (s.clients k).pc = .sending left) :
    ∃ s', Leads D opts bound s s' ∧ (s'.clients k).pc = .closed ∧ Others k s s' := by
  induction left generalizing s with
  | zero => exact can_close D opts bound pc
  | succ left ih =>
      obtain ⟨s₁, hs₁, pc₁, ho₁⟩ := can_send D opts bound pc
      have h₁ := h.leads hs₁
      have hk₁ : k < s₁.connected := ho₁.connected ▸ hk
      obtain ⟨s₂, hs₂, pc₂, ho₂⟩ := can_be_answered h₁ hbound hD hk₁ pc₁
      obtain ⟨s₃, hs₃, pc₃, ho₃⟩ := ih (h₁.leads hs₂) (ho₂.connected ▸ hk₁) pc₂
      exact ⟨s₃, (hs₁.trans hs₂).trans hs₃, pc₃, (ho₁.trans ho₂).trans ho₃⟩

theorem can_finish_anywhere (h : Attained D opts bound s) (hbound : bound ≤ kMaxSlots)
    (hD : D.listenFd ≠ D.eventFd) (hk : k < s.connected) :
    ∃ s', Leads D opts bound s s' ∧ (s'.clients k).pc = .closed ∧ Others k s s' := by
  cases pc : (s.clients k).pc with
  | connecting =>
      obtain ⟨us, horderly⟩ := h.orderly
      exact absurd pc (horderly.begun k hk)
  | sending left => exact can_finish h hbound hD hk pc
  | receiving left =>
      obtain ⟨s₁, hs₁, pc₁, ho₁⟩ := can_be_answered h hbound hD hk pc
      obtain ⟨s₂, hs₂, pc₂, ho₂⟩ := can_finish (h.leads hs₁) hbound hD (ho₁.connected ▸ hk) pc₁
      exact ⟨s₂, hs₁.trans hs₂, pc₂, ho₁.trans ho₂⟩
  | closed => exact ⟨s, .refl, pc, rfl, fun _ _ => rfl⟩

theorem can_finish_all (h : Attained D opts bound s) (hbound : bound ≤ kMaxSlots)
    (hD : D.listenFd ≠ D.eventFd) (n : Nat) (hn : n ≤ s.connected) :
    ∃ s', Leads D opts bound s s' ∧ s'.connected = s.connected ∧
      ∀ k < n, (s'.clients k).pc = .closed := by
  induction n with
  | zero => exact ⟨s, .refl, rfl, fun k hk => absurd hk (Nat.not_lt_zero k)⟩
  | succ n ih =>
      obtain ⟨s₁, hs₁, hconnected, hclosed⟩ := ih (Nat.le_of_succ_le hn)
      have hlt : n < s₁.connected := by
        rw [hconnected]
        exact hn
      obtain ⟨s₂, hs₂, pc₂, ho₂⟩ := can_finish_anywhere (h.leads hs₁) hbound hD hlt
      refine ⟨s₂, hs₁.trans hs₂, ho₂.connected.trans hconnected, fun k hk => ?_⟩
      rcases Nat.lt_succ_iff_lt_or_eq.mp hk with hlt | rfl
      · rw [ho₂.pc k (Nat.ne_of_lt hlt)]
        exact hclosed k hlt
      · exact pc₂

end Clients

/-! ## One client too many -/

section Crowd

variable {D : Descriptors} {opts : Nat → Options} {bound : Nat} {s s' : System}
  {ts : List (Taken System SystemLabel)}

/-- Any number of clients can connect and be accepted before any of them sends. -/
theorem can_gather (opts : Nat → Options) (hD : D.listenFd ≠ D.eventFd) (n : Nat) (hn : n ≤ bound) :
    ∃ s, Attained D opts bound s ∧ s.server.gateway = .wait ∧ s.connected = n ∧
      s.server.accepts = n ∧
      ∀ k, (s.clients k).pc = if k < n then .sending (opts k).rounds else .connecting := by
  induction n with
  | zero => exact ⟨_, ⟨[], .start rfl⟩, rfl, rfl, rfl, fun k => (if_neg (Nat.not_lt_zero k)).symm⟩
  | succ n ih =>
      obtain ⟨s, hs, hw, hconnected, -, hpc⟩ := ih (Nat.le_of_succ_le hn)
      have hlt : s.connected < bound := hconnected ▸ hn
      have hconnecting : (s.clients s.connected).pc = .connecting := by
        rw [hpc, hconnected, if_neg (Nat.lt_irrefl n)]
      obtain ⟨c, hc, hsending⟩ : ∃ c, (s.clients s.connected).connect (opts s.connected).rounds
          = some c ∧ c.pc = .sending (opts s.connected).rounds := by
        rw [Client.connect, hconnecting]
        exact ⟨_, rfl, rfl⟩
      have hstep : SystemStep D opts bound s ⟨.connect, []⟩
          { s with
            connected := s.connected + 1
            clients := Function.update s.clients s.connected c } := by
        rw [SystemStep, System.step, if_pos hlt, hc]
        rfl
      have h₁ := hs.leads (.single ⟨_, hstep, nofun⟩)
      obtain ⟨s₂, hs₂, hw₂, hall⟩ := can_accept_all h₁ hD hw
      have hu := hs₂.undisturbed h₁
      refine ⟨s₂, h₁.serves hs₂, hw₂, ?_, ?_, fun k => ?_⟩
      · rw [hu.connected]
        exact congrArg Nat.succ hconnected
      · rw [hall, hu.connected]
        exact congrArg Nat.succ hconnected
      · rw [hu.pc, hconnected]
        dsimp only
        rcases Nat.lt_trichotomy k n with hk | rfl | hk
        · rw [Function.update_of_ne (Nat.ne_of_lt hk), hpc, if_pos hk,
            if_pos (Nat.lt_succ_of_lt hk)]
        · rw [Function.update_self, hsending, hconnected, if_pos (Nat.lt_succ_self k)]
        · rw [Function.update_of_ne (Nat.ne_of_gt hk), hpc, if_neg (Nat.lt_asymm hk),
            if_neg (Nat.not_lt.mpr hk)]

theorem not_sent_before {us : List (Taken Server Gateway.Label)} (h : Orderly D opts us s)
    (hpc : ∀ k, (s.clients k).pc = .connecting ∨ (s.clients k).pc = .sending (opts k).rounds)
    (rsp : Traced EngineResponse) : rsp ∉ sent (events us) := by
  intro hsent
  obtain ⟨n, m, hsends⟩ := h.sends rsp.source
  have hn : n = 0 := by
    have hstage := hsends.stage
    rcases hpc rsp.source with hpc | hpc
    · rw [hpc] at hstage
      cases hstage with
      | connecting => rfl
    · rw [hpc] at hstage
      cases hstage with
      | sending total => omega
  subst hn
  have ht := h.run.tracks rsp.source
  obtain ⟨q, rest, hle, hread⟩ := Tracks.orders ht hsends.sent
  obtain rfl := Nat.le_zero.mp hle
  have hnone := hread.asked (Tracks.not_finished ht hsends.sent)
  have hordered := h.run.flow.subset (List.mem_append_left _ hsent)
  have hasked : rsp ∈ asked (events us) := by
    obtain ⟨e, he, hrsp⟩ := List.mem_filterMap.mp hordered
    refine List.mem_filterMap.mpr ⟨e, he, ?_⟩
    cases e with
    | command k msg cmd enqueued =>
        cases enqueued with
        | true => exact hrsp
        | false => cases hrsp
    | _ => cases hrsp
  have hmem : rsp ∈ (asked (events us)).filter (isFor rsp.source) :=
    List.mem_filter.mpr ⟨hasked, decide_eq_true rfl⟩
  rw [hnone] at hmem
  cases hmem

/-- The first client of 1025 is sent nothing: its slot is the last one's. -/
theorem never_sent (h : SystemRun D opts bound ts s) (hserves : Serves D s s')
    (hconnected : s.connected = 1025) (haccepts : s.server.accepts = 1025)
    (hnone : ∀ rsp ∈ sent (seen ts), rsp.source ≠ 0) :
    ∃ ts', SystemRun D opts bound ts' s' ∧ ∀ rsp ∈ sent (seen ts'), rsp.source ≠ 0 := by
  induction hserves with
  | refl => exact ⟨ts, h, hnone⟩
  | @tail s₁ s₂ h₁ hstep ih =>
      obtain ⟨ts₁, hts₁, hnone₁⟩ := ih
      obtain ⟨us, horderly, hevents⟩ := SystemRun.orderly hts₁
      have hu := Serves.undisturbed h₁ ⟨ts, h⟩
      have hcount : s₁.server.accepts = 1025 := by
        have hle := horderly.accepts
        have hge := hu.accepts
        rw [hu.connected] at hle
        omega
      obtain ⟨input, es, s₃, hprompt, hserver, rfl⟩ := hstep
      refine ⟨_, hts₁.next (.of_server hprompt.allows hserver), fun rsp hrsp hsource => ?_⟩
      rw [seen_append, seen_singleton, sent, List.filterMap_append] at hrsp
      rcases List.mem_append.mp hrsp with hrsp | hrsp
      · exact hnone₁ rsp hrsp hsource
      · obtain ⟨fd, frame, he⟩ : ∃ fd frame, Event.engineFrame fd frame rsp ∈ es := by
          obtain ⟨e, he, hrsp⟩ := List.mem_filterMap.mp hrsp
          cases e with
          | engineFrame fd frame rsp' =>
              obtain rfl := Option.some.inj hrsp
              exact ⟨fd, frame, he⟩
          | _ => cases hrsp
        have hs := horderly.sound
        obtain ⟨pc, -⟩ := ((hserver.move hs).seen he).of_engineFrame
        have hflight : rsp ∈ inFlight s₁.server := by
          rw [inFlight, pc]
          exact List.mem_cons_self
        have hsession := (horderly.run.session_of_ordered
          (horderly.run.ordered_of_inFlight hflight)).2.1
        have hgeneration := (hs.delivering pc).1
        rw [hsession, hsource, Routes.slot, hs.routed.generation_eq _ (by decide), hcount]
          at hgeneration
        exact absurd hgeneration (by decide)

/-- What the clients can count on: nothing is lost and no response dropped, and what client
`k` read are the Accepted of its orders, of all of them where it has closed. -/
structure Served (opts : Nat → Options) (es : List Event) (s : System) : Prop where
  kept : ∀ e ∈ es, e.lost = false
  delivered : ∀ rsp, Event.dropped rsp ∉ es
  replies : ∀ k, ∃ m ≤ (opts k).rounds,
    ((s.clients k).replies.map readReply = (List.range m).map fun i => some (.accepted (seqOf i) 0)) ∧
      ((s.clients k).pc = .closed → m = (opts k).rounds)

theorem Stage.le_rounds {rounds n m : Nat} {pc : ClientPc} (h : Stage rounds pc n m) :
    m ≤ rounds ∧ (pc = .closed → m = rounds) := by
  cases h with
  | connecting => exact ⟨Nat.zero_le _, fun heq => ClientPc.noConfusion heq⟩
  | sending total => exact ⟨by omega, fun heq => ClientPc.noConfusion heq⟩
  | receiving total => exact ⟨by omega, fun heq => ClientPc.noConfusion heq⟩
  | closed => exact ⟨le_refl _, fun _ => rfl⟩

theorem Sane.served {us : List (Taken Server Gateway.Label)} (h : Sane D opts us s) :
    Served opts (events us) s where
  kept := h.intact.kept
  delivered := h.intact.delivered
  replies := fun k => by
    obtain ⟨n, m, w, hfed⟩ := h.fed k
    obtain ⟨hle, hclosed⟩ := hfed.sends.stage.le_rounds
    refine ⟨m, hle, ?_, hclosed⟩
    simp only [hfed.replies, List.map_map, Function.comp_def, readReply_acceptedFrame]

theorem exists_not_served (hbound : 1025 ≤ bound) :
    ∃ D opts ts s, SystemRun D opts bound ts s ∧ ¬ Served opts (seen ts) s := by
  let opts : Nat → Options := fun _ => { messages := 1, warmup := 0 }
  have hrounds : ∀ k, (opts k).rounds = 1 := fun _ => rfl
  have hD : Descriptors.standard.listenFd ≠ Descriptors.standard.eventFd := by decide
  obtain ⟨s, ⟨ts, hts⟩, hw, hconnected, haccepts, hpc⟩ := can_gather opts hD 1025 hbound
  have hpc₀ : (s.clients 0).pc = .sending (0 + 1) := hpc 0
  have hnone : ∀ rsp ∈ sent (seen ts), rsp.source ≠ 0 := by
    obtain ⟨us, horderly, hevents⟩ := SystemRun.orderly hts
    intro rsp hrsp
    rw [← hevents] at hrsp
    refine absurd hrsp (not_sent_before horderly (fun k => ?_) rsp)
    rw [hpc k]
    split
    next => exact Or.inr rfl
    next => exact Or.inl rfl
  -- the first client sends its order, and the server has all the time it wants
  obtain ⟨c, hc, hreceiving⟩ := send_of_pc hpc₀
  have hstep : SystemStep .standard opts bound s ⟨.send 0, []⟩
      { s with clients := Function.update s.clients 0 c } := by
    rw [SystemStep, System.step, hc]
    rfl
  have hts₁ := hts.next hstep
  generalize hsystem : System.mk _ _ _ = s₁ at hts₁
  have hw₁ : s₁.server.gateway = .wait := by
    subst hsystem
    exact hw
  have hpc₁ : (s₁.clients 0).pc = .receiving 0 := by
    subst hsystem
    dsimp only
    rw [Function.update_self, hreceiving]
  have hcounts : s₁.connected = 1025 ∧ s₁.server.accepts = 1025 := by
    subst hsystem
    exact ⟨hconnected, haccepts⟩
  have sends : ∀ {us : List (Taken Server Gateway.Label)} {s : System} {n m : Nat},
      Sends 1 0 (events us) (s.clients 0) n m → (s.clients 0).pc = .receiving 0 → n = 1 := by
    intro us s n m h hpc
    have hstage := h.stage
    rw [hpc] at hstage
    cases hstage with
    | receiving total => omega
  have hlen : (s₁.clients 0).up.length ≤ 1024 := by
    obtain ⟨us, horderly, -⟩ := SystemRun.orderly hts₁
    obtain ⟨n, m, hsends⟩ := horderly.sends 0
    obtain rfl := sends hsends hpc₁
    have hlength := congrArg List.length hsends.sent
    rw [List.length_append, length_orders] at hlength
    simp only [kFrameSize] at hlength
    omega
  have h₁ : Attained .standard opts bound s₁ := ⟨_, hts₁⟩
  obtain ⟨s₂, hs₂, hw₂, hup₂⟩ := can_read h₁ hw₁ (hcounts.2 ▸ Nat.succ_pos 1024)
    (hpc₁ ▸ ClientPc.noConfusion) hlen
  have h₂ := h₁.serves hs₂
  obtain ⟨s₃, hs₃, hw₃, hflight⟩ := can_flush h₂ hw₂
  have hu := Serves.undisturbed (hs₂.trans hs₃) h₁
  have hup : (s₃.clients 0).up = [] := by
    have hsuffix := (Serves.undisturbed hs₃ h₂).up 0
    rw [hup₂] at hsuffix
    exact List.suffix_nil.mp hsuffix
  obtain ⟨ts', hts', hnone'⟩ := never_sent hts₁ (hs₂.trans hs₃) hcounts.1 hcounts.2 (by
    rw [seen_append, seen_singleton, List.append_nil]
    exact hnone)
  refine ⟨_, opts, ts', s₃, hts', fun hserved => ?_⟩
  -- all of it is asked for and nothing is in flight, so its answer was sent
  obtain ⟨us, horderly, hevents⟩ := SystemRun.orderly hts'
  obtain ⟨n, m, hsends, hasked⟩ := horderly.caught_up hw₃ hup
  obtain rfl := sends hsends ((hu.pc 0).trans hpc₁)
  have hintact : Intact (events us) := by
    rw [hevents]
    exact ⟨hserved.kept, hserved.delivered⟩
  rw [← horderly.run.gone_append_inFlight hintact.kept, hflight, List.append_nil,
    hintact.gone_eq_sent, hevents] at hasked
  have hmem : answerTo 0 0 ∈ (sent (seen ts')).filter (isFor 0) := by
    rw [hasked]
    exact List.mem_cons_self
  exact hnone' _ (List.mem_of_mem_filter hmem) rfl

end Crowd

/-! ## How many clients the server serves -/

/-- What any number of clients can count on: the server takes their orders for what they
are and offers them to the engine, each client's in their order, and closes no connection
first.  Whether an order found room in the command queue is not said. -/
structure InSequence (es : List Event) (s : System) : Prop where
  engine : ∀ e ∈ es, refuses e = false
  orders : ∀ k, ∃ m, behaviour k es = (List.range m).map fun i => .command (commandOf k i)
  held : ∀ k < s.server.accepts, (s.clients k).pc ≠ .closed →
    ∃ fd c, s.server.connections.find fd = some c ∧ c.serial = k

/-- **Up to 1024 clients are served, and no more**: in the whole run, as slots are not given
back.  Of any number of clients the orders are offered to the engine in sequence and no
connection is closed before its client is; that none of them finds a full queue, nothing is
lost on the way back, and every client reads the answers to its orders, in their order and
nothing else, holds in every run exactly if there is a slot for each. -/
theorem bench_clients_served (bound : Nat) :
    (∀ D opts ts s, SystemRun D opts bound ts s → InSequence (seen ts) s) ∧
      ((∀ D opts ts s, SystemRun D opts bound ts s → Served opts (seen ts) s)
        ↔ bound ≤ kMaxSlots) := by
  refine ⟨fun D opts ts s h => ?_, ?_, ?_⟩
  · obtain ⟨us, horderly, hevents⟩ := SystemRun.orderly h
    rw [← hevents]
    refine ⟨horderly.engine, fun k => ?_, horderly.held⟩
    obtain ⟨n, m, hsends⟩ := horderly.sends k
    obtain ⟨q, rest, -, hread⟩ := Tracks.orders (horderly.run.tracks k) hsends.sent
    exact ⟨q, hread.behaviour⟩
  · intro hall
    by_contra hbound
    obtain ⟨D, opts, ts, s, h, hnot⟩ := exists_not_served (Nat.lt_of_not_le hbound)
    exact hnot (hall D opts ts s h)
  · intro hbound D opts ts s h
    obtain ⟨us, hsane, hevents⟩ := SystemRun.sane h hbound
    rw [← hevents]
    exact hsane.served

/-- **Every client can finish.**  From every state of every run of at most 1024 clients,
whatever the kernel reported in it, the system can be brought to one in which all that have
connected have made their round trips and closed; and from there on the kernel need only
report what is ready. -/
theorem bench_clients_can_finish {D : Descriptors} {opts : Nat → Options} {bound : Nat}
    (hD : D.listenFd ≠ D.eventFd) (hbound : bound ≤ kMaxSlots)
    {ts : List (Taken System SystemLabel)} {s : System} (h : SystemRun D opts bound ts s) :
    ∃ us s', Run (· = s) (PromptStep D opts bound) us s' ∧ s'.connected = s.connected ∧
      ∀ k < s.connected, (s'.clients k).pc = .closed ∧
        (s'.clients k).replies.map readReply
          = (List.range (opts k).rounds).map fun i => some (.accepted (seqOf i) 0) := by
  have hs : Attained D opts bound s := ⟨ts, h⟩
  obtain ⟨s', hs', hconnected, hclosed⟩ := can_finish_all hs hbound hD s.connected (le_refl _)
  obtain ⟨us, hus⟩ := Leads.run hs'
  refine ⟨us, s', hus, hconnected, fun k hk => ⟨hclosed k hk, ?_⟩⟩
  obtain ⟨us', hsane⟩ := (hs.leads hs').sane hbound
  obtain ⟨m, -, hreplies, hall⟩ := hsane.served.replies k
  rw [hreplies, hall (hclosed k hk)]

/-- Two clients have connected, and the first has sent its order. -/
theorem bench_clients_can_finish_twoClients :
    ∃ s us s', s.connected = 2 ∧ (s.clients 0).pc = .receiving 2 ∧
      Run (· = s) (PromptStep .standard (fun _ => { messages := 2, warmup := 1 }) 2) us s' ∧
      ∀ k < 2, (s'.clients k).pc = .closed ∧
        (s'.clients k).replies.map readReply
          = [some (.accepted 1 0), some (.accepted 2 0), some (.accepted 3 0)] := by
  let opts : Nat → Options := fun _ => { messages := 2, warmup := 1 }
  let s₀ : System := .fresh .standard
  let s₁ : System :=
    { s₀ with connected := 1, clients := Function.update s₀.clients 0 { pc := .sending 3 } }
  let s₂ : System :=
    { s₁ with connected := 2, clients := Function.update s₁.clients 1 { pc := .sending 3 } }
  have hstart : SystemRun .standard opts 2 [] s₀ := .start rfl
  have hfirst : SystemStep .standard opts 2 s₀ ⟨.connect, []⟩ s₁ := rfl
  have hsecond : SystemStep .standard opts 2 s₁ ⟨.connect, []⟩ s₂ := rfl
  obtain ⟨c, hc, hpc⟩ : ∃ c, (s₂.clients 0).send = some c ∧ c.pc = .receiving 2 := send_of_pc rfl
  have hsend : SystemStep .standard opts 2 s₂ ⟨.send 0, []⟩
      { s₂ with clients := Function.update s₂.clients 0 c } := by
    rw [SystemStep, System.step, hc]
    rfl
  obtain ⟨us, s', hus, -, hall⟩ := bench_clients_can_finish (by decide) (by decide)
    (((hstart.next hfirst).next hsecond).next hsend)
  exact ⟨_, us, s', rfl, hpc, hus, hall⟩

end TradingGateway.Bench
