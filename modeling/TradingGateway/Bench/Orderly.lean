/-
# `Bench.Orderly` — any number of bench clients

What holds however many clients of `epoll_bench_client.cpp` there are.  The server receives
nothing but their orders, one behind the other, so its parse loop offers every one to the
engine: no frame is refused, none is out of sequence and none is answered without the
engine.  And a connection is not closed before its client has closed.

`Orderly` says so of the server and all clients together, and is kept by each step of
either (`Orderly.serve`, `Orderly.act`).  What comes back is the matter of `Bench.Served`.
-/
import TradingGateway.Bench.Orders
import TradingGateway.Gateway.Closing
import TradingGateway.Gateway.Turns

namespace TradingGateway.Bench

open Lib OrderEntry Gateway Spsc

/-! ## A client's steps -/

/-- What a client can do. -/
inductive Moves (rounds : Nat) (c : Client) : Client → Prop
  | connect (pc : c.pc = .connecting) : Moves rounds c { c with pc := .sending rounds }
  | send {left : Nat} (pc : c.pc = .sending (left + 1)) :
      Moves rounds c
        { c with
          pc := .receiving left
          frame := encodeOrder c.frame c.seq
          seq := c.seq + 1
          up := c.up ++ encodeOrder c.frame c.seq }
  | recv {left : Nat} (pc : c.pc = .receiving left) (whole : kFrameSize ≤ c.down.length) :
      Moves rounds c
        { c with
          pc := .sending left
          frame := c.down.take kFrameSize
          down := c.down.drop kFrameSize
          replies := c.replies ++ [c.down.take kFrameSize] }
  | close (pc : c.pc = .sending 0) : Moves rounds c { c with pc := .closed }

section Moves

variable {rounds : Nat} {c c' : Client}

theorem Moves.of_connect (h : c.connect rounds = some c') : Moves rounds c c' := by
  unfold Client.connect at h
  split at h
  next pc => exact Option.some.inj h ▸ .connect pc
  next => cases h

theorem Moves.of_send (h : c.send = some c') : Moves rounds c c' := by
  unfold Client.send at h
  split at h
  next left pc => exact Option.some.inj h ▸ .send pc
  next => cases h

theorem Moves.of_recv (h : c.recv = some c') : Moves rounds c c' := by
  unfold Client.recv at h
  split at h
  next left pc =>
    split at h
    next whole => exact Option.some.inj h ▸ .recv pc whole
    next => cases h
  next => cases h

theorem Moves.of_close (h : c.close = some c') : Moves rounds c c' := by
  unfold Client.close at h
  split at h
  next pc => exact Option.some.inj h ▸ .close pc
  next => cases h

theorem Moves.ne_connecting (h : Moves rounds c c') : c'.pc ≠ .connecting := by
  cases h with
  | connect | send | recv | close => exact ClientPc.noConfusion

theorem Moves.ne_closed (h : Moves rounds c c') : c.pc ≠ .closed := by
  cases h with
  | connect pc | send pc | recv pc | close pc =>
      rw [pc]
      exact ClientPc.noConfusion

end Moves

/-- How many have connected behind a step of client `k`. -/
def Connects (s : System) (bound k connected : Nat) : Prop :=
  connected = s.connected ∨ connected = s.connected + 1 ∧ k = s.connected ∧ s.connected < bound

theorem Connects.le {s : System} {bound k connected : Nat} (h : Connects s bound k connected) :
    s.connected ≤ connected := by
  rcases h with rfl | ⟨rfl, -⟩
  · exact le_refl _
  · exact Nat.le_succ _

theorem SystemStep.cases {D : Descriptors} {opts : Nat → Options} {bound : Nat} {s s' : System}
    {l : SystemLabel} (h : SystemStep D opts bound s l s') :
    (∃ input s₁, s.Allows input ∧ Gateway.Step D s.server ⟨input, l.events⟩ s₁ ∧
      s' = { s with server := s₁, clients := s.carry l.events }) ∨
    l.events = [] ∧ ∃ k c connected, Moves (opts k).rounds (s.clients k) c ∧
      Connects s bound k connected ∧
      s' = { s with connected := connected, clients := Function.update s.clients k c } := by
  obtain ⟨act, es⟩ := l
  unfold SystemStep at h
  -- a client's step with the streams of client `k`
  have client : ∀ {k connected : Nat} {c : Option Client},
      System.act { s with connected := connected } k c = some (s', es) →
      (∀ c', c = some c' → Moves (opts k).rounds (s.clients k) c') →
      Connects s bound k connected →
      es = [] ∧ ∃ k c connected, Moves (opts k).rounds (s.clients k) c ∧
        Connects s bound k connected ∧
        s' = { s with connected := connected, clients := Function.update s.clients k c } := by
    intro k connected c hact hmoves hconnected
    obtain ⟨c', hc, heq⟩ := Option.map_eq_some_iff.mp hact
    obtain ⟨rfl, rfl⟩ := Prod.mk.inj heq
    exact ⟨rfl, k, c', connected, hmoves c' hc, hconnected, rfl⟩
  cases act with
  | server input =>
      dsimp only [System.step] at h
      split at h
      next hallows =>
        obtain ⟨⟨s₁, fs⟩, hserver, heq⟩ := Option.map_eq_some_iff.mp h
        obtain ⟨rfl, rfl⟩ := Prod.mk.inj heq
        exact Or.inl ⟨input, s₁, hallows, hserver, rfl⟩
      next => cases h
  | connect =>
      dsimp only [System.step] at h
      split at h
      next hlt => exact Or.inr (client h (fun c' hc => .of_connect hc) (Or.inr ⟨rfl, rfl, hlt⟩))
      next => cases h
  | send k => exact Or.inr (client h (fun c' hc => .of_send hc) (Or.inl rfl))
  | recv k => exact Or.inr (client h (fun c' hc => .of_recv hc) (Or.inl rfl))
  | close k => exact Or.inr (client h (fun c' hc => .of_close hc) (Or.inl rfl))

/-! ## A client and its orders -/

/-- Where a client is that has sent `n` orders and read `m` replies. -/
inductive Stage (rounds : Nat) : ClientPc → Nat → Nat → Prop
  | connecting : Stage rounds .connecting 0 0
  | sending {n left : Nat} (total : n + left = rounds) : Stage rounds (.sending left) n n
  | receiving {n left : Nat} (total : n + 1 + left = rounds) :
      Stage rounds (.receiving left) (n + 1) n
  | closed : Stage rounds .closed rounds rounds

theorem Stage.bounds {rounds n m : Nat} {pc : ClientPc} (h : Stage rounds pc n m) :
    m ≤ n ∧ n ≤ m + 1 ∧ (n = m + 1 → pc ≠ .closed) := by
  cases h with
  | receiving total => exact ⟨Nat.le_succ _, le_refl _, fun _ => ClientPc.noConfusion⟩
  | _ => exact ⟨le_refl _, Nat.le_succ _, fun heq => absurd heq (Nat.ne_of_lt (Nat.lt_succ_self _))⟩

/-- Client `k` behind the events `es`: it has sent `n` orders and read `m` replies. -/
structure Sends (rounds k : Nat) (es : List Event) (c : Client) (n m : Nat) : Prop where
  stage : Stage rounds c.pc n m
  frame : c.frame.length = kFrameSize
  seq : c.seq = seqOf n
  sent : received k es ++ c.up = orders n
  replies : c.replies.length = m

namespace Sends

variable {rounds k n m : Nat} {es fs : List Event} {c c' : Client}

theorem fresh (rounds k : Nat) : Sends rounds k [] {} 0 0 where
  stage := .connecting
  frame := length_blankFrame
  seq := rfl
  sent := rfl
  replies := rfl

/-- The next order is encoded into whatever came back last. -/
theorem moves (h : Sends rounds k es c n m) (hmoves : Moves rounds c c') :
    ∃ n' m', Sends rounds k es c' n' m' := by
  have stage := h.stage
  cases hmoves with
  | connect pc =>
      rw [pc] at stage
      cases stage with
      | connecting => exact ⟨0, 0, .sending (Nat.zero_add _), h.frame, h.seq, h.sent, h.replies⟩
  | @send left pc =>
      rw [pc] at stage
      cases stage with
      | sending total =>
          have htotal : n + 1 + left = rounds := by
            rw [Nat.add_assoc, Nat.add_comm 1]
            exact total
          have hseq : c.seq + 1 = seqOf (n + 1) := by rw [← seqOf_succ, h.seq]
          -- the frame is not to be computed
          generalize hframe : encodeOrder c.frame c.seq = frame
          have horder : frame = orderFrame n := by
            rw [← hframe, encodeOrder_eq h.frame, h.seq, orderFrame]
          have hlen : frame.length = kFrameSize := by rw [horder, length_orderFrame]
          have hsent : received k es ++ (c.up ++ frame) = orders (n + 1) := by
            rw [← List.append_assoc, h.sent, horder, orders_succ]
          exact ⟨n + 1, n, .receiving htotal, hlen, hseq, hsent, h.replies⟩
  | recv pc whole =>
      rw [pc] at stage
      cases stage with
      | receiving total =>
          have hlen : (c.down.take kFrameSize).length = kFrameSize := by
            rw [List.length_take, Nat.min_eq_left whole]
          refine ⟨_, _, .sending total, hlen, h.seq, h.sent, ?_⟩
          dsimp only
          rw [List.length_append, h.replies, List.length_singleton]
  | close pc =>
      rw [pc] at stage
      cases stage with
      | sending total =>
          rw [Nat.add_zero] at total
          subst total
          exact ⟨n, n, .closed, h.frame, h.seq, h.sent, h.replies⟩

theorem carry (h : Sends rounds k es c n m) (hup : received k fs <+: c.up) (down : List UInt8) :
    Sends rounds k (es ++ fs) { c with up := c.up.drop (received k fs).length, down := down } n m where
  stage := h.stage
  frame := h.frame
  seq := h.seq
  sent := by
    obtain ⟨rest, hrest⟩ := hup
    dsimp only
    rw [received_append, List.append_assoc, ← hrest, List.drop_left, hrest, h.sent]
  replies := h.replies

end Sends

/-! ## A step of the server -/

/-- The parse loop answers without the engine. -/
def refuses : Event → Bool
  | .control _ _ _ _ | .protocolError _ => true
  | _ => false

theorem Shows.of_refuses {c : Connection} {fd : Int} {q q' : CommandQueue} {o : Output}
    {next : Option UInt64} {e : Event} (h : Shows c fd q q' o next e) (hrefuses : refuses e = true) :
    ∃ header reply, o = .control header reply := by
  cases h with
  | control read last kept =>
      obtain ⟨reply, -, rfl⟩ := Option.map_eq_some_iff.mp read
      exact ⟨_, reply, rfl⟩
  | command => cases hrefuses

section Steps

variable {D : Descriptors} {s s' : Server} {input : Input} {es : List Event}

theorem accepts_cases (hs : Sound s) (h : Gateway.Step D s ⟨input, es⟩ s') :
    s'.accepts = s.accepts ∨
      s'.accepts = s.accepts + 1 ∧ (∃ fd, input = .accept fd) ∧
        ∃ fd c, s'.connections.find fd = some c ∧ c.serial = s.accepts := by
  have hacts := h.acts hs
  dsimp only at hacts
  cases hacts with
  | accept pc pos fresh =>
      have free := hs.find_eq_none (by rw [pc]; exact GatewayPc.noConfusion) fresh
      exact Or.inr ⟨rfl, ⟨_, rfl⟩, _, _, Routed.find_link_self free, rfl⟩
  | answered loop found long read answered =>
      refine Or.inl ?_
      rw [answered.routes]
      rfl
  | _ => exact Or.inl rfl

theorem received_cases (hs : Sound s) (h : Gateway.Step D s ⟨input, es⟩ s') :
    (∀ k, received k es = []) ∨
      ∃ fd epollIn c bs pos le, s.gateway = .dispatch fd epollIn ∧
        s.connections.find fd = some c ∧ input = .recv (.bytes bs pos le) ∧
        ∀ k, received k es = if c.serial = k then bs else [] := by
  have hacts := h.acts hs
  dsimp only at hacts
  cases hacts with
  | received pc found fits =>
      exact Or.inr ⟨_, _, _, _, _, _, pc, found, rfl, fun k => List.append_nil _⟩
  | overflowed pc found full =>
      exact Or.inr ⟨_, _, _, _, _, _, pc, found, rfl, fun k => List.append_nil _⟩
  | answered loop found long read answered =>
      exact Or.inl fun k => (List.append_nil _).trans (answered.event.bytes k)
  | _ => exact Or.inl fun k => rfl

/-- Where the parse loop answers by itself, its connection shows something else than a
command. -/
theorem of_refuses (hs : Sound s) (h : Gateway.Step D s ⟨input, es⟩ s') {e : Event} (he : e ∈ es)
    (hrefuses : refuses e = true) :
    ∃ k, Finished k es ∨ ∃ header reply, behaviour k es = [.control header reply] := by
  have hacts := h.acts hs
  dsimp only at hacts
  cases hacts with
  | @refused fd c loop found long bad =>
      exact ⟨c.serial, Or.inl ⟨_, List.mem_cons_self, rfl⟩⟩
  | @answered fd c c' r e' _ loop found long read answered =>
      obtain rfl := List.mem_singleton.mp he
      obtain ⟨header, reply, ho⟩ := Shows.of_refuses answered.event hrefuses
      refine ⟨c.serial, Or.inr ⟨header, reply, ?_⟩⟩
      rw [behaviour, answered.event.output, ho, behaviour, ite_self]
      rfl
  | dropped | sent | accept | hungUp | received | shutdown | stopped | skipped | answering
  | respond =>
      rw [List.mem_singleton.mp he] at hrefuses
      cases hrefuses
  | cutOff | overflowed =>
      obtain rfl | he := List.mem_cons.mp he
      · cases hrefuses
      · rw [List.mem_singleton.mp he] at hrefuses
        cases hrefuses
  | _ => cases he

end Steps

/-! ## The server and its clients -/

/-- The server behind the run `us`, with its clients. -/
structure Orderly (D : Descriptors) (opts : Nat → Options) (us : List (Taken Server Gateway.Label))
    (s : System) : Prop where
  run : ServerRun D us s.server
  sends : ∀ k, ∃ n m, Sends (opts k).rounds k (events us) (s.clients k) n m
  engine : ∀ e ∈ events us, refuses e = false
  accepts : s.server.accepts ≤ s.connected
  begun : ∀ k < s.connected, (s.clients k).pc ≠ .connecting
  held : ∀ k < s.server.accepts, (s.clients k).pc ≠ .closed →
    ∃ fd c, s.server.connections.find fd = some c ∧ c.serial = k
  inside : s.server.gateway.Inside

namespace Orderly

variable {D : Descriptors} {opts : Nat → Options} {us : List (Taken Server Gateway.Label)}
  {s : System} {s' : Server} {input : Input} {es : List Event}

theorem sound (h : Orderly D opts us s) : Sound s.server := ServerRun.sound h.run

section Server

theorem received_prefix (h : Orderly D opts us s) (hallows : s.Allows input)
    (hstep : Gateway.Step D s.server ⟨input, es⟩ s') (k : Nat) :
    received k es <+: (s.clients k).up := by
  rcases received_cases h.sound hstep with hnil | ⟨fd, epollIn, c, bs, pos, le, pc, found, rfl, hbs⟩
  · rw [hnil k]
    exact List.nil_prefix
  · rw [hbs k]
    split
    next heq =>
      have hreading : s.reading = some (s.clients c.serial) := by
        rw [System.reading, pc]
        exact congrArg (Option.map _) found
      exact heq ▸ hallows _ hreading
    next => exact List.nil_prefix

theorem received_next (h : Orderly D opts us s) (hallows : s.Allows input)
    (hstep : Gateway.Step D s.server ⟨input, es⟩ s') (k : Nat) :
    ∃ n up, received k (events us ++ es) ++ up = orders n := by
  obtain ⟨n, m, hsends⟩ := h.sends k
  obtain ⟨up, hup⟩ := h.received_prefix hallows hstep k
  refine ⟨n, up, ?_⟩
  rw [received_append, List.append_assoc, hup, hsends.sent]

theorem run_next (h : Orderly D opts us s) (hstep : Gateway.Step D s.server ⟨input, es⟩ s') :
    ServerRun D (us ++ [⟨s.server, ⟨input, es⟩, s'⟩]) s' ∧
      events (us ++ [⟨s.server, ⟨input, es⟩, s'⟩]) = events us ++ es :=
  ⟨h.run.next hstep, by rw [events_append, events_singleton]⟩

/-- The parse loop hands them all to the engine. -/
theorem engine_next (h : Orderly D opts us s) (hallows : s.Allows input)
    (hstep : Gateway.Step D s.server ⟨input, es⟩ s') : ∀ e ∈ es, refuses e = false := by
  intro e he
  by_contra hne
  obtain ⟨k, hother⟩ := of_refuses h.sound hstep he ((Bool.not_eq_false _).mp hne)
  obtain ⟨hrun, hevents⟩ := h.run_next hstep
  obtain ⟨n, up, hsent⟩ := h.received_next hallows hstep k
  have ht := hrun.tracks k
  rw [hevents] at ht
  have hnot := Tracks.not_finished ht hsent
  rcases hother with ⟨e, he, hfin⟩ | ⟨header, reply, hshown⟩
  · exact hnot ⟨e, List.mem_append_right _ he, hfin⟩
  · obtain ⟨q, rest, -, hread⟩ := Tracks.orders ht hsent
    have hbehaviour := hread.behaviour
    rw [behaviour_append fun ⟨e, he, hfin⟩ => hnot ⟨e, List.mem_append_left _ he, hfin⟩,
      hshown] at hbehaviour
    have hmem : Output.control header reply
        ∈ (List.range q).map fun i => .command (commandOf k i) := by
      rw [← hbehaviour]
      exact List.mem_append_right _ List.mem_cons_self
    obtain ⟨i, -, heq⟩ := List.mem_map.mp hmem
    cases heq

theorem closed_of_close (h : Orderly D opts us s) (hallows : s.Allows input)
    (hstep : Gateway.Step D s.server ⟨input, es⟩ s') {k : Nat} {token : SessionToken}
    {enqueued : Bool} (he : Event.closed k token enqueued ∈ es) : (s.clients k).pc = .closed := by
  obtain ⟨fd, c, found, rfl, hcause⟩ := hstep.cause h.sound he
  have reading : ∀ {epollIn : Bool}, s.server.gateway = .dispatch fd epollIn →
      s.reading = some (s.clients c.serial) := by
    intro epollIn pc
    rw [System.reading, pc]
    exact congrArg (Option.map _) found
  dsimp only at hcause
  cases hcause with
  | hungUp pc => exact (hallows _ (reading pc)).1
  | failed pc => exact hallows _ (reading pc)
  | @overflowed epollIn bs pos le pc full =>
      obtain ⟨n, m, hsends⟩ := h.sends c.serial
      have ht := h.run.tracks c.serial
      have houtside : ¬ InLoop s.server c.serial := not_inLoop (by rw [pc]; rfl) _
      exact absurd (ht.fits (Tracks.not_finished ht hsends.sent) houtside found rfl le) full
  | @cutOff rsp sent pc target short =>
      have hwriting : s.writing = some (s.clients c.serial) := by
        rw [System.writing, pc]
        rw [target] at found
        exact congrArg (Option.map _) found
      by_contra hopen
      exact short (hallows _ hwriting hopen)

/-- A client that has not closed keeps its connection. -/
theorem held_next (h : Orderly D opts us s) (hallows : s.Allows input)
    (hstep : Gateway.Step D s.server ⟨input, es⟩ s') {k : Nat} (hk : k < s'.accepts)
    (hopen : (s.clients k).pc ≠ .closed) :
    ∃ fd c, s'.connections.find fd = some c ∧ c.serial = k := by
  have stays : k < s.server.accepts → ∃ fd c, s'.connections.find fd = some c ∧ c.serial = k := by
    intro hlt
    obtain ⟨fd, c, found, rfl⟩ := h.held k hlt hopen
    obtain ⟨c', found', hserial⟩ := (hstep.move h.sound).stays_open found
      fun token enqueued he => hopen (h.closed_of_close hallows hstep he)
    exact ⟨fd, c', found', hserial⟩
  rcases accepts_cases h.sound hstep with heq | ⟨heq, -, fd, c, found, hserial⟩
  · exact stays (heq ▸ hk)
  · rw [heq] at hk
    rcases Nat.lt_succ_iff_lt_or_eq.mp hk with hlt | rfl
    · exact stays hlt
    · exact ⟨fd, c, found, hserial⟩

theorem accepts_next (h : Orderly D opts us s) (hallows : s.Allows input)
    (hstep : Gateway.Step D s.server ⟨input, es⟩ s') : s'.accepts ≤ s.connected := by
  rcases accepts_cases h.sound hstep with heq | ⟨heq, ⟨fd, rfl⟩, -⟩
  · exact heq ▸ h.accepts
  · exact heq ▸ hallows

/-- **A step of the server.** -/
theorem serve (h : Orderly D opts us s) (hallows : s.Allows input)
    (hstep : Gateway.Step D s.server ⟨input, es⟩ s') :
    Orderly D opts (us ++ [⟨s.server, ⟨input, es⟩, s'⟩])
      { s with server := s', clients := s.carry es } := by
  obtain ⟨hrun, hevents⟩ := h.run_next hstep
  have hother : input ≠ .epollFails := by
    rintro rfl
    exact hallows
  refine ⟨hrun, ?_, ?_, h.accepts_next hallows hstep, h.begun,
    fun k hk hopen => h.held_next hallows hstep hk hopen, hstep.inside h.sound h.inside hother⟩
  · intro k
    obtain ⟨n, m, hsends⟩ := h.sends k
    rw [hevents]
    exact ⟨n, m, hsends.carry (h.received_prefix hallows hstep k) _⟩
  · rw [hevents]
    exact List.forall_mem_append.mpr ⟨h.engine, h.engine_next hallows hstep⟩

end Server

/-- **A step of a client.** -/
theorem act (h : Orderly D opts us s) {bound k connected : Nat} {c : Client}
    (hmoves : Moves (opts k).rounds (s.clients k) c) (hconnected : Connects s bound k connected) :
    Orderly D opts us
      { s with connected := connected, clients := Function.update s.clients k c } where
  run := h.run
  sends := fun j => by
    dsimp only
    by_cases heq : j = k
    · subst heq
      obtain ⟨n, m, hsends⟩ := h.sends j
      rw [Function.update_self]
      exact hsends.moves hmoves
    · rw [Function.update_of_ne heq]
      exact h.sends j
  engine := h.engine
  accepts := h.accepts.trans hconnected.le
  begun := fun j hj => by
    dsimp only at hj ⊢
    by_cases heq : j = k
    · rw [heq, Function.update_self]
      exact hmoves.ne_connecting
    · rw [Function.update_of_ne heq]
      refine h.begun j ?_
      rcases hconnected with rfl | ⟨rfl, rfl, -⟩
      · exact hj
      · exact Nat.lt_of_le_of_ne (Nat.le_of_lt_succ hj) heq
  held := fun j hj hopen => by
    refine h.held j hj ?_
    dsimp only at hopen
    by_cases heq : j = k
    · exact heq ▸ hmoves.ne_closed
    · rwa [Function.update_of_ne heq] at hopen
  inside := h.inside

/-- **One step** of the system. -/
theorem next (h : Orderly D opts us s) {bound : Nat} {l : SystemLabel} {s' : System}
    (hstep : SystemStep D opts bound s l s') :
    ∃ us', Orderly D opts us' s' ∧ events us' = events us ++ l.events := by
  rcases hstep.cases with
    ⟨input, s₁, hallows, hserver, rfl⟩ | ⟨hnil, k, c, connected, hmoves, hconnected, rfl⟩
  · exact ⟨_, h.serve hallows hserver, (h.run_next hserver).2⟩
  · exact ⟨us, h.act hmoves hconnected, by rw [hnil, List.append_nil]⟩

end Orderly

theorem orderly_fresh (D : Descriptors) (opts : Nat → Options) :
    Orderly D opts [] (System.fresh D) where
  run := .start rfl
  sends := fun k => ⟨0, 0, .fresh _ k⟩
  engine := List.forall_mem_nil _
  accepts := le_refl 0
  begun := fun k hk => absurd hk (Nat.not_lt_zero k)
  held := fun k hk => absurd hk (Nat.not_lt_zero k)
  inside := Or.inl rfl

theorem seen_append (ts us : List (Taken System SystemLabel)) : seen (ts ++ us) = seen ts ++ seen us :=
  List.flatMap_append

theorem seen_singleton (t : Taken System SystemLabel) : seen [t] = t.label.events :=
  List.append_nil _

/-- **Every run**, of any number of clients. -/
theorem SystemRun.orderly {D : Descriptors} {opts : Nat → Options} {bound : Nat}
    {ts : List (Taken System SystemLabel)} {s : System} (h : SystemRun D opts bound ts s) :
    ∃ us, Orderly D opts us s ∧ events us = seen ts := by
  refine Run.invariant (I := fun ts s => ∃ us, Orderly D opts us s ∧ events us = seen ts) ?_ ?_ h
  · rintro s rfl
    exact ⟨[], orderly_fresh D opts, rfl⟩
  · rintro ts s l s' - ⟨us, horderly, hevents⟩ hstep
    obtain ⟨us', horderly', hevents'⟩ := horderly.next hstep
    exact ⟨us', horderly', by rw [hevents', hevents, seen_append, seen_singleton]⟩

end TradingGateway.Bench
