/-
# `Gateway.Streams` — each connection, seen through its own bytes

The event loop is shared by all connections, chunks arrive when they like, and
the parse loop runs over whatever is buffered.  None of it matters to a
connection: `Tracks k es s` ties what the events `es` show of the connection with
serial `k` to the reference machine on the bytes received from it, and every move
keeps it (`Move.tracks`).

| while | the invariant says |
| :-- | :-- |
| not accepted | nothing was received |
| not finished | the machine has read all but what the parser buffers, which is less than a frame outside the parse loop |
| finished | the behaviour is the reference's on any continuation of the stream |

`behaviour_is_reference` follows, and so does that only a finished connection can be
closed for want of room in its parser (`buffer_full_unreachable`): less than a frame is
left when `recv` is called, and 1024 bytes are far less than the rest of the buffer.  The
last part is about the end of a connection: the flag `should_close` is set behind a bad frame or a logout and
never read again, so the connection stays open, and
`finished_means_closed_iff` says that a finished connection is really finished
only where no connection ever finishes.
-/
import TradingGateway.Gateway.Progress

namespace TradingGateway.Gateway

open Lib OrderEntry Spsc Lib.StreamMachine

/-! ## Events about another connection -/

/-- The event shows nothing of the connection with serial `k`. -/
structure Event.Silent (k : Nat) (e : Event) : Prop where
  output : e.output k = none
  finishes : ¬ e.Finishes k
  bytes : e.bytes k = []

section Silence

variable {k : Nat} {es fs : List Event}

theorem not_finished_of_silent (h : ∀ e ∈ fs, e.Silent k) : ¬ Finished k fs := by
  rintro ⟨e, he, hf⟩
  exact (h e he).finishes hf

theorem not_finished_singleton {e : Event} (h : ¬ e.Finishes k) : ¬ Finished k [e] := by
  rintro ⟨d, hd, hf⟩
  rw [List.mem_singleton.mp hd] at hf
  exact h hf

theorem received_snoc (es : List Event) {e : Event} (h : e.bytes k = []) :
    received k (es ++ [e]) = received k es := by
  rw [received_append]
  show _ ++ (e.bytes k ++ []) = _
  rw [h, List.append_nil, List.append_nil]

theorem received_of_silent (h : ∀ e ∈ fs, e.Silent k) : received k fs = [] :=
  List.flatMap_eq_nil_iff.mpr fun e he => (h e he).bytes

theorem behaviour_of_silent (h : ∀ e ∈ fs, e.Silent k) : behaviour k fs = [] := by
  induction fs with
  | nil => rfl
  | cons e fs ih =>
      have he := h e List.mem_cons_self
      rw [behaviour, he.output, if_neg he.finishes, ih fun d hd => h d (List.mem_cons_of_mem _ hd)]
      rfl

/-- What was seen of a connection is unchanged by what happens to others. -/
theorem append_silent (es : List Event) (h : ∀ e ∈ fs, e.Silent k) :
    received k (es ++ fs) = received k es ∧ behaviour k (es ++ fs) = behaviour k es ∧
      (Finished k (es ++ fs) ↔ Finished k es) := by
  refine ⟨?_, ?_, ?_⟩
  · rw [received_append, received_of_silent h, List.append_nil]
  · by_cases hf : Finished k es
    · exact behaviour_append_of_finished hf fs
    · rw [behaviour_append hf, behaviour_of_silent h, List.append_nil]
  · rw [finished_append]
    exact or_iff_left (not_finished_of_silent h)

theorem Event.Engine.silent {s : Server} {e : Event} (h : e.Engine s) (k : Nat) : e.Silent k := by
  cases e with
  | engineFrame | dropped | popped | responded | shutdownCommand => exact ⟨rfl, id, rfl⟩
  | _ => exact absurd h id

theorem silent_closed (k j : Nat) (token : SessionToken) (enqueued : Bool) :
    (Event.closed j token enqueued).Silent k :=
  ⟨rfl, id, rfl⟩

end Silence

section Shown

variable {c : Connection} {fd : Int} {q q' : CommandQueue} {o : Output} {next : Option UInt64}
  {e : Event}

theorem Shows.output (h : Shows c fd q q' o next e) : e.output c.serial = some o := by
  cases h with
  | control read last kept => exact (if_pos rfl).trans read
  | command order pushed => exact if_pos rfl

theorem Shows.finishes_iff (h : Shows c fd q q' o next e) :
    e.Finishes c.serial ↔ next = none := by
  cases h with
  | control read last kept => exact (and_iff_right rfl).trans last
  | command order pushed => exact ⟨False.elim, nofun⟩

theorem Shows.bytes (h : Shows c fd q q' o next e) (k : Nat) : e.bytes k = [] := by
  cases h with
  | control read last kept => rfl
  | command order pushed => rfl

theorem Shows.ne_received (h : Shows c fd q q' o next e) (k : Nat) (bs : List UInt8) :
    e ≠ .received k bs := by
  intro heq
  cases h with
  | control read last kept => cases heq
  | command order pushed => cases heq

theorem Shows.silent (h : Shows c fd q q' o next e) {k : Nat} (hk : c.serial ≠ k) :
    e.Silent k := by
  refine ⟨?_, ?_, h.bytes k⟩
  · cases h with
    | control read last kept => exact if_neg hk
    | command order pushed => exact if_neg hk
  · cases h with
    | control read last kept => exact fun hf => hk hf.1
    | command order pushed => exact id

end Shown

/-! ## The invariant -/

/-- The gateway is in the parse loop of the connection with serial `k`. -/
def InLoop (s : Server) (k : Nat) : Prop :=
  ∃ fd c, s.gateway.loop = some fd ∧ s.connections.find fd = some c ∧ c.serial = k

theorem not_inLoop {s : Server} (h : s.gateway.loop = none) (k : Nat) : ¬ InLoop s k := by
  rintro ⟨fd, c, hloop, -, -⟩
  rw [h] at hloop
  cases hloop

theorem inLoop_of_assign {s s' : Server} {fd : Int} {c c' : Connection}
    (found : s.connections.find fd = some c) (routes : s'.toRoutes = s.assign fd c')
    (pc : s'.gateway = .parse fd false) : InLoop s' c'.serial := by
  refine ⟨fd, c', ?_, ?_, rfl⟩
  · rw [pc]
    rfl
  · rw [routes]
    exact Routed.find_assign_self found c'

/-- The machine a connection with this token should be. -/
abbrev Running (k : Nat) (stream : List UInt8) (outs : List Output) (rest : List UInt8)
    (expected : UInt64) : Prop :=
  Reads kFrameSize readRequest (answer (tokenOf k)) 1 stream outs rest expected

/-- The connection with serial `k` after the events `es`, in the state `s`. -/
structure Tracks (k : Nat) (es : List Event) (s : Server) : Prop where
  unborn : s.accepts ≤ k → ¬ Finished k es ∧ received k es = []
  running : ¬ Finished k es → ∃ rest expected,
    Running k (received k es) (behaviour k es) rest expected ∧
      (rest.length < kFrameSize ∨ InLoop s k) ∧
      ∀ {fd c}, s.connections.find fd = some c → c.serial = k →
        c.parser.contents = rest ∧ c.expectedSequence = expected
  finished : Finished k es → ∀ more,
    reference (tokenOf k) (received k es ++ more) = behaviour k es ∧
      StreamEnds (tokenOf k) (received k es ++ more)

theorem tracks_fresh (D : Descriptors) (k : Nat) : Tracks k [] (Server.fresh D) where
  unborn := fun _ => ⟨not_finished_of_silent (List.forall_mem_nil _), rfl⟩
  running := fun _ => by
    refine ⟨[], 1, .start, Or.inl (by decide), ?_⟩
    intro fd c hc
    cases hc
  finished := fun hfin => absurd hfin (not_finished_of_silent (List.forall_mem_nil _))

namespace Tracks

variable {k : Nat} {es fs : List Event} {s s' : Server}

/-- A step about something else: the connection keeps its state, and the gateway
does not leave its parse loop. -/
theorem untouched (h : Tracks k es s) (fs : List Event) (silent : ∀ e ∈ fs, e.Silent k)
    (accepts : s'.accepts = s.accepts)
    (conns : ∀ {fd c}, s'.connections.find fd = some c → c.serial = k →
      s.connections.find fd = some c)
    (loop : InLoop s k → InLoop s' k) : Tracks k (es ++ fs) s' := by
  obtain ⟨hrec, hbeh, hfin⟩ := append_silent es silent
  refine ⟨?_, ?_, ?_⟩
  · rw [hfin, hrec, accepts]
    exact h.unborn
  · rw [hfin, hrec, hbeh]
    intro hnot
    obtain ⟨rest, expected, hrun, hrest, hconn⟩ := h.running hnot
    exact ⟨rest, expected, hrun, hrest.imp_right loop, fun hc hk => hconn (conns hc hk) hk⟩
  · rw [hfin, hrec, hbeh]
    exact h.finished

theorem short (h : Tracks k es s) (hnot : ¬ Finished k es) (houtside : ¬ InLoop s k) {fd : Int}
    {c : Connection} (hc : s.connections.find fd = some c) (hk : c.serial = k) :
    c.parser.contents.length < kFrameSize := by
  obtain ⟨rest, expected, -, hrest, hconn⟩ := h.running hnot
  rw [(hconn hc hk).1]
  exact hrest.resolve_right houtside

theorem fits (h : Tracks k es s) (hnot : ¬ Finished k es) (houtside : ¬ InLoop s k) {fd : Int}
    {c : Connection} (hc : s.connections.find fd = some c) (hk : c.serial = k) {bs : List UInt8}
    (le : bs.length ≤ 1024) : c.parser.Fits bs := by
  have hshort := h.short hnot houtside hc hk
  simp only [kFrameSize] at hshort
  show bs.length ≤ 4096 - c.parser.contents.length
  omega

theorem accepted (h : Tracks k es s) {fd : Int} (free : s.connections.find fd = none)
    {e : Event} (silent : ∀ j, e.Silent j)
    (routes : s'.toRoutes = s.link fd) (outside : s.gateway.loop = none) :
    Tracks k (es ++ [e]) s' := by
  obtain ⟨hrec, hbeh, hfin⟩ := append_silent es (List.forall_mem_singleton.mpr (silent k))
  refine ⟨?_, ?_, ?_⟩
  · rw [hfin, hrec, routes]
    exact fun hle => h.unborn (Nat.le_of_succ_le hle)
  · rw [hfin, hrec, hbeh]
    intro hnot
    obtain ⟨rest, expected, hrun, hrest, hconn⟩ := h.running hnot
    refine ⟨rest, expected, hrun, Or.inl (hrest.resolve_right (not_inLoop outside k)), ?_⟩
    intro j c hc hk
    rw [routes, Routed.find_link free] at hc
    split at hc
    next =>
      obtain rfl := Option.some.inj hc
      have hnil := (h.unborn (Nat.le_of_eq hk)).2
      rw [hnil] at hrun
      obtain ⟨-, rfl, rfl⟩ := hrun.of_nil (by decide)
      exact ⟨Parser.contents_fresh, rfl⟩
    next => exact hconn hc hk
  · rw [hfin, hrec, hbeh]
    exact h.finished

theorem received (h : Tracks k es s) (hrouted : Routed s.toRoutes) {fd : Int} {c c' : Connection}
    {bs : List UInt8} (found : s.connections.find fd = some c) (hk : c.serial = k)
    (serial : c'.serial = c.serial) (expected : c'.expectedSequence = c.expectedSequence)
    (contents : c'.parser.contents = c.parser.contents ++ bs)
    (routes : s'.toRoutes = s.assign fd c') (pc : s'.gateway = .parse fd false) :
    Tracks k (es ++ [.received k bs]) s' := by
  have hbytes : Gateway.received k [Event.received k bs] = bs := by
    rw [Gateway.received, List.flatMap_singleton, Event.bytes, if_pos rfl]
  have hnone : ¬ Finished k [Event.received k bs] := not_finished_singleton id
  refine ⟨?_, ?_, ?_⟩
  · rw [routes]
    intro hle
    exact absurd (hk ▸ (hrouted.entry found).2.2.2) (Nat.not_lt.mpr hle)
  · rw [finished_append, received_append, hbytes]
    intro hnot
    have hnot := (not_or.mp hnot).1
    obtain ⟨_, _, hrun, -, hconn⟩ := h.running hnot
    obtain ⟨rfl, rfl⟩ := hconn found hk
    rw [behaviour_append hnot]
    have hloop : InLoop s' k := hk ▸ serial ▸ inLoop_of_assign found routes pc
    refine ⟨c.parser.contents ++ bs, c.expectedSequence, ?_, Or.inr hloop, ?_⟩
    · show Running k _ (behaviour k es ++ []) _ _
      rw [List.append_nil]
      exact hrun.feed bs
    · intro j d hd hdk
      rw [routes] at hd
      obtain rfl := Routed.eq_of_assign hrouted found hd (hdk.trans hk.symm)
      exact ⟨contents, expected⟩
  · rw [finished_append, received_append, hbytes]
    intro hfin
    have hfin := hfin.resolve_right hnone
    rw [behaviour_append_of_finished hfin]
    intro more
    rw [List.append_assoc]
    exact h.finished hfin (bs ++ more)

/-- More bytes than a parser holds only come to a connection that has finished. -/
theorem overflowed (h : Tracks k es s) (hrouted : Routed s.toRoutes) {fd : Int} {c : Connection}
    {bs : List UInt8} {token : SessionToken} {enqueued : Bool}
    (found : s.connections.find fd = some c) (hk : c.serial = k) (le : bs.length ≤ 1024)
    (full : ¬ c.parser.Fits bs) (outside : s.gateway.loop = none)
    (routes : s'.toRoutes = (s.assign fd c).unlink fd c.token) :
    Tracks k (es ++ [.received k bs, .closed k token enqueued]) s' := by
  have hfin : Finished k es := by
    by_contra hnot
    exact full (h.fits hnot (not_inLoop outside k) found hk le)
  have hbytes : Gateway.received k [Event.received k bs, .closed k token enqueued] = bs := by
    show (if k = k then bs else []) ++ [] = bs
    rw [if_pos rfl, List.append_nil]
  refine ⟨?_, ?_, ?_⟩
  · rw [routes]
    intro hle
    exact absurd (hk ▸ (hrouted.entry found).2.2.2) (Nat.not_lt.mpr hle)
  · intro hnot
    exact absurd (finished_append.mpr (Or.inl hfin)) hnot
  · intro _ more
    rw [received_append, hbytes, behaviour_append_of_finished hfin, List.append_assoc]
    exact h.finished hfin (bs ++ more)

theorem of_finishing {e : Event} (hlt : k < s'.accepts) (hfinishes : e.Finishes k)
    (hbytes : e.bytes k = [])
    (hdone : Finished k es → ∀ more,
      reference (tokenOf k) (Gateway.received k es ++ more) = behaviour k es ∧
        StreamEnds (tokenOf k) (Gateway.received k es ++ more))
    (hend : ¬ Finished k es → ∀ more,
      reference (tokenOf k) (Gateway.received k es ++ more)
          = behaviour k es ++ (e.output k).toList ∧
        StreamEnds (tokenOf k) (Gateway.received k es ++ more)) :
    Tracks k (es ++ [e]) s' := by
  have hfin : Finished k (es ++ [e]) :=
    finished_append.mpr (Or.inr ⟨e, List.mem_singleton_self e, hfinishes⟩)
  have hrec := received_snoc es hbytes
  refine ⟨fun hle => absurd hlt (Nat.not_lt.mpr hle), fun hnot => absurd hfin hnot, ?_⟩
  intro _ more
  rw [hrec]
  by_cases hbefore : Finished k es
  · rw [behaviour_append_of_finished hbefore]
    exact hdone hbefore more
  · rw [behaviour_append hbefore, behaviour, if_pos hfinishes, List.append_nil]
    exact hend hbefore more

theorem refused (h : Tracks k es s) (hrouted : Routed s.toRoutes) {fd : Int} {c : Connection}
    (found : s.connections.find fd = some c) (hk : c.serial = k)
    (long : kFrameSize ≤ c.parser.contents.length)
    (bad : readRequest (c.parser.contents.take kFrameSize) = none)
    (accepts : s'.accepts = s.accepts) : Tracks k (es ++ [.protocolError k]) s' := by
  have hlt : k < s'.accepts := accepts ▸ hk ▸ (hrouted.entry found).2.2.2
  refine of_finishing hlt rfl rfl h.finished fun hnot more => ?_
  obtain ⟨rest, expected, hrun, -, hconn⟩ := h.running hnot
  obtain ⟨rfl, -⟩ := hconn found hk
  show _ = behaviour k es ++ [] ∧ _
  rw [List.append_nil]
  exact hrun.refused (by decide) long bad more

theorem answered (h : Tracks k es s) (hrouted : Routed s.toRoutes) {fd : Int} {c c' : Connection}
    {r : Request} {e : Event} (found : s.connections.find fd = some c) (hk : c.serial = k)
    (long : kFrameSize ≤ c.parser.contents.length)
    (read : readRequest (c.parser.contents.take kFrameSize) = some r)
    (answered : Answered s fd c r c' e s') : Tracks k (es ++ [e]) s' := by
  obtain ⟨-, -, htoken, hserial⟩ := hrouted.entry found
  obtain ⟨same, taken, expected, event, routes, pc, -, -⟩ := answered
  have hlt : k < s'.accepts := by
    rw [routes, ← hk]
    exact hserial
  rw [htoken, hk] at expected event pc
  have houtput := event.output
  have hfinishes := event.finishes_iff
  have hbytes := event.bytes k
  rw [hk] at houtput hfinishes
  rcases hanswer : answer (tokenOf k) c.expectedSequence r with ⟨o, _ | n⟩
  · rw [hanswer] at houtput hfinishes
    refine of_finishing hlt (hfinishes.mpr rfl) hbytes h.finished fun hnot more => ?_
    obtain ⟨rest, expected, hrun, -, hconn⟩ := h.running hnot
    obtain ⟨rfl, rfl⟩ := hconn found hk
    rw [houtput]
    exact hrun.stopped (by decide) long read hanswer more
  · rw [hanswer] at houtput hfinishes expected pc
    have hnofinish : ¬ e.Finishes k := fun hf => nomatch hfinishes.mp hf
    have hnone : ¬ Finished k [e] := not_finished_singleton hnofinish
    have hrec := received_snoc es hbytes
    refine ⟨fun hle => absurd hlt (Nat.not_lt.mpr hle), ?_, ?_⟩
    · rw [hrec, finished_append]
      intro hnot
      have hnot := (not_or.mp hnot).1
      obtain ⟨rest, _, hrun, -, hconn⟩ := h.running hnot
      obtain ⟨rfl, rfl⟩ := hconn found hk
      have hbeh : behaviour k (es ++ [e]) = behaviour k es ++ [o] := by
        rw [behaviour_append hnot, behaviour, if_neg hnofinish, houtput]
        rfl
      rw [hbeh]
      have hloop : InLoop s' k := hk ▸ same.serial ▸ inLoop_of_assign found routes pc
      refine ⟨_, n, hrun.step long read hanswer, Or.inr hloop, ?_⟩
      intro j d hd hdk
      rw [routes] at hd
      obtain rfl := Routed.eq_of_assign hrouted found hd (hdk.trans hk.symm)
      exact ⟨taken, expected⟩
    · rw [hrec, finished_append]
      intro hfin
      have hfin := hfin.resolve_right hnone
      rw [behaviour_append_of_finished hfin]
      exact h.finished hfin

theorem starved (h : Tracks k es s) {fd : Int} {c : Connection}
    (found : s.connections.find fd = some c) (hk : c.serial = k)
    (short : c.parser.contents.length < kFrameSize) (routes : s'.toRoutes = s.assign fd c) :
    Tracks k es s' := by
  refine ⟨?_, ?_, h.finished⟩
  · rw [routes]
    exact h.unborn
  · intro hnot
    obtain ⟨rest, expected, hrun, -, hconn⟩ := h.running hnot
    refine ⟨rest, expected, hrun, Or.inl ?_, ?_⟩
    · rw [← (hconn found hk).1]
      exact short
    · intro j d hd hdk
      rw [routes] at hd
      exact hconn (Routed.of_assign_self found hd) hdk

end Tracks

/-- **Every move keeps the invariant, for every connection.** -/
theorem Move.tracks {k : Nat} {es fs : List Event} {s s' : Server} (hs : Sound s)
    (h : Move s fs s') (ht : Tracks k es s) : Tracks k (es ++ fs) s' := by
  -- in the loop of one connection, the gateway is not in the loop of another
  have elsewhere : ∀ {fd c}, s.gateway = .parse fd false → s.connections.find fd = some c →
      c.serial ≠ k → ¬ InLoop s k := by
    rintro fd c hpc hc hne ⟨j, d, hloop, hd, hk⟩
    rw [hpc] at hloop
    obtain rfl := Option.some.inj hloop
    rw [hc] at hd
    obtain rfl := Option.some.inj hd
    exact hne hk
  cases h with
  | quiet routes engine pc passed =>
      refine ht.untouched _ (fun e he => (engine e he).silent k) (congrArg Routes.accepts routes) ?_ ?_
      · intro fd c hc _
        rwa [routes] at hc
      · rintro ⟨fd, c, hloop, hc, hk⟩
        rcases pc with heq | ⟨-, outside, -⟩
        · exact ⟨fd, c, heq ▸ hloop, routes ▸ hc, hk⟩
        · rw [outside] at hloop
          cases hloop
  | accepted pos free routes aside =>
      exact ht.accepted free (fun _ => ⟨rfl, id, rfl⟩) routes aside.outside
  | closed found routes engine aside =>
      refine ht.untouched _ ?_ (by rw [routes]; rfl) ?_ ?_
      · intro e he
        rcases List.mem_append.mp he with he | he
        · exact (engine e he).silent k
        · exact List.forall_mem_singleton.mpr (silent_closed k _ _ _) e he
      · intro j d hd _
        rw [routes] at hd
        exact Routed.of_unlink hd
      · exact fun hloop => absurd hloop (not_inLoop aside.outside k)
  | @received fd c bs s' found le fits routes outside alive pc =>
      by_cases hk : c.serial = k
      · subst hk
        refine ht.received hs.routed found rfl ?_ ?_ ?_ routes pc
        · rfl
        · rfl
        · exact (Parser.append_of_fits fits).2
      · refine ht.untouched _ (List.forall_mem_singleton.mpr ⟨rfl, id, if_neg hk⟩)
          (by rw [routes]; rfl) ?_ ?_
        · intro j d hd hdk
          rw [routes] at hd
          exact Routed.of_assign_ne found hd fun heq => hk (heq.symm.trans hdk)
        · exact fun hloop => absurd hloop (not_inLoop outside k)
  | @overflowed fd c bs enqueued s' found le full routes aside =>
      by_cases hk : c.serial = k
      · subst hk
        exact ht.overflowed hs.routed found rfl le full aside.outside routes
      · refine ht.untouched _ ?_ (by rw [routes]; rfl) ?_ ?_
        · intro e he
          rcases List.mem_cons.mp he with rfl | he
          · exact ⟨rfl, id, if_neg hk⟩
          · exact List.forall_mem_singleton.mpr (silent_closed k _ _ _) e he
        · intro j d hd _
          rw [routes] at hd
          exact Routed.of_assign_self found (Routed.of_unlink hd)
        · exact fun hloop => absurd hloop (not_inLoop aside.outside k)
  | @starved fd c s' loop found short routes pc =>
      rw [List.append_nil]
      by_cases hk : c.serial = k
      · exact ht.starved found hk short routes
      · rw [← List.append_nil es]
        refine ht.untouched [] (List.forall_mem_nil _) (by rw [routes]; rfl) ?_ ?_
        · intro j d hd _
          rw [routes] at hd
          exact Routed.of_assign_self found hd
        · exact fun hloop => absurd hloop (elsewhere loop found hk)
  | @refused fd c s' loop found long bad routes pc =>
      by_cases hk : c.serial = k
      · subst hk
        exact ht.refused hs.routed found rfl long bad (by rw [routes]; rfl)
      · refine ht.untouched _ (List.forall_mem_singleton.mpr ⟨rfl, hk, rfl⟩)
          (by rw [routes]; rfl) ?_ ?_
        · intro j d hd _
          rw [routes] at hd
          exact Routed.of_assign_self found hd
        · exact fun hloop => absurd hloop (elsewhere loop found hk)
  | @answered fd c c' r e s' loop found long read answered =>
      by_cases hk : c.serial = k
      · exact ht.answered hs.routed found hk long read answered
      · have routes := answered.routes
        refine ht.untouched _ (List.forall_mem_singleton.mpr (answered.event.silent hk))
          (by rw [routes]; rfl) ?_ ?_
        · intro j d hd hdk
          rw [routes] at hd
          refine Routed.of_assign_ne found hd fun heq => hk ?_
          rw [← answered.same.serial, ← heq, hdk]
        · exact fun hloop => absurd hloop (elsewhere loop found hk)
  | exited routes outside pc =>
      refine ht.untouched [] (List.forall_mem_nil _) (by rw [routes]) ?_ ?_
      · intro fd c hc _
        rwa [routes] at hc
      · exact fun hloop => absurd hloop (not_inLoop outside k)

variable {D : Descriptors} {ts : List (Taken Server Label)} {s : Server}

theorem ServerRun.tracks (h : ServerRun D ts s) (k : Nat) : Tracks k (events ts) s := by
  refine Run.invariant (I := fun ts s => Tracks k (events ts) s) ?_ ?_ h
  · rintro s rfl
    exact tracks_fresh D k
  · intro ts s l s' hr ht hstep
    have hs := ServerRun.sound hr
    rw [events_append, events_singleton]
    exact (hstep.move hs).tracks hs ht

/-! ## The behaviour of a connection -/

theorem Seen.of_control {k : Nat} {fd : Int} {cause : Control} {frame : List UInt8}
    (h : Seen s (.control k fd cause frame)) :
    ∃ c, s.connections.find fd = some c ∧ c.serial = k := by
  cases h with
  | engine engine => exact absurd engine id
  | @control fd c _ _ found => exact ⟨c, found, rfl⟩

/-- **A connection's behaviour is a function of its own byte stream.** -/
theorem behaviour_is_reference (h : ServerRun D ts s) {k : Nat} {fd : Int} {token : SessionToken}
    (hacc : Event.accepted k fd token ∈ events ts) :
    behaviour k (events ts) <+: reference token (received k (events ts)) ∧
      (¬ InLoop s k → behaviour k (events ts) = reference token (received k (events ts))) ∧
      ∀ t ∈ ts, ∀ fd cause frame, Event.control k fd cause frame ∈ t.label.events →
        ∃ c, t.src.connections.find fd = some c ∧ c.serial = k := by
  obtain rfl := h.token_of_accepted hacc
  have ht := h.tracks k
  have hall : Finished k (events ts) →
      behaviour k (events ts) = reference (tokenOf k) (received k (events ts)) := by
    intro hfin
    have := (ht.finished hfin []).1
    rw [List.append_nil] at this
    exact this.symm
  refine ⟨?_, ?_, ?_⟩
  · by_cases hfin : Finished k (events ts)
    · refine ⟨[], ?_⟩
      rw [List.append_nil, hall hfin]
    · obtain ⟨rest, expected, hrun, -, -⟩ := ht.running hfin
      exact hrun.prefix_answers (by decide)
  · intro houtside
    by_cases hfin : Finished k (events ts)
    · exact hall hfin
    · obtain ⟨rest, expected, hrun, hrest, -⟩ := ht.running hfin
      exact (hrun.eq_answers (by decide) (hrest.resolve_right houtside)).1
  · intro t ht fd cause frame he
    exact ((h.sound_of_mem ht).2.seen he).of_control

theorem behaviour_is_reference_firstOrder :
    ∃ ts s, ServerRun .standard ts s ∧ received 0 (events ts) = firstFrame ∧
      behaviour 0 (events ts) = [.command firstCommand] ∧
      behaviour 0 (events ts) <+: reference (tokenOf 0) (received 0 (events ts)) := by
  obtain ⟨ts, s, msg, enqueued, h, hevents⟩ := first_answered
  have hacc : Event.accepted 0 6 (tokenOf 0) ∈ events ts := by
    rw [hevents]
    exact List.mem_cons_self
  refine ⟨ts, s, h, ?_, ?_, (behaviour_is_reference h hacc).1⟩
  · rw [hevents]
    exact List.append_nil _
  · rw [hevents]
    rfl

section Residue

variable {frame residue : List UInt8} {r : Request} {next : UInt64}

/-- The first client sends a request and a part of the next, and the gateway answers the
request. -/
theorem first_leaves_residue (residue : List UInt8) (length : frame.length = kFrameSize)
    (read : readRequest frame = some r) (short : residue.length < kFrameSize)
    (goes : (answer (tokenOf 0) 1 r).2 = some next) :
    ∃ ts s c e, ServerRun .standard ts s ∧
      events ts = [.accepted 0 6 (tokenOf 0), .received 0 (frame ++ residue), e] ∧
      s.gateway = .wait ∧ s.connections.find 6 = some c ∧ c.serial = 0 ∧
      c.parser.contents = residue ∧ e.output 0 = some (answer (tokenOf 0) 1 r).1 ∧
      ¬ e.Finishes 0 ∧ e.bytes 0 = [] := by
  have hlen : (frame ++ residue).length = kFrameSize + residue.length := by
    rw [List.length_append, length]
  have htake : (frame ++ residue).take kFrameSize = frame := by
    rw [← length, List.take_left]
  have hle : kFrameSize + residue.length ≤ 1024 :=
    Nat.le_trans (Nat.add_le_add_left (Nat.le_of_lt short) _) (by decide)
  obtain ⟨ts, s, c, h, hevents, hloop, hc, hcontents, hexpected⟩ :=
    first_sends (frame ++ residue) (hlen ▸ Nat.add_pos_left (by decide) _) (hlen ▸ hle)
  obtain ⟨c', e, s', h1, answered, found⟩ := h.can_take hloop hc.found
    (by rw [hcontents, hlen]; exact Nat.le_add_right _ _) (by rw [hcontents, htake]; exact read)
  obtain ⟨same, taken, -, event, -, pc, -⟩ := answered
  rw [hc.token, hexpected] at event pc
  rw [goes, if_neg nofun] at pc
  have hresidue : c'.parser.contents = residue := by
    rw [taken, hcontents, ← length, List.drop_left]
  have h2 := h1.can_leave pc found (hresidue ▸ short)
  have hserial : c'.serial = 0 := same.serial.trans hc.serial
  have houtput := event.output
  have hfinishes := event.finishes_iff
  rw [hc.serial] at houtput hfinishes
  rw [List.append_assoc] at h2
  refine ⟨_, _, c', e, h2, ?_, rfl, Routed.find_assign_self found c', hserial, hresidue, houtput,
    ?_, event.bytes 0⟩
  · rw [events_append, hevents]
    rfl
  · rw [hfinishes, goes]
    nofun

theorem not_streamEnds_of_residue {token : SessionToken} (length : frame.length = kFrameSize)
    (read : readRequest frame = some r) (short : residue.length < kFrameSize)
    (goes : (answer token 1 r).2 = some next) : ¬ StreamEnds token (frame ++ residue) := by
  have htake : (frame ++ residue).take kFrameSize = frame := by
    rw [← length, List.take_left]
  have hlen : kFrameSize ≤ (frame ++ residue).length := by
    rw [List.length_append, length]
    exact Nat.le_add_right _ _
  have hfed : Reads kFrameSize readRequest (answer token) 1 (frame ++ residue) []
      (frame ++ residue) 1 := Reads.start.feed (frame ++ residue)
  have hread := hfed.step hlen (htake.symm ▸ read) (Prod.ext rfl goes)
  have hdrop : (frame ++ residue).drop kFrameSize = residue := by
    rw [← length, List.drop_left]
  exact (hread.eq_answers (by decide) (hdrop.symm ▸ short)).2

end Residue

/-! ## Room for what is received -/

theorem Tracks.received_only {k : Nat} {es fs : List Event} {s s' : Server} {bs : List UInt8}
    (ht : Tracks k es s) (h : Move s fs s') (hnot : ¬ Finished k es)
    (hmem : Event.received k bs ∈ fs) : fs = [.received k bs] := by
  cases h with
  | quiet routes engine pc passed => exact absurd (engine _ hmem) id
  | closed found routes engine aside =>
      rcases List.mem_append.mp hmem with hmem | hmem
      · exact absurd (engine _ hmem) id
      · cases List.mem_singleton.mp hmem
  | overflowed found le full routes aside =>
      rcases List.mem_cons.mp hmem with heq | hmem
      · obtain ⟨hk, -⟩ := Event.received.inj heq
        exact absurd (ht.fits hnot (not_inLoop aside.outside k) found hk.symm le) full
      · cases List.mem_singleton.mp hmem
  | received found le fits routes outside alive pc =>
      rw [List.mem_singleton.mp hmem]
  | accepted | refused => cases List.mem_singleton.mp hmem
  | starved | exited => cases hmem
  | @answered fd c c' r e s' loop found long read answered =>
      exact absurd (List.mem_singleton.mp hmem).symm (answered.event.ne_received k bs)

/-- **A well-behaved client never fills its parser.**  Whenever `recv` is called on a
connection that has had no protocol error and no in-sequence logout, less than a frame is
buffered, whatever it returns is accepted, and the connection is not closed; so in no run
is such a connection closed by a step that receives its bytes. -/
theorem buffer_full_unreachable (h : ServerRun D ts s) :
    (∀ fd c, s.gateway = .dispatch fd true → s.connections.find fd = some c →
      ¬ Finished c.serial (events ts) →
        c.parser.contents.length < kFrameSize ∧
        ∀ bs pos le, (c.parser.append bs).1 = true ∧
          (dispatchStep s fd true (.bytes bs pos le)).2 = [.received c.serial bs]) ∧
      ∀ us t vs k bs, ts = us ++ t :: vs → Event.received k bs ∈ t.label.events →
        ¬ Finished k (events us) → t.label.events = [.received k bs] := by
  constructor
  · intro fd c hpc hc hnot
    have ht := h.tracks c.serial
    have houtside : ¬ InLoop s c.serial := by
      refine not_inLoop ?_ _
      rw [hpc]
      rfl
    refine ⟨ht.short hnot houtside hc rfl, fun bs pos le => ?_⟩
    have hfits : c.parser.Fits bs := ht.fits hnot houtside hc rfl le
    refine ⟨(Parser.append_of_fits hfits).1, ?_⟩
    rw [dispatchStep_received hc hfits]
  · rintro us t vs k bs rfl hmem hnot
    obtain ⟨hrun, hstep, -⟩ := h.cut
    have hsound := ServerRun.sound hrun
    exact (ServerRun.tracks hrun k).received_only (hstep.move hsound) hnot hmem

/-- A cancel out of sequence. -/
def strayCancel : OrderMessage := .cancelOrder { sequenceNumber := 9 } { clientOrderId := 7 }

/-- The first client has had a cancel rejected, and of its next request half is there when
`recv` is called again. -/
theorem buffer_full_unreachable_strayCancel :
    ∃ ts s c, ServerRun .standard ts s ∧ s.gateway = .dispatch 6 true ∧
      s.connections.find 6 = some c ∧
      behaviour 0 (events ts) = [rejection (tokenOf 0) strayCancel.request] ∧
      c.parser.contents = firstFrame.take 32 ∧
      ∀ bs, 0 < bs.length → bs.length ≤ 1024 → (c.parser.append bs).1 = true := by
  obtain ⟨ts, s, c, e, h, hevents, hw, found, hserial, hcontents, houtput, hfinishes, -⟩ :=
    first_leaves_residue (firstFrame.take 32)
      (length_encode strayCancel length_blankFrame)
      (readRequest_encode strayCancel length_blankFrame rfl rfl)
      (by rw [List.length_take, length_firstFrame]; decide) rfl
  have hevent : (6 : Int) ≠ Descriptors.standard.eventFd := by decide
  have hlisten : (6 : Int) ≠ Descriptors.standard.listenFd := by decide
  have h' := h.can_dispatch hw hevent hlisten
  have hnot : ¬ Finished c.serial (events ts) := by
    rw [hserial, hevents]
    rintro ⟨d, hd, hf⟩
    simp only [List.mem_cons, List.not_mem_nil, or_false] at hd
    rcases hd with rfl | rfl | rfl
    · exact hf
    · exact hf
    · exact hfinishes hf
  have hrecv := (buffer_full_unreachable h').1 6 c rfl found
  rw [events_append, events_singleton, List.append_nil] at hrecv
  refine ⟨_, _, c, h', rfl, found, ?_, hcontents, fun bs pos le => ((hrecv hnot).2 bs pos le).1⟩
  rw [events_append, events_singleton, List.append_nil, hevents]
  simp only [behaviour, houtput, if_neg hfinishes]
  rfl

/-! ## The end of a connection -/

/-- A connection that has had a bad frame or an in-sequence logout is closed by the
end of that receive step, which its parse step ends: it is gone, its slot is
cleared and the engine was told.  From then on nothing is sent to it by the parse
loop and no command is pushed for it. -/
def FinishedMeansClosed (ts : List (Taken Server Label)) : Prop :=
  ∀ us t vs k, ts = us ++ t :: vs → Finished k t.label.events →
    (∀ fd c, t.dst.connections.find fd = some c → c.serial ≠ k) ∧
    (∀ fd c, t.src.connections.find fd = some c → c.serial = k →
      (t.dst.slot c.token.slot).fd = -1) ∧
    (∃ token enqueued, Event.closed k token enqueued ∈ t.label.events) ∧
    ∀ e ∈ events vs, e.output k = none

theorem Move.open_of_finished {s s' : Server} {es : List Event} {k : Nat} (h : Move s es s')
    (hfin : Finished k es) : ∃ fd c, s'.connections.find fd = some c ∧ c.serial = k := by
  obtain ⟨e, he, hf⟩ := hfin
  cases h with
  | quiet routes engine pc passed => exact absurd hf ((engine e he).silent k).finishes
  | closed found routes engine aside =>
      rcases List.mem_append.mp he with he | he
      · exact absurd hf ((engine e he).silent k).finishes
      · rw [List.mem_singleton.mp he] at hf
        exact absurd hf id
  | overflowed found le full routes aside =>
      rcases List.mem_cons.mp he with rfl | he
      · exact absurd hf id
      · rw [List.mem_singleton.mp he] at hf
        exact absurd hf id
  | starved | exited => cases he
  | accepted | received =>
      rw [List.mem_singleton.mp he] at hf
      exact absurd hf id
  | @refused fd c s' loop found long bad routes pc =>
      rw [List.mem_singleton.mp he] at hf
      refine ⟨fd, c, ?_, hf⟩
      rw [routes]
      exact Routed.find_assign_self found c
  | @answered fd c c' r e' s' loop found long read answered =>
      rw [List.mem_singleton.mp he] at hf
      refine ⟨fd, c', ?_, ?_⟩
      · rw [answered.routes]
        exact Routed.find_assign_self found c'
      · rw [answered.same.serial]
        exact not_not.mp fun hk => (answered.event.silent hk).finishes hf

theorem finished_flatMap {k : Nat} :
    Finished k (events ts) ↔ ∃ t ∈ ts, Finished k t.label.events := by
  constructor
  · rintro ⟨e, he, hf⟩
    obtain ⟨t, ht, he⟩ := List.mem_flatMap.mp he
    exact ⟨t, ht, e, he, hf⟩
  · rintro ⟨t, ht, e, he, hf⟩
    exact ⟨e, List.mem_flatMap.mpr ⟨t, ht, he⟩, hf⟩

theorem ServerRun.finishedMeansClosed_iff (h : ServerRun D ts s) :
    FinishedMeansClosed ts ↔ ∀ k, ¬ Finished k (events ts) := by
  constructor
  · intro hclosed k hfin
    obtain ⟨t, ht, hlast⟩ := finished_flatMap.mp hfin
    obtain ⟨fd, c, hc, hk⟩ := (h.sound_of_mem ht).2.open_of_finished hlast
    obtain ⟨us, vs, rfl⟩ := List.append_of_mem ht
    exact (hclosed us t vs k rfl hlast).1 fd c hc hk
  · rintro hnone us t vs k rfl hfin
    exact absurd (finished_flatMap.mpr ⟨t, List.mem_append_right _ List.mem_cons_self, hfin⟩)
      (hnone k)

/-- **A finished connection is really finished exactly where no connection's bytes
hold a bad frame or an in-sequence logout.** -/
theorem finished_means_closed_iff (h : ServerRun D ts s) :
    ((∀ k fd token, Event.accepted k fd token ∈ events ts →
        ¬ StreamEnds token (received k (events ts))) → FinishedMeansClosed ts) ∧
      (s.gateway.loop = none → FinishedMeansClosed ts →
        ∀ k fd token, Event.accepted k fd token ∈ events ts →
          ¬ StreamEnds token (received k (events ts))) := by
  rw [h.finishedMeansClosed_iff]
  constructor
  · intro hends k hfin
    have hlt : k < s.accepts := Nat.not_le.mp fun hle => ((h.tracks k).unborn hle).1 hfin
    obtain ⟨fd, hacc⟩ := h.accepted_of_lt k hlt
    refine hends k fd _ hacc ?_
    have := ((h.tracks k).finished hfin []).2
    rwa [List.append_nil] at this
  · intro houtside hnone k fd token hacc
    obtain rfl := h.token_of_accepted hacc
    obtain ⟨rest, expected, hrun, hrest, -⟩ := (h.tracks k).running (hnone k)
    exact (hrun.eq_answers (by decide) (hrest.resolve_right (not_inLoop houtside k))).2

theorem readRequest_blankFrame : readRequest blankFrame = none :=
  readRequest_eq_none_iff.mpr fun h => absurd h.magic (by decide)

/-- A client that sends zeros keeps its connection. -/
theorem bad_frame_stays_open :
    ∃ ts s, ServerRun .standard ts s ∧ ¬ FinishedMeansClosed ts := by
  obtain ⟨ts, s, c, h, -, hloop, hc, hcontents, -⟩ :=
    first_sends blankFrame (by decide) (by decide)
  have hframe : c.parser.contents.take kFrameSize = blankFrame := by
    rw [hcontents]
    exact List.take_of_length_le (Nat.le_of_eq length_blankFrame)
  rcases parseStep_cases hloop hc.found with ⟨hshort, -⟩ | ⟨-, -, hstep⟩ | ⟨r, -, -, -, -, hread, -⟩
  · rw [hcontents, length_blankFrame] at hshort
    exact absurd hshort (Nat.lt_irrefl _)
  · have h' := h.can_parse hloop hstep
    refine ⟨_, _, h', fun hclosed => h'.finishedMeansClosed_iff.mp hclosed c.serial ?_⟩
    rw [events_append, finished_append]
    exact Or.inr ⟨_, List.mem_cons_self, rfl⟩
  · rw [hframe, readRequest_blankFrame] at hread
    cases hread

/-- The first client's order, and half of another. -/
theorem finished_means_closed_iff_firstOrder :
    ∃ ts s, ServerRun .standard ts s ∧
      received 0 (events ts) = firstFrame ++ firstFrame.take 32 ∧
      behaviour 0 (events ts) = [.command firstCommand] ∧ FinishedMeansClosed ts ∧
      (FinishedMeansClosed ts → ¬ StreamEnds (tokenOf 0) (received 0 (events ts))) := by
  have short : (firstFrame.take 32).length < kFrameSize := by
    rw [List.length_take, length_firstFrame]
    decide
  obtain ⟨ts, s, c, e, h, hevents, hw, -, -, -, houtput, hfinishes, hbytes⟩ :=
    first_leaves_residue (firstFrame.take 32) length_firstFrame readRequest_firstFrame short rfl
  have hreceived : received 0 (events ts) = firstFrame ++ firstFrame.take 32 := by
    rw [hevents]
    exact received_snoc [.accepted 0 6 (tokenOf 0), .received 0 _] hbytes
  have houtside : s.gateway.loop = none := by
    rw [hw]
    rfl
  have hacc : Event.accepted 0 6 (tokenOf 0) ∈ events ts := by
    rw [hevents]
    exact List.mem_cons_self
  refine ⟨ts, s, h, hreceived, ?_, ?_, fun hclosed =>
    (finished_means_closed_iff h).2 houtside hclosed 0 6 _ hacc⟩
  · rw [hevents]
    simp only [behaviour, houtput, if_neg hfinishes]
    rfl
  · refine (finished_means_closed_iff h).1 fun k fd token hk => ?_
    obtain ⟨rfl, rfl⟩ : k = 0 ∧ token = tokenOf 0 := by
      rw [hevents] at hk
      simp only [List.mem_cons, List.not_mem_nil, or_false] at hk
      rcases hk with hk | hk | hk
      · cases hk
        exact ⟨rfl, rfl⟩
      · cases hk
      · rw [← hk] at houtput
        cases houtput
    rw [hreceived]
    exact not_streamEnds_of_residue length_firstFrame readRequest_firstFrame short rfl

end TradingGateway.Gateway
