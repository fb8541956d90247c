/-
# `Gateway.CommandStreams` — what the engine hears of one session

Commands are pushed at two places, the parse loop and `close_conn`, while
descriptors and slots are recycled.  Read connection by connection the queue is
orderly all the same: `Numbered k es s` ties the commands that were enqueued for the
connection with serial `k` to its messages in sequence.

| while | the commands of the connection |
| :-- | :-- |
| not accepted | none |
| open | orders, numbered by distinct messages in sequence, in their order |
| afterwards | the same, and at most one SessionClosed behind them |

Tokens being unique, this is what the engine sees under a token
(`command_streams_well_formed`).  A sequence number is a 64-bit counter that starts
at 1, so numbers only grow while a connection has sent fewer than `2^64` messages in
sequence; and the Shutdown command goes out under the token `⟨0, 0⟩`, which no
connection gets.
-/
import TradingGateway.Gateway.Handover
import TradingGateway.Gateway.Responses
import TradingGateway.Gateway.Streams

namespace TradingGateway.Gateway

open Lib OrderEntry Spsc

variable {D : Descriptors} {ts : List (Taken Server Label)} {s s' : Server}
  {es fs : List Event} {k : Nat}

/-! ## Commands and messages of one connection -/

/-- The command that the event put in the queue for the connection with serial `k`. -/
def Event.commandFrom (k : Nat) : Event → Option EngineCommand
  | .command j _ cmd true => if j = k then some cmd else none
  | .closed j token true =>
      if j = k then some { type := .sessionClosed, session := token } else none
  | _ => none

def commandsFrom (k : Nat) (es : List Event) : List EngineCommand :=
  es.filterMap (Event.commandFrom k)

/-- The output answers a message in sequence. -/
def Output.inSequence : Output → Bool
  | .command _ => true
  | .control _ (.accepted _ _) => true
  | .control _ _ => false

/-- How many messages of the connection were in sequence. -/
def inSequence (k : Nat) (es : List Event) : Nat :=
  es.countP fun e => (e.output k).any Output.inSequence

/-- The first `n` sequence numbers. -/
def requestNumbers (n : Nat) : List UInt64 := (List.range n).map fun i => UInt64.ofNat (1 + i)

/-- Orders whose request numbers are among the first `n`, in their order. -/
structure OrdersOnly (cmds : List EngineCommand) (n : Nat) : Prop where
  orders : ∀ cmd ∈ cmds, cmd.IsOrder
  numbered : (cmds.map EngineCommand.requestSequence).Sublist (requestNumbers n)

/-- Nothing, or one SessionClosed. -/
def AtMostClosed (cmds : List EngineCommand) : Prop :=
  cmds = [] ∨ ∃ cmd, cmds = [cmd] ∧ cmd.type = .sessionClosed

theorem requestNumbers_succ (n : Nat) :
    requestNumbers (n + 1) = requestNumbers n ++ [UInt64.ofNat (1 + n)] := by
  rw [requestNumbers, List.range_succ, List.map_append]
  rfl

theorem commandsFrom_append (k : Nat) (es fs : List Event) :
    commandsFrom k (es ++ fs) = commandsFrom k es ++ commandsFrom k fs :=
  List.filterMap_append

theorem inSequence_append (k : Nat) (es fs : List Event) :
    inSequence k (es ++ fs) = inSequence k es + inSequence k fs :=
  List.countP_append

namespace OrdersOnly

variable {cmds : List EngineCommand} {n : Nat}

theorem nil (n : Nat) : OrdersOnly [] n := ⟨nofun, List.nil_sublist _⟩

theorem skip (h : OrdersOnly cmds n) : OrdersOnly cmds (n + 1) := by
  refine ⟨h.orders, ?_⟩
  rw [requestNumbers_succ]
  exact h.numbered.trans (List.sublist_append_left _ _)

theorem push (h : OrdersOnly cmds n) {cmd : EngineCommand} (order : cmd.IsOrder)
    (number : cmd.requestSequence = UInt64.ofNat (1 + n)) : OrdersOnly (cmds ++ [cmd]) (n + 1) := by
  constructor
  · intro cmd' hmem
    rcases List.mem_append.mp hmem with hmem | hmem
    · exact h.orders cmd' hmem
    · rw [List.mem_singleton.mp hmem]
      exact order
  · rw [requestNumbers_succ, List.map_append, ← number]
    exact h.numbered.append_right _

theorem increasing (h : OrdersOnly cmds n) (hn : n < 2 ^ 64) :
    cmds.Pairwise fun a b => a.requestSequence < b.requestSequence := by
  have hrange : (requestNumbers n).Pairwise (· < ·) := by
    refine List.pairwise_map.mpr ((List.pairwise_lt_range).imp_of_mem ?_)
    intro i j _ hj hij
    have hsize : 1 + j < UInt64.size :=
      Nat.lt_of_le_of_lt (Nat.one_add j ▸ List.mem_range.mp hj) hn
    have hlt : 1 + i < 1 + j := Nat.add_lt_add_left hij 1
    rw [UInt64.lt_iff_toNat_lt, UInt64.toNat_ofNat_of_lt' hsize,
      UInt64.toNat_ofNat_of_lt' (Nat.lt_trans hlt hsize)]
    exact hlt
  exact List.pairwise_map.mp (hrange.sublist h.numbered)

end OrdersOnly

/-! ## Events that say nothing of a connection -/

/-- The events hold no command of the connection, and no answer to it. -/
structure Mute (k : Nat) (es : List Event) : Prop where
  commands : commandsFrom k es = []
  messages : inSequence k es = 0

theorem mute_of_forall (h : ∀ e ∈ es, e.commandFrom k = none ∧ e.output k = none) : Mute k es where
  commands := List.filterMap_eq_nil_iff.mpr fun e he => (h e he).1
  messages := List.countP_eq_zero.mpr fun e he => by
    rw [(h e he).2]
    nofun

theorem Mute.append (hes : Mute k es) (hfs : Mute k fs) : Mute k (es ++ fs) where
  commands := by rw [commandsFrom_append, hes.commands, hfs.commands, List.append_nil]
  messages := by rw [inSequence_append, hes.messages, hfs.messages]

theorem Mute.after (hfs : Mute k fs) (es : List Event) :
    commandsFrom k (es ++ fs) = commandsFrom k es ∧ inSequence k (es ++ fs) = inSequence k es := by
  constructor
  · rw [commandsFrom_append, hfs.commands, List.append_nil]
  · rw [inSequence_append, hfs.messages, Nat.add_zero]

theorem mute_engine (h : ∀ e ∈ es, e.Engine s) (k : Nat) : Mute k es := by
  refine mute_of_forall fun e he => ?_
  have hengine := h e he
  cases e with
  | engineFrame | dropped | popped | responded | shutdownCommand => exact ⟨rfl, rfl⟩
  | _ => exact absurd hengine id

theorem mute_closed {j : Nat} (hne : j ≠ k) (token : SessionToken) (enqueued : Bool) :
    Mute k [.closed j token enqueued] := by
  refine mute_of_forall fun e he => ?_
  rw [List.mem_singleton.mp he]
  cases enqueued with
  | true => exact ⟨if_neg hne, rfl⟩
  | false => exact ⟨rfl, rfl⟩

theorem atMostClosed_closed (k : Nat) (token : SessionToken) (enqueued : Bool) :
    AtMostClosed (commandsFrom k [.closed k token enqueued]) := by
  cases enqueued with
  | true =>
      refine Or.inr ⟨{ type := .sessionClosed, session := token }, ?_, rfl⟩
      exact List.filterMap_cons_some (if_pos rfl)
  | false => exact Or.inl rfl

/-! ## The answer to a message -/

/-- The expected number counts the messages in sequence. -/
theorem expected_answer (token : SessionToken) (expected : UInt64) (r : Request) :
    (answer token expected r).2.getD (expected + 1) =
      if (answer token expected r).1.inSequence then expected + 1 else expected := by
  unfold answer
  split
  next => rfl
  next =>
    split
    next => rfl
    next =>
      split
      next => rfl
      next => rfl

theorem isOrder_orderCommand {token : SessionToken} {r : Request} {cmd : EngineCommand}
    (h : orderCommand token r = some cmd) :
    cmd.IsOrder ∧ cmd.requestSequence = r.header.sequenceNumber := by
  obtain ⟨header, payload⟩ := r
  cases payload with
  | newOrder order =>
      rw [← Option.some.inj h]
      exact ⟨List.mem_cons_self, rfl⟩
  | cancelOrder id =>
      rw [← Option.some.inj h]
      exact ⟨List.mem_cons_of_mem _ List.mem_cons_self, rfl⟩
  | modifyOrder id price quantity =>
      rw [← Option.some.inj h]
      exact ⟨List.mem_cons_of_mem _ (List.mem_cons_of_mem _ List.mem_cons_self), rfl⟩
  | heartbeat => cases h
  | logout => cases h

/-- A command bears the number that was expected. -/
theorem isOrder_answer {token : SessionToken} {expected : UInt64} {r : Request}
    {cmd : EngineCommand} (h : (answer token expected r).1 = .command cmd) :
    cmd.IsOrder ∧ cmd.requestSequence = expected := by
  obtain ⟨rfl, horder⟩ := order_of_answer h
  exact isOrder_orderCommand horder

section Shown

variable {c : Connection} {fd : Int} {q q' : CommandQueue} {o : Output} {next : Option UInt64}
  {e : Event}

theorem Shows.inSequence (h : Shows c fd q q' o next e) :
    inSequence c.serial [e] = if o.inSequence then 1 else 0 := by
  rw [Gateway.inSequence, List.countP_singleton, h.output]
  rfl

theorem Shows.commandsFrom (h : Shows c fd q q' o next e) :
    commandsFrom c.serial [e] = [] ∨
      ∃ cmd, o = .command cmd ∧ commandsFrom c.serial [e] = [cmd] := by
  cases h with
  | control read last kept => exact Or.inl rfl
  | @command msg order pushed =>
      cases (q.push ⟨toCommand c.token msg, c.serial⟩).1 with
      | true => exact Or.inr ⟨_, rfl, List.filterMap_cons_some (if_pos rfl)⟩
      | false => exact Or.inl rfl

theorem Shows.mute (h : Shows c fd q q' o next e) (hne : c.serial ≠ k) : Mute k [e] := by
  refine mute_of_forall fun e' he => ?_
  rw [List.mem_singleton.mp he]
  refine ⟨?_, (h.silent hne).output⟩
  cases h with
  | control read last kept => rfl
  | @command msg order pushed =>
      cases (q.push ⟨toCommand c.token msg, c.serial⟩).1 with
      | true => exact if_neg hne
      | false => rfl

end Shown

/-! ## The invariant -/

/-- What the engine was told of the connection with serial `k`. -/
structure Numbered (k : Nat) (es : List Event) (s : Server) : Prop where
  unborn : s.accepts ≤ k → Mute k es
  live : ∀ {fd c}, s.connections.find fd = some c → c.serial = k →
    c.expectedSequence = UInt64.ofNat (1 + inSequence k es) ∧
      OrdersOnly (commandsFrom k es) (inSequence k es)
  stream : ∃ orders ends, commandsFrom k es = orders ++ ends ∧
    OrdersOnly orders (inSequence k es) ∧ AtMostClosed ends

theorem numbered_fresh (D : Descriptors) (k : Nat) : Numbered k [] (Server.fresh D) where
  unborn := fun _ => mute_of_forall nofun
  live := fun hc => by cases hc
  stream := ⟨[], [], rfl, .nil _, Or.inl rfl⟩

namespace Numbered

theorem untouched (h : Numbered k es s) (mute : Mute k fs) (accepts : s'.accepts = s.accepts)
    (conns : ∀ {fd c}, s'.connections.find fd = some c → c.serial = k →
      ∃ c₀, s.connections.find fd = some c₀ ∧ c₀.serial = k ∧
        c.expectedSequence = c₀.expectedSequence) : Numbered k (es ++ fs) s' := by
  obtain ⟨hcommands, hmessages⟩ := mute.after es
  refine ⟨?_, ?_, ?_⟩
  · rw [accepts]
    exact fun hle => (h.unborn hle).append mute
  · rw [hcommands, hmessages]
    intro fd c hc hk
    obtain ⟨c₀, hc₀, hk₀, heq⟩ := conns hc hk
    rw [heq]
    exact h.live hc₀ hk₀
  · rw [hcommands, hmessages]
    exact h.stream

theorem accepted (h : Numbered k es s) {fd : Int} (free : s.connections.find fd = none)
    (mute : Mute k fs) (routes : s'.toRoutes = s.link fd) : Numbered k (es ++ fs) s' := by
  obtain ⟨hcommands, hmessages⟩ := mute.after es
  refine ⟨?_, ?_, ?_⟩
  · rw [routes]
    exact fun hle => (h.unborn (Nat.le_of_succ_le hle)).append mute
  · rw [hcommands, hmessages]
    intro j c hc hk
    rw [routes, Routed.find_link free] at hc
    split at hc
    next =>
      obtain rfl := Option.some.inj hc
      obtain ⟨hnone, hzero⟩ := h.unborn (Nat.le_of_eq hk)
      rw [hnone, hzero]
      exact ⟨rfl, .nil _⟩
    next => exact h.live hc hk
  · rw [hcommands, hmessages]
    exact h.stream

theorem closed (h : Numbered k es s) {fd : Int} {c : Connection}
    (found : s.connections.find fd = some c) (hk : c.serial = k) (born : k < s'.accepts)
    (gone : ∀ {fd c}, s'.connections.find fd = some c → c.serial ≠ k)
    (ends : AtMostClosed (commandsFrom k fs)) (messages : inSequence k fs = 0) :
    Numbered k (es ++ fs) s' := by
  have hmessages : inSequence k (es ++ fs) = inSequence k es := by
    rw [inSequence_append, messages, Nat.add_zero]
  refine ⟨fun hle => absurd born (Nat.not_lt.mpr hle), fun hc hk' => absurd hk' (gone hc), ?_⟩
  rw [hmessages]
  exact ⟨commandsFrom k es, commandsFrom k fs, commandsFrom_append k es fs, (h.live found hk).2, ends⟩

theorem answered (h : Numbered k es s) (hrouted : Routed s.toRoutes) {fd : Int} {c c' : Connection}
    {r : Request} {e : Event} (found : s.connections.find fd = some c) (hk : c.serial = k)
    (answered : Answered s fd c r c' e s') : Numbered k (es ++ [e]) s' := by
  obtain ⟨hnumber, honly⟩ := h.live found hk
  have hcommands := answered.event.commandsFrom
  have hmessages := answered.event.inSequence
  have hnext := answered.expected
  rw [hk] at hcommands hmessages
  rw [expected_answer] at hnext
  have hnew : c'.expectedSequence = UInt64.ofNat (1 + inSequence k (es ++ [e])) ∧
      OrdersOnly (commandsFrom k (es ++ [e])) (inSequence k (es ++ [e])) := by
    rw [commandsFrom_append, inSequence_append, hmessages, hnext]
    by_cases hin : (answer c.token c.expectedSequence r).1.inSequence = true
    · rw [if_pos hin, if_pos hin, hnumber, ← Nat.add_assoc, UInt64.ofNat_add (1 + _) 1]
      refine ⟨rfl, ?_⟩
      rcases hcommands with hnone | ⟨cmd, hcmd, hone⟩
      · rw [hnone, List.append_nil]
        exact honly.skip
      · obtain ⟨horder, hseq⟩ := isOrder_answer hcmd
        rw [hone]
        exact honly.push horder (hseq.trans hnumber)
    · rw [if_neg hin, if_neg hin, Nat.add_zero]
      refine ⟨hnumber, ?_⟩
      rcases hcommands with hnone | ⟨cmd, hcmd, -⟩
      · rw [hnone, List.append_nil]
        exact honly
      · rw [hcmd] at hin
        exact absurd rfl hin
  refine ⟨?_, ?_, ⟨_, [], (List.append_nil _).symm, hnew.2, Or.inl rfl⟩⟩
  · rw [answered.routes]
    intro hle
    exact absurd (hk ▸ (hrouted.entry found).2.2.2) (Nat.not_lt.mpr hle)
  · intro j d hd hdk
    rw [answered.routes] at hd
    obtain rfl := Routed.eq_of_assign hrouted found hd (hdk.trans hk.symm)
    exact hnew

end Numbered

theorem serial_ne_of_unlink {r : Routes} (hr : Routed r) {fd j : Int} {c d : Connection}
    {tok : SessionToken} (hc : r.connections.find fd = some c)
    (hd : (r.unlink fd tok).connections.find j = some d) : d.serial ≠ c.serial := by
  rw [Routed.find_unlink] at hd
  split at hd
  next => cases hd
  next hne => exact fun heq => hne (hr.unique hd hc heq)

/-- **Every move keeps the invariant, for every connection.** -/
theorem Move.numbered (hs : Sound s) (h : Move s fs s') (hn : Numbered k es s) :
    Numbered k (es ++ fs) s' := by
  have kept : ∀ {r : Routes}, s'.toRoutes = r →
      (∀ {fd c}, r.connections.find fd = some c → c.serial = k →
        s.connections.find fd = some c) →
      ∀ {fd c}, s'.connections.find fd = some c → c.serial = k →
        ∃ c₀, s.connections.find fd = some c₀ ∧ c₀.serial = k ∧
          c.expectedSequence = c₀.expectedSequence := by
    rintro r rfl hold fd c hc hk
    exact ⟨c, hold hc hk, hk, rfl⟩
  cases h with
  | quiet routes engine pc passed =>
      exact hn.untouched (mute_engine engine k) (congrArg Routes.accepts routes)
        (kept routes fun hc _ => hc)
  | accepted pos free routes aside => exact hn.accepted free ⟨rfl, rfl⟩ routes
  | @closed fd c es' enqueued s' found routes engine aside =>
      have hmute := mute_engine engine k
      by_cases hk : c.serial = k
      · subst hk
        refine hn.closed found rfl ?_ ?_ ?_ ?_
        · rw [routes]
          exact (hs.routed.entry found).2.2.2
        · rw [routes]
          exact fun hd => serial_ne_of_unlink hs.routed found hd
        · rw [commandsFrom_append, hmute.commands]
          exact atMostClosed_closed c.serial c.token enqueued
        · rw [inSequence_append, hmute.messages]
          rfl
      · exact hn.untouched (hmute.append (mute_closed hk c.token enqueued))
          (by rw [routes]; rfl) (kept routes fun hd _ => Routed.of_unlink hd)
  | @received fd c bs s' found le fits routes outside alive pc =>
      refine hn.untouched ⟨rfl, rfl⟩ (by rw [routes]; rfl) ?_
      intro j d hd hk
      rw [routes, Routed.find_assign found] at hd
      split at hd
      next heq =>
        obtain rfl := Option.some.inj hd
        exact ⟨c, heq ▸ found, hk, rfl⟩
      next => exact ⟨d, hd, hk, rfl⟩
  | @overflowed fd c bs enqueued s' found le full routes aside =>
      have hrouted := hs.routed.assign found (.self c)
      have hfound := Routed.find_assign_self found c
      by_cases hk : c.serial = k
      · subst hk
        refine hn.closed found rfl ?_ ?_ (atMostClosed_closed c.serial c.token enqueued) rfl
        · rw [routes]
          exact (hs.routed.entry found).2.2.2
        · rw [routes]
          exact fun hd => serial_ne_of_unlink hrouted hfound hd
      · have hmute : Mute k [.received c.serial bs] := ⟨rfl, rfl⟩
        exact hn.untouched (hmute.append (mute_closed hk c.token enqueued)) (by rw [routes]; rfl)
          (kept routes fun hd _ => Routed.of_assign_self found (Routed.of_unlink hd))
  | starved loop found short routes pc =>
      exact hn.untouched ⟨rfl, rfl⟩ (by rw [routes]; rfl)
        (kept routes fun hd _ => Routed.of_assign_self found hd)
  | refused loop found long bad routes pc =>
      exact hn.untouched ⟨rfl, rfl⟩ (by rw [routes]; rfl)
        (kept routes fun hd _ => Routed.of_assign_self found hd)
  | @answered fd c c' r e s' loop found long read answered =>
      by_cases hk : c.serial = k
      · exact hn.answered hs.routed found hk answered
      · refine hn.untouched (answered.event.mute hk) (by rw [answered.routes]; rfl)
          (kept answered.routes fun hd hdk => Routed.of_assign_ne found hd ?_)
        rw [hdk, answered.same.serial]
        exact Ne.symm hk
  | exited routes outside pc =>
      exact hn.untouched ⟨rfl, rfl⟩ (by rw [routes]) (kept routes fun hd _ => hd)

theorem ServerRun.numbered (h : ServerRun D ts s) (k : Nat) : Numbered k (events ts) s := by
  refine Run.invariant (I := fun ts s => Numbered k (events ts) s) ?_ ?_ h
  · rintro s rfl
    exact numbered_fresh D k
  · intro ts s l s' hr hn hstep
    have hs := ServerRun.sound hr
    rw [events_append, events_singleton]
    exact (hstep.move hs).numbered hs hn

/-! ## Tokens -/

/-- The tokens given to connections. -/
def acceptedTokens (es : List Event) : List SessionToken :=
  es.filterMap fun
    | .accepted _ _ token => some token
    | _ => none

theorem ServerRun.acceptedTokens_eq (h : ServerRun D ts s) :
    acceptedTokens (events ts) = (List.range s.accepts).map tokenOf := by
  refine Run.invariant (I := fun ts s =>
    acceptedTokens (events ts) = (List.range s.accepts).map tokenOf) ?_ ?_ h
  · rintro s rfl
    rfl
  · intro ts s l s' hr ih hstep
    have hs := ServerRun.sound hr
    have happend : acceptedTokens (events ts ++ l.events)
        = acceptedTokens (events ts) ++ acceptedTokens l.events :=
      List.filterMap_append
    rw [events_append, events_singleton, happend, ih]
    rcases (hstep.move hs).accepts hs.routed with ⟨fd, hes, hacc⟩ | ⟨hnone, hacc⟩
    · rw [hes, hacc, List.range_succ, List.map_append]
      rfl
    · have hnil : acceptedTokens l.events = [] := by
        refine List.filterMap_eq_nil_iff.mpr fun e he => ?_
        cases e with
        | accepted k fd token => exact absurd he (hnone k fd token)
        | _ => rfl
      rw [hnil, hacc, List.append_nil]

theorem ServerRun.acceptedTokens_nodup (h : ServerRun D ts s)
    (hbound : ∀ slot < kMaxSlots, slotAssignments slot (events ts) < 2 ^ 32) :
    (acceptedTokens (events ts)).Nodup := by
  rw [h.acceptedTokens_eq]
  refine (List.nodup_map_iff_inj_on List.nodup_range).mpr ?_
  intro a ha b hb heq
  refine tokenOf_injective (n := s.accepts) ?_ (List.mem_range.mp ha) (List.mem_range.mp hb) heq
  intro i hi
  rw [← h.counts.1 i hi]
  exact hbound i hi

theorem tokenOf_ne_default {n : Nat} (hbound : ∀ i < kMaxSlots, assignments n i < 2 ^ 32)
    (hk : k < n) : tokenOf k ≠ {} := by
  intro heq
  have hround := hbound 0 (by decide)
  have hgen : (k / kMaxSlots + 1) % 2 ^ 32 = 0 := by
    have hzero := congrArg (fun t => t.generation.toNat) heq
    simp only [tokenOf, UInt32.toNat_ofNat'] at hzero
    exact hzero
  simp only [assignments, kMaxSlots] at hround hgen
  omega

/-- The command bears the token of its source, an accepted connection. -/
def Event.Bears (n : Nat) : Event → Prop
  | .command j _ cmd _ => cmd.session = tokenOf j ∧ j < n
  | .closed j token _ => token = tokenOf j ∧ j < n
  | _ => True

theorem session_toCommand (token : SessionToken) (msg : DecodedMessage) :
    (toCommand token msg).session = token := by
  unfold toCommand
  dsimp only
  split_ifs
  all_goals rfl

theorem ServerRun.bears (h : ServerRun D ts s) : ∀ e ∈ events ts, e.Bears s.accepts := by
  refine h.forall_seen (P := Event.Bears) ?_ ?_
  · intro m n e hbears hle
    cases e with
    | command j msg cmd enqueued => exact ⟨hbears.1, Nat.lt_of_lt_of_le hbears.2 hle⟩
    | closed j token enqueued => exact ⟨hbears.1, Nat.lt_of_lt_of_le hbears.2 hle⟩
    | _ => exact trivial
  · intro s e hs hseen
    cases hseen with
    | engine engine =>
        cases e with
        | engineFrame | dropped | popped | responded | shutdownCommand => exact trivial
        | _ => exact absurd engine id
    | command found order =>
        obtain ⟨-, -, htoken, hlt⟩ := hs.routed.entry found
        exact ⟨(session_toCommand _ _).trans htoken, hlt⟩
    | closed found =>
        obtain ⟨-, -, htoken, hlt⟩ := hs.routed.entry found
        exact ⟨htoken, hlt⟩
    | _ => exact trivial

/-! ## The stream under a token -/

/-- The commands bearing the token. -/
def bearing (token : SessionToken) (cmds : List (Traced EngineCommand)) : List EngineCommand :=
  (cmds.filter fun cmd => cmd.value.session = token).map Traced.value

/-- Orders, and at most one SessionClosed behind them. -/
def OrdersThenClosed (cmds : List EngineCommand) : Prop :=
  ∃ orders ends, cmds = orders ++ ends ∧ (∀ cmd ∈ orders, cmd.IsOrder) ∧ AtMostClosed ends

/-- Orders with strictly increasing request numbers, and at most one SessionClosed
behind them. -/
def CommandStream (cmds : List EngineCommand) : Prop :=
  ∃ orders ends, cmds = orders ++ ends ∧ (∀ cmd ∈ orders, cmd.IsOrder) ∧
    (orders.Pairwise fun a b => a.requestSequence < b.requestSequence) ∧ AtMostClosed ends

theorem bearing_enqueued (token : SessionToken) (es : List Event) :
    bearing token (enqueued es) = es.filterMap fun e =>
      (e.enqueued.filter fun cmd => cmd.value.session = token).map Traced.value := by
  rw [bearing, enqueued, List.filter_filterMap, List.map_filterMap]

theorem filter_session (token : SessionToken) (cmd : Traced EngineCommand) :
    ((some cmd).filter fun cmd => cmd.value.session = token).map Traced.value
      = if cmd.value.session = token then some cmd.value else none := by
  by_cases h : cmd.value.session = token
  · simp only [Option.filter_some, h, decide_true, if_true, Option.map_some]
  · simp only [Option.filter_some, h, decide_false, if_false, Bool.false_eq_true, Option.map_none]

theorem commandFrom_of_none {e : Event} (h : e.enqueued = none) (k : Nat) :
    e.commandFrom k = none := by
  cases e with
  | command j msg cmd enqueued | closed j token enqueued =>
      cases enqueued with
      | true => cases h
      | false => rfl
  | _ => rfl

theorem Event.Bears.enqueued {n : Nat} {e : Event} (hbears : e.Bears n)
    {cmd : Traced EngineCommand} (h : e.enqueued = some cmd) :
    (cmd.value.session = tokenOf cmd.source ∧ cmd.source < n ∧
        ∀ k, e.commandFrom k = if cmd.source = k then some cmd.value else none) ∨
      (cmd.value.session = {} ∧ ∀ k, e.commandFrom k = none) := by
  cases e with
  | command j msg cmd enqueued | closed j token enqueued =>
      cases enqueued with
      | true =>
          obtain rfl := Option.some.inj h
          exact Or.inl ⟨hbears.1, hbears.2, fun _ => rfl⟩
      | false => cases h
  | shutdownCommand enqueued =>
      cases enqueued with
      | true =>
          obtain rfl := Option.some.inj h
          exact Or.inr ⟨rfl, fun _ => rfl⟩
      | false => cases h
  | _ => cases h

theorem ServerRun.bearing_tokenOf (h : ServerRun D ts s)
    (hbound : ∀ i < kMaxSlots, assignments s.accepts i < 2 ^ 32) (hk : k < s.accepts) :
    bearing (tokenOf k) (enqueued (events ts)) = commandsFrom k (events ts) := by
  have hiff : ∀ {j}, j < s.accepts → (tokenOf j = tokenOf k ↔ j = k) := fun hj =>
    ⟨tokenOf_injective hbound hj hk, congrArg tokenOf⟩
  rw [bearing_enqueued]
  refine List.filterMap_congr fun e he => ?_
  cases hcmd : e.enqueued with
  | none =>
      rw [commandFrom_of_none hcmd]
      rfl
  | some cmd =>
      rw [filter_session]
      rcases (h.bears e he).enqueued hcmd with ⟨hsession, hlt, hfrom⟩ | ⟨hsession, hfrom⟩
      · rw [hfrom, hsession]
        exact if_congr (hiff hlt) rfl rfl
      · rw [hfrom, hsession]
        exact if_neg (Ne.symm (tokenOf_ne_default hbound hk))

theorem ServerRun.bearing_other (h : ServerRun D ts s) {token : SessionToken} (hne : token ≠ {})
    (hother : ∀ j < s.accepts, tokenOf j ≠ token) : bearing token (enqueued (events ts)) = [] := by
  rw [bearing_enqueued]
  refine List.filterMap_eq_nil_iff.mpr fun e he => ?_
  cases hcmd : e.enqueued with
  | none => rfl
  | some cmd =>
      rw [filter_session]
      rcases (h.bears e he).enqueued hcmd with ⟨hsession, hlt, -⟩ | ⟨hsession, -⟩
      · rw [hsession]
        exact if_neg (hother _ hlt)
      · rw [hsession]
        exact if_neg (Ne.symm hne)

theorem Numbered.ordersThenClosed (h : Numbered k es s) : OrdersThenClosed (commandsFrom k es) := by
  obtain ⟨orders, ends, heq, honly, hends⟩ := h.stream
  exact ⟨orders, ends, heq, honly.orders, hends⟩

theorem Numbered.commandStream (h : Numbered k es s) (hlt : inSequence k es < 2 ^ 64) :
    CommandStream (commandsFrom k es) := by
  obtain ⟨orders, ends, heq, honly, hends⟩ := h.stream
  exact ⟨orders, ends, heq, honly.orders, honly.increasing hlt, hends⟩

/-- **Distinct connections have distinct tokens, the engine takes the commands in the
order they were enqueued, and those under a connection's token are orders and at most one
SessionClosed behind them**; the orders' numbers increase while the connection's counter
does not come round. -/
theorem command_streams_well_formed (h : ServerRun D ts s)
    (hbound : ∀ slot < kMaxSlots, slotAssignments slot (events ts) < 2 ^ 32) :
    (acceptedTokens (events ts)).Nodup ∧
      enqueued (events ts) = popped (events ts) ++ s.cmdQueue.items ∧
      ∀ token ≠ {}, OrdersThenClosed (bearing token (enqueued (events ts))) ∧
        ((∀ k fd, Event.accepted k fd token ∈ events ts → inSequence k (events ts) < 2 ^ 64) →
          CommandStream (bearing token (enqueued (events ts)))) := by
  refine ⟨h.acceptedTokens_nodup hbound, h.commands, ?_⟩
  intro token hne
  have hassigned : ∀ i < kMaxSlots, assignments s.accepts i < 2 ^ 32 := by
    intro i hi
    rw [← h.counts.1 i hi]
    exact hbound i hi
  by_cases htoken : ∃ k < s.accepts, tokenOf k = token
  · obtain ⟨k, hk, rfl⟩ := htoken
    obtain ⟨fd, hacc⟩ := h.accepted_of_lt k hk
    rw [h.bearing_tokenOf hassigned hk]
    exact ⟨(h.numbered k).ordersThenClosed, fun hmessages =>
      (h.numbered k).commandStream (hmessages k fd hacc)⟩
  · rw [h.bearing_other hne fun j hj heq => htoken ⟨j, hj, heq⟩]
    exact ⟨⟨[], [], rfl, nofun, Or.inl rfl⟩, fun _ => ⟨[], [], rfl, nofun, .nil, Or.inl rfl⟩⟩

/-- The first client's order, its cancel, and the end of its session. -/
theorem command_streams_well_formed_firstCancel :
    ∃ ts s, ServerRun .standard ts s ∧ (acceptedTokens (events ts)).Nodup ∧
      bearing (tokenOf 0) (enqueued (events ts))
        = [firstCommand, cancelCommand, { type := .sessionClosed, session := tokenOf 0 }] ∧
      CommandStream (bearing (tokenOf 0) (enqueued (events ts))) := by
  obtain ⟨ts, s, msg, msg', h, hevents⟩ := first_cancels
  have hbound : ∀ slot < kMaxSlots, slotAssignments slot (events ts) < 2 ^ 32 := by
    intro slot _
    rw [hevents]
    exact slotAssignments_lt (by exact (by decide : 12 < 2 ^ 32)) slot
  obtain ⟨hnodup, -, hstreams⟩ := command_streams_well_formed h hbound
  refine ⟨ts, s, h, hnodup, ?_, (hstreams (tokenOf 0) (by decide)).2 fun k _ _ => ?_⟩
  · rw [hevents]
    rfl
  · rw [hevents]
    exact Nat.lt_of_le_of_lt List.countP_le_length (by exact (by decide : 12 < 2 ^ 64))

/-- The Shutdown command is no order, and it ends no session. -/
theorem shutdown_not_stream :
    ∃ ts s, ServerRun .standard ts s ∧
      (∀ slot < kMaxSlots, slotAssignments slot (events ts) < 2 ^ 32) ∧
      ¬ CommandStream (bearing {} (enqueued (events ts))) := by
  have h : ServerRun .standard [] (Server.fresh .standard) := .start rfl
  have h1 := h.extend .epollFails rfl
  have h2 := h1.extend .shutdown rfl
  have hroom : (Server.fresh .standard).cmdQueue.HasRoom := by
    rw [Queue.HasRoom, Server.fresh, Queue.items_fresh]
    decide
  have hpushed : ((Server.fresh .standard).cmdQueue.push ⟨{ type := .shutdown }, 0⟩).1 = true := by
    rw [Queue.push_fst]
    exact decide_eq_true hroom
  rw [hpushed] at h2
  refine ⟨_, _, h2, fun _ _ => (by decide : 0 < 2 ^ 32), ?_⟩
  rintro ⟨orders, ends, heq, horders, -, hends⟩
  have heq : [({ type := .shutdown } : EngineCommand)] = orders ++ ends := heq
  have hmem : ({ type := .shutdown } : EngineCommand) ∈ orders ++ ends := by
    rw [← heq]
    exact List.mem_cons_self
  rcases List.mem_append.mp hmem with hmem | hmem
  · exact absurd (horders _ hmem) (by decide)
  · rcases hends with rfl | ⟨cmd, rfl, hclosed⟩
    · cases hmem
    · rw [← List.mem_singleton.mp hmem] at hclosed
      cases hclosed

/-- The `2^64`-th order of a connection has the number 0. -/
theorem not_stream_of_ordersSent {n : Nat} {c : Connection} (hn : OrdersSent n es s c)
    (hlt : 2 ^ 64 ≤ n) : ¬ CommandStream (bearing (tokenOf 0) (enqueued es)) := by
  have hbearing : bearing (tokenOf 0) (enqueued es)
      = (List.range n).map fun i => commandNumbered (UInt64.ofNat (1 + i)) := by
    have hall : ∀ cmd ∈ enqueued es, decide (cmd.value.session = tokenOf 0) = true := by
      rw [hn.enqueued]
      intro cmd hmem
      obtain ⟨i, -, rfl⟩ := List.mem_map.mp hmem
      exact decide_eq_true rfl
    rw [bearing, List.filter_eq_self.mpr hall, hn.enqueued, List.map_map]
    rfl
  rw [hbearing]
  rintro ⟨orders, ends, heq, -, hincreasing, hends⟩
  have hends : ends = [] := by
    rcases hends with hnil | ⟨cmd, rfl, hclosed⟩
    · exact hnil
    · have hmem : cmd ∈ orders ++ [cmd] := List.mem_append_right _ List.mem_cons_self
      rw [← heq] at hmem
      obtain ⟨i, -, rfl⟩ := List.mem_map.mp hmem
      cases hclosed
  rw [hends, List.append_nil] at heq
  rw [← heq, List.pairwise_map] at hincreasing
  have hlast := List.pairwise_iff_getElem.mp hincreasing 0 (2 ^ 64 - 1)
    (by rw [List.length_range]; omega) (by rw [List.length_range]; omega) (by omega)
  rw [List.getElem_range, List.getElem_range] at hlast
  exact absurd hlast (by decide)

/-- Under the token of the Shutdown command, and under that of a connection whose
counter came round, the stream is not as it should be. -/
theorem stream_comes_round :
    (∃ ts s, ServerRun .standard ts s ∧
      (∀ slot < kMaxSlots, slotAssignments slot (events ts) < 2 ^ 32) ∧
      ¬ CommandStream (bearing {} (enqueued (events ts)))) ∧
    ∃ ts s, ServerRun .standard ts s ∧
      (∀ slot < kMaxSlots, slotAssignments slot (events ts) < 2 ^ 32) ∧
      ∃ k fd token, Event.accepted k fd token ∈ events ts ∧
        ¬ CommandStream (bearing token (enqueued (events ts))) := by
  refine ⟨shutdown_not_stream, ?_⟩
  obtain ⟨ts, s, c, h, hn⟩ := orders_sent (2 ^ 64)
  obtain ⟨fd, hacc⟩ := h.accepted_of_lt 0 (by rw [hn.accepts]; exact Nat.one_pos)
  refine ⟨ts, s, h, fun slot hslot => ?_, 0, fd, tokenOf 0, hacc, not_stream_of_ordersSent hn (Nat.le_refl _)⟩
  rw [h.counts.1 slot hslot, hn.accepts]
  simp only [assignments, kMaxSlots]
  omega

end TradingGateway.Gateway
