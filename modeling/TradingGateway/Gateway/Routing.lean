/-
# `Gateway.Routing` — slots, tokens and descriptors

What routing rests on, for any sequence of accepts and closes.

* The slot allocator is a bare counter, so the token of the `n`-th accepted
  connection is a function of `n` (`tokenOf`), and two connections share a token
  only when their numbers are `2^32` assignments of one slot apart
  (`tokenOf_injective`).
* `Routed` is kept by every change of the routes: an entry carries the token of
  its serial, and **a slot that names a descriptor names the open connection that
  holds the slot's current generation** (`slotOwner`).  This is what makes the
  generation check of the response drain sound.
* The converse, that every open connection is named by its slot, is `Routable`.
  An accept keeps it exactly when the slot it takes is not held by an open
  connection (`Routable.link_iff`).
-/
import TradingGateway.Gateway.Server

namespace TradingGateway.Gateway

open Lib Lib.Cyclic

/-! ## Tokens -/

/-- The token of the `n`-th accepted connection, counted from 0. -/
def tokenOf (n : Nat) : SessionToken :=
  ⟨UInt32.ofNat (n % kMaxSlots), UInt32.ofNat (n / kMaxSlots + 1)⟩

theorem toNat_slot_tokenOf (n : Nat) : (tokenOf n).slot.toNat = n % kMaxSlots :=
  UInt32.toNat_ofNat_of_lt'
    (Nat.lt_trans (Nat.mod_lt n (by decide)) (by decide : kMaxSlots < 2 ^ 32))

/-- How often the slot `i` was assigned among the first `n` accepts. -/
def assignments (n i : Nat) : Nat := (n + (kMaxSlots - 1 - i)) / kMaxSlots

theorem assignments_succ {n i : Nat} (hi : i < kMaxSlots) :
    assignments (n + 1) i = assignments n i + if n % kMaxSlots = i then 1 else 0 := by
  by_cases h : n % kMaxSlots = i
  · rw [if_pos h]
    simp only [assignments, kMaxSlots] at *
    omega
  · rw [if_neg h]
    simp only [assignments, kMaxSlots] at *
    omega

/-- The slot whose turn it is was assigned once for every full round. -/
theorem assignments_allocated (n : Nat) :
    assignments n (n % kMaxSlots) = n / kMaxSlots := by
  simp only [assignments, kMaxSlots]
  omega

/-- While no slot was assigned `2^32` times, tokens are unique. -/
theorem tokenOf_injective {n a b : Nat} (hbound : ∀ i < kMaxSlots, assignments n i < 2 ^ 32)
    (ha : a < n) (hb : b < n) (h : tokenOf a = tokenOf b) : a = b := by
  have hround : n ≤ kMaxSlots * (2 ^ 32 - 1) := by
    have := hbound 0 (by decide)
    simp only [assignments, kMaxSlots] at this ⊢
    omega
  have hslot : a % kMaxSlots = b % kMaxSlots := by
    rw [← toNat_slot_tokenOf, ← toNat_slot_tokenOf, h]
  have hgen : a / kMaxSlots + 1 = b / kMaxSlots + 1 := by
    have hlt : ∀ c < n, c / kMaxSlots + 1 < 2 ^ 32 := by
      intro c hc
      simp only [kMaxSlots] at hround ⊢
      omega
    have hg := congrArg (fun t => t.generation.toNat) h
    simp only [tokenOf] at hg
    rwa [UInt32.toNat_ofNat_of_lt' (hlt a ha), UInt32.toNat_ofNat_of_lt' (hlt b hb)] at hg
  rw [← Nat.div_add_mod a kMaxSlots, ← Nat.div_add_mod b kMaxSlots, hslot,
    Nat.add_right_cancel hgen]

/-! ## The routes -/

/-- A connection updated in place. -/
def Routes.assign (r : Routes) (fd : Int) (c : Connection) : Routes :=
  { r with connections := r.connections.assign fd c }

/-- What every change of the routes keeps. -/
structure Routed (r : Routes) : Prop where
  nextSlot_eq : r.nextSlot = UInt32.ofNat r.accepts
  generation_eq : ∀ i < kMaxSlots,
    (cells r.slots i).generation = UInt32.ofNat (assignments r.accepts i)
  entry : ∀ {fd c}, r.connections.find fd = some c →
    c.fd = fd ∧ 0 ≤ fd ∧ c.token = tokenOf c.serial ∧ c.serial < r.accepts
  unique : ∀ {fd fd' c c'}, r.connections.find fd = some c → r.connections.find fd' = some c' →
    c.serial = c'.serial → fd = fd'
  slotOwner : ∀ i < kMaxSlots, 0 ≤ (cells r.slots i).fd →
    ∃ c, r.connections.find (cells r.slots i).fd = some c ∧
      c.token.slot.toNat = i ∧ c.token.generation = (cells r.slots i).generation

theorem cells_replicate {i : Nat} (v : SessionSlot) (h : i < kMaxSlots) :
    cells (Vector.replicate kMaxSlots v) i = v := by
  simp [cells, h]

theorem routed_fresh (D : Descriptors) : Routed (Server.fresh D).toRoutes where
  nextSlot_eq := rfl
  generation_eq := fun i hi => by
    show (cells (Vector.replicate kMaxSlots ({} : SessionSlot)) i).generation
      = UInt32.ofNat (assignments 0 i)
    rw [cells_replicate _ hi]
    have : assignments 0 i = 0 := by
      simp only [assignments, kMaxSlots] at *
      omega
    rw [this]
    rfl
  entry := fun h => by cases h
  unique := fun h => by cases h
  slotOwner := fun i hi h => by
    have h : 0 ≤ (cells (Vector.replicate kMaxSlots ({} : SessionSlot)) i).fd := h
    rw [cells_replicate _ hi] at h
    exact absurd h (by decide)

namespace Routed

variable {r : Routes}

theorem toNat_allocated (h : Routed r) : r.allocated.toNat = r.accepts % kMaxSlots := by
  rw [Routes.allocated, h.nextSlot_eq, UInt32.toNat_mod, UInt32.toNat_ofNat',
    UInt32.toNat_ofNat_of_lt' (by decide), Nat.mod_mod_of_dvd _ (by decide)]

theorem allocated_lt (h : Routed r) : r.allocated.toNat < kMaxSlots := by
  rw [h.toNat_allocated]
  exact Nat.mod_lt _ (by decide)

theorem nextToken_eq (h : Routed r) : r.nextToken = tokenOf r.accepts := by
  have hslot : r.allocated = (tokenOf r.accepts).slot := by
    apply UInt32.toNat.inj
    rw [h.toNat_allocated, toNat_slot_tokenOf]
  have hgen : (r.slot r.allocated).generation + 1 = (tokenOf r.accepts).generation := by
    rw [Routes.slot, h.generation_eq _ h.allocated_lt, h.toNat_allocated, assignments_allocated,
      tokenOf, UInt32.ofNat_add]
    rfl
  rw [Routes.nextToken, hgen, hslot]

theorem cells_link (h : Routed r) (fd : Int) (i : Nat) :
    cells (r.link fd).slots i =
      if i = r.allocated.toNat then ⟨fd, r.nextToken.generation⟩ else cells r.slots i := by
  show cells (r.slots.setIfInBounds r.allocated.toNat _) i = _
  rw [cells_set _ h.allocated_lt, Function.update_apply]

/-- The entry of a fresh connection. -/
def freshConnection (r : Routes) (fd : Int) : Connection :=
  { parser := .fresh, token := r.nextToken, fd := fd, serial := r.accepts }

theorem find_link {fd : Int} (hfd : r.connections.find fd = none) (j : Int) :
    (r.link fd).connections.find j =
      if j = fd then some (freshConnection r fd) else r.connections.find j :=
  UnorderedMap.find_emplace hfd j

theorem find_link_self {fd : Int} (hfd : r.connections.find fd = none) :
    (r.link fd).connections.find fd = some (freshConnection r fd) :=
  (find_link hfd fd).trans (if_pos rfl)

/-- **Accepting keeps the routes.** -/
theorem link (h : Routed r) {fd : Int} (hpos : 0 ≤ fd) (hfd : r.connections.find fd = none) :
    Routed (r.link fd) where
  nextSlot_eq := by
    show r.nextSlot + 1 = UInt32.ofNat (r.accepts + 1)
    rw [UInt32.ofNat_add, h.nextSlot_eq]
    rfl
  generation_eq := fun i hi => by
    show _ = UInt32.ofNat (assignments (r.accepts + 1) i)
    rw [h.cells_link, assignments_succ hi, h.toNat_allocated]
    split
    next heq =>
      subst heq
      rw [if_pos rfl, assignments_allocated, h.nextToken_eq]
      rfl
    next hne =>
      rw [if_neg (Ne.symm hne), Nat.add_zero]
      exact h.generation_eq i hi
  entry := fun {j c} hj => by
    rw [find_link hfd] at hj
    split at hj
    next heq =>
      obtain rfl := Option.some.inj hj
      exact ⟨heq.symm, heq ▸ hpos, h.nextToken_eq, Nat.lt_succ_self _⟩
    next =>
      obtain ⟨h1, h2, h3, h4⟩ := h.entry hj
      exact ⟨h1, h2, h3, Nat.lt_succ_of_lt h4⟩
  unique := fun {j j' c c'} hj hj' hs => by
    rw [find_link hfd] at hj hj'
    by_cases heq : j = fd <;> by_cases heq' : j' = fd
    · rw [heq, heq']
    · rw [if_pos heq] at hj
      rw [if_neg heq'] at hj'
      obtain rfl := Option.some.inj hj
      exact absurd hs.symm (Nat.ne_of_lt (h.entry hj').2.2.2)
    · rw [if_neg heq] at hj
      rw [if_pos heq'] at hj'
      obtain rfl := Option.some.inj hj'
      exact absurd hs (Nat.ne_of_lt (h.entry hj).2.2.2)
    · rw [if_neg heq] at hj
      rw [if_neg heq'] at hj'
      exact h.unique hj hj' hs
  slotOwner := fun i hi hpos' => by
    rw [h.cells_link] at hpos' ⊢
    split
    next heq =>
      refine ⟨freshConnection r fd, ?_, heq.symm, rfl⟩
      exact find_link_self hfd
    next hne =>
      rw [if_neg hne] at hpos'
      obtain ⟨c, hc, hslot, hgen⟩ := h.slotOwner i hi hpos'
      refine ⟨c, ?_, hslot, hgen⟩
      rw [find_link hfd, if_neg, hc]
      intro heq
      rw [heq, hfd] at hc
      cases hc

theorem find_unlink (fd : Int) (tok : SessionToken) (j : Int) :
    (r.unlink fd tok).connections.find j = if j = fd then none else r.connections.find j :=
  UnorderedMap.find_erase j

theorem slot_lt (h : Routed r) {fd : Int} {c : Connection} (hc : r.connections.find fd = some c) :
    c.token.slot.toNat < kMaxSlots := by
  rw [(h.entry hc).2.2.1, toNat_slot_tokenOf]
  exact Nat.mod_lt _ (by decide)

theorem cells_unlink {fd : Int} {tok : SessionToken} (hlt : tok.slot.toNat < kMaxSlots) (i : Nat) :
    cells (r.unlink fd tok).slots i =
      if i = tok.slot.toNat then { cells r.slots i with fd := -1 } else cells r.slots i := by
  show cells (r.slots.setIfInBounds tok.slot.toNat _) i = _
  rw [cells_set _ hlt, Function.update_apply]
  split
  next heq =>
    rw [heq]
    rfl
  next => rfl

/-- **Closing keeps the routes.** -/
theorem unlink (h : Routed r) {fd : Int} {c : Connection} (hc : r.connections.find fd = some c) :
    Routed (r.unlink fd c.token) where
  nextSlot_eq := h.nextSlot_eq
  generation_eq := fun i hi => by
    rw [cells_unlink (h.slot_lt hc)]
    split
    next => exact h.generation_eq i hi
    next => exact h.generation_eq i hi
  entry := fun {j c'} hj => by
    rw [find_unlink] at hj
    split at hj
    next => cases hj
    next => exact h.entry hj
  unique := fun {j j' c₁ c₂} hj hj' hs => by
    rw [find_unlink] at hj hj'
    split at hj <;> split at hj'
    next => cases hj
    next => cases hj
    next => cases hj'
    next => exact h.unique hj hj' hs
  slotOwner := fun i hi hpos => by
    rw [cells_unlink (h.slot_lt hc)] at hpos ⊢
    split
    next heq =>
      rw [if_pos heq] at hpos
      have hneg : (0 : Int) ≤ -1 := hpos
      exact absurd hneg (by decide)
    next hne =>
      rw [if_neg hne] at hpos
      obtain ⟨c', hc', hslot, hgen⟩ := h.slotOwner i hi hpos
      refine ⟨c', ?_, hslot, hgen⟩
      rw [find_unlink, if_neg, hc']
      intro heq
      rw [heq, hc] at hc'
      obtain rfl := Option.some.inj hc'
      exact hne hslot.symm

/-- The connection as the receive step leaves it: same descriptor, token and
serial. -/
structure SameIdentity (c c' : Connection) : Prop where
  fd : c'.fd = c.fd
  token : c'.token = c.token
  serial : c'.serial = c.serial

theorem SameIdentity.self (c : Connection) : SameIdentity c c := ⟨rfl, rfl, rfl⟩

theorem find_assign {fd : Int} {c : Connection} (hc : r.connections.find fd = some c)
    (c' : Connection) (j : Int) :
    (r.assign fd c').connections.find j = if j = fd then some c' else r.connections.find j :=
  UnorderedMap.find_assign (by rw [hc]; nofun) j

theorem find_assign_self {fd : Int} {c : Connection} (hc : r.connections.find fd = some c)
    (c' : Connection) : (r.assign fd c').connections.find fd = some c' :=
  (find_assign hc c' fd).trans (if_pos rfl)

theorem assign_assign {fd : Int} {c : Connection} (hc : r.connections.find fd = some c)
    (c' c'' : Connection) : (r.assign fd c').assign fd c'' = r.assign fd c'' :=
  congrArg (fun m => { r with connections := m })
    (UnorderedMap.assign_assign (by rw [hc]; nofun) c'')

theorem eq_of_assign (h : Routed r) {fd j : Int} {c c' d : Connection}
    (hc : r.connections.find fd = some c) (hd : (r.assign fd c').connections.find j = some d)
    (hserial : d.serial = c.serial) : d = c' := by
  rw [find_assign hc] at hd
  split at hd
  next => exact (Option.some.inj hd).symm
  next hne => exact absurd (h.unique hd hc hserial) hne

theorem of_assign_ne {fd j : Int} {c c' d : Connection} (hc : r.connections.find fd = some c)
    (hd : (r.assign fd c').connections.find j = some d) (hne : d.serial ≠ c'.serial) :
    r.connections.find j = some d := by
  rw [find_assign hc] at hd
  split at hd
  next =>
    obtain rfl := Option.some.inj hd
    exact absurd rfl hne
  next => exact hd

theorem of_assign_self {fd j : Int} {c d : Connection} (hc : r.connections.find fd = some c)
    (hd : (r.assign fd c).connections.find j = some d) : r.connections.find j = some d := by
  rw [find_assign hc] at hd
  split at hd
  next heq =>
    rw [heq, hc]
    exact hd
  next => exact hd

theorem of_unlink {fd j : Int} {tok : SessionToken} {d : Connection}
    (hd : (r.unlink fd tok).connections.find j = some d) : r.connections.find j = some d := by
  rw [find_unlink] at hd
  split at hd
  next => cases hd
  next => exact hd

theorem entry_of_assign {fd : Int} {c c' : Connection} (hc : r.connections.find fd = some c)
    (hid : SameIdentity c c') {j : Int} {d : Connection}
    (hd : (r.assign fd c').connections.find j = some d) :
    ∃ d₀, r.connections.find j = some d₀ ∧ SameIdentity d₀ d := by
  rw [find_assign hc] at hd
  split at hd
  next heq =>
    obtain rfl := Option.some.inj hd
    exact ⟨c, heq ▸ hc, hid⟩
  next => exact ⟨d, hd, rfl, rfl, rfl⟩

/-- **Updating a connection in place keeps the routes.** -/
theorem assign (h : Routed r) {fd : Int} {c c' : Connection}
    (hc : r.connections.find fd = some c) (hid : SameIdentity c c') :
    Routed (r.assign fd c') where
  nextSlot_eq := h.nextSlot_eq
  generation_eq := h.generation_eq
  entry := fun {j d} hd => by
    obtain ⟨d₀, hd₀, hsame⟩ := entry_of_assign hc hid hd
    rw [hsame.fd, hsame.token, hsame.serial]
    exact h.entry hd₀
  unique := fun {j j' d d'} hd hd' hs => by
    obtain ⟨d₀, hd₀, hsame⟩ := entry_of_assign hc hid hd
    obtain ⟨d₀', hd₀', hsame'⟩ := entry_of_assign hc hid hd'
    exact h.unique hd₀ hd₀' (by rw [← hsame.serial, ← hsame'.serial, hs])
  slotOwner := fun i hi hpos => by
    obtain ⟨d, hd, hslot, hgen⟩ := h.slotOwner i hi hpos
    show ∃ d', (r.assign fd c').connections.find (cells r.slots i).fd = some d' ∧ _
    rw [find_assign hc]
    split
    next heq =>
      rw [heq, hc] at hd
      obtain rfl := Option.some.inj hd
      exact ⟨c', rfl, by rw [hid.token]; exact hslot, by rw [hid.token]; exact hgen⟩
    next => exact ⟨d, hd, hslot, hgen⟩

end Routed

/-! ## Routability -/

/-- The slot of the connection's token names the connection. -/
structure Routes.Names (r : Routes) (c : Connection) : Prop where
  fd : (r.slot c.token.slot).fd = c.fd
  generation : (r.slot c.token.slot).generation = c.token.generation

theorem Routes.Names.of_slot {r r' : Routes} {c c' : Connection} (h : r.Names c)
    (hs : r'.slot c.token.slot = r.slot c.token.slot) (same : Routed.SameIdentity c c') :
    r'.Names c' where
  fd := by rw [same.token, hs, h.fd, same.fd]
  generation := by rw [same.token, hs, h.generation]

/-- Every open connection is named by its slot, so no two share one. -/
structure Routable (r : Routes) : Prop where
  named : ∀ {fd c}, r.connections.find fd = some c → r.Names c
  apart : ∀ {fd fd' c c'}, r.connections.find fd = some c → r.connections.find fd' = some c' →
    c.token.slot = c'.token.slot → fd = fd'

namespace Routable

variable {r : Routes}

theorem of_named (h : Routed r) (hn : ∀ {fd c}, r.connections.find fd = some c → r.Names c) :
    Routable r where
  named := hn
  apart := fun {fd fd' c c'} hc hc' hs => by
    rw [← (h.entry hc).1, ← (h.entry hc').1, ← (hn hc).fd, ← (hn hc').fd, hs]

theorem fresh (D : Descriptors) : Routable (Server.fresh D).toRoutes where
  named := fun h => by cases h
  apart := fun h => by cases h

/-- Closing a connection leaves the slots of the others alone. -/
theorem unlink (h : Routable r) (hr : Routed r) {fd : Int} {c : Connection}
    (hc : r.connections.find fd = some c) : Routable (r.unlink fd c.token) := by
  refine of_named (hr.unlink hc) fun {j d} hd => ?_
  rw [Routed.find_unlink] at hd
  split at hd
  next => cases hd
  next hne =>
    have hslot : d.token.slot.toNat ≠ c.token.slot.toNat :=
      fun heq => hne (h.apart hd hc (UInt32.toNat.inj heq))
    refine (h.named hd).of_slot ?_ (.self d)
    rw [Routes.slot, Routed.cells_unlink (hr.slot_lt hc), if_neg hslot]
    rfl

theorem assign (h : Routable r) (hr : Routed r) {fd : Int} {c c' : Connection}
    (hc : r.connections.find fd = some c) (hid : Routed.SameIdentity c c') :
    Routable (r.assign fd c') := by
  refine of_named (hr.assign hc hid) fun {j d} hd => ?_
  obtain ⟨d₀, hd₀, hsame⟩ := Routed.entry_of_assign hc hid hd
  exact (h.named hd₀).of_slot rfl hsame

/-- The slot an accept takes is held by an open connection. -/
def SlotHeld (r : Routes) : Prop :=
  ∃ fd c, r.connections.find fd = some c ∧ c.token.slot = r.allocated

/-- **An accept keeps every connection routable exactly when the slot it takes is
not held by an open one.** -/
theorem link_iff (h : Routable r) (hr : Routed r) {fd : Int} (hpos : 0 ≤ fd)
    (hfd : r.connections.find fd = none) : Routable (r.link fd) ↔ ¬ SlotHeld r := by
  constructor
  · rintro h' ⟨j, c, hc, hslot⟩
    have hj : j ≠ fd := by
      rintro rfl
      rw [hfd] at hc
      cases hc
    have hold : (r.link fd).connections.find j = some c := by
      rw [Routed.find_link hfd, if_neg hj, hc]
    have hnew : (r.link fd).connections.find fd = some (Routed.freshConnection r fd) :=
      Routed.find_link_self hfd
    exact hj (h'.apart hold hnew hslot)
  · intro hheld
    refine of_named (hr.link hpos hfd) fun {j c} hc => ?_
    rw [Routed.find_link hfd] at hc
    split at hc
    next heq =>
      obtain rfl := Option.some.inj hc
      have hcell := hr.cells_link fd r.allocated.toNat
      rw [if_pos rfl] at hcell
      exact ⟨congrArg SessionSlot.fd hcell, congrArg SessionSlot.generation hcell⟩
    next =>
      have hne : c.token.slot.toNat ≠ r.allocated.toNat :=
        fun heq => hheld ⟨j, c, hc, UInt32.toNat.inj heq⟩
      refine (h.named hc).of_slot ?_ (.self c)
      rw [Routes.slot, hr.cells_link, if_neg hne]
      rfl

end Routable

end TradingGateway.Gateway
