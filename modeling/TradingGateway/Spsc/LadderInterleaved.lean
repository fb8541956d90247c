/-
# `Spsc.LadderInterleaved` — the whole ladder under every interleaving

`Spsc.Ladder` compares the classes of `spsc_ring_buffer.hpp` call by call.  Here their
calls overlap, access by access, and what is kept and what is gained from step to step
can be read off.

| step | class | values | answers | calls |
| :-- | :-- | :-- | :-- | :-- |
| 0 | `SpscRingBufferMutex` | `Capacity - 1` | honest | wait for the other side |
| 1 | `SpscRingBufferAtomicV1` | `Capacity - 1` | honest | four accesses |
| 2 | `SpscRingBufferAtomicV2` | `Capacity - 1` | may be early | four accesses |
| 3 | `SpscRingBufferAtomicV3` | `Capacity - 1` | may be early | at most four |
| 4 | `SpscRingBufferAtomicV4` | `Capacity` | may be early | at most four |

An early answer says full or empty by an old picture of the other side.  All five are
FIFOs; for steps 3 and 4 that is `Interleaving.pops_prefix_pushes` and
`InterleavingV4.fifo_across_wrap`, for the others `first_steps_fifo`.
-/
import TradingGateway.Spsc.Answers
import TradingGateway.Spsc.Locked
import TradingGateway.Spsc.Uncached

namespace TradingGateway.Spsc

open Lib Lib.BoundedFifo Lib.QueueMachine Lib.Cyclic

variable {α : Type*} [Inhabited α] {C : Capacity}

/-- The slots from `tail_` up to `head_`, cyclically. -/
def IndexRing.contents (q : IndexRing α C) : List α :=
  window (cells q.buffer) C.value q.tail ((q.head + C.value - q.tail) % C.value)

/-- What one access of a queue with the contents `xs` answered is honest: full means
`bound` values, empty means none. -/
def Honest (bound : Nat) (xs : List α) (l : Option (Answer α)) : Prop :=
  (∀ v, l = some (.refused v) → xs.length = bound) ∧ (l = some .empty → xs = [])

/-- A run of the machine `M` neither loses, duplicates nor reorders a value, and what it
did not pop is `contents` of the state behind it. -/
def IsFifo {σ ι : Type*} (contents : σ → List α) (bound : Nat)
    (ts : List (Taken σ (ι × Option (Answer α)))) (s : σ) : Prop :=
  pops (Lawful.answers ts) <+: pushes (Lawful.answers ts) ∧
    pushes (Lawful.answers ts) = pops (Lawful.answers ts) ++ contents s ∧
    (contents s).length ≤ bound

omit [Inhabited α] in
theorem isFifo_of_lawful {σ ι : Type*} {M : Machine σ ι α} {bound : Nat} {honest : Bool}
    (L : Lawful M bound honest) {ts : List (Taken σ (ι × Option (Answer α)))} {s : σ}
    (h : Run (· = M.fresh) M.Step ts s) : IsFifo L.contents bound ts s := by
  obtain ⟨hlaw, hle⟩ := L.fifo h
  exact ⟨⟨_, hlaw.symm⟩, hlaw, hle⟩

theorem Uncached.Inv.slots_ne {s : Uncached.State α C} (h : Uncached.Inv s) {value : α}
    {head next tail : Nat} (hp : s.cached.producer = .writeSlot value head next)
    (hc : s.cached.consumer = .readSlot tail) : head ≠ tail :=
  Interleaving.Inv.slot_ne h hp hc

/-- **The first three steps are FIFOs under every interleaving.**  Nothing is lost,
duplicated or reordered, and no slot is written while it may be read; the answers of the
first two steps are honest. -/
theorem first_steps_fifo (C : Capacity) :
    (∀ ts (s : Locked.State α C), Run (· = Locked.State.fresh) Locked.machine.Step ts s →
      IsFifo (fun s => s.ring.contents) (C.value - 1) ts s ∧
      ¬ (s.producer.Inside ∧ s.consumer.Inside) ∧
      ∀ t ∈ ts, Honest (C.value - 1) t.src.ring.contents t.label.2) ∧
    ∀ latest ts (s : Uncached.State α C),
      Run (· = Uncached.State.fresh) (Uncached.machine latest).Step ts s →
      IsFifo (fun s => s.ring.contents) (C.value - 1) ts s ∧
      (∀ value head next tail, s.producer = .writeSlot value head next →
        s.consumer = .readSlot tail → head ≠ tail) ∧
      (latest = true → ∀ t ∈ ts, Honest (C.value - 1) t.src.ring.contents t.label.2) := by
  constructor
  · intro ts s h
    refine ⟨isFifo_of_lawful Locked.lawful h, ?_, ?_⟩
    · exact Locked.Inv.exclusive (Locked.lawful.inv_of_reached ⟨ts, h⟩)
    · intro t ht
      exact Locked.lawful.honest_answers h ht
  · intro latest ts s h
    refine ⟨isFifo_of_lawful (Uncached.lawful latest) h, ?_, ?_⟩
    · intro value head next tail hp hc
      have hinv : Uncached.Inv s := (Uncached.lawful latest).inv_of_reached ⟨ts, h⟩
      exact hinv.slots_ne hp hc
    · rintro rfl t ht
      exact (Uncached.lawful true).honest_answers h ht

/-- A call of `SpscRingBufferMutex` under way is held up only by a critical section of the
other side, which is not. -/
theorem Locked.Inv.held_up {s : Locked.State α C} (h : Locked.Inv s) {d : Side}
    (inside : s.pending d ≠ none) (stuck : ∀ l s', ¬ Locked.machine.Own d s l s') :
    s.holder = some d.other ∧ ∃ l s', Locked.machine.Own d.other s l s' := by
  have taken : ¬ (s.holder = some d ∨ s.holder = none) := by
    intro free
    obtain ⟨l, s', hown, -⟩ := Locked.can_go h inside free
    exact stuck l s' hown
  obtain ⟨e, he⟩ := Option.ne_none_iff_exists'.mp fun hnone => taken (Or.inr hnone)
  rcases Side.eq_or_eq_other e d with rfl | rfl
  · exact absurd (Or.inl he) taken
  · obtain ⟨l, s', hown, -⟩ := Locked.can_go h (h.inside_of_holder he) (Or.inl he)
    exact ⟨he, l, s', hown⟩

/-- **How long a call takes.**  From step 1 on every call is answered with its fourth
access at the latest and can always make the next, whatever the other side does.  A call
of step 0 is answered with its fourth access, too, but it can be held up for its first;
then the other side holds the mutex, and can go on. -/
theorem calls_end (C : Capacity) (C' : CounterCapacity) {Args : Type*} (construct : Args → α)
    (start : UInt64) :
    (∀ latest, (Uncached.machine latest : Machine (Uncached.State α C) _ α).WaitFree 4) ∧
    (Interleaving.machine construct : Machine (Interleaving.State α Args C) _ α).WaitFree 4 ∧
    (InterleavingV4.machine start : Machine (InterleavingV4.State α C') _ α).WaitFree 4 ∧
    (∀ K, ¬ (Locked.machine : Machine (Locked.State α C) _ α).WaitFree K) ∧
    ∀ (s : Locked.State α C) d, Locked.machine.Reached s → s.pending d ≠ none →
      (∀ ts s', Run (· = s) Locked.machine.Step ts s' → (∀ t ∈ ts, t.dst.pending d ≠ none) →
        Locked.machine.ownAccesses d ts < 4) ∧
      ((∀ l s', ¬ Locked.machine.Own d s l s') →
        s.holder = some d.other ∧ ∃ l s', Locked.machine.Own d.other s l s') := by
  refine ⟨Uncached.machine_waitFree, Interleaving.machine_waitFree construct,
    InterleavingV4.machine_waitFree start, Locked.machine_not_waitFree, ?_⟩
  intro s d hreached inside
  constructor
  · intro ts s' h stays
    exact Locked.lawful.bounded Locked.State.rank_le Locked.State.rank_pos h inside stays
  · exact Locked.Inv.held_up (Locked.lawful.inv_of_reached hreached) inside

end TradingGateway.Spsc
