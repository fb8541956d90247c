/-
# `Spsc.Benchmark` — `run_benchmark` of `test.cpp`

Two threads and a queue.  The producer pushes `1, 2, …, total`, calling `push` again
until it is not refused; the consumer pops `total` values and adds them up; `main` starts
both, joins both, and prints whether the sum is `total * (total + 1) / 2`.  All numbers
are `std::uint64_t`.

| thread | its program counter |
| :-- | :-- |
| producer | `waiting` for `start`, `test`s `value <= total`, is `calling` `push`, or tries it `again` |
| consumer | `waiting` for `start`, `test`s `count < total`, is `calling` `pop` |
| `main` | `starting`, `joiningProducer`, `joiningConsumer`, `printed` |

The queue is any machine of `Lib.QueueMachine`, so a step of a thread inside a call is one
access of it.  For a lawful machine the values popped are `1, 2, …` at any time, and the
sum is theirs (`Inv`).  `main` prints `ok` exactly when `total * (total + 1) / 2^64` is
even (`run_benchmark_checks`): the product `main` halves has lost its upper half, the sum
has not.  For every `total` but the largest the program can always get there
(`run_benchmark_ends`); for the largest, `value <= total` never fails.
-/
import TradingGateway.Spsc.LadderInterleaved

namespace TradingGateway.Spsc.Benchmark

open Lib Lib.BoundedFifo Lib.QueueMachine

/-! ## The program -/

inductive ProducerPc where
  | waiting
  | test (value : UInt64)
  | again (value : UInt64)
  | calling (value : UInt64)
  | returned
deriving DecidableEq

inductive ConsumerPc where
  | waiting
  | test (count : UInt64)
  | calling (count : UInt64)
  | returned
deriving DecidableEq

inductive MainPc where
  | starting
  | joiningProducer
  | joiningConsumer
  | printed (ok : Bool)
deriving DecidableEq

/-- The queue, what the threads share, and where the threads are. -/
structure Bench (σ : Type*) where
  queue : σ
  start : Bool
  checksum : UInt64
  producer : ProducerPc
  consumer : ConsumerPc
  main : MainPc

/-- What the scheduler decides: who goes on, and with which access of the queue. -/
inductive Input (ι : Type*) where
  | start
  | producerStarts
  | producerCalls (i : ι)
  | producerGoes (i : ι)
  | producerReturns
  | consumerStarts
  | consumerCalls (i : ι)
  | consumerGoes (i : ι)
  | consumerReturns
  | joinProducer
  | joinConsumer

/-- `total * (total + 1) / 2`. -/
def expected (total : UInt64) : UInt64 := total * (total + 1) / 2

/-- The value that the producer is about to push. -/
def ProducerPc.next (total : UInt64) : ProducerPc → Option UInt64
  | .test value => if value ≤ total then some value else none
  | .again value => some value
  | _ => none

section Program

variable {σ ι : Type*} (M : Machine σ ι UInt64) (total : UInt64)

def Bench.fresh : Bench σ where
  queue := M.fresh
  start := false
  checksum := 0
  producer := .waiting
  consumer := .waiting
  main := .starting

/-- One step of a thread; `none` where it is not there. -/
def step (b : Bench σ) : Input ι → Option (Bench σ × Option (Answer UInt64))
  | .start =>
      if b.main = .starting then some ({ b with start := true, main := .joiningProducer }, none)
      else none
  | .producerStarts =>
      if b.producer = .waiting ∧ b.start = true then some ({ b with producer := .test 1 }, none)
      else none
  | .producerCalls i =>
      match b.producer.next total, M.entry i, M.access b.queue i with
      | some value, some (.push v), some (q, l) =>
          if v = value then some ({ b with queue := q, producer := .calling value }, l) else none
      | _, _, _ => none
  | .producerGoes i =>
      match b.producer, M.entry i, M.access b.queue i with
      | .calling value, none, some (q, l) =>
          if M.side i = .producer then
            match l with
            | none => some ({ b with queue := q }, none)
            | some (.pushed v) =>
                some ({ b with queue := q, producer := .test (value + 1) }, some (.pushed v))
            | some a => some ({ b with queue := q, producer := .again value }, some a)
          else none
      | _, _, _ => none
  | .producerReturns =>
      match b.producer with
      | .test value =>
          if value ≤ total then none else some ({ b with producer := .returned }, none)
      | _ => none
  | .consumerStarts =>
      if b.consumer = .waiting ∧ b.start = true then some ({ b with consumer := .test 0 }, none)
      else none
  | .consumerCalls i =>
      match b.consumer, M.entry i, M.access b.queue i with
      | .test count, some .pop, some (q, l) =>
          if count < total then some ({ b with queue := q, consumer := .calling count }, l)
          else none
      | _, _, _ => none
  | .consumerGoes i =>
      match b.consumer, M.entry i, M.access b.queue i with
      | .calling count, none, some (q, l) =>
          if M.side i = .consumer then
            match l with
            | none => some ({ b with queue := q }, none)
            | some (.popped v) =>
                some ({ b with
                  queue := q
                  checksum := b.checksum + v
                  consumer := .test (count + 1) }, some (.popped v))
            | some a => some ({ b with queue := q, consumer := .test count }, some a)
          else none
      | _, _, _ => none
  | .consumerReturns =>
      match b.consumer with
      | .test count =>
          if count < total then none else some ({ b with consumer := .returned }, none)
      | _ => none
  | .joinProducer =>
      if b.main = .joiningProducer ∧ b.producer = .returned then
        some ({ b with main := .joiningConsumer }, none)
      else none
  | .joinConsumer =>
      if b.main = .joiningConsumer ∧ b.consumer = .returned then
        some ({ b with main := .printed (b.checksum == expected total) }, none)
      else none

/-- The steps of the program. -/
def Step (b : Bench σ) (l : Option (Answer UInt64)) (b' : Bench σ) : Prop :=
  ∃ input, step M total b input = some (b', l)

/-- A run of the program. -/
abbrev BenchRun (ts : List (Taken (Bench σ) (Option (Answer UInt64)))) (b : Bench σ) : Prop :=
  Run (· = Bench.fresh M) (Step M total) ts b

end Program

/-! ## What one step can do -/

section Moves

variable {σ ι : Type*} {M : Machine σ ι UInt64} {total : UInt64}

/-- Every way a step can go. -/
inductive Move (M : Machine σ ι UInt64) (total : UInt64) (b : Bench σ) :
    Option (Answer UInt64) → Bench σ → Prop
  | start (pc : b.main = .starting) :
      Move M total b none { b with start := true, main := .joiningProducer }
  | producerStarts (pc : b.producer = .waiting) :
      Move M total b none { b with producer := .test 1 }
  | producerCalls {i : ι} {value : UInt64} {q : σ} {l : Option (Answer UInt64)}
      (next : b.producer.next total = some value) (entry : M.entry i = some (.push value))
      (access : M.access b.queue i = some (q, l)) :
      Move M total b l { b with queue := q, producer := .calling value }
  | producerGoes {i : ι} {value : UInt64} {q : σ} (pc : b.producer = .calling value)
      (side : M.side i = .producer) (entry : M.entry i = none)
      (access : M.access b.queue i = some (q, none)) : Move M total b none { b with queue := q }
  | pushed {i : ι} {value v : UInt64} {q : σ} (pc : b.producer = .calling value)
      (side : M.side i = .producer) (entry : M.entry i = none)
      (access : M.access b.queue i = some (q, some (.pushed v))) :
      Move M total b (some (.pushed v)) { b with queue := q, producer := .test (value + 1) }
  | refused {i : ι} {value : UInt64} {a : Answer UInt64} {q : σ} (pc : b.producer = .calling value)
      (side : M.side i = .producer) (entry : M.entry i = none)
      (access : M.access b.queue i = some (q, some a)) (other : ∀ v, a ≠ .pushed v) :
      Move M total b (some a) { b with queue := q, producer := .again value }
  | producerReturns {value : UInt64} (pc : b.producer = .test value) (done : ¬ value ≤ total) :
      Move M total b none { b with producer := .returned }
  | consumerStarts (pc : b.consumer = .waiting) :
      Move M total b none { b with consumer := .test 0 }
  | consumerCalls {i : ι} {count : UInt64} {q : σ} {l : Option (Answer UInt64)}
      (pc : b.consumer = .test count) (more : count < total) (entry : M.entry i = some .pop)
      (access : M.access b.queue i = some (q, l)) :
      Move M total b l { b with queue := q, consumer := .calling count }
  | consumerGoes {i : ι} {count : UInt64} {q : σ} (pc : b.consumer = .calling count)
      (side : M.side i = .consumer) (entry : M.entry i = none)
      (access : M.access b.queue i = some (q, none)) : Move M total b none { b with queue := q }
  | popped {i : ι} {count v : UInt64} {q : σ} (pc : b.consumer = .calling count)
      (side : M.side i = .consumer) (entry : M.entry i = none)
      (access : M.access b.queue i = some (q, some (.popped v))) :
      Move M total b (some (.popped v))
        { b with queue := q, checksum := b.checksum + v, consumer := .test (count + 1) }
  | nothing {i : ι} {count : UInt64} {a : Answer UInt64} {q : σ} (pc : b.consumer = .calling count)
      (side : M.side i = .consumer) (entry : M.entry i = none)
      (access : M.access b.queue i = some (q, some a)) (other : ∀ v, a ≠ .popped v) :
      Move M total b (some a) { b with queue := q, consumer := .test count }
  | consumerReturns {count : UInt64} (pc : b.consumer = .test count) (done : ¬ count < total) :
      Move M total b none { b with consumer := .returned }
  | joinProducer (pc : b.main = .joiningProducer) (done : b.producer = .returned) :
      Move M total b none { b with main := .joiningConsumer }
  | joinConsumer (pc : b.main = .joiningConsumer) (done : b.consumer = .returned) :
      Move M total b none { b with main := .printed (b.checksum == expected total) }

theorem Step.move {b b' : Bench σ} {l : Option (Answer UInt64)} (h : Step M total b l b') :
    Move M total b l b' := by
  obtain ⟨input, h⟩ := h
  cases input with
  | start =>
      simp only [step] at h
      split at h
      next pc => cases h; exact .start pc
      next => cases h
  | producerStarts =>
      simp only [step] at h
      split at h
      next pc => cases h; exact .producerStarts pc.1
      next => cases h
  | producerCalls i =>
      simp only [step] at h
      split at h
      next next entry access =>
        split at h
        next heq =>
          subst heq
          cases h
          exact .producerCalls next entry access
        next => cases h
      next => cases h
  | producerGoes i =>
      simp only [step] at h
      split at h
      next pc entry access =>
        split at h
        next side =>
          split at h
          next => cases h; exact .producerGoes pc side entry access
          next => cases h; exact .pushed pc side entry access
          next other => cases h; exact .refused pc side entry access fun v hv => other v (by rw [hv])
        next => cases h
      next => cases h
  | producerReturns =>
      simp only [step] at h
      split at h
      next pc =>
        split at h
        next => cases h
        next done => cases h; exact .producerReturns pc done
      next => cases h
  | consumerStarts =>
      simp only [step] at h
      split at h
      next pc => cases h; exact .consumerStarts pc.1
      next => cases h
  | consumerCalls i =>
      simp only [step] at h
      split at h
      next pc entry access =>
        split at h
        next more => cases h; exact .consumerCalls pc more entry access
        next => cases h
      next => cases h
  | consumerGoes i =>
      simp only [step] at h
      split at h
      next pc entry access =>
        split at h
        next side =>
          split at h
          next => cases h; exact .consumerGoes pc side entry access
          next => cases h; exact .popped pc side entry access
          next other => cases h; exact .nothing pc side entry access fun v hv => other v (by rw [hv])
        next => cases h
      next => cases h
  | consumerReturns =>
      simp only [step] at h
      split at h
      next pc =>
        split at h
        next => cases h
        next done => cases h; exact .consumerReturns pc done
      next => cases h
  | joinProducer =>
      simp only [step] at h
      split at h
      next pc => cases h; exact .joinProducer pc.1 pc.2
      next => cases h
  | joinConsumer =>
      simp only [step] at h
      split at h
      next pc => cases h; exact .joinConsumer pc.1 pc.2
      next => cases h

end Moves

/-! ## The values, and their sum -/

/-- `1, 2, …, n`. -/
def upTo (n : Nat) : List UInt64 := (List.range n).map fun i => UInt64.ofNat (i + 1)

/-- `1 + 2 + … + n`. -/
def triangle (n : Nat) : Nat := n * (n + 1) / 2

@[simp] theorem length_upTo (n : Nat) : (upTo n).length = n := by
  simp [upTo]

theorem upTo_succ (n : Nat) : upTo (n + 1) = upTo n ++ [UInt64.ofNat (n + 1)] := by
  simp [upTo, List.range_succ]

theorem eq_upTo_of_prefix {vs : List UInt64} {n : Nat} (h : vs <+: upTo n) :
    vs = upTo vs.length := by
  have hle : vs.length ≤ n := by
    have := h.length_le
    rwa [length_upTo] at this
  have htake := List.prefix_iff_eq_take.mp h
  rwa [upTo, ← List.map_take, List.take_range, Nat.min_eq_left hle] at htake

theorem triangle_succ (n : Nat) : triangle n + (n + 1) = triangle (n + 1) := by
  have hsplit : (n + 1) * (n + 1 + 1) = n * (n + 1) + 2 * (n + 1) := by
    rw [Nat.mul_comm (n + 1) (n + 1 + 1), ← Nat.add_mul]
  rw [triangle, triangle, hsplit, Nat.add_mul_div_left _ _ Nat.two_pos]

/-- The sum of the values is the triangle, wrapped. -/
theorem checksum_succ (n : Nat) :
    UInt64.ofNat (triangle n) + UInt64.ofNat (n + 1) = UInt64.ofNat (triangle (n + 1)) := by
  rw [← UInt64.ofNat_add, triangle_succ]

/-- Two ways of halving a wrapped product, compared. -/
theorem ofNat_triangle_eq_expected_iff (total : UInt64) :
    UInt64.ofNat (triangle total.toNat) = expected total
      ↔ total.toNat * (total.toNat + 1) / 2 ^ 64 % 2 = 0 := by
  obtain ⟨k, hk⟩ := (Nat.even_mul_succ_self total.toNat).two_dvd
  have hexpected : (expected total).toNat = total.toNat * (total.toNat + 1) % 2 ^ 64 / 2 := by
    simp [expected]
  have htriangle : triangle total.toNat = k := by
    rw [triangle, hk]
    exact Nat.mul_div_cancel_left k Nat.two_pos
  rw [← UInt64.toNat_inj, hexpected, htriangle, UInt64.toNat_ofNat', hk]
  omega

/-! ## The invariant -/

/-- The call the producer is inside of. -/
def ProducerPc.call : ProducerPc → Option (Call UInt64)
  | .calling value => some (.push value)
  | _ => none

/-- The call the consumer is inside of. -/
def ConsumerPc.call : ConsumerPc → Option (Call UInt64)
  | .calling _ => some .pop
  | _ => none

/-- The call a thread is inside of. -/
def Bench.call {σ : Type*} (b : Bench σ) : Side → Option (Call UInt64)
  | .producer => b.producer.call
  | .consumer => b.consumer.call

/-- Where the producer is that pushed `vs`. -/
def ProducerAt (total : UInt64) (vs : List UInt64) : ProducerPc → Prop
  | .waiting => vs = []
  | .test value => value = UInt64.ofNat (vs.length + 1)
  | .again value | .calling value => value = UInt64.ofNat (vs.length + 1) ∧ value ≤ total
  | .returned => vs.length = total.toNat ∧ total ≠ -1

/-- Where the consumer is that popped `vs`. -/
def ConsumerAt (total : UInt64) (vs : List UInt64) : ConsumerPc → Prop
  | .waiting => vs = []
  | .test count => count = UInt64.ofNat vs.length
  | .calling count => count = UInt64.ofNat vs.length ∧ count < total
  | .returned => vs.length = total.toNat

/-- What `main` knows of the threads it has joined. -/
def MainAt {σ : Type*} (total : UInt64) (b : Bench σ) : MainPc → Prop
  | .starting => True
  | .joiningProducer => b.start = true
  | .joiningConsumer => b.start = true ∧ b.producer = .returned
  | .printed ok =>
      b.producer = .returned ∧ b.consumer = .returned ∧ ok = (b.checksum == expected total)

/-- The producer's part of the invariant. -/
structure ProducerOk (total : UInt64) (vs : List UInt64) (pc : ProducerPc) : Prop where
  values : vs = upTo vs.length
  length_le : total ≠ -1 → vs.length ≤ total.toNat
  pc : ProducerAt total vs pc

/-- The consumer's. -/
structure ConsumerOk (total : UInt64) (vs : List UInt64) (sum : UInt64) (pc : ConsumerPc) :
    Prop where
  sum : sum = UInt64.ofNat (triangle vs.length)
  length_le : vs.length ≤ total.toNat
  pc : ConsumerAt total vs pc

section Invariant

variable {σ ι : Type*} {M : Machine σ ι UInt64} {total : UInt64} {bound : Nat} {honest : Bool}

/-- The invariant of the program behind the answers `ts`. -/
structure Inv (L : Lawful M bound honest) (total : UInt64)
    (ts : List (Taken (Bench σ) (Option (Answer UInt64)))) (b : Bench σ) : Prop where
  queue : L.Inv b.queue
  fifo : pushes ts = pops ts ++ L.contents b.queue
  calls : ∀ d, M.pending b.queue d = b.call d
  producer : ProducerOk total (pushes ts) b.producer
  consumer : ConsumerOk total (pops ts) b.checksum b.consumer
  main : MainAt total b b.main

theorem ne_max_toNat {total : UInt64} (h : total ≠ -1) : total.toNat + 1 < 2 ^ 64 := by
  have hlt := total.toNat_lt
  have hne : total.toNat ≠ (-1 : UInt64).toNat := mt UInt64.toNat.inj h
  have hmax : (-1 : UInt64).toNat = 2 ^ 64 - 1 := by decide
  omega

theorem ProducerOk.next {vs : List UInt64} {pc : ProducerPc} {value : UInt64}
    (h : ProducerOk total vs pc) (hnext : pc.next total = some value) :
    value = UInt64.ofNat (vs.length + 1) ∧ value ≤ total := by
  have hpc := h.pc
  cases pc with
  | test v =>
      rw [ProducerPc.next] at hnext
      split at hnext
      next hle =>
        obtain rfl := Option.some.inj hnext
        exact ⟨hpc, hle⟩
      next => cases hnext
  | again v =>
      obtain rfl := Option.some.inj hnext
      exact hpc
  | _ => cases hnext

theorem ProducerOk.pushed {vs : List UInt64} {value : UInt64}
    (h : ProducerOk total vs (.calling value)) :
    ProducerOk total (vs ++ [value]) (.test (value + 1)) := by
  obtain ⟨hvalue, hle⟩ := h.pc
  have hlength : (vs ++ [value]).length = vs.length + 1 := by simp
  refine ⟨?_, ?_, ?_⟩
  · rw [hlength, upTo_succ, ← h.values, hvalue]
  · intro hmax
    have hlt := ne_max_toNat hmax
    have hbefore := h.length_le hmax
    have htoNat : value.toNat = vs.length + 1 := by
      rw [hvalue, UInt64.toNat_ofNat', Nat.mod_eq_of_lt (by omega)]
    rw [hlength, ← htoNat]
    exact UInt64.le_iff_toNat_le.mp hle
  · show value + 1 = UInt64.ofNat ((vs ++ [value]).length + 1)
    rw [hlength, hvalue, UInt64.ofNat_add (vs.length + 1) 1]
    rfl

theorem ProducerOk.returned {vs : List UInt64} {value : UInt64}
    (h : ProducerOk total vs (.test value)) (done : ¬ value ≤ total) :
    ProducerOk total vs .returned := by
  have hvalue : value = UInt64.ofNat (vs.length + 1) := h.pc
  have hmax : total ≠ -1 := by
    rintro rfl
    have hmax : (-1 : UInt64).toNat = 2 ^ 64 - 1 := by decide
    have hlt := value.toNat_lt
    exact done (UInt64.le_iff_toNat_le.mpr (by omega))
  have hlt := ne_max_toNat hmax
  have hle := h.length_le hmax
  have htoNat : value.toNat = vs.length + 1 := by
    rw [hvalue, UInt64.toNat_ofNat', Nat.mod_eq_of_lt (by omega)]
  have hgt : total.toNat < value.toNat := Nat.not_le.mp (mt UInt64.le_iff_toNat_le.mpr done)
  exact ⟨h.values, h.length_le, by omega, hmax⟩

theorem ConsumerOk.popped {vs : List UInt64} {sum count v : UInt64}
    (h : ConsumerOk total vs sum (.calling count)) (hv : v = UInt64.ofNat (vs.length + 1)) :
    ConsumerOk total (vs ++ [v]) (sum + v) (.test (count + 1)) := by
  obtain ⟨hcount, hlt⟩ := h.pc
  have hlength : (vs ++ [v]).length = vs.length + 1 := by simp
  have hle := h.length_le
  refine ⟨?_, ?_, ?_⟩
  · rw [hlength, h.sum, hv, checksum_succ]
  · have htoNat : count.toNat = vs.length := by
      have := total.toNat_lt
      rw [hcount, UInt64.toNat_ofNat', Nat.mod_eq_of_lt (by omega)]
    rw [hlength, ← htoNat]
    exact UInt64.lt_iff_toNat_lt.mp hlt
  · show count + 1 = UInt64.ofNat (vs ++ [v]).length
    rw [hlength, hcount, UInt64.ofNat_add vs.length 1]
    rfl

theorem ConsumerOk.returned {vs : List UInt64} {sum count : UInt64}
    (h : ConsumerOk total vs sum (.test count)) (done : ¬ count < total) :
    ConsumerOk total vs sum .returned := by
  have hcount : count = UInt64.ofNat vs.length := h.pc
  have hle := h.length_le
  have htoNat : count.toNat = vs.length := by
    have := total.toNat_lt
    rw [hcount, UInt64.toNat_ofNat', Nat.mod_eq_of_lt (by omega)]
  have hge : total.toNat ≤ count.toNat := Nat.not_lt.mp (mt UInt64.lt_iff_toNat_lt.mpr done)
  refine ⟨h.sum, hle, ?_⟩
  show vs.length = total.toNat
  omega

variable {L : Lawful M bound honest} {ts : List (Taken (Bench σ) (Option (Answer UInt64)))}
  {b b' : Bench σ} {i : ι} {q : σ} {l : Option (Answer UInt64)}

theorem MainAt.of_producer (h : MainAt total b b.main) (running : b.producer ≠ .returned)
    (same : b'.main = b.main) (start : b'.start = b.start) : MainAt total b' b'.main := by
  rw [same]
  cases hm : b.main with
  | starting => trivial
  | joiningProducer =>
      rw [hm] at h
      exact start.trans h
  | joiningConsumer =>
      rw [hm] at h
      exact absurd h.2 running
  | printed ok =>
      rw [hm] at h
      exact absurd h.1 running

theorem MainAt.of_consumer (h : MainAt total b b.main) (running : b.consumer ≠ .returned)
    (same : b'.main = b.main) (start : b'.start = b.start) (producer : b'.producer = b.producer) :
    MainAt total b' b'.main := by
  rw [same]
  cases hm : b.main with
  | starting => trivial
  | joiningProducer =>
      rw [hm] at h
      exact start.trans h
  | joiningConsumer =>
      rw [hm] at h
      exact ⟨start.trans h.1, producer.trans h.2⟩
  | printed ok =>
      rw [hm] at h
      exact absurd h.2.1 running

theorem Inv.popped_values (h : Inv L total ts b) : pops ts = upTo (pops ts).length := by
  refine eq_upTo_of_prefix (n := (pushes ts).length) ?_
  rw [← h.producer.values]
  exact ⟨_, h.fifo.symm⟩

/-- The law of the queue, behind one access more. -/
theorem Inv.fifo_access (h : Inv L total ts b) (access : M.access b.queue i = some (q, l))
    (b' : Bench σ) (queue : b'.queue = q) :
    pushes (ts ++ [⟨b, l, b'⟩]) = pops (ts ++ [⟨b, l, b'⟩]) ++ L.contents b'.queue := by
  have hstep := (L.sound h.queue access).2
  rw [pushes_snoc, pops_snoc, h.fifo, queue, List.append_assoc, hstep.history, List.append_assoc]

theorem Inv.answered (h : Inv L total ts b) {d : Side} {c : Call UInt64} {a : Answer UInt64}
    (side : M.side i = d) (entry : M.entry i = none)
    (access : M.access b.queue i = some (q, some a)) (call : b.call d = some c) :
    Answers c a ∧ M.pending q d = none := by
  subst side
  have hturn := L.goes entry access
  cases hturn with
  | answered hp ha hp' =>
      rw [h.calls, call] at hp
      obtain rfl := Option.some.inj hp
      exact ⟨ha, hp'⟩

theorem Inv.onward (h : Inv L total ts b) {d : Side} {c : Call UInt64} (side : M.side i = d)
    (entry : M.entry i = none) (access : M.access b.queue i = some (q, none))
    (call : b.call d = some c) : M.pending q d = some c := by
  subst side
  have hturn := L.goes entry access
  cases hturn with
  | onward hp hp' _ =>
      rw [h.calls, call] at hp
      exact hp'.trans hp.symm

theorem inv_fresh (L : Lawful M bound honest) (total : UInt64) :
    Inv L total [] (Bench.fresh M) where
  queue := L.inv_fresh
  fifo := L.contents_fresh.symm
  calls := by
    intro d
    rw [show (Bench.fresh M).queue = M.fresh from rfl, L.pending_fresh]
    cases d <;> rfl
  producer := ⟨rfl, fun _ => Nat.zero_le _, rfl⟩
  consumer := ⟨(by decide : (0 : UInt64) = UInt64.ofNat (triangle 0)), Nat.zero_le _, rfl⟩
  main := trivial

theorem Inv.quiet (h : Inv L total ts b) (queue : b'.queue = b.queue)
    (calls : ∀ d, b'.call d = b.call d) (producer : ProducerOk total (pushes ts) b'.producer)
    (consumer : ConsumerOk total (pops ts) b'.checksum b'.consumer)
    (main : MainAt total b' b'.main) : Inv L total (ts ++ [⟨b, none, b'⟩]) b' := by
  have hpushes : pushes (ts ++ [⟨b, none, b'⟩]) = pushes ts :=
    (pushes_snoc ts b b' none).trans (List.append_nil _)
  have hpops : pops (ts ++ [⟨b, none, b'⟩]) = pops ts :=
    (pops_snoc ts b b' none).trans (List.append_nil _)
  refine ⟨?_, ?_, ?_, ?_, ?_, main⟩
  · rw [queue]
    exact h.queue
  · rw [hpushes, hpops, queue]
    exact h.fifo
  · intro d
    rw [queue, h.calls, calls]
  · rw [hpushes]
    exact producer
  · rw [hpops]
    exact consumer

theorem Inv.producer_access (h : Inv L total ts b) (pc : ProducerPc) (side : M.side i = .producer)
    (access : M.access b.queue i = some (q, l)) (running : b.producer ≠ .returned)
    (own : M.pending q .producer = pc.call) (popped : Answer.popped? l = none)
    (producer : ProducerOk total (pushes ts ++ (Answer.pushed? l).toList) pc) :
    Inv L total (ts ++ [⟨b, l, { b with queue := q, producer := pc }⟩])
      { b with queue := q, producer := pc } := by
  refine ⟨(L.sound h.queue access).1, h.fifo_access access _ rfl, ?_, ?_, ?_,
    h.main.of_producer running rfl rfl⟩
  · rintro (_ | _)
    · exact own
    · exact (L.frame access (by simp [side])).1.trans (h.calls .consumer)
  · rw [pushes_snoc]
    exact producer
  · rw [pops_snoc, popped, Option.toList_none, List.append_nil]
    exact h.consumer

theorem Inv.consumer_access (h : Inv L total ts b) (pc : ConsumerPc) (sum : UInt64)
    (side : M.side i = .consumer) (access : M.access b.queue i = some (q, l))
    (running : b.consumer ≠ .returned) (own : M.pending q .consumer = pc.call)
    (pushed : Answer.pushed? l = none)
    (consumer : ConsumerOk total (pops ts ++ (Answer.popped? l).toList) sum pc) :
    Inv L total (ts ++ [⟨b, l, { b with queue := q, checksum := sum, consumer := pc }⟩])
      { b with queue := q, checksum := sum, consumer := pc } := by
  refine ⟨(L.sound h.queue access).1, h.fifo_access access _ rfl, ?_, ?_, ?_,
    h.main.of_consumer running rfl rfl rfl⟩
  · rintro (_ | _)
    · exact (L.frame access (by simp [side])).1.trans (h.calls .producer)
    · exact own
  · rw [pushes_snoc, pushed, Option.toList_none, List.append_nil]
    exact h.producer
  · rw [pops_snoc]
    exact consumer

theorem Inv.next_popped (h : Inv L total ts b) {v : UInt64}
    (access : M.access b.queue i = some (q, some (.popped v))) :
    v = UInt64.ofNat ((pops ts).length + 1) := by
  have hfifo := h.fifo_access access { b with queue := q } rfl
  rw [pushes_snoc, pops_snoc] at hfifo
  simp only [Answer.pushed?, Answer.popped?, Option.toList_none, Option.toList_some,
    List.append_nil] at hfifo
  have hnext : pops ts ++ [v] = upTo (pops ts ++ [v]).length := by
    refine eq_upTo_of_prefix (n := (pushes ts).length) ?_
    rw [← h.producer.values]
    exact ⟨_, hfifo.symm⟩
  rw [List.length_append, List.length_singleton, upTo_succ] at hnext
  exact List.singleton_injective (List.append_inj' hnext rfl).2

/-- **One step** keeps the invariant. -/
theorem Move.inv (hm : Move M total b l b') (h : Inv L total ts b) :
    Inv L total (ts ++ [⟨b, l, b'⟩]) b' := by
  have hprod := h.producer
  have hcons := h.consumer
  have hmain := h.main
  -- a thread outside the queue is in no call, before and behind its step
  have idle : ∀ {pc pc'}, b.producer = pc → pc.call = none → pc'.call = none →
      ∀ d, { b with producer := pc' }.call d = b.call d := by
    rintro pc pc' rfl hcall hcall' (_ | _)
    · exact hcall'.trans hcall.symm
    · rfl
  have idle' : ∀ {pc pc'}, b.consumer = pc → pc.call = none → pc'.call = none →
      ∀ d, { b with consumer := pc' }.call d = b.call d := by
    rintro pc pc' rfl hcall hcall' (_ | _)
    · rfl
    · exact hcall'.trans hcall.symm
  cases hm with
  | start pc => exact h.quiet rfl (fun _ => rfl) hprod hcons rfl
  | producerStarts pc =>
      rw [pc] at hprod
      have hnil : pushes ts = [] := hprod.pc
      refine h.quiet rfl (idle pc rfl rfl) ⟨hprod.values, hprod.length_le, ?_⟩ hcons
        (hmain.of_producer (by simp [pc]) rfl rfl)
      rw [hnil]
      rfl
  | @producerCalls i value q l next entry access =>
      obtain ⟨rfl, -, hpending⟩ := L.enters entry access
      have hside := L.entry_side entry
      rw [hside] at hpending
      refine h.producer_access _ hside access ?_ hpending rfl ?_
      · intro hret
        rw [hret] at next
        cases next
      · simpa [Answer.pushed?] using
          (⟨hprod.values, hprod.length_le, hprod.next next⟩ : ProducerOk total _ (.calling value))
  | @producerGoes i value q pc side entry access =>
      have hpending := h.onward side entry access (congrArg ProducerPc.call pc)
      have hsame := h.producer_access (.calling value) side access (by simp [pc]) hpending rfl
        (by simpa [Answer.pushed?, pc] using hprod)
      rwa [← pc] at hsame
  | @pushed i value v q pc side entry access =>
      obtain ⟨ha, hpending⟩ := h.answered side entry access (congrArg ProducerPc.call pc)
      cases ha
      rw [pc] at hprod
      exact h.producer_access _ side access (by simp [pc]) hpending rfl hprod.pushed
  | @refused i value a q pc side entry access other =>
      obtain ⟨ha, hpending⟩ := h.answered side entry access (congrArg ProducerPc.call pc)
      cases ha with
      | pushed => exact absurd rfl (other _)
      | refused =>
          rw [pc] at hprod
          refine h.producer_access _ side access (by simp [pc]) hpending rfl ?_
          simpa [Answer.pushed?] using
            (⟨hprod.values, hprod.length_le, hprod.pc⟩ : ProducerOk total _ (.again value))
  | @producerReturns value pc done =>
      rw [pc] at hprod
      exact h.quiet rfl (idle pc rfl rfl) (hprod.returned done) hcons
        (hmain.of_producer (by simp [pc]) rfl rfl)
  | consumerStarts pc =>
      rw [pc] at hcons
      have hnil : pops ts = [] := hcons.pc
      refine h.quiet rfl (idle' pc rfl rfl) hprod ⟨hcons.sum, hcons.length_le, ?_⟩
        (hmain.of_consumer (by simp [pc]) rfl rfl rfl)
      rw [hnil]
      rfl
  | @consumerCalls i count q l pc more entry access =>
      obtain ⟨rfl, -, hpending⟩ := L.enters entry access
      have hside := L.entry_side entry
      rw [hside] at hpending
      rw [pc] at hcons
      refine h.consumer_access _ _ hside access (by simp [pc]) hpending rfl ?_
      simpa [Answer.popped?] using
        (⟨hcons.sum, hcons.length_le, hcons.pc, more⟩ : ConsumerOk total _ _ (.calling count))
  | @consumerGoes i count q pc side entry access =>
      have hpending := h.onward side entry access (congrArg ConsumerPc.call pc)
      have hsame := h.consumer_access (.calling count) b.checksum side access (by simp [pc])
        hpending rfl (by simpa [Answer.popped?, pc] using hcons)
      rwa [← pc] at hsame
  | @popped i count v q pc side entry access =>
      obtain ⟨-, hpending⟩ := h.answered side entry access (congrArg ConsumerPc.call pc)
      rw [pc] at hcons
      exact h.consumer_access _ _ side access (by simp [pc]) hpending rfl
        (hcons.popped (h.next_popped access))
  | @nothing i count a q pc side entry access other =>
      obtain ⟨ha, hpending⟩ := h.answered side entry access (congrArg ConsumerPc.call pc)
      cases ha with
      | popped => exact absurd rfl (other _)
      | empty =>
          rw [pc] at hcons
          refine h.consumer_access _ _ side access (by simp [pc]) hpending rfl ?_
          simpa [Answer.popped?] using
            (⟨hcons.sum, hcons.length_le, hcons.pc.1⟩ : ConsumerOk total _ _ (.test count))
  | @consumerReturns count pc done =>
      rw [pc] at hcons
      exact h.quiet rfl (idle' pc rfl rfl) hprod (hcons.returned done)
        (hmain.of_consumer (by simp [pc]) rfl rfl rfl)
  | joinProducer pc done =>
      rw [pc] at hmain
      exact h.quiet rfl (fun _ => rfl) hprod hcons ⟨hmain, done⟩
  | joinConsumer pc done =>
      rw [pc] at hmain
      exact h.quiet rfl (fun _ => rfl) hprod hcons ⟨hmain.2, done, rfl⟩

theorem inv_of_run (L : Lawful M bound honest) (h : BenchRun M total ts b) : Inv L total ts b := by
  refine h.invariant ?_ ?_
  · rintro _ rfl
    exact inv_fresh L total
  · intro ts b l b' _ hi hstep
    exact hstep.move.inv hi

/-! ## What is printed -/

/-- What the program does over the queue machine `M`: at any time the consumer has popped
`1, 2, …` in order, `checksum` is their sum, and when `main` prints, both threads are
through, and it prints `ok` if and only if the upper half of `total * (total + 1)` is even. -/
def Checks (M : Machine σ ι UInt64) (total : UInt64) : Prop :=
  ∀ ts b, BenchRun M total ts b →
    pops ts <+: pushes ts ∧ pops ts = upTo (pops ts).length ∧ (pops ts).length ≤ total.toNat ∧
      b.checksum = UInt64.ofNat (triangle (pops ts).length) ∧
      ∀ ok, b.main = .printed ok →
        pushes ts = upTo total.toNat ∧ pops ts = upTo total.toNat ∧
          (ok = true ↔ total.toNat * (total.toNat + 1) / 2 ^ 64 % 2 = 0)

theorem checks_of_lawful (L : Lawful M bound honest) (total : UInt64) : Checks M total := by
  intro ts b h
  have hi := inv_of_run L h
  refine ⟨⟨_, hi.fifo.symm⟩, hi.popped_values, hi.consumer.length_le, hi.consumer.sum, ?_⟩
  intro ok hok
  obtain ⟨hproducer, hconsumer, heq⟩ : MainAt total b (.printed ok) := hok ▸ hi.main
  have hprod := hi.producer
  have hcons := hi.consumer
  rw [hproducer] at hprod
  rw [hconsumer] at hcons
  have hpushed : (pushes ts).length = total.toNat := hprod.pc.1
  have hpopped : (pops ts).length = total.toNat := hcons.pc
  refine ⟨hpushed ▸ hprod.values, hpopped ▸ hi.popped_values, ?_⟩
  rw [heq, beq_iff_eq, hi.consumer.sum, hpopped]
  exact ofNat_triangle_eq_expected_iff total

/-- The largest `total` is never printed: `value <= total` does not fail. -/
theorem not_printed_of_lawful (L : Lawful M bound honest)
    (h : BenchRun M (-1) ts b) (ok : Bool) : b.main ≠ .printed ok := by
  intro hok
  have hi := inv_of_run L h
  obtain ⟨hproducer, -, -⟩ : MainAt (-1) b (.printed ok) := hok ▸ hi.main
  have hpc := hi.producer.pc
  rw [hproducer] at hpc
  exact hpc.2 rfl

/-! ## The program can always end

From any reachable state: start what has not started, finish the calls under way, and
then make the producer push or the consumer pop one value, alone and to the end.  That
takes one from what is left (`left`), and when nothing is left the threads return. -/

/-- All threads have started. -/
def Running (b : Bench σ) : Prop :=
  b.main ≠ .starting ∧ b.producer ≠ .waiting ∧ b.consumer ≠ .waiting

/-- The pushes and pops still to come. -/
def left (total : UInt64) (ts : List (Taken (Bench σ) (Option (Answer UInt64)))) : Nat :=
  (total.toNat - (pushes ts).length) + (total.toNat - (pops ts).length)

theorem Inv.can_go (h : Inv L total ts b) (hrun : Running b) {d : Side}
    (hown : M.Own d b.queue l q) :
    ∃ b', Step M total b l b' ∧ b'.queue = q ∧ Running b' := by
  obtain ⟨i, rfl, hentry, haccess⟩ := hown
  have hinside : b.call (M.side i) ≠ none := by
    have hturn := L.goes hentry haccess
    rw [← h.calls]
    cases hturn with
    | onward hp _ _ | answered hp _ _ =>
        rw [hp]
        exact Option.some_ne_none _
  obtain ⟨hmain, hproducer, hconsumer⟩ := hrun
  cases hside : M.side i with
  | producer =>
      rw [hside] at hinside
      cases hpc : b.producer with
      | calling value =>
          have hgoes : ∀ r, M.access b.queue i = some r → ∃ b', step M total b (.producerGoes i)
              = some (b', r.2) ∧ b'.queue = r.1 ∧ Running b' := by
            rintro ⟨q, l⟩ haccess
            simp only [step, hpc, hentry, haccess, hside, if_true]
            split
            · exact ⟨_, rfl, rfl, hmain, nofun, hconsumer⟩
            · exact ⟨_, rfl, rfl, hmain, nofun, hconsumer⟩
            · exact ⟨_, rfl, rfl, hmain, nofun, hconsumer⟩
          obtain ⟨b', hstep, hb'⟩ := hgoes _ haccess
          exact ⟨b', ⟨_, hstep⟩, hb'⟩
      | _ => exact absurd (congrArg ProducerPc.call hpc) hinside
  | consumer =>
      rw [hside] at hinside
      cases hpc : b.consumer with
      | calling count =>
          have hgoes : ∀ r, M.access b.queue i = some r → ∃ b', step M total b (.consumerGoes i)
              = some (b', r.2) ∧ b'.queue = r.1 ∧ Running b' := by
            rintro ⟨q, l⟩ haccess
            simp only [step, hpc, hentry, haccess, hside, if_true]
            split
            · exact ⟨_, rfl, rfl, hmain, hproducer, nofun⟩
            · exact ⟨_, rfl, rfl, hmain, hproducer, nofun⟩
            · exact ⟨_, rfl, rfl, hmain, hproducer, nofun⟩
          obtain ⟨b', hstep, hb'⟩ := hgoes _ haccess
          exact ⟨b', ⟨_, hstep⟩, hb'⟩
      | _ => exact absurd (congrArg ConsumerPc.call hpc) hinside

theorem can_settle (L : Lawful M bound honest) {q q' : σ} (hq : M.Settles q q') :
    ∀ {ts : List (Taken (Bench σ) (Option (Answer UInt64)))} {b : Bench σ},
      BenchRun M total ts b → Running b → b.queue = q →
      ∃ us b', BenchRun M total (ts ++ us) b' ∧ Running b' ∧ ∀ d, M.pending b'.queue d = none := by
  induction hq with
  | settled hidle =>
      rintro ts b h hrun rfl
      exact ⟨[], b, by rwa [List.append_nil], hrun, hidle⟩
  | more hown _ ih =>
      rintro ts b h hrun rfl
      obtain ⟨b₁, hstep, hqueue, hrun₁⟩ := (inv_of_run L h).can_go hrun hown
      obtain ⟨us, b', h', hb'⟩ := ih (h.next hstep) hrun₁ hqueue
      exact ⟨_ :: us, b', by rwa [List.append_assoc] at h', hb'⟩

theorem can_finish (L : Lawful M bound honest) {d : Side} {q q' : σ} {a : Answer UInt64}
    (hq : M.Finishes d q a q') :
    ∀ {ts : List (Taken (Bench σ) (Option (Answer UInt64)))} {b : Bench σ},
      BenchRun M total ts b → Running b → b.queue = q →
      ∃ us b', BenchRun M total (ts ++ us) b' ∧ Running b' ∧
        pushes (ts ++ us) = pushes ts ++ (Answer.pushed? (some a)).toList ∧
        pops (ts ++ us) = pops ts ++ (Answer.popped? (some a)).toList := by
  induction hq with
  | last hown =>
      rintro ts b h hrun rfl
      obtain ⟨b₁, hstep, -, hrun₁⟩ := (inv_of_run L h).can_go hrun hown
      exact ⟨_, b₁, h.next hstep, hrun₁, pushes_snoc .., pops_snoc ..⟩
  | more hown _ ih =>
      rintro ts b h hrun rfl
      obtain ⟨b₁, hstep, hqueue, hrun₁⟩ := (inv_of_run L h).can_go hrun hown
      obtain ⟨us, b', h', hrun', hpushes, hpops⟩ := ih (h.next hstep) hrun₁ hqueue
      rw [List.append_assoc, pushes_snoc] at hpushes
      rw [List.append_assoc, pops_snoc] at hpops
      refine ⟨_ :: us, b', by rwa [List.append_assoc] at h', hrun', ?_, ?_⟩
      · simpa [Answer.pushed?] using hpushes
      · simpa [Answer.popped?] using hpops

theorem can_start (L : Lawful M bound honest) (h : BenchRun M total ts b) :
    ∃ us b', BenchRun M total (ts ++ us) b' ∧ Running b' := by
  have main : ∃ us b', BenchRun M total (ts ++ us) b' ∧ b'.main ≠ .starting := by
    by_cases hm : b.main = .starting
    · exact ⟨_, _, h.next ⟨.start, if_pos hm⟩, nofun⟩
    · exact ⟨[], b, by rwa [List.append_nil], hm⟩
  obtain ⟨us, b₁, h₁, hm₁⟩ := main
  -- a thread that waits finds `start` set, unless `main` is through with both
  have started : ∀ {ts b}, BenchRun M total ts b → b.main ≠ .starting →
      (b.producer = .waiting ∨ b.consumer = .waiting) → b.start = true := by
    intro ts b h hm hwait
    have hmain := (inv_of_run L h).main
    cases hpc : b.main with
    | starting => exact absurd hpc hm
    | joiningProducer | joiningConsumer =>
        rw [hpc] at hmain
        first | exact hmain | exact hmain.1
    | printed ok =>
        rw [hpc] at hmain
        obtain ⟨hproducer, hconsumer, -⟩ := hmain
        rw [hproducer, hconsumer] at hwait
        rcases hwait with hwait | hwait <;> cases hwait
  have producer : ∃ us b', BenchRun M total (ts ++ us) b' ∧ b'.main ≠ .starting ∧
      b'.producer ≠ .waiting := by
    by_cases hp : b₁.producer = .waiting
    · have hstep : Step M total b₁ none { b₁ with producer := .test 1 } :=
        ⟨.producerStarts, if_pos ⟨hp, started h₁ hm₁ (Or.inl hp)⟩⟩
      have hnext := h₁.next hstep
      rw [List.append_assoc] at hnext
      exact ⟨_, { b₁ with producer := .test 1 }, hnext, hm₁, nofun⟩
    · exact ⟨us, b₁, h₁, hm₁, hp⟩
  obtain ⟨vs, b₂, h₂, hm₂, hp₂⟩ := producer
  by_cases hc : b₂.consumer = .waiting
  · have hstep : Step M total b₂ none { b₂ with consumer := .test 0 } :=
      ⟨.consumerStarts, if_pos ⟨hc, started h₂ hm₂ (Or.inr hc)⟩⟩
    have hnext := h₂.next hstep
    rw [List.append_assoc] at hnext
    exact ⟨_, { b₂ with consumer := .test 0 }, hnext, hm₂, hp₂, nofun⟩
  · exact ⟨vs, b₂, h₂, hm₂, hp₂, hc⟩

theorem left_append_le (us : List (Taken (Bench σ) (Option (Answer UInt64)))) :
    left total (ts ++ us) ≤ left total ts := by
  rw [left, left, pushes_append, pops_append, List.length_append, List.length_append]
  omega

theorem Inv.can_push (h : Inv L total ts b) (hrun : Running b)
    (hidle : M.pending b.queue .producer = none) (hmore : (pushes ts).length < total.toNat) :
    ∃ value, b.producer.next total = some value := by
  have hprod := h.producer
  have hcall := h.calls .producer
  rw [hidle] at hcall
  cases hpc : b.producer with
  | waiting => exact absurd hpc hrun.2.1
  | test value =>
      rw [hpc] at hprod
      have hvalue : value = UInt64.ofNat ((pushes ts).length + 1) := hprod.pc
      have hlt := total.toNat_lt
      have htoNat : value.toNat = (pushes ts).length + 1 := by
        rw [hvalue, UInt64.toNat_ofNat', Nat.mod_eq_of_lt (by omega)]
      refine ⟨value, if_pos (UInt64.le_iff_toNat_le.mpr ?_)⟩
      omega
  | again value => exact ⟨value, rfl⟩
  | calling value =>
      exact absurd ((congrArg ProducerPc.call hpc).symm.trans hcall.symm) (Option.some_ne_none _)
  | returned =>
      rw [hpc] at hprod
      have hall : (pushes ts).length = total.toNat := hprod.pc.1
      omega

theorem Inv.can_pop (h : Inv L total ts b) (hrun : Running b)
    (hidle : M.pending b.queue .consumer = none) (hmore : (pops ts).length < total.toNat) :
    ∃ count, b.consumer = .test count ∧ count < total := by
  have hcons := h.consumer
  have hcall := h.calls .consumer
  rw [hidle] at hcall
  cases hpc : b.consumer with
  | waiting => exact absurd hpc hrun.2.2
  | test count =>
      rw [hpc] at hcons
      have hcount : count = UInt64.ofNat (pops ts).length := hcons.pc
      have hlt := total.toNat_lt
      have htoNat : count.toNat = (pops ts).length := by
        rw [hcount, UInt64.toNat_ofNat', Nat.mod_eq_of_lt (by omega)]
      refine ⟨count, rfl, UInt64.lt_iff_toNat_lt.mpr ?_⟩
      omega
  | calling count =>
      exact absurd ((congrArg ConsumerPc.call hpc).symm.trans hcall.symm) (Option.some_ne_none _)
  | returned =>
      rw [hpc] at hcons
      have hall : (pops ts).length = total.toNat := hcons.pc
      omega

/-- A call that an idle queue is asked for is entered and finished, with an honest answer. -/
theorem can_call (L : Lawful M bound honest) (h : BenchRun M total ts b)
    (hidle : ∀ d, M.pending b.queue d = none) (c : Call UInt64)
    (enters : ∀ {i q}, M.entry i = some c → M.access b.queue i = some (q, none) →
      ∃ b', Step M total b none b' ∧ b'.queue = q ∧ Running b') :
    ∃ us b' a xs, BenchRun M total (ts ++ us) b' ∧ Running b' ∧ Answers c a ∧
      BoundedFifo.Step bound true (L.contents b.queue) (some a) xs ∧
      pushes (ts ++ us) = pushes ts ++ (Answer.pushed? (some a)).toList ∧
      pops (ts ++ us) = pops ts ++ (Answer.popped? (some a)).toList := by
  obtain ⟨i, q, hentry, haccess⟩ := L.enter c (hidle _)
  obtain ⟨b₁, hstep, rfl, hrun₁⟩ := enters hentry haccess
  have h₁ := h.next hstep
  have hside := L.entry_side hentry
  obtain ⟨-, -, hpending⟩ := L.enters hentry haccess
  have halone : M.pending b₁.queue (callSide c).other = none := by
    rw [(L.frame haccess (by rw [hside]; exact (callSide c).ne_other.symm)).1]
    exact hidle _
  rw [hside] at hpending
  obtain ⟨hinv, hqueue⟩ := L.sound (inv_of_run L h).queue haccess
  obtain ⟨a, q', hfin, ha, hhonest, -⟩ := L.finishes hinv hpending halone
  rw [hqueue.eq_of_silent] at hhonest
  obtain ⟨us, b', h', hrun', hpushes, hpops⟩ := can_finish L hfin h₁ hrun₁ rfl
  rw [List.append_assoc, pushes_snoc] at hpushes
  rw [List.append_assoc, pops_snoc] at hpops
  rw [List.append_assoc] at h'
  refine ⟨_, b', a, _, h', hrun', ha, hhonest, ?_, ?_⟩
  · simpa [Answer.pushed?] using hpushes
  · simpa [Answer.popped?] using hpops

/-- One value goes into the queue where it is empty, and one goes out where it is not. -/
theorem can_advance (L : Lawful M bound honest) (hbound : 0 < bound) (hmax : total ≠ -1)
    (h : BenchRun M total ts b) (hrun : Running b) (hidle : ∀ d, M.pending b.queue d = none)
    (hleft : 0 < left total ts) :
    ∃ us b', BenchRun M total (ts ++ us) b' ∧ Running b' ∧ left total (ts ++ us) < left total ts := by
  have hi := inv_of_run L h
  have hle := hi.producer.length_le hmax
  have hlength : (pushes ts).length = (pops ts).length + (L.contents b.queue).length := by
    rw [hi.fifo, List.length_append]
  cases hcontents : L.contents b.queue with
  | nil =>
      rw [hcontents, List.length_nil] at hlength
      have hmore : (pushes ts).length < total.toNat := by
        rw [left] at hleft
        omega
      obtain ⟨value, hnext⟩ := hi.can_push hrun (hidle _) hmore
      obtain ⟨us, b', a, xs, h', hrun', ha, hhonest, hpushes, hpops⟩ :=
        can_call L h hidle (.push value) fun {i q} hentry haccess =>
          ⟨{ b with queue := q, producer := .calling value },
            ⟨.producerCalls i, by simp only [step, hnext, hentry, haccess, if_true]⟩, rfl,
            hrun.1, by simp, hrun.2.2⟩
      refine ⟨us, b', h', hrun', ?_⟩
      cases ha with
      | pushed =>
          rw [left, left, hpushes, hpops]
          simp only [Answer.pushed?, Answer.popped?, Option.toList_some, Option.toList_none,
            List.append_nil, List.length_append, List.length_singleton]
          omega
      | refused =>
          have hfull := hhonest.full
          rw [hcontents, List.length_nil] at hfull
          omega
  | cons v vs =>
      rw [hcontents, List.length_cons] at hlength
      have hmore : (pops ts).length < total.toNat := by omega
      obtain ⟨count, hpc, hlt⟩ := hi.can_pop hrun (hidle _) hmore
      obtain ⟨us, b', a, xs, h', hrun', ha, hhonest, hpushes, hpops⟩ :=
        can_call L h hidle .pop fun {i q} hentry haccess =>
          ⟨{ b with queue := q, consumer := .calling count },
            ⟨.consumerCalls i, by simp only [step, hpc, hentry, haccess, if_pos hlt]⟩, rfl,
            hrun.1, hrun.2.1, by simp⟩
      refine ⟨us, b', h', hrun', ?_⟩
      cases ha with
      | popped =>
          rw [left, left, hpushes, hpops]
          simp only [Answer.pushed?, Answer.popped?, Option.toList_some, Option.toList_none,
            List.append_nil, List.length_append, List.length_singleton]
          omega
      | empty =>
          have hnil := hhonest.nil
          rw [hcontents] at hnil
          cases hnil

/-- A run that can go on to a `main` that has printed. -/
def CanPrint (M : Machine σ ι UInt64) (total : UInt64)
    (ts : List (Taken (Bench σ) (Option (Answer UInt64)))) : Prop :=
  ∃ us b' ok, BenchRun M total (ts ++ us) b' ∧ b'.main = .printed ok

theorem CanPrint.of_append {us : List (Taken (Bench σ) (Option (Answer UInt64)))}
    (h : CanPrint M total (ts ++ us)) : CanPrint M total ts := by
  obtain ⟨vs, b', ok, h', hok⟩ := h
  exact ⟨us ++ vs, b', ok, List.append_assoc ts us vs ▸ h', hok⟩

theorem Inv.producer_returns (h : Inv L total ts b) (hmax : total ≠ -1) (hrun : Running b)
    (hidle : M.pending b.queue .producer = none) (hall : (pushes ts).length = total.toNat) :
    b.producer = .returned ∨ Step M total b none { b with producer := .returned } := by
  have hlt := ne_max_toNat hmax
  have hnext : (UInt64.ofNat ((pushes ts).length + 1)).toNat = total.toNat + 1 := by
    rw [UInt64.toNat_ofNat', Nat.mod_eq_of_lt (by omega), hall]
  have hover : ¬ UInt64.ofNat ((pushes ts).length + 1) ≤ total := by
    intro hle
    have := UInt64.le_iff_toNat_le.mp hle
    omega
  have hprod := h.producer.pc
  have hcall := h.calls .producer
  rw [hidle] at hcall
  cases hpc : b.producer with
  | waiting => exact absurd hpc hrun.2.1
  | test value =>
      rw [hpc] at hprod
      have hvalue : value = UInt64.ofNat ((pushes ts).length + 1) := hprod
      rw [← hvalue] at hover
      exact Or.inr ⟨.producerReturns, by simp only [step, hpc, if_neg hover]⟩
  | again value =>
      rw [hpc] at hprod
      exact absurd (hprod.1 ▸ hprod.2) hover
  | calling value =>
      exact absurd ((congrArg ProducerPc.call hpc).symm.trans hcall.symm) (Option.some_ne_none _)
  | returned => exact Or.inl rfl

theorem Inv.consumer_returns (h : Inv L total ts b) (hrun : Running b)
    (hidle : M.pending b.queue .consumer = none) (hall : (pops ts).length = total.toNat) :
    b.consumer = .returned ∨ Step M total b none { b with consumer := .returned } := by
  have hcons := h.consumer.pc
  have hcall := h.calls .consumer
  rw [hidle] at hcall
  cases hpc : b.consumer with
  | waiting => exact absurd hpc hrun.2.2
  | test count =>
      rw [hpc] at hcons
      have hcount : count = UInt64.ofNat (pops ts).length := hcons
      have htotal : count = total := by
        rw [hcount, hall]
        exact UInt64.ofNat_toNat
      have hdone : ¬ count < total := htotal ▸ UInt64.lt_irrefl _
      exact Or.inr ⟨.consumerReturns, by simp only [step, hpc, if_neg hdone]⟩
  | calling count =>
      exact absurd ((congrArg ConsumerPc.call hpc).symm.trans hcall.symm) (Option.some_ne_none _)
  | returned => exact Or.inl rfl

theorem can_join (h : BenchRun M total ts b) (hm : b.main ≠ .starting)
    (hp : b.producer = .returned) (hc : b.consumer = .returned) : CanPrint M total ts := by
  have print : ∀ {ts b}, BenchRun M total ts b → b.main = .joiningConsumer →
      b.consumer = .returned → CanPrint M total ts := by
    intro ts b h hm hc
    exact ⟨_, _, _, h.next ⟨.joinConsumer, if_pos ⟨hm, hc⟩⟩, rfl⟩
  cases hpc : b.main with
  | starting => exact absurd hpc hm
  | joiningProducer =>
      have hstep : Step M total b none { b with main := .joiningConsumer } :=
        ⟨.joinProducer, if_pos ⟨hpc, hp⟩⟩
      exact (print (h.next hstep) rfl hc).of_append
  | joiningConsumer => exact print h hpc hc
  | printed ok => exact ⟨[], b, ok, by rwa [List.append_nil], hpc⟩

theorem can_return (L : Lawful M bound honest) (hmax : total ≠ -1) (h : BenchRun M total ts b)
    (hrun : Running b) (hidle : ∀ d, M.pending b.queue d = none) (hleft : left total ts = 0) :
    CanPrint M total ts := by
  have hi := inv_of_run L h
  have hpushed := hi.producer.length_le hmax
  have hpopped := hi.consumer.length_le
  rw [left] at hleft
  have consumer : ∀ {ts b}, BenchRun M total ts b → Running b → b.producer = .returned →
      M.pending b.queue .consumer = none → (pops ts).length = total.toNat →
      CanPrint M total ts := by
    intro ts b h hrun hp hidle hall
    rcases (inv_of_run L h).consumer_returns hrun hidle hall with hc | hc
    · exact can_join h hrun.1 hp hc
    · exact (can_join (h.next hc) hrun.1 hp rfl).of_append
  rcases hi.producer_returns hmax hrun (hidle _) (by omega) with hp | hp
  · exact consumer h hrun hp (hidle _) (by omega)
  · refine (consumer (h.next hp) ⟨hrun.1, by simp, hrun.2.2⟩ rfl (hidle _) ?_).of_append
    have hall : (pops ts).length = total.toNat := by omega
    simpa [Answer.popped?] using hall

/-- **From a state where all threads run, `main` can print**: by induction on what is left. -/
theorem can_print_of_running (L : Lawful M bound honest) (hbound : 0 < bound) (hmax : total ≠ -1)
    (h : BenchRun M total ts b) (hrun : Running b) : CanPrint M total ts := by
  induction hn : left total ts using Nat.strongRecOn generalizing ts b with
  | ind n ih =>
      subst hn
      obtain ⟨q, hq⟩ := L.settles (inv_of_run L h).queue
      obtain ⟨us, b₁, h₁, hrun₁, hidle⟩ := can_settle L hq h hrun rfl
      suffices h : CanPrint M total (ts ++ us) from h.of_append
      rcases Nat.eq_zero_or_pos (left total (ts ++ us)) with hzero | hleft
      · exact can_return L hmax h₁ hrun₁ hidle hzero
      · obtain ⟨vs, b₂, h₂, hrun₂, hless⟩ := can_advance L hbound hmax h₁ hrun₁ hidle hleft
        exact (ih _ (Nat.lt_of_lt_of_le hless (left_append_le us)) h₂ hrun₂ rfl).of_append

/-- Whether `main` will print: never for the largest `total`, and for every other `total`
it can from every reachable state. -/
def Ends (M : Machine σ ι UInt64) (total : UInt64) : Prop :=
  ∀ ts b, BenchRun M total ts b →
    (total = -1 → ∀ ok, b.main ≠ .printed ok) ∧ (total ≠ -1 → CanPrint M total ts)

theorem ends_of_lawful (L : Lawful M bound honest) (hbound : 0 < bound) (total : UInt64) :
    Ends M total := by
  intro ts b h
  constructor
  · rintro rfl ok
    exact not_printed_of_lawful L h ok
  · intro hmax
    obtain ⟨us, b₁, h₁, hrun⟩ := can_start L h
    exact (can_print_of_running L hbound hmax h₁ hrun).of_append

end Invariant

/-- **`run_benchmark` is right about every queue of the ladder.** -/
theorem run_benchmark_checks (C : Capacity) (C' : CounterCapacity) (total : UInt64) :
    Checks (Locked.machine : Machine (Locked.State UInt64 C) _ _) total ∧
    (∀ latest, Checks (Uncached.machine latest : Machine (Uncached.State UInt64 C) _ _) total) ∧
    Checks (Interleaving.machine id : Machine (Interleaving.State UInt64 UInt64 C) _ _) total ∧
    Checks (InterleavingV4.machine 0 : Machine (InterleavingV4.State UInt64 C') _ _) total := by
  refine ⟨checks_of_lawful Locked.lawful total, ?_, ?_, ?_⟩
  · intro latest
    exact checks_of_lawful (Uncached.lawful latest) total
  · exact checks_of_lawful (Interleaving.lawful id) total
  · exact checks_of_lawful (InterleavingV4.lawful 0) total

/-- **And it ends**, for every `total` but the largest: no schedule leads to a state from
which `main` cannot print any more. -/
theorem run_benchmark_ends (C : Capacity) (C' : CounterCapacity) (total : UInt64) :
    Ends (Locked.machine : Machine (Locked.State UInt64 C) _ _) total ∧
    (∀ latest, Ends (Uncached.machine latest : Machine (Uncached.State UInt64 C) _ _) total) ∧
    Ends (Interleaving.machine id : Machine (Interleaving.State UInt64 UInt64 C) _ _) total ∧
    Ends (InterleavingV4.machine 0 : Machine (InterleavingV4.State UInt64 C') _ _) total := by
  have hroom : 0 < C.value - 1 := Nat.sub_pos_of_lt C.two_le
  refine ⟨ends_of_lawful Locked.lawful hroom total, ?_, ?_, ?_⟩
  · intro latest
    exact ends_of_lawful (Uncached.lawful latest) hroom total
  · exact ends_of_lawful (Interleaving.lawful id) hroom total
  · exact ends_of_lawful (InterleavingV4.lawful 0) C'.pos total

end TradingGateway.Spsc.Benchmark
