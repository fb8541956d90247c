/-
# `Lib.Counters` — free-running counters in 64 bits

A count that only grows, kept in a word that wraps.  `UInt64.ofNat n` is the word
that stands for the count `n`; two words tell their counts apart, and give their
distance, as long as the counts are less than `2^64` apart.

    same word          same count            (`ofNat_eq_iff`)
    difference         distance              (`toNat_sub_ofNat`)
    mask by `2^k - 1`  the count's cell      (`toNat_and_mask`)
-/
import Mathlib.Data.Nat.Bitwise
import TradingGateway.Lib.Cyclic

namespace Lib.Counters

open Lib.Cyclic

variable {a b : Nat}

theorem toNat_sub_ofNat (hab : a ≤ b) (hb : b < a + 2 ^ 64) :
    (UInt64.ofNat b - UInt64.ofNat a).toNat = b - a := by
  have hpos : a % 2 ^ 64 ≤ 2 ^ 64 := Nat.le_of_lt (Nat.mod_lt _ (Nat.two_pow_pos 64))
  rw [UInt64.toNat_sub, UInt64.toNat_ofNat', UInt64.toNat_ofNat', ← distance_mod hab hb]
  congr 1
  omega

theorem ofNat_eq_iff (hab : a ≤ b) (hb : b < a + 2 ^ 64) :
    UInt64.ofNat a = UInt64.ofNat b ↔ a = b := by
  constructor
  · intro h
    have hzero : (UInt64.ofNat b - UInt64.ofNat a).toNat = 0 := by
      rw [h, UInt64.sub_self]
      rfl
    have hdist := toNat_sub_ofNat hab hb
    exact Nat.le_antisymm hab (Nat.le_of_sub_eq_zero (hdist.symm.trans hzero))
  · intro h
    rw [h]

/-- A distance within the word, compared as a word. -/
theorem sub_ofNat_eq_iff {n : Nat} (hab : a ≤ b) (hb : b < a + 2 ^ 64) (hn : n < 2 ^ 64) :
    UInt64.ofNat b - UInt64.ofNat a = UInt64.ofNat n ↔ b = a + n := by
  have hdist := toNat_sub_ofNat hab hb
  have hword : (UInt64.ofNat n).toNat = n := UInt64.toNat_ofNat_of_lt' hn
  constructor
  · intro h
    rw [h, hword] at hdist
    exact (Nat.sub_eq_iff_eq_add' hab).mp hdist.symm
  · intro h
    apply UInt64.toNat.inj
    rw [hdist, hword, h]
    exact Nat.add_sub_cancel_left _ _

theorem ofNat_succ (n : Nat) : UInt64.ofNat n + 1 = UInt64.ofNat (n + 1) := by
  rw [UInt64.ofNat_add]
  rfl

/-- The cell of a count under a power of two. -/
theorem toNat_and_mask {N : Nat} (hN : N.isPowerOfTwo) (hle : N ≤ 2 ^ 64) (n : Nat) :
    (UInt64.ofNat n &&& UInt64.ofNat (N - 1)).toNat = n % N := by
  obtain ⟨k, rfl⟩ := hN
  have hmask : (UInt64.ofNat (2 ^ k - 1)).toNat = 2 ^ k - 1 :=
    UInt64.toNat_ofNat_of_lt' (Nat.lt_of_lt_of_le (Nat.sub_lt (Nat.two_pow_pos k) Nat.one_pos) hle)
  have hdvd : 2 ^ k ∣ 2 ^ 64 := Nat.pow_dvd_pow 2 ((Nat.pow_le_pow_iff_right (by decide)).mp hle)
  rw [UInt64.toNat_and, hmask, UInt64.toNat_ofNat', Nat.and_two_pow_sub_one_eq_mod,
    Nat.mod_mod_of_dvd _ hdvd]

end Lib.Counters
