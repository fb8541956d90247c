/-
# `Lib.Bytes` — little-endian fields in byte strings

Three things about byte strings that a fixed-layout codec is made of.

* `toLE n v` writes the low `n` bytes of `v`, least significant first, and
  `ofLE` reads such a string back; the two are inverse in both directions.
* `slice` reads a field out of a string and `overwrite` writes one into it.
  Writing adjacent fields one after the other is writing their concatenation
  (`overwrite_overwrite`), so a frame that is tiled by its fields is determined
  by them.
* `blocks n` cuts a stream into its complete `n`-byte blocks.
-/
import Mathlib.Algebra.Group.Nat.Defs
import Mathlib.Data.List.Basic
import Mathlib.Data.Nat.Basic

namespace Lib.Bytes

/-! ## Little-endian integers -/

/-- The low `n` bytes of `v`, least significant first. -/
def toLE : Nat → Nat → List UInt8
  | 0, _ => []
  | n + 1, v => UInt8.ofNat v :: toLE n (v / 256)

/-- The number a byte string stands for, least significant byte first. -/
def ofLE : List UInt8 → Nat
  | [] => 0
  | b :: bs => b.toNat + 256 * ofLE bs

@[simp] theorem length_toLE (n v : Nat) : (toLE n v).length = n := by
  induction n generalizing v with
  | zero => rfl
  | succ n ih => simp [toLE, ih]

theorem ofLE_lt (bs : List UInt8) : ofLE bs < 256 ^ bs.length := by
  induction bs with
  | nil => exact Nat.one_pos
  | cons b bs ih =>
      have hb := b.toNat_lt
      rw [ofLE, List.length_cons, Nat.pow_succ]
      omega

/-- The next byte counts for what the bytes before it cannot. -/
theorem ofLE_snoc (bs : List UInt8) (b : UInt8) :
    ofLE (bs ++ [b]) = ofLE bs + 2 ^ (8 * bs.length) * b.toNat := by
  induction bs with
  | nil => simp [ofLE]
  | cons c bs ih =>
      have hpow : 2 ^ (8 * (bs.length + 1)) = 256 * 2 ^ (8 * bs.length) := by
        rw [Nat.mul_add, Nat.pow_add, Nat.mul_comm]
      rw [List.cons_append, ofLE, ih, List.length_cons, hpow, ofLE, Nat.mul_add, Nat.mul_assoc,
        Nat.add_assoc]

theorem ofLE_toLE (n v : Nat) : ofLE (toLE n v) = v % 256 ^ n := by
  induction n generalizing v with
  | zero => rw [toLE, ofLE, Nat.pow_zero, Nat.mod_one]
  | succ n ih =>
      have hb : (UInt8.ofNat v).toNat = v % 256 := UInt8.toNat_ofNat'
      rw [toLE, ofLE, ih, hb, Nat.pow_succ', Nat.mod_mul]

theorem toLE_ofLE (bs : List UInt8) : toLE bs.length (ofLE bs) = bs := by
  induction bs with
  | nil => rfl
  | cons b bs ih =>
      have hb := b.toNat_lt
      have hdiv : (b.toNat + 256 * ofLE bs) / 256 = ofLE bs := by omega
      have hmod : UInt8.ofNat (b.toNat + 256 * ofLE bs) = b := by
        apply UInt8.toNat.inj
        rw [UInt8.toNat_ofNat']
        omega
      rw [List.length_cons, ofLE, toLE, hdiv, hmod, ih]

/-! ## Fields -/

section Fields

variable {α : Type*}

/-- The `n` elements from `off` on. -/
def slice (bs : List α) (off n : Nat) : List α := (bs.drop off).take n

/-- `bs` with the elements from `off` on replaced by `new`. -/
def overwrite (bs : List α) (off : Nat) (new : List α) : List α :=
  bs.take off ++ new ++ bs.drop (off + new.length)

theorem length_slice {bs : List α} {off n : Nat} (h : off + n ≤ bs.length) :
    (slice bs off n).length = n := by
  simp only [slice, List.length_take, List.length_drop]
  omega

theorem ofLE_slice_lt {bs : List UInt8} {off n : Nat} (h : off + n ≤ bs.length) :
    ofLE (slice bs off n) < 256 ^ n := by
  have hlt := ofLE_lt (slice bs off n)
  rwa [length_slice h] at hlt

theorem toLE_ofLE_slice {bs : List UInt8} {off n : Nat} (h : off + n ≤ bs.length) :
    toLE n (ofLE (slice bs off n)) = slice bs off n := by
  have hback := toLE_ofLE (slice bs off n)
  rwa [length_slice h] at hback

theorem slice_append_left {as bs : List α} {off n : Nat} (h : off + n ≤ as.length) :
    slice (as ++ bs) off n = slice as off n := by
  have h' : off ≤ as.length := by omega
  rw [slice, slice, List.drop_append_of_le_length h', List.take_append_of_le_length]
  rw [List.length_drop]
  omega

theorem slice_append_right {as bs : List α} {off n : Nat} (h : as.length ≤ off) :
    slice (as ++ bs) off n = slice bs (off - as.length) n := by
  rw [slice, slice, List.drop_append, List.drop_eq_nil_of_le h, List.nil_append]

theorem slice_take {bs : List α} {off n m : Nat} (h : off + n ≤ m) :
    slice (bs.take m) off n = slice bs off n := by
  rw [slice, slice, List.drop_take, List.take_take, Nat.min_eq_left (by omega)]

theorem slice_zero_length (bs : List α) : slice bs 0 bs.length = bs := by
  simp [slice]

theorem take_append_slice (bs : List α) (off n : Nat) :
    bs.take off ++ slice bs off n = bs.take (off + n) := by
  rw [slice, List.take_add]

theorem length_overwrite {bs new : List α} {off : Nat} (h : off + new.length ≤ bs.length) :
    (overwrite bs off new).length = bs.length := by
  simp only [overwrite, List.length_append, List.length_take, List.length_drop]
  omega

@[simp] theorem overwrite_nil (bs : List α) (off : Nat) : overwrite bs off [] = bs := by
  simp [overwrite]

theorem overwrite_cons {bs : List α} {off : Nat} (x : α) (new : List α) (h : off < bs.length) :
    overwrite bs off (x :: new) = overwrite (bs.set off x) (off + 1) new := by
  have htake : (bs.set off x).take (off + 1) = bs.take off ++ [x] := by
    rw [List.take_add_one, List.take_set_of_le le_rfl, List.getElem?_set_self h]
    rfl
  have hdrop : (bs.set off x).drop (off + 1 + new.length) = bs.drop (off + 1 + new.length) :=
    List.drop_set_of_lt (by omega)
  rw [overwrite, overwrite, htake, hdrop, List.length_cons, Nat.add_assoc off 1,
    Nat.add_comm 1 new.length]
  simp

/-- Elements stored one after the other. -/
def setAll (bs : List α) (off : Nat) : List α → List α
  | [] => bs
  | x :: new => setAll (bs.set off x) (off + 1) new

theorem setAll_eq_overwrite {bs : List α} {off : Nat} (new : List α)
    (h : off + new.length ≤ bs.length) : setAll bs off new = overwrite bs off new := by
  induction new generalizing bs off with
  | nil => rw [setAll, overwrite_nil]
  | cons x new ih =>
      rw [List.length_cons] at h
      rw [setAll, overwrite_cons x new (by omega), ih (by rw [List.length_set]; omega)]

/-- Writing two adjacent fields is writing them as one. -/
theorem overwrite_overwrite {bs as cs : List α} {off : Nat}
    (h : off + as.length + cs.length ≤ bs.length) :
    overwrite (overwrite bs off as) (off + as.length) cs = overwrite bs off (as ++ cs) := by
  have hlen : (bs.take off ++ as).length = off + as.length := by
    simp only [List.length_append, List.length_take]
    omega
  have htake : (overwrite bs off as).take (off + as.length) = bs.take off ++ as := by
    rw [overwrite, ← hlen, List.take_left']
    rfl
  have hdrop : (overwrite bs off as).drop (off + as.length + cs.length)
      = bs.drop (off + (as ++ cs).length) := by
    rw [overwrite, List.drop_append, hlen, List.drop_eq_nil_of_le (by omega), List.nil_append,
      List.drop_drop, List.length_append]
    congr 1
    omega
  rw [overwrite, htake, hdrop, overwrite]
  simp [List.append_assoc]

theorem overwrite_zero (bs new : List α) :
    overwrite bs 0 new = new ++ bs.drop new.length := by
  simp [overwrite]

end Fields

/-! ## Blocks -/

section Blocks

variable {α : Type*}

/-- The complete `n`-element blocks of a stream, in order. -/
def blocks (n : Nat) (s : List α) : List (List α) :=
  (List.range (s.length / n)).map fun i => slice s (n * i) n

theorem blocks_of_short {n : Nat} {s : List α} (h : s.length < n) : blocks n s = [] := by
  rw [blocks, Nat.div_eq_of_lt h]
  rfl

theorem blocks_cons {n : Nat} {s : List α} (hn : 0 < n) (h : n ≤ s.length) :
    blocks n s = s.take n :: blocks n (s.drop n) := by
  have hdiv : s.length / n = (s.drop n).length / n + 1 := by
    rw [List.length_drop, ← Nat.div_eq_sub_div hn h]
  rw [blocks, blocks, hdiv, List.range_succ_eq_map, List.map_cons, List.map_map]
  refine congrArg₂ List.cons (by simp [slice]) (List.map_congr_left fun i _ => ?_)
  simp only [Function.comp_apply, slice, List.drop_drop]
  rw [Nat.succ_eq_add_one, Nat.mul_add, Nat.mul_one, Nat.add_comm n]

theorem blocks_append {n : Nat} {b s : List α} (hn : 0 < n) (hb : b.length = n) :
    blocks n (b ++ s) = b :: blocks n s := by
  rw [blocks_cons hn (by simp [hb]), List.take_left' hb, List.drop_left' hb]

theorem blocks_flatten_append {n : Nat} {bs : List (List α)} {s : List α} (hn : 0 < n)
    (hbs : ∀ b ∈ bs, b.length = n) : blocks n (bs.flatten ++ s) = bs ++ blocks n s := by
  induction bs with
  | nil => rfl
  | cons b bs ih =>
      rw [List.flatten_cons, List.append_assoc, blocks_append hn (hbs b List.mem_cons_self),
        ih fun c hc => hbs c (List.mem_cons_of_mem _ hc)]
      rfl

end Blocks

end Lib.Bytes
