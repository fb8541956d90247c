/-
# `Lib.Cyclic` — windows of a cyclic array

A ring of `N` cells is a function on indices, read at indices modulo `N`.
`window f N start len` lists `len` cells from `start` on.  Positions (`start`,
`start + len`) are counts that only grow; the cell of a position is its value
modulo `N`.  Two positions less than `N` apart never share a cell
(`mod_ne_of_lt`), and that is what every update lemma rests on: a write at the
end of a window that is not full touches no cell of the window.
-/
import Mathlib.Algebra.Group.Nat.Defs
import Mathlib.Data.List.Basic
import Mathlib.Data.List.Range

namespace Lib.Cyclic

variable {α : Type*}

/-! ## Positions and cells -/

/-- Positions less than a lap apart occupy different cells. -/
theorem mod_ne_of_lt {a b N : Nat} (hab : a < b) (hb : b < a + N) : a % N ≠ b % N := by
  intro h
  have hdvd : N ∣ b - a := Nat.dvd_of_mod_eq_zero (Nat.sub_mod_eq_zero_of_mod_eq h.symm)
  have := Nat.le_of_dvd (by omega) hdvd
  omega

/-- Two positions at most a lap apart share a cell only when they are equal or
exactly a lap apart. -/
theorem eq_or_eq_add_of_mod_eq {a b N : Nat} (hab : a ≤ b) (hb : b ≤ a + N)
    (h : a % N = b % N) : b = a ∨ b = a + N := by
  rcases Nat.lt_or_ge a b with hlt | hge
  · rcases Nat.lt_or_ge b (a + N) with hlt' | hge'
    · exact absurd h (mod_ne_of_lt hlt hlt')
    · exact Or.inr (Nat.le_antisymm hb hge')
  · exact Or.inl (Nat.le_antisymm hge hab)

/-- The distance between two positions less than a lap apart, from their cells. -/
theorem distance_mod {a b N : Nat} (hab : a ≤ b) (hb : b < a + N) :
    (b % N + N - a % N) % N = b - a := by
  obtain ⟨d, rfl⟩ := Nat.exists_eq_add_of_le hab
  have hd : d < N := by omega
  have ha : a % N < N := Nat.mod_lt a (by omega)
  rw [← Nat.mod_add_mod]
  generalize a % N = r at ha
  rcases Nat.lt_or_ge (r + d) N with hlt | hge
  · rw [Nat.mod_eq_of_lt hlt, show r + d + N - r = d + N by omega, Nat.add_mod_right,
      Nat.mod_eq_of_lt hd]
    omega
  · rw [Nat.mod_eq_sub_mod hge, Nat.mod_eq_of_lt (by omega : r + d - N < N),
      show r + d - N + N - r = d by omega, Nat.mod_eq_of_lt hd]
    omega

theorem add_mod_of_fit {s i N : Nat} (h : s % N + i < N) : (s + i) % N = s % N + i := by
  rw [← Nat.mod_add_mod, Nat.mod_eq_of_lt h]

theorem add_mod_of_wrap {s i N : Nat} (h : N ≤ s % N + i) (hi : i ≤ N) :
    (s + i) % N = s % N + i - N := by
  rcases Nat.eq_zero_or_pos N with rfl | hN
  · rw [Nat.mod_zero, Nat.mod_zero, Nat.sub_zero]
  · have hs : s % N < N := Nat.mod_lt s hN
    rw [← Nat.mod_add_mod, Nat.mod_eq_sub_mod h, Nat.mod_eq_of_lt (by omega)]

/-! ## Windows -/

/-- The `len` cells from position `start` on. -/
def window (f : Nat → α) (N start len : Nat) : List α :=
  (List.range len).map fun i => f ((start + i) % N)

@[simp] theorem window_zero (f : Nat → α) (N start : Nat) : window f N start 0 = [] := rfl

@[simp] theorem length_window (f : Nat → α) (N start len : Nat) :
    (window f N start len).length = len := by
  simp [window]

theorem getElem?_window (f : Nat → α) (N start len i : Nat) (h : i < len) :
    (window f N start len)[i]? = some (f ((start + i) % N)) := by
  simp [window, h]

theorem window_succ (f : Nat → α) (N start len : Nat) :
    window f N start (len + 1) = window f N start len ++ [f ((start + len) % N)] := by
  simp [window, List.range_succ]

theorem window_append (f : Nat → α) (N start a b : Nat) :
    window f N start (a + b) = window f N start a ++ window f N (start + a) b := by
  induction b with
  | zero => simp
  | succ b ih =>
      rw [← Nat.add_assoc, window_succ, ih, window_succ, List.append_assoc, Nat.add_assoc]

theorem window_cons (f : Nat → α) (N start len : Nat) :
    window f N start (len + 1) = f (start % N) :: window f N (start + 1) len := by
  rw [Nat.add_comm, window_append]
  simp [window]

theorem window_drop (f : Nat → α) (N start len k : Nat) (h : k ≤ len) :
    (window f N start len).drop k = window f N (start + k) (len - k) := by
  obtain ⟨m, rfl⟩ := Nat.exists_eq_add_of_le h
  rw [window_append, Nat.add_sub_cancel_left]
  simp

theorem window_take (f : Nat → α) (N start len k : Nat) (h : k ≤ len) :
    (window f N start len).take k = window f N start k := by
  obtain ⟨m, rfl⟩ := Nat.exists_eq_add_of_le h
  rw [window_append]
  simp

theorem window_congr {f g : Nat → α} {N start len : Nat}
    (h : ∀ i < len, f ((start + i) % N) = g ((start + i) % N)) :
    window f N start len = window g N start len := by
  refine List.map_congr_left fun i hi => ?_
  exact h i (List.mem_range.mp hi)

theorem window_mod (f : Nat → α) (N start len : Nat) :
    window f N (start % N) len = window f N start len := by
  refine List.map_congr_left fun i _ => ?_
  rw [Nat.mod_add_mod]

theorem window_update {f : Nat → α} {N start len p : Nat} (v : α)
    (h : ∀ i < len, (start + i) % N ≠ p) :
    window (Function.update f p v) N start len = window f N start len :=
  window_congr fun i hi => Function.update_of_ne (h i hi) v f

/-- Writing a string behind a window that leaves room for it extends the window
by the string, however the cells came to hold it. -/
theorem window_extend {f g : Nat → α} {N start len : Nat} (vs : List α)
    (hroom : len + vs.length ≤ N)
    (hnew : ∀ i, (h : i < vs.length) → g ((start + len + i) % N) = vs[i])
    (hold : ∀ j, (∀ i < vs.length, (start + len + i) % N ≠ j) → j < N → g j = f j) :
    window g N start (len + vs.length) = window f N start len ++ vs := by
  have hfront : window g N start len = window f N start len := by
    refine window_congr fun i hi => hold _ ?_ (Nat.mod_lt _ (by omega))
    intro k hk
    exact (mod_ne_of_lt (by omega) (by omega)).symm
  have hback : window g N (start + len) vs.length = vs := by
    refine List.ext_getElem (length_window g N _ _) fun i h1 h2 => ?_
    have := getElem?_window g N (start + len) vs.length i h2
    rw [List.getElem?_eq_getElem h1, Option.some_inj] at this
    rw [this, hnew i h2]
  rw [window_append, hfront, hback]

theorem window_contiguous (f : Nat → α) {N start len : Nat}
    (h : start % N + len ≤ N) :
    window f N start len = (List.range len).map fun i => f (start % N + i) := by
  rw [← window_mod]
  refine List.map_congr_left fun i hi => ?_
  have hi' : i < len := List.mem_range.mp hi
  rw [Nat.mod_eq_of_lt (by omega)]

/-! ## The cells of an array

A fixed-size array as a function on indices.  Out of range it answers
`default`; a development that cares shows its indices are in range. -/

section Cells

variable {β : Type*} [Inhabited β] {n : Nat}

/-- The array read as a function. -/
def cells (a : Vector β n) (i : Nat) : β := a[i]?.getD default

theorem cells_set (a : Vector β n) {i : Nat} (h : i < n) (v : β) :
    cells (a.setIfInBounds i v) = Function.update (cells a) i v := by
  funext j
  by_cases hj : j = i
  · subst hj
    simp [cells, Function.update_self, h]
  · simp [cells, Function.update_of_ne hj, Vector.getElem?_setIfInBounds_ne (Ne.symm hj)]

end Cells

end Lib.Cyclic
