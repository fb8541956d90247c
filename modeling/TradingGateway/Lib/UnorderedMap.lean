/-
# `Lib.UnorderedMap` — a finite map with the calls of a standard container

A finite map as a program uses it: `find`, `emplace` (which leaves an entry that
is there alone), `assign` to an entry in place, `erase` and `size`.  It is
Mathlib's `AList`, whose keys are distinct by construction; the order of the
entries is nobody's business, so every lemma is about `find`, `size` and the keys in some order.
-/
import Mathlib.Data.List.AList

namespace Lib

/-- A finite map from `κ` to `ν`. -/
structure UnorderedMap (κ ν : Type*) where
  entries : AList fun _ : κ => ν

namespace UnorderedMap

variable {κ ν : Type*}

def empty : UnorderedMap κ ν := ⟨∅⟩

def keys (m : UnorderedMap κ ν) : List κ := m.entries.keys

def size (m : UnorderedMap κ ν) : Nat := m.keys.length

theorem nodup_keys (m : UnorderedMap κ ν) : m.keys.Nodup := m.entries.keys_nodup

variable [DecidableEq κ]

def find (m : UnorderedMap κ ν) (k : κ) : Option ν := m.entries.lookup k

/-- Insert unless the key is there. -/
def emplace (m : UnorderedMap κ ν) (k : κ) (v : ν) : UnorderedMap κ ν :=
  if k ∈ m.entries then m else ⟨m.entries.insert k v⟩

/-- Overwrite the value of a key that is there. -/
def assign (m : UnorderedMap κ ν) (k : κ) (v : ν) : UnorderedMap κ ν :=
  if k ∈ m.entries then ⟨m.entries.insert k v⟩ else m

def erase (m : UnorderedMap κ ν) (k : κ) : UnorderedMap κ ν := ⟨m.entries.erase k⟩

variable {m : UnorderedMap κ ν} {k : κ} {v : ν}

@[simp] theorem find_empty : (empty : UnorderedMap κ ν).find k = none :=
  AList.lookup_empty k

theorem not_mem_iff : k ∉ m.entries ↔ m.find k = none :=
  AList.lookup_eq_none.symm

theorem find_insert (j : κ) :
    AList.lookup j (m.entries.insert k v) = if j = k then some v else m.find j := by
  split
  next h => rw [h, AList.lookup_insert]
  next h => rw [AList.lookup_insert_ne h, find]

theorem find_emplace (h : m.find k = none) (j : κ) :
    (m.emplace k v).find j = if j = k then some v else m.find j := by
  rw [emplace, if_neg (not_mem_iff.mpr h), find, find_insert]

theorem find_assign (h : m.find k ≠ none) (j : κ) :
    (m.assign k v).find j = if j = k then some v else m.find j := by
  rw [assign, if_pos (not_not.mp (mt not_mem_iff.mp h)), find, find_insert]

/-- Of two assignments to one entry the second counts. -/
theorem assign_assign (h : m.find k ≠ none) (w : ν) : (m.assign k v).assign k w = m.assign k w := by
  have hk : k ∈ m.entries := not_not.mp (mt not_mem_iff.mp h)
  have hins : k ∈ m.entries.insert k v := AList.mem_insert m.entries |>.mpr (Or.inl rfl)
  rw [assign, assign, assign, if_pos hk, if_pos hk, if_pos hins, AList.insert_insert]

theorem find_erase (j : κ) : (m.erase k).find j = if j = k then none else m.find j := by
  split
  next h => rw [h, erase, find, AList.lookup_erase]
  next h => rw [erase, find, AList.lookup_erase_ne h, find]

theorem size_emplace (h : m.find k = none) : (m.emplace k v).size = m.size + 1 := by
  have hk : k ∉ m.entries.keys := not_mem_iff.mpr h
  rw [emplace, if_neg (not_mem_iff.mpr h), size, keys, AList.keys_insert, List.erase_of_not_mem hk,
    List.length_cons]
  rfl

theorem size_erase (h : m.find k ≠ none) : (m.erase k).size + 1 = m.size := by
  have hk : k ∈ m.entries.keys := not_not.mp (mt not_mem_iff.mp h)
  rw [erase, size, keys, AList.keys_erase, List.length_erase_of_mem hk,
    Nat.sub_add_cancel (List.length_pos_of_mem hk)]
  rfl

theorem mem_keys_iff : k ∈ m.keys ↔ m.find k ≠ none :=
  not_iff_not.mp (not_mem_iff.trans not_not.symm)

theorem keys_emplace (h : m.find k = none) : (m.emplace k v).keys = k :: m.keys := by
  rw [emplace, if_neg (not_mem_iff.mpr h), keys, AList.keys_insert,
    List.erase_of_not_mem (not_mem_iff.mpr h)]
  rfl

theorem keys_erase : (m.erase k).keys = m.keys.filter (· ≠ k) := by
  have hkeys : (m.erase k).keys = m.keys.erase k := AList.keys_erase k m.entries
  rw [hkeys, m.nodup_keys.erase_eq_filter]
  refine List.filter_congr fun j _ => ?_
  rw [Bool.eq_iff_iff, bne_iff_ne, decide_eq_true_iff]

/-- An assignment leaves the keys, in some order. -/
theorem keys_assign (m : UnorderedMap κ ν) (k : κ) (v : ν) : (m.assign k v).keys.Perm m.keys := by
  rw [assign]
  split
  next hk =>
    rw [keys, AList.keys_insert]
    exact (List.perm_cons_erase hk).symm
  next => exact List.Perm.refl _

theorem size_assign (m : UnorderedMap κ ν) (k : κ) (v : ν) : (m.assign k v).size = m.size :=
  (m.keys_assign k v).length_eq

end UnorderedMap

end Lib
