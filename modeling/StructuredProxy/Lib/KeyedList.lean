import Mathlib.Order.Lattice
import Mathlib.Data.List.Basic

/-!
# Ordered maps as lists of entries

An ordered map kept as the list of its entries: `upsert` replaces the entry of a key where it stands
and puts a new one before the first greater key, `eraseKeys` drops entries. The laws hold for every
list, sorted or not, so no user has to carry an ordering invariant.
-/

namespace StructuredProxy.Lib

variable {κ β : Type*} [LinearOrder κ]

def insertOrdered (k : κ) (v : β) : List (κ × β) → List (κ × β)
  | [] => [(k, v)]
  | (j, w) :: entries => if k < j then (k, v) :: (j, w) :: entries else (j, w) :: insertOrdered k v entries

def replace (k : κ) (v : β) : List (κ × β) → List (κ × β)
  | [] => []
  | (j, w) :: entries => if j = k then (k, v) :: entries else (j, w) :: replace k v entries

def upsert (k : κ) (v : β) (entries : List (κ × β)) : List (κ × β) :=
  if (entries.lookup k).isSome then replace k v entries else insertOrdered k v entries

def eraseKeys (keys : List κ) (entries : List (κ × β)) : List (κ × β) :=
  entries.filter fun entry => !keys.contains entry.1

variable {k j : κ} {v w : β} {entries : List (κ × β)}

theorem lookup_cons_self : ((k, v) :: entries).lookup k = some v := by simp

theorem lookup_cons_of_ne (hne : j ≠ k) : ((k, v) :: entries).lookup j = entries.lookup j := by
  rw [List.lookup_cons, beq_eq_false_iff_ne.mpr hne]

theorem lookup_insertOrdered_of_ne (hne : j ≠ k) :
    (insertOrdered k v entries).lookup j = entries.lookup j := by
  induction entries with
  | nil => exact lookup_cons_of_ne hne
  | cons entry entries ih =>
      obtain ⟨i, u⟩ := entry
      rw [insertOrdered]
      split
      · exact lookup_cons_of_ne hne
      · by_cases hi : j = i
        · subst hi
          rw [lookup_cons_self, lookup_cons_self]
        · rw [lookup_cons_of_ne hi, lookup_cons_of_ne hi, ih]

theorem lookup_insertOrdered_self (hnone : entries.lookup k = none) :
    (insertOrdered k v entries).lookup k = some v := by
  induction entries with
  | nil => exact lookup_cons_self
  | cons entry entries ih =>
      obtain ⟨i, u⟩ := entry
      have hi : k ≠ i := by
        rintro rfl
        rw [lookup_cons_self] at hnone
        exact absurd hnone (by simp)
      rw [insertOrdered]
      split
      · exact lookup_cons_self
      · rw [lookup_cons_of_ne hi] at hnone ⊢
        exact ih hnone

theorem lookup_replace_of_ne (hne : j ≠ k) :
    (replace k v entries).lookup j = entries.lookup j := by
  induction entries with
  | nil => rfl
  | cons entry entries ih =>
      obtain ⟨i, u⟩ := entry
      rw [replace]
      split
      · rename_i hi
        subst hi
        rw [lookup_cons_of_ne hne, lookup_cons_of_ne hne]
      · by_cases hi : j = i
        · subst hi
          rw [lookup_cons_self, lookup_cons_self]
        · rw [lookup_cons_of_ne hi, lookup_cons_of_ne hi, ih]

theorem lookup_replace_self (hsome : (entries.lookup k).isSome = true) :
    (replace k v entries).lookup k = some v := by
  induction entries with
  | nil => exact absurd hsome (by simp)
  | cons entry entries ih =>
      obtain ⟨i, u⟩ := entry
      rw [replace]
      split
      · exact lookup_cons_self
      · rename_i hi
        rw [lookup_cons_of_ne (Ne.symm hi)] at hsome ⊢
        exact ih hsome

@[simp]
theorem lookup_upsert_self : (upsert k v entries).lookup k = some v := by
  rw [upsert]
  split
  · rename_i hsome
    exact lookup_replace_self hsome
  · rename_i hnone
    exact lookup_insertOrdered_self (Option.not_isSome_iff_eq_none.mp hnone)

theorem lookup_upsert_of_ne (hne : j ≠ k) : (upsert k v entries).lookup j = entries.lookup j := by
  rw [upsert]
  split
  · exact lookup_replace_of_ne hne
  · exact lookup_insertOrdered_of_ne hne

theorem upsert_eq_self (hlookup : entries.lookup k = some v) : upsert k v entries = entries := by
  rw [upsert, hlookup, Option.isSome_some, if_pos rfl]
  induction entries with
  | nil => rfl
  | cons entry entries ih =>
      obtain ⟨i, u⟩ := entry
      rw [replace]
      split
      · rename_i hi
        subst hi
        rw [lookup_cons_self] at hlookup
        rw [Option.some.inj hlookup]
      · rename_i hi
        rw [lookup_cons_of_ne (Ne.symm hi)] at hlookup
        rw [ih hlookup]

theorem replace_replace : replace k v (replace k w entries) = replace k v entries := by
  induction entries with
  | nil => rfl
  | cons entry entries ih =>
      obtain ⟨i, u⟩ := entry
      by_cases hi : i = k
      · simp [replace, hi]
      · simp [replace, hi, ih]

theorem replace_insertOrdered (hnone : entries.lookup k = none) :
    replace k v (insertOrdered k w entries) = insertOrdered k v entries := by
  induction entries with
  | nil => simp [insertOrdered, replace]
  | cons entry entries ih =>
      obtain ⟨i, u⟩ := entry
      have hi : k ≠ i := by
        rintro rfl
        rw [lookup_cons_self] at hnone
        exact absurd hnone (by simp)
      rw [lookup_cons_of_ne hi] at hnone
      by_cases hlt : k < i
      · simp [insertOrdered, replace, hlt]
      · simp [insertOrdered, replace, hlt, Ne.symm hi, ih hnone]

theorem replace_comm (hne : j ≠ k) :
    replace j w (replace k v entries) = replace k v (replace j w entries) := by
  induction entries with
  | nil => rfl
  | cons entry entries ih =>
      obtain ⟨i, u⟩ := entry
      by_cases hk : i = k
      · subst hk
        simp [replace, Ne.symm hne]
      · by_cases hj : i = j
        · subst hj
          simp [replace, hne]
        · simp [replace, hk, hj, ih]

theorem replace_insertOrdered_comm (hne : j ≠ k) :
    replace j w (insertOrdered k v entries) = insertOrdered k v (replace j w entries) := by
  induction entries with
  | nil => simp [insertOrdered, replace, Ne.symm hne]
  | cons entry entries ih =>
      obtain ⟨i, u⟩ := entry
      by_cases hj : i = j
      · subst hj
        by_cases hlt : k < i
        · simp [insertOrdered, replace, hlt, Ne.symm hne]
        · simp [insertOrdered, replace, hlt]
      · by_cases hlt : k < i
        · simp [insertOrdered, replace, hlt, hj, Ne.symm hne]
        · simp [insertOrdered, replace, hlt, hj, ih]

theorem insertOrdered_comm (hne : j ≠ k) :
    insertOrdered j w (insertOrdered k v entries) = insertOrdered k v (insertOrdered j w entries) := by
  induction entries with
  | nil =>
      rcases lt_or_gt_of_ne hne with hlt | hlt
      · simp [insertOrdered, hlt, not_lt_of_gt hlt]
      · simp [insertOrdered, hlt, not_lt_of_gt hlt]
  | cons entry entries ih =>
      obtain ⟨i, u⟩ := entry
      by_cases hk : k < i
      · by_cases hj : j < i
        · rcases lt_or_gt_of_ne hne with hlt | hlt
          · simp [insertOrdered, hk, hj, hlt, not_lt_of_gt hlt]
          · simp [insertOrdered, hk, hj, hlt, not_lt_of_gt hlt]
        · have hkj : ¬j < k := not_lt_of_gt (lt_of_lt_of_le hk (not_lt.mp hj))
          simp [insertOrdered, hk, hj, hkj]
      · by_cases hj : j < i
        · have hjk : ¬k < j := not_lt_of_gt (lt_of_lt_of_le hj (not_lt.mp hk))
          simp [insertOrdered, hk, hj, hjk]
        · simp [insertOrdered, hk, hj, ih]

theorem upsert_upsert : upsert k v (upsert k w entries) = upsert k v entries := by
  have hsome : ((upsert k w entries).lookup k).isSome = true := by rw [lookup_upsert_self]; rfl
  rw [upsert, if_pos hsome, upsert, upsert]
  split
  · exact replace_replace
  · rename_i hnone
    exact replace_insertOrdered (Option.not_isSome_iff_eq_none.mp hnone)

theorem upsert_comm (hne : j ≠ k) :
    upsert j w (upsert k v entries) = upsert k v (upsert j w entries) := by
  have hj : (upsert k v entries).lookup j = entries.lookup j := lookup_upsert_of_ne hne
  have hk : (upsert j w entries).lookup k = entries.lookup k := lookup_upsert_of_ne (Ne.symm hne)
  rw [upsert, hj, upsert.eq_def k v (upsert j w entries), hk]
  unfold upsert
  split <;> split
  · exact replace_comm hne
  · exact replace_insertOrdered_comm hne
  · exact (replace_insertOrdered_comm (Ne.symm hne)).symm
  · exact insertOrdered_comm hne

theorem eraseKeys_eq_self {keys : List κ} (hnone : ∀ k ∈ keys, entries.lookup k = none) :
    eraseKeys keys entries = entries := by
  rw [eraseKeys, List.filter_eq_self]
  rintro ⟨i, u⟩ hentry
  simp only [Bool.not_eq_true', List.contains_eq_mem, decide_eq_false_iff_not]
  intro hmem
  have hlookup := List.lookup_eq_none_iff.mp (hnone i hmem) (i, u) hentry
  simp at hlookup

end StructuredProxy.Lib
