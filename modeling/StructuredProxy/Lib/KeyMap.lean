import StructuredProxy.Lib.Lists
import Mathlib.Data.List.Nodup

/-!
# Maps with one entry for each key

A hash map as its entries, no two of one key. The order of the entries is that of the last writes; no
law below depends on it.
-/

namespace StructuredProxy.Lib

structure KeyMap (κ β : Type*) where
  entries : List (κ × β)
  nodup : (entries.map Prod.fst).Nodup

namespace KeyMap

variable {κ β : Type*}

def empty : KeyMap κ β := ⟨[], List.nodup_nil⟩

def size (m : KeyMap κ β) : Nat := m.entries.length

def keys (m : KeyMap κ β) : List κ := m.entries.map Prod.fst

def retain (p : κ → β → Bool) (m : KeyMap κ β) : KeyMap κ β where
  entries := m.entries.filter fun entry => p entry.1 entry.2
  nodup := (List.filter_sublist.map _).nodup m.nodup

theorem ext_entries {m m' : KeyMap κ β} (h : m.entries = m'.entries) : m = m' := by
  cases m
  cases m'
  cases h
  rfl

theorem retain_congr {m : KeyMap κ β} {p q : κ → β → Bool}
    (h : ∀ k v, (k, v) ∈ m.entries → p k v = q k v) : m.retain p = m.retain q :=
  ext_entries (List.filter_congr fun entry hentry => h entry.1 entry.2 hentry)

theorem retain_eq_self {m : KeyMap κ β} {p : κ → β → Bool}
    (h : ∀ k v, (k, v) ∈ m.entries → p k v = true) : m.retain p = m :=
  ext_entries (List.filter_eq_self.mpr fun entry hentry => h entry.1 entry.2 hentry)

theorem retain_retain (m : KeyMap κ β) (p q : κ → β → Bool) :
    (m.retain p).retain q = m.retain fun k v => q k v && p k v :=
  ext_entries List.filter_filter

variable [DecidableEq κ]

def get (m : KeyMap κ β) (k : κ) : Option β := m.entries.lookup k

def erase (k : κ) (m : KeyMap κ β) : KeyMap κ β := m.retain fun j _ => j ≠ k

def set (k : κ) (v : β) (m : KeyMap κ β) : KeyMap κ β where
  entries := (k, v) :: (m.erase k).entries
  nodup := by
    refine List.nodup_cons.mpr ⟨fun hmem => ?_, (m.erase k).nodup⟩
    obtain ⟨⟨j, w⟩, hentry, rfl⟩ := List.mem_map.mp hmem
    simp [erase, retain] at hentry

variable {m : KeyMap κ β} {k j : κ} {v w : β} {p : κ → β → Bool}

theorem get_eq_some_iff : m.get k = some v ↔ (k, v) ∈ m.entries :=
  lookup_eq_some_iff_mem m.nodup

@[simp]
theorem get_empty : (empty : KeyMap κ β).get k = none := rfl

theorem get_retain : (m.retain p).get k = (m.get k).filter (p k) := by
  ext v
  rw [get_eq_some_iff, Option.filter_eq_some_iff, get_eq_some_iff]
  exact List.mem_filter

@[simp]
theorem get_erase_self : (m.erase k).get k = none := by
  rw [erase, get_retain]
  cases m.get k <;> simp

theorem get_erase_of_ne (hne : j ≠ k) : (m.erase k).get j = m.get j := by
  rw [erase, get_retain]
  cases m.get j <;> simp [hne]

@[simp]
theorem get_set_self : (m.set k v).get k = some v :=
  get_eq_some_iff.mpr List.mem_cons_self

theorem get_set_of_ne (hne : j ≠ k) : (m.set k v).get j = m.get j := by
  have hcons : (m.set k v).get j = (m.erase k).get j := by
    rw [get, set, List.lookup_cons, beq_eq_false_iff_ne.mpr hne]
    rfl
  rw [hcons, get_erase_of_ne hne]

theorem set_set : (m.set k v).set k w = m.set k w := by
  refine ext_entries (congrArg ((k, w) :: ·) ?_)
  have hkept : ∀ entry ∈ (m.erase k).entries, decide (entry.1 ≠ k) = true := fun entry hentry =>
    (List.mem_filter.mp hentry).2
  have hentries : ((m.set k v).erase k).entries =
      ((k, v) :: (m.erase k).entries).filter fun entry => decide (entry.1 ≠ k) := rfl
  rw [hentries, List.filter_cons_of_neg (by simp)]
  exact List.filter_eq_self.mpr hkept

theorem erase_of_none (h : m.get k = none) : m.erase k = m := retain_eq_self fun j v hmem => by
  refine decide_eq_true fun heq => ?_
  rw [heq, ← get_eq_some_iff, h] at hmem
  cases hmem

theorem size_erase_of_none (h : m.get k = none) : (m.erase k).size = m.size := by
  rw [erase_of_none h]

theorem exists_split_of_get (h : m.get k = some v) : ∃ before after,
    m.entries = before ++ (k, v) :: after ∧ (m.erase k).entries = before ++ after := by
  obtain ⟨before, after, hsplit⟩ := List.append_of_mem (get_eq_some_iff.mp h)
  have hkeys := m.nodup
  rw [hsplit, List.map_append, List.map_cons, List.nodup_append] at hkeys
  obtain ⟨-, hafter, hbefore⟩ := hkeys
  have hkeep : ∀ part : List (κ × β), k ∉ part.map Prod.fst →
      part.filter (fun entry => decide (entry.1 ≠ k)) = part := by
    intro part hnot
    refine List.filter_eq_self.mpr fun entry hentry => decide_eq_true fun heq => hnot ?_
    rw [← heq]
    exact List.mem_map_of_mem hentry
  refine ⟨before, after, hsplit, ?_⟩
  rw [erase, retain]
  simp only [hsplit, List.filter_append]
  rw [List.filter_cons_of_neg (by simp),
    hkeep before fun hmem => hbefore k hmem k List.mem_cons_self rfl,
    hkeep after (List.nodup_cons.mp hafter).1]

theorem size_erase_of_some (h : m.get k = some v) : (m.erase k).size + 1 = m.size := by
  obtain ⟨before, after, hentries, herase⟩ := exists_split_of_get h
  rw [size, size, herase, hentries, List.length_append, List.length_append, List.length_cons]
  omega

theorem size_set : (m.set k v).size = (m.erase k).size + 1 := rfl

end KeyMap

end StructuredProxy.Lib
