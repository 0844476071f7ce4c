import StructuredProxy.Lib.Lists
import Mathlib.Data.List.Induction
import Mathlib.Data.List.Forall2

/-!
# Items grouped by a key

A loop that keeps its groups in the order of their first item and looks the group of each further item
up in a map from keys to positions. What it ends with is one group for each key, built from the items
of that key in order.
-/

namespace StructuredProxy.Lib

variable {α κ γ δ : Type*} [DecidableEq κ]

structure Grouping (κ γ : Type*) where
  groups : List γ := []
  positions : List (κ × Nat) := []

namespace Grouping

def push (key : α → κ) (start : α → γ) (add : γ → α → γ) (state : Grouping κ γ) (item : α) :
    Grouping κ γ :=
  match state.positions.lookup (key item) with
  | some position => { state with groups := state.groups.modify position (add · item) }
  | none =>
      { groups := state.groups ++ [start item]
        positions := state.positions ++ [(key item, state.groups.length)] }

def build (start : α → γ) (add : γ → α → γ) : List α → Option γ
  | [] => none
  | item :: items => some (items.foldl add (start item))

theorem build_concat (start : α → γ) (add : γ → α → γ) (items : List α) (item : α) :
    build start add (items ++ [item]) =
      some (match build start add items with
        | some group => add group item
        | none => start item) := by
  cases items with
  | nil => rfl
  | cons first items => simp [build]

/-- What holds of a group of one item and is kept by each item added holds of every group built. -/
@[elab_as_elim]
theorem build_induct {start : α → γ} {add : γ → α → γ} {motive : List α → γ → Prop}
    (hstart : ∀ item, motive [item] (start item))
    (hadd : ∀ items item group, items ≠ [] → motive items group →
      motive (items ++ [item]) (add group item)) {items : List α} {group : γ}
    (h : build start add items = some group) : motive items group := by
  induction items using List.reverseRecOn generalizing group with
  | nil => cases h
  | append_singleton items item ih =>
      rw [build_concat] at h
      obtain rfl := Option.some.inj h
      cases hbuild : build start add items with
      | none =>
          cases items with
          | nil => exact hstart item
          | cons first items => cases hbuild
      | some before => exact hadd items item before (by rintro rfl; cases hbuild) (ih hbuild)

variable (key : α → κ) (start : α → γ) (add : γ → α → γ)

structure Holds (state : Grouping κ γ) (items : List α) : Prop where
  positions : state.positions = (items.map key).eraseDups.zipIdx
  groups : state.groups.map some = (items.map key).eraseDups.map fun k =>
    build start add (items.filter fun item => key item = k)

theorem getElem?_of_lookup_zipIdx {keys : List κ} {k : κ} {i : Nat}
    (hlookup : keys.zipIdx.lookup k = some i) : keys[i]? = some k := by
  obtain ⟨before, after, hzip, -⟩ := List.lookup_eq_some_iff.mp hlookup
  have hmem : (k, i) ∈ keys.zipIdx := by
    rw [hzip]
    exact List.mem_append_right _ List.mem_cons_self
  exact List.mem_zipIdx_iff_getElem?.mp hmem

theorem lookup_zipIdx_eq_none_iff {keys : List κ} {k : κ} :
    keys.zipIdx.lookup k = none ↔ k ∉ keys := by
  rw [List.lookup_eq_none_iff]
  constructor
  · intro hall hmem
    obtain ⟨i, hi⟩ := List.getElem?_of_mem hmem
    have hne := hall (k, i) (List.mem_zipIdx_iff_getElem?.mpr hi)
    simp at hne
  · rintro hnot ⟨other, i⟩ hmem
    have hother := List.mem_of_getElem? (List.mem_zipIdx_iff_getElem?.mp hmem)
    simpa using fun heq : k = other => hnot (heq ▸ hother)

variable {key start add} {state : Grouping κ γ} {items : List α}

theorem filter_concat (items : List α) (item : α) (k : κ) :
    ((items ++ [item]).filter fun item => key item = k) =
      (items.filter fun item => key item = k) ++ if key item = k then [item] else [] := by
  rw [List.filter_append]
  by_cases hk : key item = k <;> simp [hk]

theorem Holds.push (h : Holds key start add state items) (item : α) :
    Holds key start add (state.push key start add item) (items ++ [item]) := by
  have hkeys : ((items ++ [item]).map key).eraseDups =
      if key item ∈ items.map key then (items.map key).eraseDups
      else (items.map key).eraseDups ++ [key item] := by
    rw [List.map_append, List.map_singleton, eraseDups_concat]
  unfold Grouping.push
  cases hlookup : state.positions.lookup (key item) with
  | none =>
      rw [h.positions, lookup_zipIdx_eq_none_iff, List.mem_eraseDups] at hlookup
      rw [if_neg hlookup] at hkeys
      have hlength : state.groups.length = (items.map key).eraseDups.length := by
        rw [← List.length_map some, h.groups, List.length_map]
      refine ⟨?_, ?_⟩
      · rw [hkeys, List.zipIdx_append, h.positions, hlength]
        simp
      · have hnone : (items.filter fun other => key other = key item) = [] := by
          rw [List.filter_eq_nil_iff]
          intro other hother
          simpa using fun heq => hlookup (List.mem_map.mpr ⟨other, hother, heq⟩)
        have hsame : ∀ k ∈ (items.map key).eraseDups,
            build start add (items.filter fun other => key other = k) =
              build start add ((items ++ [item]).filter fun other => key other = k) := by
          intro k hk
          have hne : key item ≠ k := fun heq => hlookup (heq ▸ List.mem_eraseDups.mp hk)
          rw [filter_concat, if_neg hne, List.append_nil]
        rw [hkeys, List.map_append, List.map_append, h.groups, List.map_congr_left hsame,
          List.map_singleton, List.map_singleton, filter_concat, hnone, if_pos rfl]
        rfl
  | some position =>
      rw [h.positions] at hlookup
      have hposition := getElem?_of_lookup_zipIdx hlookup
      have hmem : key item ∈ items.map key := List.mem_eraseDups.mp (List.mem_of_getElem? hposition)
      rw [if_pos hmem] at hkeys
      refine ⟨by rw [hkeys, ← h.positions], ?_⟩
      rw [hkeys]
      refine List.ext_getElem? fun i => ?_
      have hold := congrArg (fun groups => groups[i]?) h.groups
      simp only [List.getElem?_map] at hold ⊢
      by_cases hi : position = i
      · subst hi
        rw [hposition, Option.map_some] at hold ⊢
        obtain ⟨group, hgroup, hbuild⟩ := Option.map_eq_some_iff.mp hold
        rw [List.getElem?_modify_eq, hgroup, filter_concat, if_pos rfl, build_concat, ← hbuild]
        rfl
      · rw [List.getElem?_modify_ne _ _ hi, hold]
        refine Option.map_congr fun k hk => ?_
        have hne : key item ≠ k := by
          rintro rfl
          have hlt := (List.getElem?_eq_some_iff.mp hposition).1
          exact hi ((List.getElem?_inj hlt (nodup_eraseDups _)).mp (hposition.trans hk.symm))
        rw [filter_concat, if_neg hne, List.append_nil]

theorem holds_foldl (items : List α) :
    Holds key start add (items.foldl (Grouping.push key start add) {}) items := by
  induction items using List.reverseRecOn with
  | nil => exact ⟨rfl, rfl⟩
  | append_singleton items item ih =>
      rw [List.foldl_concat]
      exact ih.push item

def group? (state : Grouping κ γ) (k : κ) : Option γ :=
  (state.positions.lookup k).bind fun position => state.groups[position]?

theorem Holds.group?_eq (h : Holds key start add state items) (k : κ) :
    state.group? k = build start add (items.filter fun item => key item = k) := by
  unfold group?
  cases hlookup : state.positions.lookup k with
  | none =>
      rw [h.positions, lookup_zipIdx_eq_none_iff, List.mem_eraseDups] at hlookup
      have hnone : (items.filter fun item => key item = k) = [] := by
        rw [List.filter_eq_nil_iff]
        intro item hitem
        simpa using fun heq => hlookup (List.mem_map.mpr ⟨item, hitem, heq⟩)
      rw [hnone]
      rfl
  | some position =>
      rw [h.positions] at hlookup
      have hgroups := congrArg (fun groups => groups[position]?) h.groups
      simp only [List.getElem?_map, getElem?_of_lookup_zipIdx hlookup, Option.map_some] at hgroups
      obtain ⟨group, hgroup, hbuild⟩ := Option.map_eq_some_iff.mp hgroups
      rw [Option.bind_some, hgroup, hbuild]

end Grouping

/-- The groups of `items`, each begun with `start` and continued with `add`. -/
def grouped (key : α → κ) (start : α → γ) (add : γ → α → γ) (items : List α) : List γ :=
  (items.foldl (Grouping.push key start add) {}).groups

theorem map_some_grouped (key : α → κ) (start : α → γ) (add : γ → α → γ) (items : List α) :
    (grouped key start add items).map some = (items.map key).eraseDups.map fun k =>
      Grouping.build start add (items.filter fun item => key item = k) :=
  (Grouping.holds_foldl items).groups

theorem build_lists {items : List α} (hne : items ≠ []) :
    Grouping.build ([·]) (fun group item => group ++ [item]) items = some items := by
  induction items using List.reverseRecOn with
  | nil => exact absurd rfl hne
  | append_singleton items item ih =>
      rw [Grouping.build_concat]
      cases items with
      | nil => rfl
      | cons first items => rw [ih (List.cons_ne_nil _ _)]

theorem filter_key_ne_nil {key : α → κ} {items : List α} {k : κ}
    (hk : k ∈ (items.map key).eraseDups) : (items.filter fun item => key item = k) ≠ [] := by
  obtain ⟨item, hitem, rfl⟩ := List.mem_map.mp (List.mem_eraseDups.mp hk)
  exact List.ne_nil_of_mem (List.mem_filter.mpr ⟨hitem, decide_eq_true rfl⟩)

theorem grouped_lists (key : α → κ) (items : List α) :
    grouped key ([·]) (fun group item => group ++ [item]) items =
      (items.map key).eraseDups.map fun k => items.filter fun item => key item = k := by
  refine List.map_injective_iff.mpr (fun _ _ => Option.some.inj) ?_
  rw [map_some_grouped, List.map_map]
  refine List.map_congr_left fun k hk => ?_
  exact build_lists (filter_key_ne_nil hk)

theorem exists_of_mem_forall₂ {related : γ → δ → Prop} {items : List γ} {others : List δ}
    (hall : List.Forall₂ related items others) {item : γ} (hitem : item ∈ items) :
    ∃ other ∈ others, related item other := by
  induction hall with
  | nil => exact absurd hitem List.not_mem_nil
  | cons hrelated _ ih =>
      rcases List.mem_cons.mp hitem with rfl | hitem
      · exact ⟨_, List.mem_cons_self, hrelated⟩
      · obtain ⟨other, hother, hrelated⟩ := ih hitem
        exact ⟨other, List.mem_cons_of_mem _ hother, hrelated⟩

theorem forall₂_grouped (key : α → κ) (start : α → γ) (add : γ → α → γ) (items : List α) :
    List.Forall₂ (fun group built => Grouping.build start add group = some built)
      (grouped key ([·]) (fun group item => group ++ [item]) items)
      (grouped key start add items) := by
  have hmap := map_some_grouped key start add items
  rw [grouped_lists, List.forall₂_map_left_iff]
  have hall : List.Forall₂ (fun k built => built =
      Grouping.build start add (items.filter fun item => key item = k))
      (items.map key).eraseDups ((grouped key start add items).map some) := by
    rw [hmap, List.forall₂_map_right_iff]
    exact List.forall₂_same.mpr fun k _ => rfl
  rw [List.forall₂_map_right_iff] at hall
  exact hall.imp fun k built heq => heq.symm

end StructuredProxy.Lib
