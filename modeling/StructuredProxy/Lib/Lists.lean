import Mathlib.Data.List.Basic

/-!
# Splitting a list at a separator, and first occurrences

`List.splitOn` cuts at every separator, `splitOnce` at the first one. A reader that takes one part at
a time with `splitOnce` sees exactly the parts of `List.splitOn`, which is what the lemmas here say.
-/

namespace StructuredProxy.Lib

variable {α : Type*} [DecidableEq α] {sep : α}

def splitOnce (sep : α) : List α → Option (List α × List α)
  | [] => none
  | x :: xs =>
      if x = sep then some ([], xs) else (splitOnce sep xs).map fun parts => (x :: parts.1, parts.2)

theorem splitOnce_eq_none_iff {l : List α} : splitOnce sep l = none ↔ sep ∉ l := by
  induction l with
  | nil => simp [splitOnce]
  | cons x xs ih =>
      by_cases hx : x = sep
      · simp [splitOnce, hx]
      · simp [splitOnce, hx, ih, Ne.symm hx]

theorem splitOnce_eq_some_iff {l a b : List α} :
    splitOnce sep l = some (a, b) ↔ l = a ++ sep :: b ∧ sep ∉ a := by
  induction l generalizing a with
  | nil => simp [splitOnce]
  | cons x xs ih =>
      by_cases hx : x = sep
      · subst hx
        cases a with
        | nil => simp [splitOnce, eq_comm]
        | cons y ys =>
            simp only [splitOnce, ↓reduceIte, Option.some.injEq, Prod.mk.injEq, List.cons_append,
              List.cons.injEq, List.mem_cons, not_or]
            constructor
            · rintro ⟨h, -⟩
              cases h
            · rintro ⟨⟨rfl, -⟩, hne, -⟩
              exact absurd rfl hne
      · cases a with
        | nil =>
            simp only [splitOnce, hx, ↓reduceIte, Option.map_eq_some_iff, Prod.mk.injEq,
              List.nil_append, List.cons.injEq, false_and, List.not_mem_nil, not_false_eq_true,
              and_true]
            constructor
            · rintro ⟨_, _, h, -⟩
              cases h
            · exact fun h => h.elim
        | cons y ys =>
            simp only [splitOnce, hx, ↓reduceIte, Option.map_eq_some_iff, Prod.mk.injEq,
              List.cons.injEq, List.cons_append, List.mem_cons, not_or]
            constructor
            · rintro ⟨⟨p, q⟩, hsplit, ⟨rfl, rfl⟩, rfl⟩
              obtain ⟨rfl, hmem⟩ := ih.mp hsplit
              exact ⟨⟨rfl, rfl⟩, Ne.symm hx, hmem⟩
            · rintro ⟨⟨rfl, rfl⟩, -, hmem⟩
              exact ⟨(ys, b), ih.mpr ⟨rfl, hmem⟩, ⟨rfl, rfl⟩, rfl⟩

/-- A list names what stands before its first separator and what stands after it. -/
theorem append_cons_inj {a b c d : List α} (ha : sep ∉ a) (hc : sep ∉ c)
    (h : a ++ sep :: b = c ++ sep :: d) : a = c ∧ b = d := by
  have hleft : splitOnce sep (a ++ sep :: b) = some (a, b) := splitOnce_eq_some_iff.mpr ⟨rfl, ha⟩
  have hright : splitOnce sep (a ++ sep :: b) = some (c, d) := splitOnce_eq_some_iff.mpr ⟨h, hc⟩
  rw [hleft] at hright
  cases hright
  exact ⟨rfl, rfl⟩

theorem splitOn_of_splitOnce_none {l : List α} (h : splitOnce sep l = none) :
    l.splitOn sep = [l] :=
  List.splitOn_eq_singleton (splitOnce_eq_none_iff.mp h)

theorem splitOn_of_splitOnce_some {l a b : List α} (h : splitOnce sep l = some (a, b)) :
    l.splitOn sep = a :: b.splitOn sep := by
  obtain ⟨rfl, hmem⟩ := splitOnce_eq_some_iff.mp h
  exact List.splitOn_append_cons_self_of_not_mem hmem b

theorem splitOn_append_cons (a b : List α) :
    (a ++ sep :: b).splitOn sep = a.splitOn sep ++ b.splitOn sep := by
  induction a with
  | nil => rw [List.nil_append, List.splitOn_cons_eq_if_modifyHead, if_pos (by simp)]; simp
  | cons x a ih =>
      rw [List.cons_append, List.splitOn_cons_eq_if_modifyHead, List.splitOn_cons_eq_if_modifyHead, ih]
      split
      · rfl
      · obtain ⟨first, rest, hparts⟩ := List.exists_cons_of_ne_nil (List.splitOn_ne_nil sep a)
        rw [hparts]
        rfl

theorem splitOn_intercalate_flatMap {parts : List (List α)} (hne : parts ≠ []) :
    ([sep].intercalate parts).splitOn sep = parts.flatMap (List.splitOn sep) := by
  induction parts with
  | nil => exact absurd rfl hne
  | cons first rest ih =>
      cases rest with
      | nil => simp
      | cons second rest =>
          rw [List.intercalate_cons_cons, List.append_assoc, List.singleton_append,
            splitOn_append_cons, ih (List.cons_ne_nil _ _)]
          rfl

theorem length_lt_of_splitOnce {l a b : List α} (h : splitOnce sep l = some (a, b)) :
    b.length < l.length := by
  obtain ⟨rfl, -⟩ := splitOnce_eq_some_iff.mp h
  simp only [List.length_append, List.length_cons]
  omega

theorem mem_of_mem_splitOn {l part : List α} (h : part ∈ l.splitOn sep) : ∀ x ∈ part, x ∈ l := by
  induction l generalizing part with
  | nil =>
      rw [List.splitOn_nil, List.mem_singleton] at h
      rw [h]
      exact fun _ hx => hx
  | cons y ys ih =>
      rw [List.splitOn_cons_eq_if_modifyHead] at h
      split at h
      · rcases List.mem_cons.mp h with rfl | h
        · exact fun _ hx => absurd hx List.not_mem_nil
        · exact fun x hx => List.mem_cons_of_mem _ (ih h x hx)
      · obtain ⟨first, rest, hparts⟩ := List.exists_cons_of_ne_nil (List.splitOn_ne_nil sep ys)
        rw [hparts, List.modifyHead_cons] at h
        rcases List.mem_cons.mp h with rfl | h
        · intro x hx
          rcases List.mem_cons.mp hx with rfl | hx
          · exact List.mem_cons_self
          · exact List.mem_cons_of_mem _ (ih (hparts ▸ List.mem_cons_self) x hx)
        · exact fun x hx => List.mem_cons_of_mem _ (ih (hparts ▸ List.mem_cons_of_mem _ h) x hx)

theorem notMem_of_mem_splitOn {l part : List α} (h : part ∈ l.splitOn sep) : sep ∉ part := by
  induction l generalizing part with
  | nil =>
      rw [List.splitOn_nil, List.mem_singleton] at h
      rw [h]
      exact List.not_mem_nil
  | cons x xs ih =>
      rw [List.splitOn_cons_eq_if_modifyHead] at h
      by_cases hx : x = sep
      · rw [if_pos (by simpa using hx)] at h
        rcases List.mem_cons.mp h with rfl | h
        · exact List.not_mem_nil
        · exact ih h
      · rw [if_neg (by simpa using hx)] at h
        obtain ⟨first, rest, hparts⟩ := List.exists_cons_of_ne_nil (List.splitOn_ne_nil sep xs)
        rw [hparts, List.modifyHead_cons] at h
        rcases List.mem_cons.mp h with rfl | h
        · intro hmem
          rcases List.mem_cons.mp hmem with heq | hmem
          · exact hx heq.symm
          · exact ih (hparts ▸ List.mem_cons_self) hmem
        · exact ih (hparts ▸ List.mem_cons_of_mem _ h)

theorem findIdx?_eq_splitOnce (l : List α) :
    l.findIdx? (· = sep) = (splitOnce sep l).map fun parts => parts.1.length := by
  induction l with
  | nil => rfl
  | cons x xs ih =>
      rw [List.findIdx?_cons, ih, splitOnce]
      by_cases hx : x = sep
      · simp [hx]
      · simp [hx, Function.comp_def]

def rposition {α : Type*} (p : α → Bool) (l : List α) : Option Nat :=
  (l.reverse.findIdx? p).map fun i => l.length - 1 - i

theorem rposition_lt {α : Type*} {p : α → Bool} {l : List α} {i : Nat}
    (h : rposition p l = some i) : i < l.length := by
  rw [rposition, Option.map_eq_some_iff] at h
  obtain ⟨j, hj, rfl⟩ := h
  have hlt := (List.findIdx?_eq_some_iff_getElem.mp hj).1
  rw [List.length_reverse] at hlt
  omega

theorem rposition_eq_none {α : Type*} {p : α → Bool} {l : List α} (h : ∀ x ∈ l, p x = false) :
    rposition p l = none := by
  rw [rposition, Option.map_eq_none_iff, List.findIdx?_eq_none_iff]
  exact fun x hx => h x (List.mem_reverse.mp hx)

theorem rposition_append_cons {α : Type*} {p : α → Bool} {x : α} (hx : p x = true) (a : List α)
    {b : List α} (hb : ∀ y ∈ b, p y = false) : rposition p (a ++ x :: b) = some a.length := by
  have hnone : b.reverse.findIdx? p = none :=
    List.findIdx?_eq_none_iff.mpr fun y hy => hb y (List.mem_reverse.mp hy)
  rw [rposition, List.reverse_append, List.reverse_cons, List.append_assoc, List.findIdx?_append,
    hnone, Option.none_or, List.singleton_append, List.findIdx?_cons, if_pos hx]
  simp only [Option.map_some, List.length_append, List.length_cons, List.length_reverse,
    Option.some.injEq]
  omega

theorem notMem_or_exists_last (sep : α) (l : List α) :
    sep ∉ l ∨ ∃ a b, l = a ++ sep :: b ∧ sep ∉ b := by
  induction l with
  | nil => exact Or.inl List.not_mem_nil
  | cons x xs ih =>
      rcases ih with hnot | ⟨a, b, rfl, hb⟩
      · by_cases hx : x = sep
        · exact Or.inr ⟨[], xs, by rw [hx, List.nil_append], hnot⟩
        · exact Or.inl fun hmem => (List.mem_cons.mp hmem).elim (fun h => hx h.symm) hnot
      · exact Or.inr ⟨x :: a, b, rfl, hb⟩

theorem intercalate_concat {α : Type*} (join : List α) {parts : List (List α)} (hne : parts ≠ [])
    (part : List α) :
    join.intercalate (parts ++ [part]) = join.intercalate parts ++ join ++ part := by
  induction parts with
  | nil => exact absurd rfl hne
  | cons first rest ih =>
      cases rest with
      | nil => simp
      | cons second rest =>
          have hrest := ih (List.cons_ne_nil _ _)
          rw [List.cons_append, List.cons_append, List.intercalate_cons_cons,
            ← List.cons_append, hrest, List.intercalate_cons_cons]
          simp

theorem intercalate_prefix {α : Type*} (join : List α) (more : List (List α)) :
    ∀ {parts : List (List α)}, parts ≠ [] →
    join.intercalate parts <+: join.intercalate (parts ++ more) := by
  induction more with
  | nil =>
      intro parts _
      exact ⟨[], by rw [List.append_nil, List.append_nil]⟩
  | cons part more ih =>
      intro parts hne
      have hfirst : join.intercalate parts <+: join.intercalate (parts ++ [part]) := by
        rw [intercalate_concat join hne, List.append_assoc]
        exact List.prefix_append _ _
      rw [List.append_cons]
      exact hfirst.trans (ih (by simp))

theorem intercalate_append_last {α : Type*} (join : List α) (parts : List (List α))
    (part added : List α) :
    join.intercalate (parts ++ [part ++ added]) = join.intercalate (parts ++ [part]) ++ added := by
  by_cases hparts : parts = []
  · subst hparts
    simp
  · rw [intercalate_concat join hparts, intercalate_concat join hparts]
    simp only [List.append_assoc]

theorem nodup_eraseDups {α : Type*} [BEq α] [LawfulBEq α] (l : List α) : l.eraseDups.Nodup := by
  induction hlength : l.length using Nat.strongRecOn generalizing l with
  | ind length ih =>
      cases l with
      | nil => exact List.nodup_nil
      | cons a l =>
          rw [List.eraseDups_cons]
          have hlt : (l.filter fun b => !b == a).length < length := by
            rw [← hlength, List.length_cons]
            exact Nat.lt_succ_of_le (List.length_filter_le _ _)
          refine List.nodup_cons.mpr ⟨?_, ih _ hlt _ rfl⟩
          rw [List.mem_eraseDups]
          simp

theorem eraseDups_concat {α : Type*} [BEq α] [LawfulBEq α] (l : List α) (a : α) [Decidable (a ∈ l)] :
    (l ++ [a]).eraseDups = if a ∈ l then l.eraseDups else l.eraseDups ++ [a] := by
  rw [List.eraseDups_append]
  by_cases hmem : a ∈ l
  · simp [hmem, List.removeAll]
  · simp [hmem, List.removeAll, List.eraseDups_cons]

theorem foldl_keeps {α β : Type*} {step : β → α → β} (holds : β → Prop) {l : List α}
    (hkeep : ∀ a ∈ l, ∀ b, holds b → holds (step b a)) {b : β} (hb : holds b) :
    holds (l.foldl step b) := by
  induction l generalizing b with
  | nil => exact hb
  | cons a l ih =>
      rw [List.forall_mem_cons] at hkeep
      exact ih hkeep.2 (hkeep.1 b hb)

/-- What one element of a list brings about, and every step keeps, holds after a fold over the list. -/
theorem foldl_of_mem {α β : Type*} {step : β → α → β} (holds : β → Prop) {l : List α}
    (hkeep : ∀ a ∈ l, ∀ b, holds b → holds (step b a)) {a : α} (hmem : a ∈ l)
    (hset : ∀ b, holds (step b a)) (b : β) : holds (l.foldl step b) := by
  obtain ⟨before, after, rfl⟩ := List.append_of_mem hmem
  rw [List.foldl_append, List.foldl_cons]
  refine foldl_keeps holds (fun next hnext => hkeep next ?_) (hset _)
  exact List.mem_append_right _ (List.mem_cons_of_mem _ hnext)

theorem lookup_eq_some_iff_mem {κ β : Type*} [BEq κ] [LawfulBEq κ] {entries : List (κ × β)} {k : κ} {v : β}
    (hnodup : (entries.map Prod.fst).Nodup) : entries.lookup k = some v ↔ (k, v) ∈ entries := by
  induction entries with
  | nil => simp
  | cons entry entries ih =>
      obtain ⟨j, w⟩ := entry
      rw [List.map_cons, List.nodup_cons] at hnodup
      by_cases hkey : k = j
      · subst hkey
        have hnotMem : (k, v) ∉ entries := fun hmem => hnodup.1 (List.mem_map.mpr ⟨_, hmem, rfl⟩)
        simp [hnotMem, eq_comm]
      · have hbeq : (k == j) = false := beq_eq_false_iff_ne.mpr hkey
        simp [List.lookup_cons, hbeq, ih hnodup.2, hkey]

theorem insertIdx_length_append {α : Type*} (before after : List α) (a : α) :
    (before ++ after).insertIdx before.length a = before ++ a :: after := by
  induction before with
  | nil => rfl
  | cons b before ih => rw [List.cons_append, List.length_cons, List.insertIdx_succ_cons, ih]; rfl

theorem find?_perm {α : Type*} {p : α → Bool} {items items' : List α} (hperm : items.Perm items')
    (hunique : ∀ a ∈ items, ∀ b ∈ items, p a = true → p b = true → a = b) :
    items.find? p = items'.find? p := by
  cases hfound : items.find? p with
  | none =>
      refine (List.find?_eq_none.mpr fun a ha => ?_).symm
      exact List.find?_eq_none.mp hfound a (hperm.mem_iff.mpr ha)
  | some a =>
      have ha := List.mem_of_find?_eq_some hfound
      have hpa := List.find?_some hfound
      have hsome : (items'.find? p).isSome = true :=
        List.find?_isSome.mpr ⟨a, hperm.mem_iff.mp ha, hpa⟩
      obtain ⟨b, hb⟩ := Option.isSome_iff_exists.mp hsome
      have hmem : b ∈ items := hperm.mem_iff.mpr (List.mem_of_find?_eq_some hb)
      rw [hb, hunique a ha b hmem hpa (List.find?_some hb)]

/-! ### Sorting -/

section Sorting

variable {α : Type*} [LE α] [DecidableLE α] (htrans : ∀ {a b c : α}, a ≤ b → b ≤ c → a ≤ c)
  (htotal : ∀ a b : α, a ≤ b ∨ b ≤ a)

include htrans htotal

theorem pairwise_mergeSort_le (items : List α) :
    (items.mergeSort fun a b => decide (a ≤ b)).Pairwise fun a b => a ≤ b := by
  refine (List.pairwise_mergeSort ?_ ?_ items).imp fun h => of_decide_eq_true h
  · intro a b c hab hbc
    exact decide_eq_true (htrans (of_decide_eq_true hab) (of_decide_eq_true hbc))
  · intro a b
    rw [Bool.or_eq_true, decide_eq_true_eq, decide_eq_true_eq]
    exact htotal a b

/-- A list is sorted into any ordered list of the same items. -/
theorem mergeSort_eq_of_perm (hantisymm : ∀ {a b : α}, a ≤ b → b ≤ a → a = b) {items sorted : List α}
    (hperm : items.Perm sorted) (hsorted : sorted.Pairwise fun a b => a ≤ b) :
    (items.mergeSort fun a b => decide (a ≤ b)) = sorted := by
  refine List.Perm.eq_of_pairwise ?_ (pairwise_mergeSort_le htrans htotal items) hsorted
    ((List.mergeSort_perm _ _).trans hperm)
  exact fun a b _ _ hab hba => hantisymm hab hba

end Sorting

theorem modify_concat {α : Type*} (init : List α) (last : α) (f : α → α) :
    (init ++ [last]).modify init.length f = init ++ [f last] := by
  induction init with
  | nil => rfl
  | cons first init ih => simpa using ih

theorem intercalate_cons_eq {α : Type*} (join first : List α) (rest : List (List α)) :
    join.intercalate (first :: rest) = first ++ rest.flatMap (join ++ ·) := by
  induction rest generalizing first with
  | nil => simp
  | cons second rest ih =>
      rw [List.intercalate_cons_cons, ih second, List.flatMap_cons, List.append_assoc, List.append_assoc]

def mapLast {α : Type*} (f : α → α) (items : List α) : List α :=
  items.dropLast ++ (items.getLast?.map f).toList

theorem map_mapLast {α β : Type*} {f : α → α} {g : β → β} {h : α → β} (hcomm : ∀ a, h (f a) = g (h a))
    (items : List α) : (mapLast f items).map h = mapLast g (items.map h) := by
  rw [mapLast, mapLast, List.map_append, ← List.map_dropLast, List.getLast?_map]
  cases items.getLast? with
  | none => rfl
  | some last =>
      simp only [Option.map_some, Option.toList_some, List.map_cons, List.map_nil, hcomm]

theorem mapLast_id {α : Type*} (items : List α) : mapLast id items = items := by
  by_cases hne : items = []
  · rw [hne]
    rfl
  · rw [mapLast, List.getLast?_eq_some_getLast hne, Option.map_some, id, Option.toList_some,
      List.dropLast_concat_getLast]

theorem forall_mem_mapLast {α : Type*} {p : α → Prop} {f : α → α} (hf : ∀ a, p a → p (f a))
    {items : List α} (h : ∀ a ∈ items, p a) : ∀ a ∈ mapLast f items, p a := by
  intro a ha
  rcases List.mem_append.mp ha with ha | ha
  · exact h a (List.dropLast_subset items ha)
  · obtain ⟨last, hlast, rfl⟩ := Option.map_eq_some_iff.mp (Option.mem_toList.mp ha)
    exact hf last (h last (List.mem_of_getLast? hlast))

end StructuredProxy.Lib
