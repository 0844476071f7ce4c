import Mathlib.Data.List.Basic

/-!
# Compaction in place

A loop passes over the entries of a list, changes those it keeps and swaps them forward, so that the
kept ones stand first and in order. What stands between them and the entries not reached yet is left
over. An access out of range is `none`.
-/

namespace StructuredProxy.Lib

variable {α : Type*}

def swap (entries : List α) (i j : Nat) : Option (List α) := do
  let a ← entries[i]?
  let b ← entries[j]?
  some ((entries.set i b).set j a)

theorem swap_self (before after : List α) (a : α) :
    swap (before ++ a :: after) before.length before.length = some (before ++ a :: after) := by
  simp [swap]

theorem swap_apart (before between after : List α) (a b : α) :
    swap (before ++ a :: between ++ b :: after) before.length (before.length + (between.length + 1)) =
      some (before ++ b :: between ++ a :: after) := by
  have hlast : (before ++ a :: between ++ b :: after)[before.length + (between.length + 1)]? = some b := by
    rw [List.getElem?_append_right (by simp)]
    simp
  have hset : ((before ++ a :: between ++ b :: after).set before.length b) =
      before ++ b :: between ++ b :: after := by
    rw [List.append_assoc, List.set_append_right _ _ (Nat.le_refl _)]
    simp
  have hfirst : (before ++ a :: between ++ b :: after)[before.length]? = some a := by simp
  simp only [swap, hfirst, hlast, Option.bind_eq_bind, Option.bind_some, hset, Option.some.injEq]
  rw [List.set_append_right _ _ (by simp)]
  simp

/-- One round: `visit` tells what becomes of the entry, none when it goes. -/
def compactStep (visit : Nat → α → Option (Option α)) (state : List α × Nat) (at_ : Nat) :
    Option (List α × Nat) := do
  let entry ← state.1[at_]?
  match ← visit at_ entry with
  | none => some state
  | some entry => (swap (state.1.set at_ entry) state.2 at_).map fun entries => (entries, state.2 + 1)

def keptOf (become : Nat → α → Option α) (count : Nat) (entries : List α) : List α :=
  (entries.take count).zipIdx.filterMap fun entry => become entry.2 entry.1

theorem keptOf_succ (become : Nat → α → Option α) {count : Nat} {entries : List α} {a : α}
    (ha : entries[count]? = some a) :
    keptOf become (count + 1) entries = keptOf become count entries ++ (become count a).toList := by
  obtain ⟨hlt, rfl⟩ := List.getElem?_eq_some_iff.mp ha
  rw [keptOf, List.take_succ_eq_append_getElem hlt, List.zipIdx_append, List.filterMap_append,
    List.length_take, Nat.zero_add, Nat.min_eq_left (Nat.le_of_lt hlt), keptOf]
  cases hbecome : become count entries[count] <;> simp [hbecome]

theorem compactStep_eq {visit : Nat → α → Option (Option α)} {kept left rest : List α} {a : α}
    {becomes : Option α} {at_ : Nat} (hat : left.length + kept.length = at_)
    (hvisit : visit at_ a = some becomes) :
    ∃ left', left'.length + (kept ++ becomes.toList).length = at_ + 1 ∧
      compactStep visit (kept ++ left ++ a :: rest, kept.length) at_ =
        some (kept ++ becomes.toList ++ left' ++ rest, (kept ++ becomes.toList).length) := by
  have hlength : (kept ++ left).length = at_ := by
    rw [List.length_append]
    omega
  have hentry : (kept ++ left ++ a :: rest)[at_]? = some a := by
    rw [List.getElem?_append_right (Nat.le_of_eq hlength), hlength, Nat.sub_self]
    rfl
  cases becomes with
  | none =>
      refine ⟨left ++ [a], ?_, ?_⟩
      · simp
        omega
      · simp only [compactStep, hentry, hvisit, Option.bind_eq_bind, Option.bind_some]
        simp
  | some b =>
      have hset : (kept ++ left ++ a :: rest).set at_ b = kept ++ left ++ b :: rest := by
        rw [List.set_append_right _ _ (Nat.le_of_eq hlength), hlength, Nat.sub_self]
        rfl
      simp only [compactStep, hentry, hvisit, Option.bind_eq_bind, Option.bind_some, hset]
      cases left with
      | nil =>
          have hkept : kept.length = at_ := by simpa using hat
          have hswap := swap_self kept rest b
          refine ⟨[], by simp [hkept], ?_⟩
          rw [List.append_nil, ← hkept, hswap]
          simp
      | cons first left =>
          have hkept : kept.length + (left.length + 1) = at_ := by
            rw [List.length_cons] at hat
            omega
          have hswap := swap_apart kept left rest first b
          refine ⟨left ++ [first], ?_, ?_⟩
          · simp
            omega
          · rw [hkept] at hswap
            rw [hswap]
            simp

/-- After some rounds the kept entries stand first, then what is left over, then the entries to come. -/
theorem compact_rounds {visit : Nat → α → Option (Option α)} {become : Nat → α → Option α}
    {entries : List α} {total : Nat} (htotal : total ≤ entries.length)
    (hvisit : ∀ i < total, ∀ a, entries[i]? = some a → visit i a = some (become i a)) :
    ∀ count ≤ total, ∃ left, left.length + (keptOf become count entries).length = count ∧
      (List.range count).foldlM (compactStep visit) (entries, 0) =
        some (keptOf become count entries ++ left ++ entries.drop count,
          (keptOf become count entries).length) := by
  intro count
  induction count with
  | zero => intro _; exact ⟨[], rfl, by simp [keptOf]⟩
  | succ count ih =>
      intro hcount
      obtain ⟨left, hlength, hrounds⟩ := ih (Nat.le_of_succ_le hcount)
      have hlt : count < entries.length := Nat.lt_of_lt_of_le hcount htotal
      have hentry : entries[count]? = some entries[count] := List.getElem?_eq_getElem hlt
      obtain ⟨left', hlength', hround⟩ := @compactStep_eq _ visit _ left (entries.drop (count + 1)) _ _ _
        hlength (hvisit count hcount _ hentry)
      refine ⟨left', ?_, ?_⟩
      · rwa [keptOf_succ become hentry]
      · rw [List.range_succ, List.foldlM_append, hrounds, keptOf_succ become hentry,
          List.drop_eq_getElem_cons hlt, Option.bind_eq_bind, Option.bind_some, List.foldlM_cons,
          hround]
        rfl

/-- **Compaction**: the first `count` entries become those the loop keeps, the others stay. -/
theorem compact_eq {visit : Nat → α → Option (Option α)} {become : Nat → α → Option α}
    {entries : List α} {count : Nat} (hcount : count ≤ entries.length)
    (hvisit : ∀ i < count, ∀ a, entries[i]? = some a → visit i a = some (become i a)) :
    ((List.range count).foldlM (compactStep visit) (entries, 0)).map
        (fun state => state.1.take state.2 ++ state.1.drop count) =
      some (keptOf become count entries ++ entries.drop count) := by
  obtain ⟨left, hlength, hrounds⟩ := compact_rounds hcount hvisit count (Nat.le_refl _)
  have hdone : (keptOf become count entries ++ left).length = count := by
    rw [List.length_append]
    omega
  have hdrop : (keptOf become count entries ++ left ++ entries.drop count).drop count =
      entries.drop count := by
    have hleft := @List.drop_left _ (keptOf become count entries ++ left) (entries.drop count)
    rwa [hdone] at hleft
  rw [hrounds, Option.map_some]
  simp only [hdrop]
  rw [List.append_assoc, List.take_left]

end StructuredProxy.Lib
