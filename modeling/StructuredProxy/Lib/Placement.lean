import Mathlib.Tactic.TypeStar

/-!
# Lists split in two, one half with positions

A list of two kinds of items, sent as two lists: the items of one kind in order, and those of the other
each with its position in the whole. `fill` puts such lists together again: each placed item goes where
its position says, the remaining positions take the others in order.
-/

namespace StructuredProxy.Lib

variable {α β : Type*}

def numbered (start : Nat) : List (α ⊕ β) → List (Nat × β)
  | [] => []
  | .inl _ :: items => numbered (start + 1) items
  | .inr b :: items => (start, b) :: numbered (start + 1) items

/-- `count` positions from `start` on. None unless every position is taken once: by the one placed item
that names it, or by the next of the others. -/
def fillFrom (placed : List (Nat × β)) : Nat → Nat → List α → Option (List (α ⊕ β))
  | 0, _, others => if others.isEmpty then some [] else none
  | count + 1, start, others =>
      match placed.filter fun item => item.1 = start, others with
      | [item], others => (fillFrom placed count (start + 1) others).map (.inr item.2 :: ·)
      | [], a :: others => (fillFrom placed count (start + 1) others).map (.inl a :: ·)
      | _, _ => none

def fill (placed : List (Nat × β)) (others : List α) : Option (List (α ⊕ β)) :=
  fillFrom placed (placed.length + others.length) 0 others

theorem le_of_mem_numbered {items : List (α ⊕ β)} {item : Nat × β} :
    ∀ {start : Nat}, item ∈ numbered start items → start ≤ item.1 := by
  induction items with
  | nil => intro start h; exact absurd h (by simp [numbered])
  | cons first items ih =>
      intro start h
      cases first with
      | inl a => exact Nat.le_of_succ_le (ih h)
      | inr b =>
          obtain rfl | h := List.mem_cons.mp h
          · exact Nat.le_refl _
          · exact Nat.le_of_succ_le (ih h)

theorem length_numbered_add (start : Nat) (items : List (α ⊕ β)) :
    (numbered start items).length + (items.filterMap Sum.getLeft?).length = items.length := by
  induction items generalizing start with
  | nil => rfl
  | cons item items ih =>
      have hrest := ih (start + 1)
      cases item with
      | inl a =>
          rw [numbered, List.filterMap_cons_some (by rfl), List.length_cons, List.length_cons]
          omega
      | inr b =>
          rw [numbered, List.filterMap_cons_none (by rfl), List.length_cons, List.length_cons]
          omega

theorem filter_numbered_lt {items : List (α ⊕ β)} {position start : Nat} (h : position < start) :
    (numbered start items).filter (fun item => item.1 = position) = [] := by
  apply List.filter_eq_nil_iff.mpr
  intro item hitem hposition
  have hle := le_of_mem_numbered hitem
  rw [decide_eq_true_eq] at hposition
  omega

theorem fillFrom_numbered {placed : List (Nat × β)} {items : List (α ⊕ β)} :
    ∀ {start : Nat}, (∀ position, start ≤ position →
      placed.filter (fun item => item.1 = position) =
        (numbered start items).filter fun item => item.1 = position) →
    fillFrom placed items.length start (items.filterMap Sum.getLeft?) = some items := by
  induction items with
  | nil => intro start _; rfl
  | cons item items ih =>
      intro start hplaced
      have hstart := hplaced start (Nat.le_refl start)
      have hrest : ∀ position, start + 1 ≤ position →
          placed.filter (fun item => item.1 = position) =
            (numbered (start + 1) items).filter fun item => item.1 = position := by
        intro position hposition
        rw [hplaced position (Nat.le_of_succ_le hposition)]
        cases item with
        | inl a => rfl
        | inr b =>
            rw [numbered, List.filter_cons_of_neg]
            simp only [decide_eq_true_eq]
            omega
      have hnone := @filter_numbered_lt α β items start (start + 1) (Nat.lt_succ_self start)
      cases item with
      | inl a =>
          rw [numbered, hnone] at hstart
          rw [List.length_cons, List.filterMap_cons_some (by rfl)]
          unfold fillFrom
          rw [hstart]
          dsimp only
          rw [ih hrest, Option.map_some]
      | inr b =>
          rw [numbered, List.filter_cons_of_pos (by simp), hnone] at hstart
          rw [List.length_cons, List.filterMap_cons_none (by rfl)]
          unfold fillFrom
          rw [hstart]
          dsimp only
          rw [ih hrest, Option.map_some]

/-- **Filling undoes the split.** -/
theorem fill_numbered (items : List (α ⊕ β)) :
    fill (numbered 0 items) (items.filterMap Sum.getLeft?) = some items := by
  rw [fill, length_numbered_add]
  exact fillFrom_numbered fun _ _ => rfl

end StructuredProxy.Lib
