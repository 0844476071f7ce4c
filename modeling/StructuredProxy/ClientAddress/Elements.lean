import StructuredProxy.ClientAddress.Resolver

/-!
# The walk as a run over list elements

The walk cuts one element after the other off the end of a field line. What it does is a run over the
elements of all lines, last one first, each with the length it may have: an element after a comma may
have `maxElement` bytes, the first one of a line one more, since no comma has to fit the window.
-/

namespace StructuredProxy.Addressing

open Lib

theorem cutElement_append_comma {before element : Text} (hcomma : comma ∉ element) (window : Nat)
    (hwindow : window ≤ before.length) :
    cutElement window (before ++ comma :: element) = .ok (trimWhitespace element, some before) := by
  have hdrop : (before ++ comma :: element).drop window = before.drop window ++ comma :: element :=
    List.drop_append_of_le_length hwindow
  have hat : rposition (· = comma) (before.drop window ++ comma :: element) =
      some (before.drop window).length :=
    rposition_append_cons (by simp) _ fun byte hbyte =>
      decide_eq_false fun heq => hcomma (heq ▸ hbyte)
  have hlength : window + (before.length - window) = before.length := by omega
  have hafter : (before ++ comma :: element).drop (before.length + 1) = element := by
    rw [← List.drop_drop, List.drop_left' rfl, List.drop_one, List.tail_cons]
  rw [cutElement, hdrop, hat, List.length_drop]
  simp only [hlength, hafter, List.take_left']

theorem cutElement_of_notMem {window : Nat} {bytes : Text} (hcomma : comma ∉ bytes.drop window) :
    cutElement window bytes =
      if window = 0 then .ok (trimWhitespace bytes, none) else .error .malformed := by
  have hat : rposition (· = comma) (bytes.drop window) = none :=
    rposition_eq_none fun byte hbyte => decide_eq_false fun heq => hcomma (heq ▸ hbyte)
  rw [cutElement, hat]

theorem lastElement_append_comma {before element : Text} (hcomma : comma ∉ element) :
    lastElement (before ++ comma :: element) =
      if element.length ≤ maxElement then .ok (trimWhitespace element, some before)
      else .error .malformed := by
  have hlength : (before ++ comma :: element).length = before.length + (element.length + 1) := by
    rw [List.length_append, List.length_cons]
  rw [lastElement, hlength]
  by_cases hshort : element.length ≤ maxElement
  · rw [if_pos hshort]
    exact cutElement_append_comma hcomma _ (by omega)
  · -- the window starts after the comma
    have hdrop : (before ++ comma :: element).drop
        (before.length + (element.length + 1) - (maxElement + 1)) =
          element.drop (element.length - (maxElement + 1)) := by
      have hstart : before.length + (element.length + 1) - (maxElement + 1) =
          before.length + (1 + (element.length - (maxElement + 1))) := by omega
      rw [hstart, ← List.drop_drop, List.drop_left' rfl, ← List.drop_drop, List.drop_one,
        List.tail_cons]
    rw [if_neg hshort, cutElement_of_notMem, if_neg (by omega)]
    rw [hdrop]
    exact fun hmem => hcomma (List.mem_of_mem_drop hmem)

theorem lastElement_of_notMem {element : Text} (hcomma : comma ∉ element) :
    lastElement element =
      if element.length ≤ maxElement + 1 then .ok (trimWhitespace element, none)
      else .error .malformed := by
  rw [lastElement, cutElement_of_notMem fun hmem => hcomma (List.mem_of_mem_drop hmem)]
  by_cases hshort : element.length ≤ maxElement + 1
  · rw [if_pos (by omega), if_pos hshort]
  · rw [if_neg (by omega), if_neg hshort]

/-- The elements of a line, last one first, each with the most bytes it may have. -/
def limitedElements (line : Text) : List (Text × Nat) :=
  match line.splitOn comma with
  | [] => []
  | first :: rest =>
      rest.reverse.map (fun element => (element, maxElement)) ++ [(first, maxElement + 1)]

theorem limitedElements_of_notMem {element : Text} (hcomma : comma ∉ element) :
    limitedElements element = [(element, maxElement + 1)] := by
  rw [limitedElements, List.splitOn_eq_singleton hcomma]
  rfl

theorem limitedElements_append_comma (before after : Text) :
    limitedElements (before ++ comma :: after) =
      (after.splitOn comma).reverse.map (fun element => (element, maxElement)) ++
        limitedElements before := by
  obtain ⟨first, rest, hparts⟩ := List.exists_cons_of_ne_nil (List.splitOn_ne_nil comma before)
  rw [limitedElements, limitedElements, List.splitOn_append_cons_self, hparts]
  simp only [List.cons_append, List.reverse_append, List.map_append, List.append_assoc]

namespace Resolver

variable (resolver : Resolver) (forms : AddressText)

def readElement (state : WalkState) (element : Text × Nat) : Walk :=
  if maxHops < state.read + 1 then .error ⟨.error .tooManyHops, state.hops⟩
  else if element.1.length ≤ element.2 then
    resolver.walkElement forms { state with read := state.read + 1 } (trimWhitespace element.1)
  else .error ⟨.error .malformed, state.hops⟩

theorem walkLine_eq (state : WalkState) (rest : Text) :
    resolver.walkLine forms state rest =
      if maxHops < state.read + 1 then .error ⟨.error .tooManyHops, state.hops⟩
      else
        match lastElement rest with
        | .error invalid => .error ⟨.error invalid, state.hops⟩
        | .ok (element, none) =>
            resolver.walkElement forms { state with read := state.read + 1 } element
        | .ok (element, some before) =>
            (resolver.walkElement forms { state with read := state.read + 1 } element).bind
              fun state => resolver.walkLine forms state before := by
  rw [walkLine]
  by_cases hread : maxHops < state.read + 1
  · rw [if_pos hread, if_pos hread]
  · rw [if_neg hread, if_neg hread]
    split <;> rename_i hlast <;> rw [hlast]

theorem walkLine_of_notMem (state : WalkState) {element : Text} (hcomma : comma ∉ element) :
    resolver.walkLine forms state element =
      resolver.readElement forms state (element, maxElement + 1) := by
  rw [walkLine_eq, readElement, lastElement_of_notMem hcomma]
  by_cases hread : maxHops < state.read + 1
  · rw [if_pos hread, if_pos hread]
  · rw [if_neg hread, if_neg hread]
    by_cases hshort : element.length ≤ maxElement + 1
    · rw [if_pos hshort, if_pos hshort]
    · rw [if_neg hshort, if_neg hshort]

theorem walkLine_append_comma (state : WalkState) (before : Text) {element : Text}
    (hcomma : comma ∉ element) :
    resolver.walkLine forms state (before ++ comma :: element) =
      (resolver.readElement forms state (element, maxElement)).bind
        fun state => resolver.walkLine forms state before := by
  rw [walkLine_eq, readElement, lastElement_append_comma hcomma]
  by_cases hread : maxHops < state.read + 1
  · rw [if_pos hread, if_pos hread]
    rfl
  · rw [if_neg hread, if_neg hread]
    by_cases hshort : element.length ≤ maxElement
    · rw [if_pos hshort, if_pos hshort]
    · rw [if_neg hshort, if_neg hshort]
      rfl

theorem walkLine_eq_foldlM (line : Text) (state : WalkState) :
    resolver.walkLine forms state line =
      (limitedElements line).foldlM (resolver.readElement forms) state := by
  induction hlength : line.length using Nat.strong_induction_on generalizing line state with
  | _ length ih =>
  rcases notMem_or_exists_last comma line with hcomma | ⟨before, element, rfl, hcomma⟩
  · rw [walkLine_of_notMem resolver forms state hcomma, limitedElements_of_notMem hcomma,
      List.foldlM_cons]
    exact (bind_pure _).symm
  · rw [walkLine_append_comma resolver forms state before hcomma, limitedElements_append_comma,
      List.splitOn_eq_singleton hcomma, List.reverse_singleton, List.map_singleton,
      List.singleton_append, List.foldlM_cons]
    congr 1
    funext state
    refine ih before.length ?_ before state rfl
    rw [← hlength, List.length_append, List.length_cons]
    omega

/-- **The walk is one run over the elements of all lines**, last one first. -/
theorem walk_eq_foldlM (lines : List Text) :
    resolver.walk forms lines =
      finish ((lines.reverse.flatMap limitedElements).foldlM (resolver.readElement forms)
        WalkState.start) := by
  have hrun : ∀ (lines : List Text) (state : WalkState),
      lines.foldlM (resolver.walkLine forms) state =
        (lines.flatMap limitedElements).foldlM (resolver.readElement forms) state := by
    intro lines
    induction lines with
    | nil => exact fun state => rfl
    | cons line lines ih =>
        intro state
        rw [List.foldlM_cons, List.flatMap_cons, List.foldlM_append, walkLine_eq_foldlM]
        congr 1
        funext state
        exact ih state
  rw [walk, hrun]

end Resolver

end StructuredProxy.Addressing
