import StructuredProxy.Transcode.Mounted

/-!
# The top-level cut of any template

A template is cut at each slash outside braces. The parts joined again are the template, no part is cut
again, and a verb taken off the end shortens the last part only: it follows a variable or a wildcard,
the whole of its segment.
-/

namespace StructuredProxy

def depthAfter (depth : Nat) (byte : UInt8) : Nat :=
  if byte = openBrace then depth + 1
  else if byte = closeBrace && 0 < depth then depth - 1
  else depth

theorem splitTopLevelFrom_slash (rest : Text) :
    splitTopLevelFrom 0 (slash :: rest) = [] :: splitTopLevelFrom 0 rest := by
  rw [splitTopLevelFrom, if_neg (by decide), if_neg (by decide), if_pos (by decide)]

theorem splitTopLevelFrom_cons {depth : Nat} {byte : UInt8} (h : ¬(byte = slash ∧ depth = 0))
    (rest : Text) :
    splitTopLevelFrom depth (byte :: rest) =
      (splitTopLevelFrom (depthAfter depth byte) rest).modifyHead (byte :: ·) := by
  rw [splitTopLevelFrom, depthAfter]
  split
  · rfl
  · split
    · rfl
    · rw [if_neg]
      rwa [Bool.and_eq_true, decide_eq_true_eq, decide_eq_true_eq]

theorem splitTopLevelFrom_ne_nil (depth : Nat) (path : Text) : splitTopLevelFrom depth path ≠ [] := by
  induction path generalizing depth with
  | nil => exact List.cons_ne_nil _ _
  | cons byte rest ih =>
      by_cases hslash : byte = slash ∧ depth = 0
      · obtain ⟨rfl, rfl⟩ := hslash
        rw [splitTopLevelFrom_slash]
        exact List.cons_ne_nil _ _
      · rw [splitTopLevelFrom_cons hslash]
        obtain ⟨first, parts, hparts⟩ := List.exists_cons_of_ne_nil (ih (depthAfter depth byte))
        rw [hparts]
        exact List.cons_ne_nil _ _

theorem exists_splitTopLevelFrom_cons {depth : Nat} {byte : UInt8} {rest head : Text}
    {tail : List Text} (hslash : ¬(byte = slash ∧ depth = 0))
    (h : splitTopLevelFrom depth (byte :: rest) = head :: tail) :
    ∃ first, head = byte :: first ∧ splitTopLevelFrom (depthAfter depth byte) rest = first :: tail := by
  obtain ⟨first, parts, hparts⟩ :=
    List.exists_cons_of_ne_nil (splitTopLevelFrom_ne_nil (depthAfter depth byte) rest)
  rw [splitTopLevelFrom_cons hslash, hparts, List.modifyHead_cons] at h
  obtain ⟨rfl, rfl⟩ := List.cons.inj h
  exact ⟨first, rfl, hparts⟩

theorem splitTopLevelFrom_self (path : Text) : ∀ depth head tail,
    splitTopLevelFrom depth path = head :: tail →
      splitTopLevelFrom depth head = [head] ∧ ∀ part ∈ tail, splitTopLevel part = [part] := by
  induction path with
  | nil =>
      intro depth head tail h
      obtain ⟨rfl, rfl⟩ := List.cons.inj h
      exact ⟨rfl, fun _ hpart => absurd hpart List.not_mem_nil⟩
  | cons byte rest ih =>
      intro depth head tail h
      by_cases hslash : byte = slash ∧ depth = 0
      · obtain ⟨rfl, rfl⟩ := hslash
        rw [splitTopLevelFrom_slash] at h
        obtain ⟨rfl, rfl⟩ := List.cons.inj h
        obtain ⟨first, parts, hparts⟩ := List.exists_cons_of_ne_nil (splitTopLevelFrom_ne_nil 0 rest)
        obtain ⟨hfirst, htail⟩ := ih 0 first parts hparts
        refine ⟨rfl, fun part hpart => ?_⟩
        rw [hparts] at hpart
        rcases List.mem_cons.mp hpart with rfl | hpart
        · exact hfirst
        · exact htail part hpart
      · obtain ⟨first, rfl, hparts⟩ := exists_splitTopLevelFrom_cons hslash h
        obtain ⟨hfirst, htail⟩ := ih _ first tail hparts
        exact ⟨by rw [splitTopLevelFrom_cons hslash, hfirst]; rfl, htail⟩

theorem splitTopLevel_self {path segment : Text} (h : segment ∈ splitTopLevel path) :
    splitTopLevel segment = [segment] := by
  obtain ⟨first, parts, hparts⟩ := List.exists_cons_of_ne_nil (splitTopLevelFrom_ne_nil 0 path)
  obtain ⟨hfirst, htail⟩ := splitTopLevelFrom_self path 0 first parts hparts
  rw [splitTopLevel, hparts] at h
  rcases List.mem_cons.mp h with rfl | h
  · exact hfirst
  · exact htail segment h

theorem not_closed_of_slash {segment before after : Text} (hself : splitTopLevel segment = [segment])
    (hsegment : segment = before ++ slash :: after) : ¬Closed before := by
  intro hclosed
  rw [hsegment, splitTopLevel, hclosed, splitTopLevelFrom_slash, List.modifyHead_cons] at hself
  exact splitTopLevelFrom_ne_nil 0 after (List.cons.inj hself).2

theorem intercalate_splitTopLevelFrom (path : Text) : ∀ depth,
    [slash].intercalate (splitTopLevelFrom depth path) = path := by
  induction path with
  | nil => intro depth; rfl
  | cons byte rest ih =>
      intro depth
      by_cases hslash : byte = slash ∧ depth = 0
      · obtain ⟨rfl, rfl⟩ := hslash
        rw [splitTopLevelFrom_slash, List.intercalate_cons_of_ne_nil (splitTopLevelFrom_ne_nil _ _), ih]
        rfl
      · have hjoin := ih (depthAfter depth byte)
        rw [splitTopLevelFrom_cons hslash]
        obtain ⟨first, parts, hparts⟩ :=
          List.exists_cons_of_ne_nil (splitTopLevelFrom_ne_nil (depthAfter depth byte) rest)
        rw [hparts] at hjoin ⊢
        rw [← hjoin]
        cases parts <;> simp

theorem splitTopLevelFrom_append_self {before after : Text} : ∀ {depth : Nat},
    splitTopLevelFrom depth (before ++ after) = [before ++ after] →
      splitTopLevelFrom depth before = [before] := by
  induction before with
  | nil => intro depth _; rfl
  | cons byte before ih =>
      intro depth h
      by_cases hslash : byte = slash ∧ depth = 0
      · obtain ⟨rfl, rfl⟩ := hslash
        rw [List.cons_append, splitTopLevelFrom_slash] at h
        exact absurd (List.cons.inj h).2 (splitTopLevelFrom_ne_nil _ _)
      · obtain ⟨first, hfirst, hparts⟩ := exists_splitTopLevelFrom_cons hslash h
        obtain rfl := (List.cons.inj hfirst).2
        rw [splitTopLevelFrom_cons hslash, ih hparts]
        rfl

theorem splitTopLevelFrom_shorten {before after : Text} (front : Text) :
    ∀ {depth : Nat} {parts : List Text},
      splitTopLevelFrom depth (front ++ (before ++ after)) = parts ++ [before ++ after] →
      splitTopLevelFrom depth (front ++ before) = parts ++ [before] := by
  induction front with
  | nil =>
      intro depth parts h
      rcases List.eq_nil_or_concat parts with rfl | ⟨parts, last, rfl⟩
      · exact splitTopLevelFrom_append_self h
      · have hjoin := congrArg List.length (intercalate_splitTopLevelFrom (before ++ after) depth)
        rw [List.nil_append] at h
        rw [h, Lib.intercalate_concat [slash] (by simp)] at hjoin
        simp only [List.length_append, List.length_cons] at hjoin
        omega
  | cons byte front ih =>
      intro depth parts h
      by_cases hslash : byte = slash ∧ depth = 0
      · obtain ⟨rfl, rfl⟩ := hslash
        rw [List.cons_append, splitTopLevelFrom_slash] at h ⊢
        cases parts with
        | nil => exact absurd (List.cons.inj h).2 (splitTopLevelFrom_ne_nil _ _)
        | cons first parts =>
            obtain ⟨rfl, hrest⟩ := List.cons.inj h
            rw [ih hrest]
            rfl
      · rw [List.cons_append] at h ⊢
        rw [splitTopLevelFrom_cons hslash]
        cases parts with
        | nil =>
            obtain ⟨first, hfirst, hrest⟩ := exists_splitTopLevelFrom_cons hslash h
            have hjoin := congrArg List.length
              (intercalate_splitTopLevelFrom (front ++ (before ++ after)) (depthAfter depth byte))
            rw [hrest, List.intercalate_singleton, hfirst] at hjoin
            simp only [List.length_append, List.length_cons] at hjoin
            omega
        | cons part parts =>
            obtain ⟨first, rfl, hrest⟩ := exists_splitTopLevelFrom_cons hslash h
            have hshort := @ih (depthAfter depth byte) (first :: parts) hrest
            rw [hshort]
            rfl

/-! ### The verb -/

theorem lt_of_closingBraceFrom {text : Text} : ∀ {depth i at_ : Nat},
    closingBraceFrom depth i text = some at_ → i ≤ at_ ∧ text[at_ - i]? = some closeBrace := by
  induction text with
  | nil => intro depth i at_ h; cases h
  | cons byte rest ih =>
      intro depth i at_ h
      have hnext : ∀ {depth'}, closingBraceFrom depth' (i + 1) rest = some at_ →
          i ≤ at_ ∧ (byte :: rest)[at_ - i]? = some closeBrace := by
        intro depth' hrest
        obtain ⟨hle, hbyte⟩ := ih hrest
        refine ⟨by omega, ?_⟩
        rw [show at_ - i = (at_ - (i + 1)) + 1 by omega, List.getElem?_cons_succ]
        exact hbyte
      rw [closingBraceFrom] at h
      split at h
      · exact hnext h
      · split at h
        · rename_i hclose
          split at h
          · cases h
          · split at h
            · obtain rfl := Option.some.inj h
              rw [Nat.sub_self, hclose]
              exact ⟨Nat.le_refl _, rfl⟩
            · exact hnext h
        · exact hnext h

def IsVariable (text : Text) : Prop :=
  (∃ inner, text = openBrace :: inner ++ [closeBrace]) ∨ text = wildcard ∨ text = doubleWildcard

theorem isVariable_take_closingBrace {text : Text} {i : Nat} (hopen : text.head? = some openBrace)
    (h : closingBrace text = some i) : IsVariable (text.take (i + 1)) := by
  obtain ⟨-, hclose⟩ := lt_of_closingBraceFrom h
  rw [Nat.sub_zero] at hclose
  cases text with
  | nil => cases hopen
  | cons first rest =>
      obtain rfl := Option.some.inj hopen
      cases i with
      | zero => exact absurd (Option.some.inj hclose) (by decide)
      | succ i =>
          rw [List.getElem?_cons_succ] at hclose
          refine Or.inl ⟨rest.take i, ?_⟩
          rw [List.take_succ_cons, List.take_add_one, hclose]
          rfl

theorem exists_splitTopLevel_concat (path : Text) :
    ∃ front parts last, path = front ++ last ∧ splitTopLevel path = parts ++ [last] := by
  obtain ⟨parts, last, hparts⟩ :=
    (List.eq_nil_or_concat (splitTopLevel path)).resolve_left (splitTopLevelFrom_ne_nil 0 path)
  have hjoin := intercalate_splitTopLevelFrom path 0
  rw [splitTopLevel, List.concat_eq_append] at hparts
  rw [hparts] at hjoin
  cases parts with
  | nil =>
      rw [List.nil_append, List.intercalate_singleton] at hjoin
      exact ⟨[], [], last, hjoin.symm, hparts⟩
  | cons first parts =>
      rw [Lib.intercalate_concat [slash] (List.cons_ne_nil _ _)] at hjoin
      exact ⟨_, _, last, hjoin.symm, hparts⟩

/-- **A verb follows the variable a path ends in**, and starts at a colon. -/
theorem exists_of_splitVerb {template base verb : Text}
    (h : MountedPath.splitVerb template = (base, some verb)) :
    template = base ++ verb ∧ verb.head? = some colon ∧
      ∃ parts last, splitTopLevel base = parts ++ [last] ∧ IsVariable last := by
  obtain ⟨front, parts, last, rfl, hparts⟩ := exists_splitTopLevel_concat template
  -- Wherever the segment is cut, the verb is what follows.
  have hcut : ∀ at_, IsVariable (last.take at_) →
      (if (last.drop at_).head? = some colon && at_ + 1 < last.length then
        ((front ++ last).take (front.length + at_), some ((front ++ last).drop (front.length + at_)))
      else (front ++ last, none)) = (base, some verb) →
      front ++ last = base ++ verb ∧ verb.head? = some colon ∧
        ∃ parts last, splitTopLevel base = parts ++ [last] ∧ IsVariable last := by
    intro at_ hvariable hsplit
    split at hsplit
    · rename_i hcolon
      rw [Bool.and_eq_true, decide_eq_true_eq] at hcolon
      rw [List.take_length_add_append, List.drop_length_add_append] at hsplit
      obtain ⟨rfl, hverb⟩ := Prod.mk.inj hsplit
      obtain rfl := Option.some.inj hverb
      refine ⟨?_, hcolon.1, parts, last.take at_, ?_, hvariable⟩
      · rw [List.append_assoc, List.take_append_drop]
      · refine @splitTopLevelFrom_shorten _ (last.drop at_) front 0 parts ?_
        rw [List.take_append_drop]
        exact hparts
    · cases (Prod.mk.inj hsplit).2
  have hlast : (splitTopLevel (front ++ last)).getLastD [] = last := by
    rw [hparts]
    simp
  have hstart : (front ++ last).length - last.length = front.length := by
    rw [List.length_append]
    omega
  unfold MountedPath.splitVerb at h
  simp only [hlast, hstart] at h
  by_cases hopen : last.head? = some openBrace
  · rw [if_pos hopen] at h
    cases hclosing : closingBrace last with
    | none =>
        rw [hclosing] at h
        cases (Prod.mk.inj h).2
    | some i =>
        rw [hclosing] at h
        exact hcut (i + 1) (isVariable_take_closingBrace hopen hclosing) h
  · rw [if_neg hopen] at h
    by_cases hdouble : doubleWildcard.isPrefixOf last = true
    · rw [if_pos hdouble] at h
      obtain ⟨after, rfl⟩ := List.isPrefixOf_iff_prefix.mp hdouble
      exact hcut 2 (Or.inr (Or.inr rfl)) h
    · rw [if_neg hdouble] at h
      by_cases hstar : last.head? = some star
      · rw [if_pos hstar] at h
        refine hcut 1 (Or.inr (Or.inl ?_)) h
        obtain ⟨after, rfl⟩ := List.head?_eq_some_iff.mp hstar
        rfl
      · rw [if_neg hstar] at h
        cases (Prod.mk.inj h).2

end StructuredProxy
