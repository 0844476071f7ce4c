import StructuredProxy.Transcode.Grammar

/-!
# The text of a template splits back into its segments

`split_top_level` cuts the text of a template where the grammar joins its segments, and `split_verb`
finds the verb where the grammar puts it.
-/

namespace StructuredProxy

theorem modifyHead_modifyHead (f g : Text → Text) (parts : List Text) :
    (parts.modifyHead f).modifyHead g = parts.modifyHead (g ∘ f) := by
  cases parts <;> rfl

theorem modifyHead_nil_append (parts : List Text) : parts.modifyHead ([] ++ ·) = parts := by
  cases parts <;> rfl

theorem splitTopLevelFrom_word {word : Text} (hword : isWord word = true) (depth : Nat)
    (rest : Text) :
    splitTopLevelFrom depth (word ++ rest) =
      (splitTopLevelFrom depth rest).modifyHead (word ++ ·) := by
  induction word with
  | nil => exact (modifyHead_nil_append _).symm
  | cons byte word ih =>
      rw [isWord, List.all_cons, Bool.and_eq_true] at hword
      simp only [Bool.and_eq_true, decide_eq_true_eq] at hword
      rw [List.cons_append, splitTopLevelFrom]
      simp only [hword.1, ↓reduceIte, decide_false, Bool.false_and, Bool.false_eq_true]
      rw [ih hword.2, modifyHead_modifyHead]
      rfl

theorem splitTopLevelFrom_inside {inner : Text} (hinner : hasBrace inner = false) (depth : Nat)
    (rest : Text) :
    splitTopLevelFrom (depth + 1) (inner ++ rest) =
      (splitTopLevelFrom (depth + 1) rest).modifyHead (inner ++ ·) := by
  induction inner with
  | nil => exact (modifyHead_nil_append _).symm
  | cons byte inner ih =>
      simp only [hasBrace, List.contains_cons, Bool.or_eq_false_iff, beq_eq_false_iff_ne] at hinner
      have hopen : byte ≠ openBrace := fun heq => hinner.1.1 heq.symm
      have hclose : byte ≠ closeBrace := fun heq => hinner.2.1 heq.symm
      rw [List.cons_append, splitTopLevelFrom]
      simp only [hopen, hclose, ↓reduceIte, decide_false, Bool.false_and, Bool.false_eq_true,
        Nat.succ_ne_zero, Bool.and_false]
      have hrest : hasBrace inner = false := by rw [hasBrace, hinner.1.2, hinner.2.2]; rfl
      rw [ih hrest, modifyHead_modifyHead]
      rfl

def Closed (text : Text) : Prop :=
  ∀ rest, splitTopLevelFrom 0 (text ++ rest) = (splitTopLevelFrom 0 rest).modifyHead (text ++ ·)

namespace Closed

theorem word {text : Text} (hword : isWord text = true) : Closed text :=
  fun rest => splitTopLevelFrom_word hword 0 rest

theorem braces {inner : Text} (hinner : hasBrace inner = false) :
    Closed (openBrace :: inner ++ [closeBrace]) := by
  intro rest
  rw [List.append_assoc, List.cons_append, splitTopLevelFrom, if_pos rfl,
    splitTopLevelFrom_inside hinner, List.singleton_append, splitTopLevelFrom, if_neg (by decide),
    if_pos (by decide), modifyHead_modifyHead, modifyHead_modifyHead]
  cases splitTopLevelFrom (0 + 1 - 1) rest with
  | nil => rfl
  | cons first parts => simp

theorem append {first second : Text} (hfirst : Closed first) (hsecond : Closed second) :
    Closed (first ++ second) := by
  intro rest
  rw [List.append_assoc, hfirst, hsecond, modifyHead_modifyHead]
  cases splitTopLevelFrom 0 rest with
  | nil => rfl
  | cons part parts => simp

end Closed

theorem splitTopLevel_intercalate {parts : List Text} (hne : parts ≠ [])
    (hclosed : ∀ part ∈ parts, Closed part) : splitTopLevel ([slash].intercalate parts) = parts := by
  induction parts with
  | nil => exact absurd rfl hne
  | cons first rest ih =>
      have hfirst := hclosed first List.mem_cons_self
      cases rest with
      | nil =>
          have hend := hfirst []
          rw [List.append_nil] at hend
          rw [List.intercalate_singleton, splitTopLevel, hend]
          simp [splitTopLevelFrom]
      | cons second rest =>
          have hrest := ih (List.cons_ne_nil _ _) fun part hpart =>
            hclosed part (List.mem_cons_of_mem _ hpart)
          rw [List.intercalate_cons_cons, List.append_assoc, splitTopLevel, hfirst,
            List.singleton_append, splitTopLevelFrom, if_neg (by decide), if_neg (by decide),
            if_pos (by decide)]
          rw [splitTopLevel] at hrest
          rw [hrest]
          simp

theorem hasBrace_of_isWord {text : Text} (hword : isWord text = true) : hasBrace text = false := by
  rw [isWord, List.all_eq_true] at hword
  simp only [Bool.and_eq_true, decide_eq_true_eq] at hword
  rw [hasBrace, Bool.or_eq_false_iff]
  refine ⟨?_, ?_⟩
  · exact Bool.eq_false_iff.mpr fun h => (hword _ (List.contains_iff_mem.mp h)).1.2 rfl
  · exact Bool.eq_false_iff.mpr fun h => (hword _ (List.contains_iff_mem.mp h)).2 rfl

theorem slash_notMem_of_isWord {text : Text} (hword : isWord text = true) : slash ∉ text := by
  rw [isWord, List.all_eq_true] at hword
  simp only [Bool.and_eq_true, decide_eq_true_eq] at hword
  exact fun hmem => (hword _ hmem).1.1 rfl

theorem hasBrace_append (first second : Text) :
    hasBrace (first ++ second) = (hasBrace first || hasBrace second) := by
  simp only [hasBrace, List.contains_append]
  cases first.contains openBrace <;> cases second.contains openBrace <;>
    cases first.contains closeBrace <;> rfl

theorem Piece.isWord_text {piece : Piece} (hvalid : piece.valid = true) :
    isWord piece.text = true := by
  cases piece with
  | one => decide
  | rest => decide
  | literal text =>
      simp only [Piece.valid, Bool.and_eq_true] at hvalid
      exact hvalid.1.2

theorem hasBrace_intercalate {pieces : List Piece} (hvalid : pieces.all Piece.valid = true) :
    hasBrace ([slash].intercalate (pieces.map Piece.text)) = false := by
  induction pieces with
  | nil => rfl
  | cons piece pieces ih =>
      rw [List.all_cons, Bool.and_eq_true] at hvalid
      have hpiece := hasBrace_of_isWord (Piece.isWord_text hvalid.1)
      cases pieces with
      | nil => simpa using hpiece
      | cons second pieces =>
          rw [List.map_cons, List.map_cons, List.intercalate_cons_cons, hasBrace_append,
            hasBrace_append, hpiece, ← List.map_cons, ih hvalid.2]
          rfl

namespace TemplateSegment

theorem hasBrace_inner {field : Text} {pieces : List Piece} (hfield : isFieldPath field = true)
    (hpieces : pieces.all Piece.valid = true) : hasBrace (inner field pieces) = false := by
  simp only [isFieldPath, Bool.and_eq_true] at hfield
  rw [inner, hasBrace_append, hasBrace_of_isWord hfield.1.1, ← List.singleton_append,
    hasBrace_append, hasBrace_intercalate hpieces]
  rfl

theorem closed_text {segment : TemplateSegment} (hvalid : segment.valid = true) :
    Closed segment.text := by
  cases segment with
  | literal text =>
      rw [valid, Bool.and_eq_true] at hvalid
      exact Closed.word hvalid.1
  | one => exact Closed.word (by decide)
  | rest => exact Closed.word (by decide)
  | capture field =>
      simp only [valid, isFieldPath, Bool.and_eq_true] at hvalid
      exact Closed.braces (hasBrace_of_isWord hvalid.1.1)
  | bound field pieces =>
      simp only [valid, Bool.and_eq_true] at hvalid
      exact Closed.braces (hasBrace_inner hvalid.1.1 hvalid.2)

end TemplateSegment

namespace HttpTemplate

variable (template : HttpTemplate)

theorem isWord_verbText : isWord template.verbText = true := by
  have hvalid := template.verb_valid
  unfold verbText
  cases hverb : template.verb with
  | none => rfl
  | some verb =>
      rw [hverb, Option.all_some, Bool.and_eq_true, Bool.and_eq_true] at hvalid
      rw [isWord, List.all_cons, Bool.and_eq_true]
      exact ⟨by decide, hvalid.1.2⟩

def texts (verb : Text) : List Text :=
  [] :: template.front.map TemplateSegment.text ++ [template.last.text ++ verb]

theorem base_append_eq (verb : Text) :
    template.base ++ verb = [slash].intercalate (template.texts verb) := by
  rw [texts, Lib.intercalate_append_last, base, segments, List.map_append]
  cases template.front with
  | nil => simp
  | cons first front => simp

theorem closed_texts {verb : Text} (hverb : isWord verb = true) :
    ∀ part ∈ template.texts verb, Closed part := by
  intro part hpart
  rcases List.mem_append.mp hpart with hpart | hpart
  · rcases List.mem_cons.mp hpart with rfl | hpart
    · exact Closed.word rfl
    · obtain ⟨segment, hsegment, rfl⟩ := List.mem_map.mp hpart
      exact TemplateSegment.closed_text (List.all_eq_true.mp template.front_valid segment hsegment)
  · rw [List.mem_singleton.mp hpart]
    exact (TemplateSegment.closed_text template.last_valid).append (Closed.word hverb)

theorem texts_ne_nil (verb : Text) : template.texts verb ≠ [] := List.cons_ne_nil _ _

theorem splitTopLevel_text : splitTopLevel template.text = template.texts template.verbText := by
  rw [text, base_append_eq, splitTopLevel_intercalate (template.texts_ne_nil _)
    (template.closed_texts template.isWord_verbText)]

theorem splitTopLevel_base : splitTopLevel template.base = template.texts [] := by
  have hbase := template.base_append_eq []
  rw [List.append_nil] at hbase
  rw [hbase, splitTopLevel_intercalate (template.texts_ne_nil _) (template.closed_texts rfl)]

end HttpTemplate

/-! ### The field template of a segment -/

theorem braced_braces (inner : Text) : braced (openBrace :: inner ++ [closeBrace]) = some inner := by
  rw [braced, List.cons_append, stripPrefix, if_pos rfl, Option.bind_some, stripSuffix,
    List.getLast?_concat, if_pos rfl, List.dropLast_concat]

theorem head?_ne_openBrace {word : Text} (hword : isWord word = true) :
    word.head? ≠ some openBrace := by
  intro hhead
  have hbrace := hasBrace_of_isWord hword
  cases word with
  | nil => exact absurd hhead.symm (Option.some_ne_none _)
  | cons byte word =>
      obtain rfl := Option.some.inj hhead
      simp [hasBrace] at hbrace

theorem braced_word {word : Text} (hword : isWord word = true) : braced word = none := by
  have hhead := head?_ne_openBrace hword
  cases word with
  | nil => rfl
  | cons byte word =>
      have hbyte : byte ≠ openBrace := fun heq => hhead (by rw [heq]; rfl)
      rw [braced, stripPrefix, if_neg hbyte, Option.bind_none]

def joinPieces (pieces : List Piece) : Text := [slash].intercalate (pieces.map Piece.text)

section JoinPieces

variable {pieces : List Piece} (hne : pieces ≠ []) (hvalid : pieces.all Piece.valid = true)
include hne hvalid

theorem splitOn_joinPieces : (joinPieces pieces).splitOn slash = pieces.map Piece.text := by
  refine List.splitOn_intercalate slash ?_ (by simpa using hne)
  intro text htext
  obtain ⟨piece, hpiece, rfl⟩ := List.mem_map.mp htext
  exact slash_notMem_of_isWord (Piece.isWord_text (List.all_eq_true.mp hvalid piece hpiece))

theorem joinPieces_eq_wildcard_iff : joinPieces pieces = wildcard ↔ pieces = [.one] := by
  constructor
  · intro heq
    have hsplit := splitOn_joinPieces hne hvalid
    rw [heq, show wildcard.splitOn slash = [wildcard] by decide] at hsplit
    obtain ⟨piece, rest, rfl, hpiece, hrest⟩ := List.map_eq_cons_iff.mp hsplit.symm
    rw [List.map_eq_nil_iff] at hrest
    subst hrest
    cases piece with
    | one => rfl
    | rest => exact absurd hpiece (by decide)
    | literal word =>
        simp only [List.all_cons, Piece.valid, Bool.and_eq_true, decide_eq_true_eq] at hvalid
        exact absurd (show word.head? = some star by rw [show word = wildcard from hpiece]; rfl)
          hvalid.1.2
  · rintro rfl
    rfl

omit hne in
theorem mem_map_text_iff : doubleWildcard ∈ pieces.map Piece.text ↔ .rest ∈ pieces := by
  constructor
  · intro hmem
    obtain ⟨piece, hpiece, htext⟩ := List.mem_map.mp hmem
    cases piece with
    | one => exact absurd htext (by decide)
    | rest => exact hpiece
    | literal word =>
        have hword := List.all_eq_true.mp hvalid _ hpiece
        simp only [Piece.valid, Bool.and_eq_true, decide_eq_true_eq] at hword
        exact absurd (show word.head? = some star by rw [show word = doubleWildcard from htext]; rfl)
          hword.2
  · intro hmem
    exact List.mem_map.mpr ⟨.rest, hmem, rfl⟩

theorem joinPieces_eq_doubleWildcard_iff : joinPieces pieces = doubleWildcard ↔ pieces = [.rest] := by
  constructor
  · intro heq
    have hsplit := splitOn_joinPieces hne hvalid
    rw [heq, show doubleWildcard.splitOn slash = [doubleWildcard] by decide] at hsplit
    have hmem := (mem_map_text_iff hvalid).mp (by rw [← hsplit]; exact List.mem_singleton_self _)
    obtain ⟨piece, rest, rfl, -, hrest⟩ := List.map_eq_cons_iff.mp hsplit.symm
    rw [List.map_eq_nil_iff] at hrest
    subst hrest
    rw [List.mem_singleton.mp hmem]
  · rintro rfl
    rfl

end JoinPieces

def TemplateSegment.boundOf : TemplateSegment → Option (Text × Text)
  | bound field pieces => some (field, joinPieces pieces)
  | _ => none

theorem bind_splitOnce_text {segment : TemplateSegment} (hvalid : segment.valid = true) :
    (braced segment.text).bind (Lib.splitOnce equals) = segment.boundOf := by
  cases segment with
  | literal word =>
      rw [TemplateSegment.valid, Bool.and_eq_true] at hvalid
      rw [TemplateSegment.text, braced_word hvalid.1]
      rfl
  | one => rfl
  | rest => rfl
  | capture field =>
      simp only [TemplateSegment.valid, TemplateSegment.isFieldPath, Bool.and_eq_true,
        Bool.not_eq_true'] at hvalid
      rw [TemplateSegment.text, braced_braces, Option.bind_some]
      exact Lib.splitOnce_eq_none_iff.mpr (by simpa using hvalid.1.2)
  | bound field pieces =>
      simp only [TemplateSegment.valid, TemplateSegment.isFieldPath, Bool.and_eq_true,
        Bool.not_eq_true'] at hvalid
      rw [TemplateSegment.text, braced_braces, Option.bind_some]
      exact Lib.splitOnce_eq_some_iff.mpr ⟨rfl, by simpa using hvalid.1.1.1.2⟩

theorem fieldTemplate_text {segment : TemplateSegment} (hvalid : segment.valid = true) :
    fieldTemplate segment.text = segment.boundOf.map Prod.snd := by
  rw [fieldTemplate, bind_splitOnce_text hvalid]

/-! ### The verb of a template -/

theorem closingBraceFrom_inside {inner : Text} (hinner : hasBrace inner = false) (i : Nat)
    (tail : Text) :
    closingBraceFrom 1 i (inner ++ closeBrace :: tail) = some (i + inner.length) := by
  induction inner generalizing i with
  | nil => rfl
  | cons byte inner ih =>
      simp only [hasBrace, List.contains_cons, Bool.or_eq_false_iff, beq_eq_false_iff_ne] at hinner
      have hopen : byte ≠ openBrace := fun heq => hinner.1.1 heq.symm
      have hclose : byte ≠ closeBrace := fun heq => hinner.2.1 heq.symm
      have hrest : hasBrace inner = false := by rw [hasBrace, hinner.1.2, hinner.2.2]; rfl
      rw [List.cons_append, closingBraceFrom, if_neg hopen, if_neg hclose, ih hrest,
        List.length_cons]
      congr 1
      omega

theorem closingBrace_braces {inner : Text} (hinner : hasBrace inner = false) (tail : Text) :
    closingBrace (openBrace :: inner ++ closeBrace :: tail) = some (inner.length + 1) := by
  rw [closingBrace, List.cons_append, closingBraceFrom, if_pos rfl, closingBraceFrom_inside hinner]
  congr 1
  omega

def colonAt (last : Text) : Option Nat :=
  if last.head? = some openBrace then (closingBrace last).map (· + 1)
  else if doubleWildcard.isPrefixOf last then some 2
  else if last.head? = some star then some 1
  else none

namespace TemplateSegment

theorem colonAt_text {segment : TemplateSegment} (hvalid : segment.valid = true)
    (hsegment : segment.isLiteral = false) (tail : Text) (htail : tail.head? ≠ some star) :
    colonAt (segment.text ++ tail) = some segment.text.length := by
  have hbraces : ∀ {inner : Text}, hasBrace inner = false →
      colonAt (openBrace :: inner ++ [closeBrace] ++ tail) =
        some (openBrace :: inner ++ [closeBrace]).length := by
    intro inner hinner
    have hclose := closingBrace_braces hinner tail
    have hhead : (openBrace :: inner ++ closeBrace :: tail).head? = some openBrace := rfl
    rw [List.append_assoc, List.singleton_append, colonAt, if_pos hhead, hclose]
    simp
  cases segment with
  | literal text => exact absurd hsegment Bool.noConfusion
  | one =>
      cases tail with
      | nil => rfl
      | cons byte tail =>
          have hbyte : star ≠ byte := fun heq => htail (by rw [heq]; rfl)
          simp [colonAt, text, wildcard, doubleWildcard, List.isPrefixOf, hbyte,
            show star ≠ openBrace by decide]
  | rest => simp [colonAt, text, doubleWildcard, List.isPrefixOf, show star ≠ openBrace by decide]
  | capture field =>
      simp only [valid, isFieldPath, Bool.and_eq_true] at hvalid
      exact hbraces (hasBrace_of_isWord hvalid.1.1)
  | bound field pieces =>
      simp only [valid, Bool.and_eq_true] at hvalid
      exact hbraces (hasBrace_inner hvalid.1.1 hvalid.2)

theorem colonAt_literal {text : Text} (hvalid : (literal text).valid = true) :
    colonAt text = none := by
  simp only [valid, Bool.and_eq_true, decide_eq_true_eq] at hvalid
  have hbrace := hasBrace_of_isWord hvalid.1
  cases text with
  | nil => rfl
  | cons byte text =>
      simp only [List.head?_cons, ne_eq, Option.some.injEq] at hvalid
      have hopen : byte ≠ openBrace := by
        rintro rfl
        simp [hasBrace] at hbrace
      have hstar : star ≠ byte := fun heq => hvalid.2 heq.symm
      simp [colonAt, doubleWildcard, List.isPrefixOf, hopen, hvalid.2, hstar]

end TemplateSegment

namespace HttpTemplate

variable (template : HttpTemplate)

theorem base_eq_append : ∃ before, template.base = before ++ template.last.text := by
  have hbase := template.base_append_eq []
  rw [List.append_nil, texts, List.append_nil, ← List.nil_append template.last.text,
    Lib.intercalate_append_last] at hbase
  exact ⟨_, hbase⟩

/-- `split_verb` cuts a template where its verb begins. -/
theorem splitVerb_text :
    MountedPath.splitVerb template.text =
      (template.base, template.verb.map fun verb => colon :: verb) := by
  obtain ⟨before, hbefore⟩ := template.base_eq_append
  have hlast : (splitTopLevel template.text).getLastD [] =
      template.last.text ++ template.verbText := by
    rw [splitTopLevel_text, texts, List.getLastD_concat]
  have hstart : template.text.length - (template.last.text ++ template.verbText).length =
      before.length := by
    rw [text, hbefore]
    simp only [List.length_append]
    omega
  have hvalid := template.verb_valid
  have hsplit : MountedPath.splitVerb template.text =
      (colonAt (template.last.text ++ template.verbText)).elim (template.text, none) fun i =>
        if ((template.last.text ++ template.verbText).drop i).head? = some colon &&
            i + 1 < (template.last.text ++ template.verbText).length then
          (template.text.take (before.length + i), some (template.text.drop (before.length + i)))
        else (template.text, none) := by
    rw [← hstart, ← hlast, MountedPath.splitVerb]
    cases hcolon : colonAt ((splitTopLevel template.text).getLastD []) with
    | none =>
        rw [Option.elim_none]
        rw [colonAt] at hcolon
        simp only [hcolon]
    | some i =>
        rw [Option.elim_some]
        rw [colonAt] at hcolon
        simp only [hcolon]
  rw [hsplit]
  unfold text verbText
  cases hverb : template.verb with
  | none =>
      rw [List.append_nil, List.append_nil]
      cases hliteral : template.last.isLiteral with
      | true =>
          cases hsegment : template.last with
          | literal word =>
              have hword := template.last_valid
              rw [hsegment] at hword
              simp only [TemplateSegment.text, TemplateSegment.colonAt_literal hword, Option.map_none,
                Option.elim_none]
          | _ => rw [hsegment] at hliteral; exact absurd hliteral Bool.noConfusion
      | false =>
          have hcolon := TemplateSegment.colonAt_text template.last_valid hliteral [] (by simp)
          rw [List.append_nil] at hcolon
          simp [hcolon]
  | some verb =>
      rw [hverb, Option.all_some, Bool.and_eq_true, Bool.and_eq_true, Bool.not_eq_true',
        Bool.not_eq_true', List.isEmpty_eq_false_iff] at hvalid
      have hcolon := TemplateSegment.colonAt_text template.last_valid hvalid.2 (colon :: verb)
        (by simp [show colon ≠ star by decide])
      have hlength : 0 < verb.length := List.length_pos_of_ne_nil hvalid.1.1
      have hcut : before.length + template.last.text.length = template.base.length := by
        rw [hbefore, List.length_append]
      simp [hcolon, hcut, hlength]

end HttpTemplate

end StructuredProxy
