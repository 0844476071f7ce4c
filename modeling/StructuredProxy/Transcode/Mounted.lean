import StructuredProxy.Transcode.GrammarText
import Mathlib.Data.List.Forall2

/-!
# What `MountedPath::new` makes of a template

The loop writes one router segment for each segment the template is read as: a literal as it stands,
a capture for anything the router cannot compare itself, with the escaped literals kept by position.
-/

namespace StructuredProxy

def IsCapture (text : Text) : Prop :=
  ∃ name : Text, text = openBrace :: name ++ [closeBrace] ∧ name.head? ≠ some star

namespace Item

def Mounted : Item → Text → Prop
  | exact literal, text => text = literal ∧ literal.head? ≠ some openBrace
  | octets literal, text =>
      if percent ∈ literal then IsCapture text
      else text = literal ∧ literal.head? ≠ some openBrace
  | any, text => IsCapture text

/-- The escaped literal of a segment, which the router does not compare. -/
def escaped : Item → Option Text
  | octets literal => if percent ∈ literal then some literal else none
  | _ => none

end Item

def escapes : Nat → List Item → List (Nat × Text)
  | _, [] => []
  | offset, item :: items =>
      (item.escaped.map fun literal => (offset, literal)).toList ++ escapes (offset + 1) items

theorem escapes_append (items more : List Item) : ∀ offset,
    escapes offset (items ++ more) = escapes offset items ++ escapes (offset + items.length) more := by
  induction items with
  | nil => intro offset; rfl
  | cons item items ih =>
      intro offset
      rw [List.cons_append, escapes, ih, escapes, List.append_assoc, List.length_cons,
        Nat.add_assoc, Nat.add_comm 1]

structure Mounts (m : Mounting) (items : List Item) : Prop where
  texts : ∃ texts : List Text, m.axum = [slash].intercalate texts ∧
    List.Forall₂ Item.Mounted items texts ∧ ∀ text ∈ texts, slash ∉ text
  written : m.written = items.length
  literals : m.literals = escapes 0 items

theorem count_slash_intercalate {texts : List Text} (hslash : ∀ text ∈ texts, slash ∉ text) :
    ([slash].intercalate texts).count slash = texts.length - 1 := by
  induction texts with
  | nil => rfl
  | cons first rest ih =>
      have hfirst : first.count slash = 0 :=
        List.count_eq_zero.mpr (hslash first List.mem_cons_self)
      cases rest with
      | nil => simpa using hfirst
      | cons second rest =>
          have hrest := ih fun text htext => hslash text (List.mem_cons_of_mem _ htext)
          rw [List.intercalate_cons_cons, List.count_append, List.count_append, hfirst, hrest]
          simp
          omega

namespace Mounts

open Mounting

variable {m : Mounting} {items : List Item}

theorem push {m' : Mounting} (hmounts : Mounts m items) {item : Item} {text : Text}
    (hitem : item.Mounted text) (hslash : slash ∉ text)
    (haxum : m'.axum = m.pushSegment.axum ++ text) (hwritten : m'.written = m.written + 1)
    (hliterals : m'.literals = m.literals ++
      (item.escaped.map fun literal => (m'.axum.count slash, literal)).toList) :
    Mounts m' (items ++ [item]) := by
  obtain ⟨texts, htexts, hall, hslashes⟩ := hmounts.texts
  have hlength : texts.length = items.length := hall.length_eq.symm
  have hjoin : m'.axum = [slash].intercalate (texts ++ [text]) := by
    rw [haxum, pushSegment, hmounts.written, htexts]
    cases texts with
    | nil =>
        rw [← hlength]
        simp
    | cons first rest =>
        rw [← hlength, Lib.intercalate_concat [slash] (List.cons_ne_nil _ _)]
        simp
  have hslashes' : ∀ other ∈ texts ++ [text], slash ∉ other := by
    intro other hother
    rcases List.mem_append.mp hother with hother | hother
    · exact hslashes other hother
    · rwa [List.mem_singleton.mp hother]
  have hcount : m'.axum.count slash = items.length := by
    rw [hjoin, count_slash_intercalate hslashes', ← hlength]
    simp
  refine ⟨⟨texts ++ [text], hjoin, List.rel_append hall (List.Forall₂.cons hitem List.Forall₂.nil),
    hslashes'⟩, ?_, ?_⟩
  · rw [hwritten, hmounts.written, List.length_append, List.length_singleton]
  · rw [hliterals, hcount, hmounts.literals, escapes_append, Nat.zero_add]
    simp [escapes]

theorem mounted_capture {item : Item} (hitem : item = .any ∨ item.escaped.isSome = true) {name : Text}
    (hname : name.head? ≠ some star) : item.Mounted (openBrace :: name ++ [closeBrace]) := by
  have hcapture : IsCapture (openBrace :: name ++ [closeBrace]) := ⟨name, rfl, hname⟩
  rcases hitem with rfl | hescaped
  · exact hcapture
  · cases item with
    | exact literal => exact absurd hescaped Bool.noConfusion
    | any => exact absurd hescaped Bool.noConfusion
    | octets literal =>
        rw [Item.escaped] at hescaped
        split at hescaped
        · next hpercent => rw [Item.Mounted, if_pos hpercent]; exact hcapture
        · exact absurd hescaped Bool.noConfusion

theorem slash_notMem_capture {name : Text} (hslash : slash ∉ name) :
    slash ∉ openBrace :: name ++ [closeBrace] := by
  intro hmem
  rcases List.mem_append.mp hmem with hmem | hmem
  · rcases List.mem_cons.mp hmem with heq | hmem
    · exact absurd heq (by decide)
    · exact hslash hmem
  · exact absurd (List.mem_singleton.mp hmem) (by decide)

theorem capture (hmounts : Mounts m items) {name : Text} (hname : name.head? ≠ some star)
    (hslash : slash ∉ name) (unbound multi : Bool) :
    Mounts (m.pushSegment.pushCapture [openBrace] name unbound multi) (items ++ [.any]) := by
  refine hmounts.push (mounted_capture (Or.inl rfl) hname) (slash_notMem_capture hslash) ?_ rfl ?_
  · simp [pushCapture]
  · simp [pushCapture, pushSegment, Item.escaped]

theorem literal (hmounts : Mounts m items) {word : Text} (hword : isWord word = true) :
    Mounts (m.pushSegment.pushLiteral word) (items ++ [.exact word]) := by
  refine hmounts.push ⟨rfl, head?_ne_openBrace hword⟩ (slash_notMem_of_isWord hword) rfl rfl ?_
  simp [pushLiteral, pushSegment, Item.escaped]

theorem partName {field : Text} (hfield : TemplateSegment.isFieldPath field = true) (k : Nat) :
    (field ++ [dot] ++ decimal k).head? ≠ some star ∧ slash ∉ field ++ [dot] ++ decimal k := by
  simp only [TemplateSegment.isFieldPath, Bool.and_eq_true, decide_eq_true_eq] at hfield
  refine ⟨?_, ?_⟩
  · cases field with
    | nil => exact fun h => absurd h (by simp [show dot ≠ star by decide])
    | cons byte field => exact hfield.2
  · intro hmem
    rcases List.mem_append.mp hmem with hmem | hmem
    · rcases List.mem_append.mp hmem with hmem | hmem
      · exact slash_notMem_of_isWord hfield.1.1 hmem
      · exact absurd (List.mem_singleton.mp hmem) (by decide)
    · exact absurd (mem_decimal hmem).1 (by decide)

theorem pushPart {state : Mounting × List Part} (hmounts : Mounts state.1 items) {field : Text}
    (hfield : TemplateSegment.isFieldPath field = true) (multi : Bool) {piece : Piece}
    (hvalid : piece.valid = true) (hrest : piece ≠ .rest) (k : Nat) :
    Mounts (Mounting.pushPart field multi state (piece.text, k)).1 (items ++ [piece.item]) := by
  obtain ⟨hname, hslash⟩ := partName hfield k
  cases piece with
  | rest => exact absurd rfl hrest
  | one =>
      have hpart := hmounts.capture hname hslash true multi
      simpa [Mounting.pushPart, Piece.text, Piece.item, wildcard, show percent ≠ star by decide]
        using hpart
  | literal word =>
      simp only [Piece.valid, Bool.and_eq_true, decide_eq_true_eq] at hvalid
      have hstar : word ≠ wildcard := by
        rintro rfl
        exact hvalid.2 rfl
      by_cases hpercent : percent ∈ word
      · have hescaped : (Piece.literal word).item.escaped = some word := if_pos hpercent
        have hitem := mounted_capture (Or.inr (by rw [hescaped]; rfl)) hname
        refine hmounts.push hitem (slash_notMem_capture hslash) ?_ ?_ ?_
        · simp [Mounting.pushPart, Piece.text, hpercent, pushCapture]
        · simp [Mounting.pushPart, Piece.text, hpercent, pushCapture, pushSegment]
        · simp [Mounting.pushPart, Piece.text, hpercent, pushCapture, pushSegment, hescaped]
      · have hescaped : (Piece.literal word).item.escaped = none := if_neg hpercent
        have hitem : (Item.octets word).Mounted word := by
          rw [Item.Mounted, if_neg hpercent]
          exact ⟨rfl, head?_ne_openBrace hvalid.1.2⟩
        refine hmounts.push hitem (slash_notMem_of_isWord hvalid.1.2) ?_ ?_ ?_
        · simp [Mounting.pushPart, Piece.text, hpercent, hstar, pushLiteral]
        · simp [Mounting.pushPart, Piece.text, hpercent, hstar, pushLiteral, pushSegment]
        · simp [Mounting.pushPart, Piece.text, hpercent, hstar, pushLiteral, pushSegment, hescaped]

theorem pushParts {field : Text} (hfield : TemplateSegment.isFieldPath field = true) (multi : Bool)
    (pieces : List Piece) : ∀ {state : Mounting × List Part} {items : List Item} (k : Nat),
    Mounts state.1 items → pieces.all Piece.valid = true → .rest ∉ pieces →
      Mounts (((pieces.map Piece.text).zipIdx k).foldl (Mounting.pushPart field multi) state).1
        (items ++ pieces.map Piece.item) := by
  induction pieces with
  | nil =>
      intro state items k hmounts _ _
      simpa using hmounts
  | cons piece pieces ih =>
      intro state items k hmounts hvalid hrest
      rw [List.all_cons, Bool.and_eq_true] at hvalid
      obtain ⟨hne, hrest⟩ := not_or.mp (mt List.mem_cons.mpr hrest)
      have hpart := hmounts.pushPart hfield multi hvalid.1 (fun heq => hne heq.symm) k
      have hparts := ih (k + 1) hpart hvalid.2 hrest
      rwa [List.append_assoc, List.singleton_append] at hparts

theorem pushComposite (hmounts : Mounts m items) {field : Text}
    (hfield : TemplateSegment.isFieldPath field = true) {pieces : List Piece}
    (hne : pieces ≠ []) (hvalid : pieces.all Piece.valid = true) (hrest : .rest ∉ pieces) :
    Mounts (m.pushComposite field (joinPieces pieces)) (items ++ pieces.map Piece.item) := by
  have hparts := pushParts hfield ((joinPieces pieces).contains slash) pieces 0
    (show Mounts (m, ([] : List Part)).1 items from hmounts) hvalid hrest
  rw [Mounting.pushComposite, splitOn_joinPieces hne hvalid]
  exact ⟨hparts.texts, hparts.written, hparts.literals⟩

theorem decimalName (idx : Nat) : (decimal idx).head? ≠ some star ∧ slash ∉ decimal idx := by
  refine ⟨?_, ?_⟩
  · intro hhead
    exact absurd (mem_decimal (List.mem_of_mem_head? hhead)).1 (by decide)
  · intro hmem
    exact absurd (mem_decimal hmem).1 (by decide)

theorem fieldName {field : Text} (hfield : TemplateSegment.isFieldPath field = true) :
    field.head? ≠ some star ∧ slash ∉ field := by
  simp only [TemplateSegment.isFieldPath, Bool.and_eq_true, decide_eq_true_eq] at hfield
  exact ⟨hfield.2, slash_notMem_of_isWord hfield.1.1⟩

end Mounts

namespace TemplateSegment

theorem any_hasBrace {segment : TemplateSegment} (hvalid : segment.valid = true) :
    (fieldTemplate segment.text).any hasBrace = false := by
  rw [fieldTemplate_text hvalid]
  cases segment with
  | bound field pieces =>
      simp only [valid, Bool.and_eq_true] at hvalid
      exact hasBrace_intercalate hvalid.2
  | _ => rfl

end TemplateSegment

namespace Mounting

variable {m : Mounting} {last idx : Nat} {segment : TemplateSegment}

/-- A round before the last one, the source's checks on braces and last segments passed over. -/
theorem step_front_eq (hvalid : segment.valid = true) (hidx : idx ≠ last) :
    step last m (segment.text, idx) =
      match segment.boundOf.filter fun (_, template) => template ≠ wildcard with
      | some (field, template) =>
          if (template.splitOn slash).contains doubleWildcard then
            (m.refuse segment.text "`**` in " (" before the last segment matches any number of " ++
              "segments, which the router cannot hold there")).pushConverted segment.text idx false
          else m.pushComposite field template
      | none =>
          (if isDoubleWildcard segment.text then
            m.refuse segment.text "" (" before the last segment matches any number of segments, " ++
              "which the router cannot hold there")
          else m).pushConverted segment.text idx false := by
  unfold step note
  simp only [hidx, ↓reduceIte, TemplateSegment.any_hasBrace hvalid, Bool.false_eq_true, decide_false,
    Bool.false_and, bind_splitOnce_text hvalid, ne_eq, not_false_eq_true, decide_true, Bool.true_and]
  rfl

@[simp]
theorem unsupported_pushConverted (m : Mounting) (text : Text) (idx : Nat) (isLast : Bool) :
    (m.pushConverted text idx isLast).unsupported = m.unsupported := by
  unfold pushConverted
  cases convertSegment text idx isLast <;> rfl

@[simp]
theorem literals_pushConverted (m : Mounting) (text : Text) (idx : Nat) (isLast : Bool) :
    (m.pushConverted text idx isLast).literals = m.literals := by
  unfold pushConverted
  cases convertSegment text idx isLast <;> rfl

@[simp]
theorem lastSegment_pushConverted (m : Mounting) (text : Text) (idx : Nat) (isLast : Bool) :
    (m.pushConverted text idx isLast).lastSegment = m.lastSegment := by
  unfold pushConverted
  cases convertSegment text idx isLast <;> rfl

theorem unsupported_pushPart (field : Text) (multi : Bool) (state : Mounting × List Part)
    (part : Text × Nat) :
    (pushPart field multi state part).1.unsupported = state.1.unsupported := by
  unfold pushPart
  dsimp only
  split <;> split <;> rfl

@[simp]
theorem unsupported_pushComposite (m : Mounting) (field template : Text) :
    (m.pushComposite field template).unsupported = m.unsupported := by
  have hparts : ∀ (parts : List (Text × Nat)) (state : Mounting × List Part),
      (parts.foldl (pushPart field (template.contains slash)) state).1.unsupported =
        state.1.unsupported := by
    intro parts
    induction parts with
    | nil => intro state; rfl
    | cons part parts ih => intro state; rw [List.foldl_cons, ih, unsupported_pushPart]
  exact hparts _ (m, [])

theorem unsupported_refuse (m : Mounting) (text : Text) (before after : String) :
    (m.refuse text before after).unsupported ≠ none := Option.some_ne_none _

theorem unsupported_step (h : m.unsupported ≠ none) (item : Text × Nat) :
    (step last m item).unsupported ≠ none := by
  have hnote : ∀ text idx, (m.note last text idx).unsupported ≠ none := by
    intro text idx
    unfold note
    dsimp only
    split
    · exact unsupported_refuse _ _ _ _
    · split
      · exact unsupported_refuse _ _ _ _
      · split <;> exact h
  unfold step
  dsimp only
  split
  · split
    · rw [unsupported_pushConverted]
      exact unsupported_refuse _ _ _ _
    · rw [unsupported_pushComposite]
      exact hnote _ _
  · rw [unsupported_pushConverted]
    split
    · exact unsupported_refuse _ _ _ _
    · exact hnote _ _

theorem unsupported_foldl (items : List (Text × Nat)) : ∀ {m : Mounting},
    (items.foldl (step last) m).unsupported = none → m.unsupported = none := by
  induction items with
  | nil => intro m h; exact h
  | cons item items ih =>
      intro m h
      by_contra hm
      exact unsupported_step hm item (ih h)

theorem slash_mem_joinPieces_iff {pieces : List Piece} (hvalid : pieces.all Piece.valid = true) :
    slash ∈ joinPieces pieces ↔ 1 < pieces.length := by
  have hcount : (joinPieces pieces).count slash = pieces.length - 1 := by
    rw [joinPieces, count_slash_intercalate, List.length_map]
    intro text htext
    obtain ⟨piece, hpiece, rfl⟩ := List.mem_map.mp htext
    exact slash_notMem_of_isWord (Piece.isWord_text (List.all_eq_true.mp hvalid piece hpiece))
  rw [← List.count_pos_iff, hcount]
  omega

theorem convertSegment_text (hvalid : segment.valid = true) (isLast : Bool) :
    convertSegment segment.text idx isLast =
      match segment with
      | .literal word => .literal word
      | .one => .capture (decimal idx) false
      | .rest => .capture (decimal idx) isLast
      | .capture field => .capture field false
      | .bound field pieces =>
          .capture field (isLast && (pieces = [.rest] || 1 < pieces.length)) := by
  have hbound := bind_splitOnce_text hvalid
  cases segment with
  | literal word =>
      simp only [TemplateSegment.valid, Bool.and_eq_true, decide_eq_true_eq] at hvalid
      have hrest : word ≠ doubleWildcard := by
        rintro rfl
        exact hvalid.2 rfl
      have hone : word ≠ wildcard := by
        rintro rfl
        exact hvalid.2 rfl
      simp [convertSegment, TemplateSegment.text, braced_word hvalid.1, hrest, hone]
  | one => rfl
  | rest => rfl
  | capture field =>
      simp only [TemplateSegment.text, braced_braces, Option.bind_some, TemplateSegment.boundOf]
        at hbound
      simp only [convertSegment, TemplateSegment.text, braced_braces, hbound]
  | bound field pieces =>
      simp only [TemplateSegment.text, braced_braces, Option.bind_some, TemplateSegment.boundOf]
        at hbound
      simp only [TemplateSegment.valid, Bool.and_eq_true, Bool.not_eq_true',
        List.isEmpty_eq_false_iff] at hvalid
      have hslash := slash_mem_joinPieces_iff hvalid.2
      simp only [convertSegment, TemplateSegment.text, braced_braces, hbound,
        joinPieces_eq_wildcard_iff hvalid.1.2 hvalid.2,
        joinPieces_eq_doubleWildcard_iff hvalid.1.2 hvalid.2]
      by_cases hone : pieces = [.one]
      · simp [hone]
      · by_cases hrest : pieces = [.rest]
        · simp [hrest]
        · simp only [hone, hrest, ↓reduceIte]
          by_cases hlength : 1 < pieces.length
          · simp [hlength, hslash]
          · simp [hlength, hslash]

end Mounting

namespace Mounts

variable {m : Mounting} {items : List Item} {last idx : Nat} {segment : TemplateSegment}

theorem pushConverted_front (hmounts : Mounts m items) (hvalid : segment.valid = true)
    (hone : ∀ field pieces, segment = .bound field pieces → pieces = [.one]) :
    Mounts (m.pushConverted segment.text idx false) (items ++ segment.items) := by
  unfold Mounting.pushConverted
  rw [Mounting.convertSegment_text hvalid]
  cases segment with
  | literal word =>
      rw [TemplateSegment.valid, Bool.and_eq_true] at hvalid
      exact hmounts.literal hvalid.1
  | one => exact hmounts.capture (decimalName idx).1 (decimalName idx).2 _ _
  | rest => exact hmounts.capture (decimalName idx).1 (decimalName idx).2 _ _
  | capture field => exact hmounts.capture (fieldName hvalid).1 (fieldName hvalid).2 _ _
  | bound field pieces =>
      obtain rfl := hone field pieces rfl
      simp only [TemplateSegment.valid, Bool.and_eq_true] at hvalid
      exact hmounts.capture (fieldName hvalid.1.1).1 (fieldName hvalid.1.1).2 _ _

/-- A round before the last one writes the segments the template's segment is read as. -/
theorem step_front (hmounts : Mounts m items) (hvalid : segment.valid = true) (hidx : idx ≠ last)
    (hsupported : (Mounting.step last m (segment.text, idx)).unsupported = none) :
    Mounts (Mounting.step last m (segment.text, idx)) (items ++ segment.items) := by
  rw [Mounting.step_front_eq hvalid hidx] at hsupported ⊢
  cases hbound : segment.boundOf.filter fun (_, template) => template ≠ wildcard with
  | none =>
      have hone : ∀ field pieces, segment = .bound field pieces → pieces = [.one] := by
        rintro field pieces rfl
        simp only [TemplateSegment.valid, Bool.and_eq_true, Bool.not_eq_true',
          List.isEmpty_eq_false_iff] at hvalid
        simp only [TemplateSegment.boundOf, Option.filter_some, ne_eq, decide_not, Bool.not_eq_true',
          decide_eq_false_iff_not, ite_eq_right_iff, reduceCtorEq, imp_false, not_not] at hbound
        exact (joinPieces_eq_wildcard_iff hvalid.1.2 hvalid.2).mp hbound
      simp only [hbound, Mounting.unsupported_pushConverted] at hsupported ⊢
      split at hsupported
      · exact absurd hsupported (Mounting.unsupported_refuse _ _ _ _)
      · next hwild =>
          simp only [hwild, Bool.false_eq_true, ↓reduceIte]
          exact hmounts.pushConverted_front hvalid hone
  | some parts =>
      obtain ⟨hsome, -⟩ := Option.filter_eq_some_iff.mp hbound
      cases segment with
      | bound field pieces =>
          obtain rfl := Option.some.inj hsome
          simp only [TemplateSegment.valid, Bool.and_eq_true, Bool.not_eq_true',
            List.isEmpty_eq_false_iff] at hvalid
          simp only [hbound, splitOn_joinPieces hvalid.1.2 hvalid.2, List.contains_iff_mem,
            mem_map_text_iff hvalid.2] at hsupported ⊢
          split at hsupported
          · rw [Mounting.unsupported_pushConverted] at hsupported
            exact absurd hsupported (Mounting.unsupported_refuse _ _ _ _)
          · next hrest =>
              rw [if_neg hrest]
              exact hmounts.pushComposite hvalid.1.1 hvalid.1.2 hvalid.2 hrest
      | _ => exact absurd hsome (Option.some_ne_none _).symm

theorem foldl_front (segments : List TemplateSegment) : ∀ {m : Mounting} {items : List Item} (k : Nat),
    Mounts m items → segments.all TemplateSegment.valid = true → k + segments.length ≤ last →
    (((segments.map TemplateSegment.text).zipIdx k).foldl
      (Mounting.step last) m).unsupported = none →
    Mounts (((segments.map TemplateSegment.text).zipIdx k).foldl (Mounting.step last) m)
      (items ++ segments.flatMap TemplateSegment.items) := by
  induction segments with
  | nil =>
      intro m items k hmounts _ _ _
      simpa using hmounts
  | cons segment segments ih =>
      intro m items k hmounts hvalid hlast hsupported
      rw [List.all_cons, Bool.and_eq_true] at hvalid
      rw [List.length_cons] at hlast
      have hidx : k ≠ last := by omega
      rw [List.map_cons, List.zipIdx_cons, List.foldl_cons] at hsupported ⊢
      have hstep := hmounts.step_front hvalid.1 hidx (Mounting.unsupported_foldl _ hsupported)
      have hrest := ih (k + 1) hstep hvalid.2 (by omega) hsupported
      rwa [List.append_assoc, ← List.flatMap_cons] at hrest

end Mounts

/-! ### The last round -/

def IsCatchAll (text : Text) : Prop :=
  ∃ name : Text, text = openBrace :: star :: name ++ [closeBrace]

def TemplateSegment.LastMounted : TemplateSegment → Text → Prop
  | literal word, text => text = word ∧ word.head? ≠ some openBrace
  | one, text | capture _, text => IsCapture text
  | rest, text => IsCatchAll text
  | bound _ pieces, text =>
      if pieces = [.rest] ∨ 1 < pieces.length then IsCatchAll text else IsCapture text

namespace Mounting

variable {m : Mounting} {idx : Nat} {segment : TemplateSegment}

def lastText (segment : Text) (idx : Nat) : Text :=
  match convertSegment segment idx true with
  | .literal text => text
  | .capture name catchAll =>
      (if catchAll then [openBrace, star] else [openBrace]) ++ name ++ [closeBrace]

theorem axum_pushConverted (text : Text) :
    (m.pushConverted text idx true).axum = m.pushSegment.axum ++ lastText text idx := by
  unfold pushConverted lastText
  cases convertSegment text idx true with
  | literal word => rfl
  | capture name catchAll => simp [pushCapture]

theorem lastMounted_lastText (hvalid : segment.valid = true) (idx : Nat) :
    segment.LastMounted (lastText segment.text idx) ∧ slash ∉ lastText segment.text idx := by
  have hcapture : ∀ {name : Text}, name.head? ≠ some star ∧ slash ∉ name →
      IsCapture ([openBrace] ++ name ++ [closeBrace]) ∧
        slash ∉ [openBrace] ++ name ++ [closeBrace] := by
    intro name hname
    exact ⟨⟨name, rfl, hname.1⟩, Mounts.slash_notMem_capture hname.2⟩
  have hcatchAll : ∀ {name : Text}, slash ∉ name →
      IsCatchAll ([openBrace, star] ++ name ++ [closeBrace]) ∧
        slash ∉ [openBrace, star] ++ name ++ [closeBrace] := by
    intro name hname
    refine ⟨⟨name, rfl⟩, ?_⟩
    have hstar : slash ∉ star :: name := by
      intro hmem
      rcases List.mem_cons.mp hmem with heq | hmem
      · exact absurd heq (by decide)
      · exact hname hmem
    exact Mounts.slash_notMem_capture hstar
  unfold lastText
  rw [convertSegment_text hvalid]
  cases segment with
  | literal word =>
      rw [TemplateSegment.valid, Bool.and_eq_true] at hvalid
      exact ⟨⟨rfl, head?_ne_openBrace hvalid.1⟩, slash_notMem_of_isWord hvalid.1⟩
  | one => exact hcapture (Mounts.decimalName idx)
  | rest => exact hcatchAll (Mounts.decimalName idx).2
  | capture field => exact hcapture (Mounts.fieldName hvalid)
  | bound field pieces =>
      simp only [TemplateSegment.valid, Bool.and_eq_true] at hvalid
      have hname := Mounts.fieldName hvalid.1.1
      by_cases hmulti : pieces = [.rest] ∨ 1 < pieces.length
      · have hflag : (true && (decide (pieces = [.rest]) || decide (1 < pieces.length))) = true := by
          simpa using hmulti
        simp only [hflag, ↓reduceIte, TemplateSegment.LastMounted, if_pos hmulti]
        exact hcatchAll hname.2
      · have hflag : (true && (decide (pieces = [.rest]) || decide (1 < pieces.length))) = false := by
          simpa using hmulti
        simp only [hflag, Bool.false_eq_true, ↓reduceIte, TemplateSegment.LastMounted,
          if_neg hmulti]
        exact hcapture hname

theorem step_last_eq (hvalid : segment.valid = true) :
    step idx m (segment.text, idx) =
      (if segment.boundOf.any fun (_, template) =>
          ((template.splitOn slash).reverse.drop 1).contains doubleWildcard then
        ({ m with lastSegment := m.written } : Mounting).refuse segment.text ""
          " puts `**` before another segment; it must be the last one"
      else { m with lastSegment := m.written }).pushConverted segment.text idx true := by
  have hbrace := TemplateSegment.any_hasBrace hvalid
  rw [fieldTemplate_text hvalid] at hbrace
  unfold step note
  simp only [fieldTemplate_text hvalid, hbrace, Bool.false_eq_true, ↓reduceIte, decide_true,
    Bool.true_and, bind_splitOnce_text hvalid, ne_eq, not_true_eq_false, decide_false,
    Bool.false_and]
  cases segment.boundOf <;> simp

end Mounting

/-- A field template that the last round accepts has `**` only at its end. -/
def TemplateSegment.RestLast : TemplateSegment → Prop
  | bound _ pieces => Piece.rest ∉ pieces.dropLast
  | _ => True

theorem restLast_of_unsupported {m : Mounting} {idx : Nat} {segment : TemplateSegment}
    (hvalid : segment.valid = true)
    (hsupported : (Mounting.step idx m (segment.text, idx)).unsupported = none) :
    segment.RestLast := by
  cases segment with
  | bound field pieces =>
      rw [Mounting.step_last_eq hvalid, Mounting.unsupported_pushConverted] at hsupported
      simp only [TemplateSegment.valid, Bool.and_eq_true, Bool.not_eq_true',
        List.isEmpty_eq_false_iff] at hvalid
      intro hrest
      rw [if_pos] at hsupported
      · exact absurd hsupported (Mounting.unsupported_refuse _ _ _ _)
      · simp only [TemplateSegment.boundOf, Option.any_some, splitOn_joinPieces hvalid.1.2 hvalid.2]
        rw [List.contains_iff_mem]
        have hdrop : (pieces.map Piece.text).reverse.drop 1 =
            (pieces.dropLast.map Piece.text).reverse := by
          rw [List.map_dropLast, List.drop_one, List.tail_reverse]
        rw [hdrop, List.mem_reverse]
        exact List.mem_map.mpr ⟨.rest, hrest, rfl⟩
  | _ => trivial

/-! ### The whole template -/

namespace HttpTemplate

variable (template : HttpTemplate)

def allItems : List Item := .exact [] :: template.items

/-- What `MountedPath::new` builds from a template the router can hold. -/
structure MountedAs (mount : MountedPath) : Prop where
  axum : ∃ (texts : List Text) (last : Text), mount.axum = [slash].intercalate (texts ++ [last]) ∧
    List.Forall₂ Item.Mounted template.allItems texts ∧ template.last.LastMounted last ∧
      ∀ text ∈ texts ++ [last], slash ∉ text
  literals : mount.literals = escapes 0 template.allItems
  lastSegment : mount.lastSegment = template.allItems.length
  restLast : template.last.RestLast
  verb : mount.verb = template.verb.map fun verb => colon :: verb
  emptyLast : mount.emptyLast = endsInDoubleWildcard template.last.text
  lastTemplate : mount.lastTemplate =
    ((template.last.boundOf.map Prod.snd).filter fun text =>
      text ≠ wildcard && text ≠ doubleWildcard).map splitTopLevel

def frontSegments : List TemplateSegment := .literal [] :: template.front

def beforeLast : Mounting :=
  ((template.frontSegments.map TemplateSegment.text).zipIdx).foldl
    (Mounting.step template.frontSegments.length) {}

def afterLast : Mounting :=
  Mounting.step template.frontSegments.length template.beforeLast
    (template.last.text, template.frontSegments.length)

theorem new_text :
    MountedPath.new template.text =
      { axum := template.afterLast.axum
        shape := template.afterLast.shape
        captures := template.afterLast.captures
        unbound := template.afterLast.unbound
        multiSegment := template.afterLast.multiSegment
        verb := template.verb.map fun verb => colon :: verb
        emptyLast := endsInDoubleWildcard template.last.text
        lastTemplate := ((template.last.boundOf.map Prod.snd).filter fun text =>
          text ≠ wildcard && text ≠ doubleWildcard).map splitTopLevel
        lastSegment := template.afterLast.lastSegment
        unsupported := template.afterLast.unsupported
        composites := template.afterLast.composites
        literals := template.afterLast.literals } := by
  have htexts : template.texts [] =
      template.frontSegments.map TemplateSegment.text ++ [template.last.text] := by
    rw [texts, List.append_nil]
    rfl
  have hlast : (template.texts []).length - 1 = template.frontSegments.length := by
    rw [htexts, List.length_append, List.length_map, List.length_singleton, Nat.add_sub_cancel]
  have hfold : (template.texts []).zipIdx.foldl (Mounting.step ((template.texts []).length - 1)) {} =
      template.afterLast := by
    rw [hlast, htexts, List.zipIdx_append, List.foldl_append, List.length_map, Nat.zero_add]
    rfl
  have hlastText : (template.texts []).getLastD [] = template.last.text := by
    rw [htexts, List.getLastD_concat]
  unfold MountedPath.new
  simp only [splitVerb_text, splitTopLevel_base, hfold, hlastText,
    fieldTemplate_text template.last_valid]

theorem mounts_beforeLast (hsupported : template.beforeLast.unsupported = none) :
    Mounts template.beforeLast template.allItems := by
  have hstart : Mounts {} [] := by
    refine ⟨⟨[], rfl, List.Forall₂.nil, ?_⟩, rfl, rfl⟩
    intro text htext
    exact absurd htext List.not_mem_nil
  have hvalid : template.frontSegments.all TemplateSegment.valid = true := by
    rw [frontSegments, List.all_cons, template.front_valid]
    rfl
  exact Mounts.foldl_front template.frontSegments 0 hstart hvalid (Nat.le_of_eq (Nat.zero_add _))
    hsupported

/-- What `MountedPath::new` builds from a template it does not refuse. -/
theorem mountedAs_new (hsupported : (MountedPath.new template.text).unsupported = none) :
    template.MountedAs (MountedPath.new template.text) := by
  rw [new_text] at hsupported ⊢
  change template.afterLast.unsupported = none at hsupported
  have hbefore : template.beforeLast.unsupported = none := by
    by_contra hne
    exact Mounting.unsupported_step hne _ hsupported
  have hmounts := template.mounts_beforeLast hbefore
  obtain ⟨texts, htexts, hall, hslash⟩ := hmounts.texts
  obtain ⟨hlastText, hlastSlash⟩ :=
    Mounting.lastMounted_lastText template.last_valid template.frontSegments.length
  have hafter : template.afterLast =
      ({ template.beforeLast with lastSegment := template.beforeLast.written } :
        Mounting).pushConverted template.last.text template.frontSegments.length true := by
    rw [afterLast, Mounting.step_last_eq template.last_valid, Mounting.unsupported_pushConverted]
      at hsupported
    rw [afterLast, Mounting.step_last_eq template.last_valid]
    split at hsupported
    · exact absurd hsupported (Mounting.unsupported_refuse _ _ _ _)
    · next hrest => rw [if_neg hrest]
  refine ⟨⟨texts, _, ?_, hall, hlastText, ?_⟩, ?_, ?_, ?_, rfl, rfl, rfl⟩
  · have hne : texts ≠ [] := by
      rintro rfl
      exact absurd hall (by simp [allItems])
    have hwritten : 0 < template.beforeLast.written := by
      rw [hmounts.written]
      exact Nat.succ_pos _
    simp only [hafter, Mounting.axum_pushConverted, Mounting.pushSegment, hwritten, ↓reduceIte,
      htexts]
    rw [Lib.intercalate_concat [slash] hne]
  · intro text htext
    rcases List.mem_append.mp htext with htext | htext
    · exact hslash text htext
    · rwa [List.mem_singleton.mp htext]
  · simp only [hafter, Mounting.literals_pushConverted]
    exact hmounts.literals
  · simp only [hafter, Mounting.lastSegment_pushConverted]
    exact hmounts.written
  · exact restLast_of_unsupported template.last_valid hsupported

end HttpTemplate

end StructuredProxy
