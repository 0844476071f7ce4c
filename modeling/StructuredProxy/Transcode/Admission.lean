import StructuredProxy.Transcode.Mounted
import StructuredProxy.Transcode.Choose

/-!
# A binding is admitted where its template reads

The three mechanisms that hold a template (the router path, the escaped literals kept by position and
the field template of the last capture) together admit exactly the requests the template is read to
match.
-/

namespace StructuredProxy

namespace Item

def routed : Item → Text → Bool
  | exact literal, segment => literal = segment
  | octets literal, segment => percent ∈ literal || literal = segment
  | any, _ => true

def checked (item : Item) (segment : Text) : Bool :=
  match item.escaped with
  | none => true
  | some literal => sameOctets segment (normalizeEscapes literal)

end Item

theorem normalizedFrom_eq_self {text : Text} (hpercent : percent ∉ text) :
    normalizedFrom 0 text = text := by
  induction text with
  | nil => rfl
  | cons byte rest ih =>
      obtain ⟨hbyte, hrest⟩ := not_or.mp (mt List.mem_cons.mpr hpercent)
      rw [normalizedFrom, if_neg fun heq => hbyte heq.symm, ih hrest]

theorem percent_mem_normalizedFrom {text : Text} (hpercent : percent ∈ text) :
    percent ∈ normalizedFrom 0 text := by
  induction text with
  | nil => exact hpercent
  | cons byte rest ih =>
      rw [normalizedFrom]
      by_cases hbyte : byte = percent
      · rw [hbyte]
        exact List.mem_cons_self
      · rw [if_neg hbyte]
        rcases List.mem_cons.mp hpercent with heq | hmem
        · exact absurd heq.symm hbyte
        · exact List.mem_cons_of_mem _ (ih hmem)

theorem normalizeEscapes_eq_iff {literal segment : Text} (hpercent : percent ∉ literal) :
    normalizeEscapes segment = normalizeEscapes literal ↔ literal = segment := by
  rw [normalizeEscapes, normalizeEscapes, normalizedBytes, normalizedBytes,
    normalizedFrom_eq_self hpercent]
  constructor
  · intro heq
    have hsegment : percent ∉ segment := fun hmem =>
      hpercent (heq ▸ percent_mem_normalizedFrom hmem)
    rw [← heq, normalizedFrom_eq_self hsegment]
  · rintro rfl
    exact normalizedFrom_eq_self hpercent

theorem Item.fits_eq (item : Item) (segment : Text) :
    item.fits segment = (item.routed segment && item.checked segment) := by
  cases item with
  | exact literal => simp [fits, routed, checked, escaped]
  | any => rfl
  | octets literal =>
      by_cases hpercent : percent ∈ literal
      · rw [Bool.eq_iff_iff]
        simp [fits, routed, checked, escaped, hpercent, sameOctets_iff]
      · simp [fits, routed, checked, escaped, hpercent, normalizeEscapes_eq_iff hpercent]

theorem IsCapture.isCatchAll_eq {text : Text} (h : IsCapture text) : isCatchAll text = false := by
  obtain ⟨name, rfl, hname⟩ := h
  cases name with
  | nil => rfl
  | cons byte name =>
      have hbyte : star ≠ byte := fun heq => hname (by rw [heq]; rfl)
      simp [isCatchAll, show str "\x7b*" = [openBrace, star] by decide, List.isPrefixOf, hbyte]

theorem IsCapture.edgeOf_eq {text : Text} (h : IsCapture text) : edgeOf text = .var := by
  obtain ⟨name, rfl, -⟩ := h
  rfl

theorem isCatchAll_literal {text : Text} (h : text.head? ≠ some openBrace) :
    isCatchAll text = false := by
  cases text with
  | nil => rfl
  | cons byte text =>
      have hbyte : openBrace ≠ byte := fun heq => h (by rw [heq]; rfl)
      simp [isCatchAll, show str "\x7b*" = [openBrace, star] by decide, List.isPrefixOf, hbyte]

theorem edgeOf_literal {text : Text} (h : text.head? ≠ some openBrace) : edgeOf text = .lit text :=
  if_neg h

theorem IsCatchAll.isCatchAll_eq {text : Text} (h : IsCatchAll text) : isCatchAll text = true := by
  obtain ⟨name, rfl⟩ := h
  simp [isCatchAll, show str "\x7b*" = [openBrace, star] by decide, List.isPrefixOf]

theorem accepts_ofSegments_concat_nil (emptyLast : Bool) (texts : List Text) (last : Text) :
    (Pattern.ofSegments (texts ++ [last])).accepts emptyLast [] = false := by
  cases texts with
  | nil =>
      rw [List.nil_append, Pattern.ofSegments]
      split
      · rfl
      · cases edgeOf last <;> rfl
  | cons first texts =>
      rw [List.cons_append, Pattern.ofSegments]
      split
      · rfl
      · cases edgeOf first <;> rfl

theorem accepts_cons {item : Item} {text : Text} (hitem : item.Mounted text) (emptyLast : Bool)
    (texts : List Text) (last : Text) (segment : Text) (segments : List Text) :
    (Pattern.ofSegments (text :: texts ++ [last])).accepts emptyLast (segment :: segments) =
      (item.routed segment &&
        (Pattern.ofSegments (texts ++ [last])).accepts emptyLast segments) := by
  have hliteral : text.head? ≠ some openBrace →
      (Pattern.ofSegments (text :: texts ++ [last])).accepts emptyLast (segment :: segments) =
        (decide (text = segment) &&
          (Pattern.ofSegments (texts ++ [last])).accepts emptyLast segments) := by
    intro hhead
    rw [List.cons_append, Pattern.ofSegments, isCatchAll_literal hhead, edgeOf_literal hhead]
    simp only [Bool.false_eq_true, ↓reduceIte, Pattern.accepts, beq_eq_decide]
  have hcapture : IsCapture text →
      (Pattern.ofSegments (text :: texts ++ [last])).accepts emptyLast (segment :: segments) =
        (Pattern.ofSegments (texts ++ [last])).accepts emptyLast segments := by
    intro htext
    rw [List.cons_append, Pattern.ofSegments, htext.isCatchAll_eq, htext.edgeOf_eq]
    cases segments with
    | nil =>
        have hnil := accepts_ofSegments_concat_nil emptyLast texts last
        simp [Pattern.accepts, hnil]
    | cons next segments => simp [Pattern.accepts]
  cases item with
  | exact literal =>
      obtain ⟨rfl, hhead⟩ := hitem
      exact hliteral hhead
  | any => exact hcapture hitem
  | octets literal =>
      by_cases hpercent : percent ∈ literal
      · rw [Item.Mounted, if_pos hpercent] at hitem
        rw [hcapture hitem]
        simp [Item.routed, hpercent]
      · rw [Item.Mounted, if_neg hpercent] at hitem
        obtain ⟨rfl, hhead⟩ := hitem
        rw [hliteral hhead]
        simp [Item.routed, hpercent]

theorem accepts_ofSegments {items : List Item} {texts : List Text}
    (hmounted : List.Forall₂ Item.Mounted items texts) (emptyLast : Bool) (last : Text) :
    ∀ segments, (Pattern.ofSegments (texts ++ [last])).accepts emptyLast segments =
      (decide (items.length ≤ segments.length) &&
        (items.zip segments).all (fun (item, segment) => item.routed segment) &&
        (Pattern.ofSegments [last]).accepts emptyLast (segments.drop items.length)) := by
  induction hmounted with
  | nil => intro segments; simp
  | @cons item text items texts hitem _ ih =>
      intro segments
      cases segments with
      | nil => rw [accepts_ofSegments_concat_nil]; rfl
      | cons segment segments =>
          rw [accepts_cons hitem, ih, List.zip_cons_cons, List.all_cons, List.length_cons,
            List.length_cons, List.drop_succ_cons]
          simp only [Nat.add_le_add_iff_right]
          cases item.routed segment <;> simp

/-- The pass of `fits` over the literals compares each escaped segment for itself. The segments handed
to it start at `next`, the first item stands at `offset`. -/
theorem fitsLiterals_escapes (items : List Item) : ∀ (offset next : Nat) (segments : List Text),
    next ≤ offset → items.length ≤ (segments.drop (offset - next)).length →
    fitsLiterals (normalizedLiterals (escapes offset items)) segments next =
      (items.zip (segments.drop (offset - next))).all
        (fun (item, segment) => item.checked segment) := by
  induction items with
  | nil => intro offset next segments _ _; rfl
  | cons item items ih =>
      intro offset next segments hnext hlength
      obtain ⟨segment, rest, hdrop⟩ : ∃ segment rest, segments.drop (offset - next) =
          segment :: rest := by
        cases hdrop : segments.drop (offset - next) with
        | nil => rw [hdrop] at hlength; exact absurd hlength (by simp)
        | cons segment rest => exact ⟨segment, rest, rfl⟩
      have hrest : rest = segments.drop (offset + 1 - next) := by
        rw [show offset + 1 - next = offset - next + 1 by omega, ← List.drop_drop, hdrop]
        rfl
      rw [hdrop, List.length_cons, List.length_cons] at hlength
      rw [hdrop, List.zip_cons_cons, List.all_cons, escapes]
      cases hescaped : item.escaped with
      | none =>
          have hchecked : item.checked segment = true := by rw [Item.checked, hescaped]
          have hskip := ih (offset + 1) next segments (by omega) (by rw [← hrest]; omega)
          rw [← hrest] at hskip
          simpa [hchecked] using hskip
      | some literal =>
          have hchecked : item.checked segment = sameOctets segment (normalizeEscapes literal) := by
            rw [Item.checked, hescaped]
          have htaken := ih (offset + 1) (offset + 1) rest (Nat.le_refl _) (by simp; omega)
          rw [Nat.sub_self, List.drop_zero] at htaken
          simp only [Option.map_some, Option.toList_some, List.singleton_append, normalizedLiterals,
            List.map_cons, fitsLiterals, hdrop, hchecked]
          rw [normalizedLiterals] at htaken
          rw [htaken]

/-! ### A request path and its segments -/

def pathOf (segments : List Text) : Text := [slash].intercalate ([] :: segments)

theorem pathOf_eq_cons {segments : List Text} (hne : segments ≠ []) :
    pathOf segments = slash :: [slash].intercalate segments := by
  rw [pathOf, List.intercalate_cons_of_ne_nil hne]
  rfl

theorem pathOf_splitOn (rest : Text) : pathOf (rest.splitOn slash) = slash :: rest := by
  rw [pathOf_eq_cons (List.splitOn_ne_nil _ _), List.intercalate_splitOn]

theorem pathOf_concat (segments : List Text) (segment : Text) :
    pathOf (segments ++ [segment]) = [slash].intercalate ([] :: segments) ++ [slash] ++ segment := by
  rw [pathOf, ← List.cons_append, Lib.intercalate_concat [slash] (List.cons_ne_nil _ _)]

theorem splitVerb_pathOf (segments : List Text) {segment : Text} (hslash : slash ∉ segment) :
    splitVerb (pathOf (segments ++ [segment])) =
      (Lib.splitOnce colon segment).map fun parts =>
        (pathOf (segments ++ [parts.1]), colon :: parts.2) := by
  have hlast : (pathOf (segments ++ [segment])).reverse.findIdx? (· = slash) =
      some segment.length := by
    have hnone : segment.reverse.findIdx? (· = slash) = none := by
      rw [List.findIdx?_eq_none_iff]
      intro byte hbyte
      exact decide_eq_false fun heq => hslash (heq ▸ List.mem_reverse.mp hbyte)
    rw [pathOf_concat, List.reverse_append, List.reverse_append, List.findIdx?_append, hnone]
    simp [List.findIdx?_cons]
  have hlength : (pathOf (segments ++ [segment])).length - segment.length =
      ([slash].intercalate ([] :: segments) ++ [slash]).length := by
    rw [pathOf_concat, List.length_append, Nat.add_sub_cancel]
  unfold splitVerb
  simp only [hlast, hlength]
  rw [pathOf_concat, List.drop_left, Lib.findIdx?_eq_splitOnce, Option.map_map]
  cases hsplit : Lib.splitOnce colon segment with
  | none => rfl
  | some parts =>
      obtain ⟨first, rest⟩ := parts
      obtain ⟨rfl, -⟩ := Lib.splitOnce_eq_some_iff.mp hsplit
      simp only [Option.map_some, Function.comp, List.splitAt_eq, Option.some.injEq, Prod.mk.injEq]
      rw [pathOf_concat, ← List.append_assoc, ← List.length_append, List.take_left, List.drop_left]
      exact ⟨rfl, rfl⟩

/-! ### The value of the last capture -/

def reachOf (segments : List Text) (count : Nat) : Nat :=
  ((segments.take count).map fun segment => segment.length + 1).sum

theorem drop_reachOf (segments : List Text) : ∀ count, count < segments.length →
    reachOf segments count ≤ ([slash].intercalate segments).length ∧
      ([slash].intercalate segments).drop (reachOf segments count) =
        [slash].intercalate (segments.drop count) := by
  induction segments with
  | nil => intro count hcount; exact absurd hcount (Nat.not_lt_zero _)
  | cons first rest ih =>
      intro count hcount
      cases count with
      | zero => exact ⟨Nat.zero_le _, rfl⟩
      | succ count =>
          rw [List.length_cons] at hcount
          have hne : rest ≠ [] := by
            rintro rfl
            exact absurd hcount (by simp)
          obtain ⟨hle, hdrop⟩ := ih count (by omega)
          have hreach : reachOf (first :: rest) (count + 1) =
              (first ++ [slash]).length + reachOf rest count := by
            simp [reachOf]
          rw [List.intercalate_cons_of_ne_nil hne, hreach, List.drop_succ_cons,
            ← List.drop_drop, List.drop_left, hdrop]
          refine ⟨?_, rfl⟩
          have hlength : (first ++ [slash] ++ [slash].intercalate rest).length =
              (first ++ [slash]).length + ([slash].intercalate rest).length := List.length_append
          omega

theorem afterSlashes_eq (path : Text) (segments : List Text)
    (hslash : ∀ segment ∈ segments, slash ∉ segment) : ∀ (count start : Nat),
    count < segments.length → path.drop start = [slash].intercalate segments →
    afterSlashes path count start = some (start + reachOf segments count) := by
  induction segments with
  | nil => intro count start hcount _; exact absurd hcount (Nat.not_lt_zero _)
  | cons first rest ih =>
      intro count start hcount hdrop
      cases count with
      | zero => rfl
      | succ count =>
          rw [List.length_cons] at hcount
          have hne : rest ≠ [] := by
            rintro rfl
            exact absurd hcount (by simp)
          rw [List.intercalate_cons_of_ne_nil hne, List.append_assoc, List.singleton_append] at hdrop
          have hsplit : Lib.splitOnce slash (path.drop start) =
              some (first, [slash].intercalate rest) :=
            Lib.splitOnce_eq_some_iff.mpr ⟨hdrop, hslash first List.mem_cons_self⟩
          have hnext : path.drop (start + first.length + 1) = [slash].intercalate rest := by
            rw [Nat.add_assoc, ← List.drop_drop, hdrop, List.append_cons,
              show first.length + 1 = (first ++ [slash]).length by simp, List.drop_left]
          rw [afterSlashes, Lib.findIdx?_eq_splitOnce, hsplit]
          simp only [Option.map_some]
          rw [ih (fun segment hmem => hslash segment (List.mem_cons_of_mem _ hmem)) count _
            (by omega) hnext]
          simp [reachOf]
          omega

def joined : List Text → Option Text
  | [] => none
  | segments => some ([slash].intercalate segments)

theorem nextSegment_joined {segment : Text} (hslash : slash ∉ segment) (segments : List Text) :
    Index.nextSegment ([slash].intercalate (segment :: segments)) = (segment, joined segments) := by
  unfold Index.nextSegment
  cases segments with
  | nil =>
      have hnone : Lib.splitOnce slash segment = none := Lib.splitOnce_eq_none_iff.mpr hslash
      rw [List.intercalate_singleton, hnone]
      rfl
  | cons next segments =>
      have hsome : Lib.splitOnce slash ([slash].intercalate (segment :: next :: segments)) =
          some (segment, [slash].intercalate (next :: segments)) := by
        refine Lib.splitOnce_eq_some_iff.mpr ⟨?_, hslash⟩
        rw [List.intercalate_cons_cons]
        simp
      rw [hsome]
      rfl

theorem any_isNone_leftovers (value : Option Text) : (leftovers value).any (follows []) = true := by
  cases value with
  | none => rfl
  | some value => simp [leftovers, follows]

theorem normalizeEscapes_literal {text : Text} (hvalid : (Piece.literal text).valid = true) :
    normalizeEscapes text ≠ wildcard ∧ normalizeEscapes text ≠ doubleWildcard ∧
      normalizeEscapes text ≠ [] := by
  cases text with
  | nil => exact absurd hvalid (by decide)
  | cons byte text =>
      have hbyte : byte ≠ star := by
        rintro rfl
        simp [Piece.valid] at hvalid
      have hcons : normalizeEscapes (byte :: text) =
          byte :: normalizedFrom (if byte = percent then 2 else 0) text := rfl
      rw [hcons]
      refine ⟨?_, ?_, List.cons_ne_nil _ _⟩ <;>
      · intro heq
        exact hbyte (List.cons.inj heq).1

theorem rest_notMem_of_cons {piece : Piece} {pieces : List Piece}
    (hrest : Piece.rest ∉ (piece :: pieces).dropLast) : Piece.rest ∉ pieces.dropLast := by
  cases pieces with
  | nil => simp
  | cons next pieces => exact fun hmem => hrest (List.mem_cons_of_mem _ hmem)

theorem eq_nil_of_rest_cons {pieces : List Piece}
    (hrest : Piece.rest ∉ (Piece.rest :: pieces).dropLast) : pieces = [] := by
  cases pieces with
  | nil => rfl
  | cons next pieces => exact absurd List.mem_cons_self hrest

/-- The matcher of a field template reads the value segment by segment. -/
theorem follows_pieces {pieces : List Piece} (hvalid : pieces.all Piece.valid = true)
    (hrest : Piece.rest ∉ pieces.dropLast) : ∀ {segments : List Text},
    (∀ segment ∈ segments, slash ∉ segment) →
    follows ((pieces.map Piece.text).map normalizeEscapes) (joined segments) =
      fitsPieces pieces segments := by
  induction pieces with
  | nil =>
      intro segments _
      cases segments <;> rfl
  | cons piece pieces ih =>
      intro segments hslash
      rw [List.all_cons, Bool.and_eq_true] at hvalid
      cases piece with
      | rest =>
          obtain rfl := eq_nil_of_rest_cons hrest
          exact any_isNone_leftovers _
      | one =>
          have hrest' := rest_notMem_of_cons hrest
          cases segments with
          | nil => rfl
          | cons segment segments =>
              have htail := ih hvalid.2 hrest' fun s hs => hslash s (List.mem_cons_of_mem _ hs)
              have hnext := nextSegment_joined (hslash segment List.mem_cons_self) segments
              rw [fitsPieces, ← htail]
              simp only [List.map_cons, follows, joined, hnext]
              rfl
      | literal text =>
          have hrest' := rest_notMem_of_cons hrest
          obtain ⟨hone, hmany, -⟩ := normalizeEscapes_literal hvalid.1
          cases segments with
          | nil => simp [follows, joined, fitsPieces, Piece.text, hmany]
          | cons segment segments =>
              have htail := ih hvalid.2 hrest' fun s hs => hslash s (List.mem_cons_of_mem _ hs)
              have hnext := nextSegment_joined (hslash segment List.mem_cons_self) segments
              have hsame : sameOctets segment (normalizeEscapes text) =
                  decide (normalizeEscapes segment = normalizeEscapes text) := by
                rw [Bool.eq_iff_iff, sameOctets_iff, decide_eq_true_iff]
              rw [fitsPieces, ← htail]
              simp only [List.map_cons, Piece.text, follows, joined, hnext, if_neg hone,
                if_neg hmany, hsame]

section FitsPieces

variable {pieces : List Piece} (hne : pieces ≠ []) (hvalid : pieces.all Piece.valid = true)
  (hrest : Piece.rest ∉ pieces.dropLast)
include hne hvalid hrest

theorem fitsPieces_empty : fitsPieces pieces [[]] = fitsPieces pieces [] := by
  cases pieces with
  | nil => exact absurd rfl hne
  | cons piece pieces =>
      cases piece with
      | rest =>
          obtain rfl := eq_nil_of_rest_cons hrest
          rfl
      | one => simp [fitsPieces]
      | literal text =>
          rw [List.all_cons, Bool.and_eq_true] at hvalid
          obtain ⟨-, -, hempty⟩ := normalizeEscapes_literal hvalid.1
          have hnil : normalizeEscapes [] = [] := rfl
          simp [fitsPieces, hnil, hempty.symm]

theorem follows_value {segments : List Text} (hsegments : segments ≠ [])
    (hslash : ∀ segment ∈ segments, slash ∉ segment) :
    follows ((pieces.map Piece.text).map normalizeEscapes)
      ((some ([slash].intercalate segments)).filter fun value => !value.isEmpty) =
      fitsPieces pieces segments := by
  have hjoined : joined segments = some ([slash].intercalate segments) := by
    cases segments with
    | nil => exact absurd rfl hsegments
    | cons segment segments => rfl
  by_cases hempty : segments = [[]]
  · subst hempty
    rw [fitsPieces_empty hne hvalid hrest]
    exact follows_pieces hvalid hrest fun _ hmem => absurd hmem List.not_mem_nil
  · have hvalue : [slash].intercalate segments ≠ [] := by
      intro heq
      have hsplit := List.splitOn_intercalate slash hslash hsegments
      rw [heq] at hsplit
      exact hempty hsplit.symm
    rw [Option.filter_some_pos (by simpa using hvalue), ← hjoined]
    exact follows_pieces hvalid hrest hslash

theorem fitsPieces_nil (hlone : pieces ≠ [.rest]) : fitsPieces pieces [] = false := by
  cases pieces with
  | nil => exact absurd rfl hne
  | cons piece pieces =>
      cases piece with
      | rest => exact absurd (by rw [eq_nil_of_rest_cons hrest]) hlone
      | one => rfl
      | literal text => rfl

end FitsPieces

/-- A field template that does not end in `**` ends in a non-empty segment. -/
theorem ne_nil_of_fitsPieces {pieces : List Piece} (hvalid : pieces.all Piece.valid = true)
    (hlast : pieces.getLast? ≠ some .rest) : ∀ {segments : List Text} {segment : Text},
    fitsPieces pieces (segments ++ [segment]) = true → segment ≠ [] := by
  induction pieces with
  | nil =>
      intro segments segment hfits
      simp [fitsPieces] at hfits
  | cons piece pieces ih =>
      intro segments segment hfits
      rw [List.all_cons, Bool.and_eq_true] at hvalid
      have hstep : ∀ {first : Text} {rest : List Text}, segments = first :: rest →
          fitsPieces pieces (rest ++ [segment]) = true → segment ≠ [] := by
        intro first rest _ hfits
        refine ih hvalid.2 ?_ hfits
        cases pieces with
        | nil => simp
        | cons next pieces => rwa [List.getLast?_cons_cons] at hlast
      cases piece with
      | rest =>
          cases pieces with
          | nil => exact absurd rfl hlast
          | cons next pieces => simp [fitsPieces] at hfits
      | one =>
          cases segments with
          | nil =>
              rintro rfl
              simp [fitsPieces] at hfits
          | cons first segments =>
              simp only [List.cons_append, fitsPieces, Bool.and_eq_true] at hfits
              exact hstep rfl hfits.2
      | literal text =>
          cases segments with
          | nil =>
              rintro rfl
              obtain ⟨-, -, hempty⟩ := normalizeEscapes_literal hvalid.1
              have hnil : normalizeEscapes [] = [] := rfl
              simp [fitsPieces, hnil, hempty.symm] at hfits
          | cons first segments =>
              simp only [List.cons_append, fitsPieces, Bool.and_eq_true] at hfits
              exact hstep rfl hfits.2

/-! ### The last segment -/

/-- The last segment of a request and what of it stands before the verb, if one is looked for. -/
inductive Cut : Bool → Text → Text → Prop
  | whole (segment : Text) : Cut false segment segment
  | verb (value verb : Text) : Cut true (value ++ colon :: verb) value

namespace Cut

variable {verb : Bool} {segment value : Text}

theorem slash_notMem (hcut : Cut verb segment value) (hslash : slash ∉ segment) : slash ∉ value := by
  cases hcut with
  | whole => exact hslash
  | verb => exact fun hmem => hslash (List.mem_append_left _ hmem)

theorem take_pathOf (hcut : Cut verb segment value) (segments : List Text) :
    (pathOf (segments ++ [segment])).take (pathOf (segments ++ [value])).length =
      pathOf (segments ++ [value]) := by
  cases hcut with
  | whole => exact List.take_length
  | verb _ text => rw [pathOf_concat, pathOf_concat, ← List.append_assoc, List.take_left]

theorem eq_nil (hcut : Cut verb segment value) (hsegment : segment = []) : value = [] := by
  cases hcut with
  | whole => exact hsegment
  | verb => exact absurd hsegment (by simp)

end Cut

theorem reachOf_concat {segments : List Text} {count : Nat} (hcount : count ≤ segments.length)
    (segment : Text) : reachOf (segments ++ [segment]) count = reachOf segments count := by
  rw [reachOf, reachOf, List.take_append_of_le_length hcount]

/-- The value of the last capture is what is left of the request after the segments before it, up to
the verb. -/
theorem fitsTemplate_eq {binding : Binding} {template : Template} {verb : Bool}
    {segments : List Text} {segment value : Text} (hcut : Cut verb segment value)
    (hslash : ∀ part ∈ segments ++ [segment], slash ∉ part) {count : Nat}
    (hcount : count ≤ segments.length) (hstart : template.start = count + 1)
    (hend : binding.valueEnd (pathOf (segments ++ [segment])) =
      some (pathOf (segments ++ [value])).length) :
    binding.fitsTemplate (pathOf (segments ++ [segment])) template =
      follows template.segments
        ((some ([slash].intercalate (segments.drop count ++ [value]))).filter fun value =>
          !value.isEmpty) := by
  have hall : ∀ part ∈ [] :: segments ++ [segment], slash ∉ part := by
    intro part hmem
    rcases List.mem_cons.mp hmem with rfl | hmem
    · exact List.not_mem_nil
    · exact hslash part hmem
  have hle : count + 1 ≤ ([] :: segments).length := Nat.succ_le_succ hcount
  have hlt : ∀ last : Text, count + 1 < ([] :: segments ++ [last]).length := by
    intro last
    rw [List.length_append]
    exact Nat.lt_succ_of_le hle
  have hafter : afterSlashes (pathOf (segments ++ [segment])) (count + 1) 0 =
      some (reachOf ([] :: segments) (count + 1)) := by
    rw [afterSlashes_eq _ ([] :: segments ++ [segment]) hall _ _ (hlt segment) rfl,
      reachOf_concat hle, Nat.zero_add]
  obtain ⟨hreach, hdrop⟩ := drop_reachOf ([] :: segments ++ [value]) (count + 1) (hlt value)
  rw [reachOf_concat hle] at hreach hdrop
  have hvalue : ([] :: segments ++ [value]).drop (count + 1) = segments.drop count ++ [value] := by
    rw [List.cons_append, List.drop_succ_cons, List.drop_append_of_le_length hcount]
  rw [hvalue] at hdrop
  change _ ≤ (pathOf (segments ++ [value])).length at hreach
  unfold Binding.fitsTemplate
  rw [hstart, hafter, hend]
  simp only
  rw [if_pos hreach, hcut.take_pathOf, ← hdrop]
  rfl

namespace TemplateSegment

def held : TemplateSegment → Option (List Piece)
  | bound _ pieces => if pieces = [.one] ∨ pieces = [.rest] then none else some pieces
  | _ => none

theorem held_spec {segment : TemplateSegment} {pieces : List Piece} (hvalid : segment.valid = true)
    (hrest : segment.RestLast) (hheld : segment.held = some pieces) :
    pieces ≠ [] ∧ pieces.all Piece.valid = true ∧ Piece.rest ∉ pieces.dropLast := by
  cases segment with
  | bound field own =>
      rw [held] at hheld
      split at hheld
      · exact absurd hheld (by simp)
      · obtain rfl := Option.some.inj hheld
        simp only [valid, Bool.and_eq_true, Bool.not_eq_true', List.isEmpty_eq_false_iff] at hvalid
        exact ⟨hvalid.1.2, hvalid.2, hrest⟩
  | _ => exact absurd hheld (by simp [held])

theorem splitTopLevel_joinPieces {pieces : List Piece} (hne : pieces ≠ [])
    (hvalid : pieces.all Piece.valid = true) :
    splitTopLevel (joinPieces pieces) = pieces.map Piece.text := by
  refine splitTopLevel_intercalate (by simpa using hne) ?_
  intro text htext
  obtain ⟨piece, hpiece, rfl⟩ := List.mem_map.mp htext
  exact Closed.word (Piece.isWord_text (List.all_eq_true.mp hvalid piece hpiece))

theorem lastTemplate_eq {segment : TemplateSegment} (hvalid : segment.valid = true) :
    ((segment.boundOf.map Prod.snd).filter fun text =>
      text ≠ wildcard && text ≠ doubleWildcard).map splitTopLevel =
      segment.held.map fun pieces => pieces.map Piece.text := by
  cases segment with
  | bound field pieces =>
      simp only [valid, Bool.and_eq_true, Bool.not_eq_true', List.isEmpty_eq_false_iff] at hvalid
      obtain ⟨⟨-, hne⟩, hpieces⟩ := hvalid
      by_cases hlone : pieces = [.one] ∨ pieces = [.rest]
      · rw [held, if_pos hlone]
        rcases hlone with rfl | rfl <;> rfl
      · have hkeep : joinPieces pieces ≠ wildcard ∧ joinPieces pieces ≠ doubleWildcard := by
          refine ⟨fun heq => hlone (Or.inl ?_), fun heq => hlone (Or.inr ?_)⟩
          · exact (joinPieces_eq_wildcard_iff hne hpieces).mp heq
          · exact (joinPieces_eq_doubleWildcard_iff hne hpieces).mp heq
        rw [held, if_neg hlone, boundOf, Option.map_some,
          Option.filter_some_pos (by simpa using hkeep), Option.map_some, Option.map_some,
          splitTopLevel_joinPieces hne hpieces]
  | _ => rfl

theorem endsInDoubleWildcard_bound {field : Text} {pieces : List Piece}
    (hvalid : (bound field pieces).valid = true) (hlast : pieces.getLast? = some .rest) :
    endsInDoubleWildcard (bound field pieces).text = true := by
  have hbound := fieldTemplate_text hvalid
  obtain ⟨before, rfl⟩ : ∃ before, pieces = before ++ [.rest] :=
    ⟨_, (List.dropLast_append_getLast? _ hlast).symm⟩
  rw [endsInDoubleWildcard, isDoubleWildcard, hbound]
  cases before with
  | nil => rfl
  | cons piece before =>
      have hjoin : joinPieces (piece :: before ++ [.rest]) =
          joinPieces (piece :: before) ++ slash :: doubleWildcard := by
        rw [joinPieces, List.map_append, List.map_singleton,
          Lib.intercalate_concat [slash] (by simp)]
        simp [joinPieces, Piece.text]
      have hsuffix : (slash :: doubleWildcard).isSuffixOf
          (joinPieces (piece :: before ++ [.rest])) = true := by
        rw [List.isSuffixOf_iff_suffix, hjoin]
        exact List.suffix_append _ _
      rw [boundOf, Option.map_some, Option.any_some, hsuffix, Bool.or_true]

section Last

variable {last : TemplateSegment} {text : Text} {verb : Bool} {segment value : Text}
  (hvalid : last.valid = true) (hmounted : last.LastMounted text) (hcut : Cut verb segment value)

/-- What a request must have for the last segment, as the three mechanisms compare it: the router,
the verb's `emptyOk` and the field template. -/
def admitsLast (last : TemplateSegment) (text : Text) (emptyLast verb : Bool) (segment value : Text)
    (segments : List Text) : Bool :=
  (Pattern.ofSegments [text]).accepts emptyLast (segments ++ [segment]) &&
    (!verb || endsInDoubleWildcard last.text || !value.isEmpty) &&
    last.held.all fun pieces => fitsPieces pieces (segments ++ [value])

theorem accepts_capture (htext : IsCapture text) (emptyLast : Bool) (segments : List Text) :
    (Pattern.ofSegments [text]).accepts emptyLast (segments ++ [segment]) =
      (segments.isEmpty && (!segment.isEmpty || emptyLast)) := by
  rw [Pattern.ofSegments, htext.isCatchAll_eq, htext.edgeOf_eq]
  cases segments with
  | nil => simp [Pattern.accepts, Pattern.ofSegments]
  | cons first segments => simp [Pattern.accepts, Pattern.ofSegments]

theorem accepts_catchAll (htext : IsCatchAll text) (emptyLast : Bool) (segments : List Text) :
    (Pattern.ofSegments [text]).accepts emptyLast (segments ++ [segment]) =
      (!segments.isEmpty || !segment.isEmpty) := by
  rw [Pattern.ofSegments, if_pos htext.isCatchAll_eq]
  cases segments with
  | nil => cases segment <;> rfl
  | cons first segments => simp [Pattern.accepts]

theorem accepts_literal (htext : text.head? ≠ some openBrace) (emptyLast : Bool)
    (segments : List Text) :
    (Pattern.ofSegments [text]).accepts emptyLast (segments ++ [segment]) =
      decide (segments ++ [segment] = [text]) := by
  rw [Pattern.ofSegments, isCatchAll_literal htext, edgeOf_literal htext]
  cases segments with
  | nil => simp [Pattern.accepts, Pattern.ofSegments, beq_eq_decide, eq_comm]
  | cons first segments => simp [Pattern.accepts, Pattern.ofSegments]

theorem admitsLast_held (emptyLast : Bool) {field : Text} {pieces : List Piece}
    (hvalid : (bound field pieces).valid = true) (hlone : ¬(pieces = [.one] ∨ pieces = [.rest]))
    (hrest : Piece.rest ∉ pieces.dropLast) (hmounted : (bound field pieces).LastMounted text)
    (hcut : Cut verb segment value) (segments : List Text) :
    (bound field pieces).admitsLast text emptyLast verb segment value segments =
      fitsPieces pieces (segments ++ [value]) := by
  have hpieces : pieces ≠ [] ∧ pieces.all Piece.valid = true := by
    simp only [valid, Bool.and_eq_true, Bool.not_eq_true', List.isEmpty_eq_false_iff] at hvalid
    exact ⟨hvalid.1.2, hvalid.2⟩
  rw [admitsLast, held, if_neg hlone, Option.all_some]
  cases hfits : fitsPieces pieces (segments ++ [value]) with
  | false => rw [Bool.and_false]
  | true =>
      have hvalue : pieces.getLast? = some .rest ∨ value ≠ [] := by
        by_cases hlast : pieces.getLast? = some .rest
        · exact Or.inl hlast
        · exact Or.inr (ne_nil_of_fitsPieces hpieces.2 hlast hfits)
      have hverb : (!verb || endsInDoubleWildcard (bound field pieces).text ||
          !value.isEmpty) = true := by
        rcases hvalue with hlast | hvalue
        · rw [endsInDoubleWildcard_bound hvalid hlast, Bool.or_true, Bool.true_or]
        · rw [List.isEmpty_eq_false_iff.mpr hvalue, Bool.not_false, Bool.or_true]
      have hsome : ¬(segments = [] ∧ value = []) := by
        rintro ⟨rfl, rfl⟩
        rw [List.nil_append, fitsPieces_empty hpieces.1 hpieces.2 hrest,
          fitsPieces_nil hpieces.1 hpieces.2 hrest fun heq => hlone (Or.inr heq)] at hfits
        exact absurd hfits (by decide)
      have haccepts : (Pattern.ofSegments [text]).accepts emptyLast (segments ++ [segment]) = true := by
        by_cases hmany : 1 < pieces.length
        · rw [LastMounted, if_pos (Or.inr hmany)] at hmounted
          rw [accepts_catchAll hmounted]
          cases segments with
          | nil =>
              have hsegment : segment ≠ [] := fun heq => hsome ⟨rfl, hcut.eq_nil heq⟩
              simpa using hsegment
          | cons first segments => rfl
        · rw [LastMounted, if_neg fun h => hlone (h.elim Or.inr fun h => absurd h hmany)] at hmounted
          obtain ⟨piece, rfl⟩ : ∃ piece, pieces = [piece] := by
            cases pieces with
            | nil => exact absurd rfl hpieces.1
            | cons piece pieces =>
                cases pieces with
                | nil => exact ⟨piece, rfl⟩
                | cons next pieces => exact absurd (by simp) hmany
          have hnil : segments = [] := by
            cases segments with
            | nil => rfl
            | cons first segments => cases piece <;> simp [fitsPieces] at hfits hlone
          have hsegment : segment ≠ [] := fun heq => hsome ⟨hnil, hcut.eq_nil heq⟩
          rw [accepts_capture hmounted, hnil, List.isEmpty_eq_false_iff.mpr hsegment]
          rfl
      rw [haccepts, hverb, Bool.and_self, Bool.and_self]

theorem admitsLast_capture (htext : IsCapture text) (hcut : Cut verb segment value)
    (hheld : last.held = none) (hends : endsInDoubleWildcard last.text = false) (emptyLast : Bool)
    (segments : List Text) :
    last.admitsLast text emptyLast verb segment value segments =
      one.ends emptyLast verb (segments ++ [value]) := by
  rw [admitsLast, accepts_capture htext, hheld, hends]
  cases segments with
  | nil =>
      cases hcut with
      | whole => simp [ends]
      | verb value verb => simp [ends]
  | cons first segments => simp [ends]

theorem admitsLast_catchAll (htext : IsCatchAll text) (hcut : Cut verb segment value)
    (hheld : last.held = none) (hends : endsInDoubleWildcard last.text = true) (emptyLast : Bool)
    (segments : List Text) :
    last.admitsLast text emptyLast verb segment value segments =
      rest.ends emptyLast verb (segments ++ [value]) := by
  rw [admitsLast, accepts_catchAll htext, hheld, hends]
  cases segments with
  | nil =>
      cases hcut with
      | whole => cases segment <;> simp [ends]
      | verb value verb => simp [ends]
  | cons first segments => simp [ends]

theorem ends_bound {field : Text} {pieces : List Piece}
    (hlone : ¬(pieces = [.one] ∨ pieces = [.rest])) (emptyLast verb : Bool) (segments : List Text) :
    (bound field pieces).ends emptyLast verb segments = fitsPieces pieces segments := by
  unfold ends
  split <;> simp_all

/-- The three mechanisms together hold the last segment as it is read. -/
theorem admitsLast_eq (hvalid : last.valid = true) (hrest : last.RestLast)
    (hmounted : last.LastMounted text) (hcut : Cut verb segment value)
    (hliteral : verb = true → last.isLiteral = false) (emptyLast : Bool) (segments : List Text) :
    last.admitsLast text emptyLast verb segment value segments =
      last.ends emptyLast verb (segments ++ [value]) := by
  cases last with
  | literal word =>
      obtain ⟨rfl, hhead⟩ := hmounted
      cases hcut with
      | whole => simp [admitsLast, accepts_literal hhead, held, ends]
      | verb => exact absurd (hliteral rfl) (by simp [isLiteral])
  | one => exact admitsLast_capture hmounted hcut rfl (by decide) emptyLast segments
  | rest => exact admitsLast_catchAll hmounted hcut rfl (by decide) emptyLast segments
  | capture field =>
      have hends : endsInDoubleWildcard (capture field).text = false := by
        rw [endsInDoubleWildcard, isDoubleWildcard, fieldTemplate_text hvalid]
        rfl
      exact admitsLast_capture hmounted hcut rfl hends emptyLast segments
  | bound field pieces =>
      by_cases hlone : pieces = [.one] ∨ pieces = [.rest]
      · rcases hlone with rfl | rfl
        · have hends : endsInDoubleWildcard (bound field [.one]).text = false := by
            rw [endsInDoubleWildcard, isDoubleWildcard, fieldTemplate_text hvalid]
            rfl
          exact admitsLast_capture hmounted hcut rfl hends emptyLast segments
        · have hends := endsInDoubleWildcard_bound hvalid rfl
          exact admitsLast_catchAll hmounted hcut rfl hends emptyLast segments
      · rw [admitsLast_held emptyLast hvalid hlone hrest hmounted hcut, ends_bound hlone]

end Last

end TemplateSegment

end StructuredProxy
