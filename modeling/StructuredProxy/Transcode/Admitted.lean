import StructuredProxy.Transcode.Admission

/-!
# Admitted requests are the ones a template reads

The router path, the verb test and `fits` together, against the reading of the template.
-/

namespace StructuredProxy

/-- Whether the binding of `entry` at `mount` may answer `path`: an index of its router path lists it,
and it is one of the bindings `choose_ranked` asks. -/
def admitted (decoder : PercentDecoder) (emptyLast : Bool) (mount : MountedPath) (entry : RouteEntry)
    (names : Option (List Text)) (path : Text) : Bool :=
  ((Index.ofPaths emptyLast [(mount.axum, 0)]).first path).isSome &&
    (Routes.isPlain path (Binding.ofMount decoder mount entry names) ||
      Routes.isBoundFor path (Binding.ofMount decoder mount entry names))

theorem isSome_first_single (emptyLast : Bool) (axum path : Text) :
    ((Index.ofPaths emptyLast [(axum, 0)]).first path).isSome =
      (Pattern.ofPath axum).acceptsPath emptyLast path := by
  have hshapes : Index.DistinctShapes [(axum, 0)] := List.nodup_singleton _
  have hranking := Index.ofPaths_isRanking emptyLast hshapes path
  have hmem : (Pattern.ofPath axum).acceptsPath emptyLast path = true ↔
      (Index.ofPaths emptyLast [(axum, 0)]).found path ≠ [] := by
    constructor
    · intro haccepts hnil
      have hentry : (Pattern.ofPath axum, 0) ∈ (Index.ofPaths emptyLast [(axum, 0)]).found path :=
        hranking.mem_iff.mpr ⟨List.mem_singleton_self _, haccepts⟩
      rw [hnil] at hentry
      exact absurd hentry List.not_mem_nil
    · intro hne
      obtain ⟨entry, hentry⟩ := List.exists_mem_of_ne_nil _ hne
      obtain ⟨hsingle, haccepts⟩ := hranking.mem_iff.mp hentry
      obtain rfl := List.mem_singleton.mp hsingle
      exact haccepts
  rw [Bool.eq_iff_iff, hmem, Index.first_eq, Index.listing_eq]
  simp

theorem zip_concat_of_le {α β : Type*} {first : List α} {second : List β}
    (hle : first.length ≤ second.length) (item : β) :
    first.zip (second ++ [item]) = first.zip second := by
  induction first generalizing second with
  | nil => rfl
  | cons head first ih =>
      cases second with
      | nil => exact absurd hle (by simp)
      | cons next second =>
          rw [List.cons_append, List.zip_cons_cons, List.zip_cons_cons, ih (Nat.le_of_succ_le_succ hle)]

theorem getLast?_pathOf_concat (segments : List Text) {value : Text} (hslash : slash ∉ value) :
    (pathOf (segments ++ [value])).getLast? = some slash ↔ value = [] := by
  rw [pathOf_concat]
  constructor
  · intro hlast
    by_contra hne
    rw [List.getLast?_append_of_ne_nil _ hne] at hlast
    exact hslash (List.mem_of_getLast? hlast)
  · rintro rfl
    simp

theorem eq_pathOf_of_stripPrefix {path rest : Text} (hstrip : stripPrefix slash path = some rest) :
    path = pathOf (rest.splitOn slash) := by
  rw [pathOf_splitOn]
  cases path with
  | nil => exact absurd hstrip (by simp [stripPrefix])
  | cons byte path =>
      rw [stripPrefix] at hstrip
      split at hstrip
      · rename_i hbyte
        rw [hbyte, Option.some.inj hstrip]
      · exact absurd hstrip (by simp)

namespace HttpTemplate

variable {decoder : PercentDecoder} {template : HttpTemplate} {mount : MountedPath} {emptyLast : Bool}

def fitsFront (template : HttpTemplate) (segments : List Text) : Bool :=
  (template.items.zip segments).all fun (item, segment) => item.fits segment

theorem fitsFront_eq (segments : List Text) : template.fitsFront segments =
    ((template.items.zip segments).all (fun (item, segment) => item.routed segment) &&
      (template.items.zip segments).all (fun (item, segment) => item.checked segment)) := by
  simp only [fitsFront, Item.fits_eq]
  induction template.items.zip segments with
  | nil => rfl
  | cons pair pairs ih =>
      rw [List.all_cons, List.all_cons, List.all_cons, ih]
      ac_rfl

theorem accepts_ofPath (h : template.MountedAs mount) (emptyLast : Bool) :
    ∃ last, template.last.LastMounted last ∧ ∀ segments,
      (Pattern.ofPath mount.axum).accepts emptyLast segments =
        (decide (template.items.length ≤ segments.length) &&
          (template.items.zip segments).all (fun (item, segment) => item.routed segment) &&
          (Pattern.ofSegments [last]).accepts emptyLast (segments.drop template.items.length)) := by
  obtain ⟨texts, last, haxum, hmounted, hlast, hslash⟩ := h.axum
  refine ⟨last, hlast, fun segments => ?_⟩
  cases hmounted with
  | @cons _ first _ texts hfirst hrest =>
      obtain ⟨rfl, -⟩ := hfirst
      have hsegments : routerSegments mount.axum = texts ++ [last] := by
        have hne : texts ++ [last] ≠ [] := by simp
        rw [routerSegments, haxum, List.cons_append, List.intercalate_cons_of_ne_nil hne]
        refine List.splitOn_intercalate slash ?_ hne
        intro text htext
        exact hslash text (List.mem_cons_of_mem _ htext)
      rw [Pattern.ofPath, hsegments, accepts_ofSegments hrest]

theorem fitsLiterals_eq (h : template.MountedAs mount) {segments : List Text}
    (hle : template.items.length ≤ segments.length) :
    fitsLiterals (normalizedLiterals mount.literals) ([] :: segments) 0 =
      (template.items.zip segments).all (fun (item, segment) => item.checked segment) := by
  have hliterals := fitsLiterals_escapes template.allItems 0 0 ([] :: segments)
    (Nat.le_refl _) (Nat.succ_le_succ hle)
  rw [h.literals, hliterals]
  rfl

theorem fits_ofMount (h : template.MountedAs mount) (entry : RouteEntry)
    (names : Option (List Text)) {segments : List Text} {segment value : Text} {verb : Bool}
    (hcut : Cut verb segment value) (hslash : ∀ part ∈ segments ++ [segment], slash ∉ part)
    (hcount : template.items.length ≤ segments.length)
    (hend : (Binding.ofMount decoder mount entry names).valueEnd (pathOf (segments ++ [segment])) =
      some (pathOf (segments ++ [value])).length) :
    (Binding.ofMount decoder mount entry names).fits (pathOf (segments ++ [segment])) =
      (fitsLiterals (normalizedLiterals mount.literals) ([] :: (segments ++ [segment])) 0 &&
        template.last.held.all fun pieces =>
          fitsPieces pieces (segments.drop template.items.length ++ [value])) := by
  have hsplit : (pathOf (segments ++ [segment])).splitOn slash = [] :: (segments ++ [segment]) := by
    refine List.splitOn_intercalate slash ?_ (List.cons_ne_nil _ _)
    intro part hmem
    rcases List.mem_cons.mp hmem with rfl | hmem
    · exact List.not_mem_nil
    · exact hslash part hmem
  have htemplate : mount.lastTemplate =
      template.last.held.map fun pieces => pieces.map Piece.text := by
    rw [h.lastTemplate, TemplateSegment.lastTemplate_eq template.last_valid]
  rw [Binding.fits, hsplit]
  congr 1
  cases hheld : template.last.held with
  | none =>
      have hnone : (Binding.ofMount decoder mount entry names).template = none := by
        simp [Binding.ofMount, Template.of, htemplate, hheld]
      rw [hnone]
      rfl
  | some pieces =>
      obtain ⟨hne, hvalid, hrest⟩ := TemplateSegment.held_spec template.last_valid h.restLast hheld
      have hsome : (Binding.ofMount decoder mount entry names).template =
          some ⟨pieces.map Piece.text, (pieces.map Piece.text).map normalizeEscapes,
            mount.lastSegment, rfl⟩ := by
        simp [Binding.ofMount, Template.of, htemplate, hheld]
      have hvalue : ∀ part ∈ segments.drop template.items.length ++ [value], slash ∉ part := by
        intro part hmem
        rcases List.mem_append.mp hmem with hmem | hmem
        · exact hslash part (List.mem_append_left _ (List.mem_of_mem_drop hmem))
        · rw [List.mem_singleton.mp hmem]
          exact hcut.slash_notMem (hslash segment (List.mem_append_right _ List.mem_cons_self))
      simp only [hsome, Option.all_some]
      rw [fitsTemplate_eq hcut hslash hcount h.lastSegment hend]
      exact follows_value hne hvalid hrest (by simp) hvalue

/-- The verb test of `choose_ranked` cuts the request where the reading does. -/
theorem isBoundFor_eq (h : template.MountedAs mount) (entry : RouteEntry)
    (names : Option (List Text)) {verb : Text} (hverb : template.verb = some verb)
    (segments : List Text) {segment : Text} (hslash : slash ∉ segment) :
    Routes.isBoundFor (pathOf (segments ++ [segment])) (Binding.ofMount decoder mount entry names) =
      match Lib.splitOnce colon segment with
      | none => false
      | some (value, cut) =>
          (decide (normalizeEscapes (colon :: cut) = normalizeEscapes (colon :: verb)) &&
            (endsInDoubleWildcard template.last.text || !value.isEmpty)) &&
          (Binding.ofMount decoder mount entry names).fits (pathOf (segments ++ [segment])) := by
  unfold Routes.isBoundFor
  rw [splitVerb_pathOf segments hslash]
  cases hsplit : Lib.splitOnce colon segment with
  | none => rfl
  | some parts =>
      obtain ⟨value, cut⟩ := parts
      have hown : (Binding.ofMount decoder mount entry names).verb =
          some (Verb.new decoder (colon :: verb) (endsInDoubleWildcard template.last.text)) := by
        simp [Binding.ofMount, h.verb, hverb, h.emptyLast]
      obtain ⟨rfl, -⟩ := Lib.splitOnce_eq_some_iff.mp hsplit
      have hends := getLast?_pathOf_concat segments
        (fun hmem => hslash (List.mem_append_left (colon :: cut) hmem))
      simp only [Option.map_some, Routes.isBound, hown, Option.any_some, Verb.new]
      congr 2
      · rw [decide_eq_decide, eq_comm]
      · simp only [ne_eq, hends]
        cases value <;> rfl

theorem valueEnd_ofMount (decoder : PercentDecoder) (h : template.MountedAs mount) (entry : RouteEntry)
    (names : Option (List Text)) (segments : List Text) {segment : Text} (hslash : slash ∉ segment) :
    (Binding.ofMount decoder mount entry names).valueEnd (pathOf (segments ++ [segment])) =
      match template.verb with
      | none => some (pathOf (segments ++ [segment])).length
      | some _ => (Lib.splitOnce colon segment).map fun parts =>
          (pathOf (segments ++ [parts.1])).length := by
  have hown : (Binding.ofMount decoder mount entry names).verb =
      template.verb.map fun verb => Verb.new decoder (colon :: verb) mount.emptyLast := by
    simp [Binding.ofMount, h.verb]
    rfl
  unfold Binding.valueEnd
  rw [hown, splitVerb_pathOf segments hslash]
  cases template.verb with
  | none => rfl
  | some verb => cases Lib.splitOnce colon segment <;> rfl

theorem ends_nil (hvalid : template.last.valid = true) (hrest : template.last.RestLast) (verb : Bool) :
    template.last.ends emptyLast verb [] = false := by
  cases hlast : template.last with
  | bound field pieces =>
      rw [hlast] at hvalid hrest
      by_cases hlone : pieces = [.one] ∨ pieces = [.rest]
      · rcases hlone with rfl | rfl <;> rfl
      · simp only [TemplateSegment.valid, Bool.and_eq_true, Bool.not_eq_true',
          List.isEmpty_eq_false_iff] at hvalid
        rw [TemplateSegment.ends_bound hlone]
        exact fitsPieces_nil hvalid.1.2 hvalid.2 hrest fun heq => hlone (Or.inr heq)
  | _ => rfl

theorem admits_cut (h : template.MountedAs mount) (emptyLast : Bool) (entry : RouteEntry)
    (names : Option (List Text)) {segments : List Text} {segment value : Text}
    (hcut : Cut template.verb.isSome segment value)
    (hslash : ∀ part ∈ segments ++ [segment], slash ∉ part)
    (hend : (Binding.ofMount decoder mount entry names).valueEnd (pathOf (segments ++ [segment])) =
      some (pathOf (segments ++ [value])).length) :
    ((Pattern.ofPath mount.axum).accepts emptyLast (segments ++ [segment]) &&
      ((!template.verb.isSome || endsInDoubleWildcard template.last.text || !value.isEmpty) &&
        (Binding.ofMount decoder mount entry names).fits (pathOf (segments ++ [segment])))) =
      (decide (template.items.length ≤ (segments ++ [value]).length) &&
        template.fitsFront (segments ++ [value]) &&
        template.last.ends emptyLast template.verb.isSome
          ((segments ++ [value]).drop template.items.length)) := by
  obtain ⟨last, hlast, haccepts⟩ := accepts_ofPath h emptyLast
  have hliteral : template.verb.isSome = true → template.last.isLiteral = false := by
    intro hsome
    obtain ⟨verb, hverb⟩ := Option.isSome_iff_exists.mp hsome
    have hvalid := template.verb_valid
    rw [hverb] at hvalid
    simpa using (Bool.and_eq_true_iff.mp hvalid).2
  by_cases hcount : template.items.length ≤ segments.length
  · have hlast := TemplateSegment.admitsLast_eq template.last_valid h.restLast hlast hcut hliteral
      emptyLast (segments.drop template.items.length)
    have hfront : ∀ part : Text, template.fitsFront (segments ++ [part]) =
        template.fitsFront segments := by
      intro part
      rw [fitsFront, zip_concat_of_le hcount, fitsFront]
    have hdrop : ∀ part : Text, (segments ++ [part]).drop template.items.length =
        segments.drop template.items.length ++ [part] := fun part =>
      List.drop_append_of_le_length hcount
    have hle : ∀ part : Text, decide (template.items.length ≤ (segments ++ [part]).length) = true := by
      intro part
      rw [List.length_append]
      exact decide_eq_true (Nat.le_add_right_of_le hcount)
    rw [haccepts, fits_ofMount h entry names hcut hslash hcount hend, hle, hle, hfront value,
      ← hfront segment, fitsFront_eq, hdrop, hdrop, ← hlast, TemplateSegment.admitsLast,
      fitsLiterals_eq h (of_decide_eq_true (hle segment))]
    ac_rfl
  · have hnone : ∀ part : Text, (segments ++ [part]).drop template.items.length = [] := by
      intro part
      rw [List.drop_eq_nil_iff, List.length_append, List.length_singleton]
      omega
    have hnil := accepts_ofSegments_concat_nil emptyLast [] last
    rw [List.nil_append] at hnil
    rw [haccepts, hnone, hnone, hnil, ends_nil template.last_valid h.restLast]
    simp

theorem unsupported_eq_none {router : Matchit} (hroutable : mount.routable router = .ok ()) :
    mount.unsupported = none := by
  rw [MountedPath.routable] at hroutable
  split at hroutable
  · exact absurd hroutable (by simp)
  · assumption

section Segments

variable (h : template.MountedAs mount) (entry : RouteEntry) (names : Option (List Text))
  {segments : List Text} {segment : Text} (hslash : ∀ part ∈ segments ++ [segment], slash ∉ part)
include h hslash

theorem admits_plain (hverb : template.verb = none) :
    ((Pattern.ofPath mount.axum).accepts emptyLast (segments ++ [segment]) &&
      (Routes.isPlain (pathOf (segments ++ [segment])) (Binding.ofMount decoder mount entry names) ||
        Routes.isBoundFor (pathOf (segments ++ [segment])) (Binding.ofMount decoder mount entry names))) =
      (decide (template.items.length ≤ (segments ++ [segment]).length) &&
        template.fitsFront (segments ++ [segment]) &&
        template.last.ends emptyLast false
          ((segments ++ [segment]).drop template.items.length)) := by
  have hown : (Binding.ofMount decoder mount entry names).verb = none := by
    simp [Binding.ofMount, h.verb, hverb]
  have hbound : Routes.isBoundFor (pathOf (segments ++ [segment]))
      (Binding.ofMount decoder mount entry names) = false := by
    unfold Routes.isBoundFor
    split
    · simp [Routes.isBound, hown]
    · rfl
  have hend := valueEnd_ofMount decoder h entry names segments
    (hslash segment (List.mem_append_right _ List.mem_cons_self))
  have hcut : Cut template.verb.isSome segment segment := by
    rw [hverb]
    exact Cut.whole segment
  rw [hverb] at hend
  have hcore := admits_cut h emptyLast entry names hcut hslash hend
  rw [hverb] at hcore
  rw [hbound, Bool.or_false, Routes.isPlain, hown]
  exact hcore

theorem admits_verb {verb : Text} (hverb : template.verb = some verb) :
    ((Pattern.ofPath mount.axum).accepts emptyLast (segments ++ [segment]) &&
      (Routes.isPlain (pathOf (segments ++ [segment])) (Binding.ofMount decoder mount entry names) ||
        Routes.isBoundFor (pathOf (segments ++ [segment])) (Binding.ofMount decoder mount entry names))) =
      match (Lib.splitOnce colon segment).filter fun parts =>
          normalizeEscapes (colon :: parts.2) = normalizeEscapes (colon :: verb) with
      | none => false
      | some (value, _) =>
          decide (template.items.length ≤ (segments ++ [value]).length) &&
            template.fitsFront (segments ++ [value]) &&
            template.last.ends emptyLast true ((segments ++ [value]).drop template.items.length) := by
  have hsegment := hslash segment (List.mem_append_right _ List.mem_cons_self)
  have hplain : Routes.isPlain (pathOf (segments ++ [segment]))
      (Binding.ofMount decoder mount entry names) = false := by
    simp [Routes.isPlain, Binding.ofMount, h.verb, hverb]
  have hend := valueEnd_ofMount decoder h entry names segments hsegment
  rw [hverb] at hend
  rw [hplain, Bool.false_or, isBoundFor_eq h entry names hverb segments hsegment]
  cases hsplit : Lib.splitOnce colon segment with
  | none => rw [Option.filter_none, Bool.and_false]
  | some parts =>
      obtain ⟨value, cut⟩ := parts
      have hcut : Cut template.verb.isSome segment value := by
        rw [hverb, (Lib.splitOnce_eq_some_iff.mp hsplit).1]
        exact Cut.verb value cut
      rw [hsplit] at hend
      have hcore := admits_cut h emptyLast entry names hcut hslash hend
      rw [hverb] at hcore
      by_cases hsame : normalizeEscapes (colon :: cut) = normalizeEscapes (colon :: verb)
      · rw [Option.filter_some_pos (by simpa using hsame)]
        simp only [decide_eq_true hsame, Bool.true_and]
        exact hcore
      · rw [Option.filter_some_neg (by simpa using hsame)]
        simp only [decide_eq_false hsame, Bool.false_and, Bool.and_false]

end Segments

/-- A binding whose template the router can hold is admitted for exactly the requests the template
reads. -/
theorem admitted_eq_reads (decoder : PercentDecoder) (router : Matchit) (template : HttpTemplate)
    (hroutable : (MountedPath.new template.text).routable router = .ok ()) (emptyLast : Bool)
    (entry : RouteEntry) (names : Option (List Text)) (path : Text) :
    admitted decoder emptyLast (MountedPath.new template.text) entry names path =
      template.reads emptyLast path := by
  have h := template.mountedAs_new (unsupported_eq_none hroutable)
  generalize MountedPath.new template.text = mount at h
  rw [admitted, isSome_first_single, Pattern.acceptsPath, reads]
  cases hstrip : stripPrefix slash path with
  | none => rfl
  | some rest =>
      obtain rfl := eq_pathOf_of_stripPrefix hstrip
      have hslash : ∀ part ∈ rest.splitOn slash, slash ∉ part := fun part hpart =>
        Lib.notMem_of_mem_splitOn hpart
      obtain ⟨segments, segment, hsegments⟩ : ∃ segments segment,
          rest.splitOn slash = segments ++ [segment] :=
        ⟨_, _, (List.dropLast_append_getLast (List.splitOn_ne_nil _ _)).symm⟩
      simp only [Option.bind_some, hsegments] at hslash ⊢
      cases hverb : template.verb with
      | none => exact admits_plain h entry names hslash hverb
      | some verb =>
          rw [admits_verb h entry names hslash hverb, cutVerb, List.getLastD_concat,
            List.dropLast_concat]
          cases (Lib.splitOnce colon segment).filter fun parts =>
            normalizeEscapes (colon :: parts.2) = normalizeEscapes (colon :: verb) <;> rfl

/-- The template `/v1/{name=shelves/*/**}:cancel`. -/
def shelves : HttpTemplate where
  front := [.literal (str "v1")]
  last := .bound (str "name") [.literal (str "shelves"), .one, .rest]
  verb := some (str "cancel")
  front_valid := by decide
  last_valid := by decide
  verb_valid := by decide

theorem admitted_eq_reads_shelves :
    (MountedPath.new shelves.text).routable ⟨fun _ _ => none⟩ = .ok () ∧
      admitted percentDecoder false (MountedPath.new shelves.text) ⟨shelves.text, .any, []⟩ none
        (str "/v1/shelves/1/books/2:cancel") = true :=
  ⟨by decide +kernel,
    (admitted_eq_reads percentDecoder ⟨fun _ _ => none⟩ shelves (by decide +kernel) false _ none _).trans
      (by decide +kernel)⟩

def loneWildcard : HttpTemplate where
  front := [.literal (str "v1")]
  last := .bound (str "name") [.one]
  verb := none
  front_valid := by decide
  last_valid := by decide
  verb_valid := rfl

/-- A lone `*` of a last field template takes an empty segment where a capture does, though inside a
field template `*` takes none. -/
theorem admitted_loneWildcard_empty :
    (MountedPath.new loneWildcard.text).routable ⟨fun _ _ => none⟩ = .ok () ∧
      admitted percentDecoder true (MountedPath.new loneWildcard.text) ⟨loneWildcard.text, .any, []⟩ none
        (str "/v1/") = true ∧
      (str "/v1/").splitOn slash = [[], str "v1", []] ∧ fitsPieces [.one] [[]] = false := by
  decide +kernel

end HttpTemplate

end StructuredProxy
