import StructuredProxy.Lib.Fallible
import StructuredProxy.Transcode.RouterPath
import StructuredProxy.Transcode.Startup
import StructuredProxy.Transcode.TopLevel

/-!
# Paths the router can serve

Where the router can serve the path of a template, no literal has a brace and no name of a capture has
a slash, so the segments of the path are those the template was written as and the shape two bindings
share tells how many captures each has. The tables that serve hold bindings of such paths only.
-/

namespace StructuredProxy

def topSegments (template : Text) : List Text := splitTopLevel (MountedPath.splitVerb template).1

def pathSegments (template : Text) : List RouterSegment :=
  (topSegments template).zipIdx.flatMap (roundSegments ((topSegments template).length - 1))

def mountingOf (template : Text) : Mounting :=
  (topSegments template).zipIdx.foldl (Mounting.step ((topSegments template).length - 1)) {}

theorem writes_mountingOf (template : Text) :
    (mountingOf template).Writes (pathSegments template) := by
  have hwrites := Mounting.Writes.start.foldl ((topSegments template).length - 1)
    (topSegments template).zipIdx
  rwa [List.nil_append] at hwrites

/-- A segment `mountable` accepts: a literal without braces, or one variable. -/
def WholeSegment (piece : Text) : Prop :=
  hasBrace piece = false ∨
    ∃ inner, piece = openBrace :: inner ++ [closeBrace] ∧ hasBrace inner = false

theorem WholeSegment.closed {piece : Text} (h : WholeSegment piece) (hslash : slash ∉ piece) :
    Closed piece := by
  rcases h with hbrace | ⟨inner, rfl, hinner⟩
  · refine Closed.word ?_
    rw [isWord, List.all_eq_true]
    intro byte hbyte
    rw [hasBrace, Bool.or_eq_false_iff, List.contains_eq_mem, List.contains_eq_mem,
      decide_eq_false_iff_not, decide_eq_false_iff_not] at hbrace
    simp only [Bool.and_eq_true, decide_eq_true_eq]
    exact ⟨⟨fun heq => hslash (heq ▸ hbyte), fun heq => hbrace.1 (heq ▸ hbyte)⟩,
      fun heq => hbrace.2 (heq ▸ hbyte)⟩
  · exact Closed.braces hinner

theorem eq_of_braced {text inner : Text} (h : braced text = some inner) :
    text = openBrace :: inner ++ [closeBrace] := by
  obtain ⟨rest, hrest, hinner⟩ := Option.bind_eq_some_iff.mp h
  cases text with
  | nil => cases hrest
  | cons first text =>
      rw [stripPrefix] at hrest
      split at hrest
      · rename_i hfirst
        obtain rfl := Option.some.inj hrest
        rw [stripSuffix] at hinner
        split at hinner
        · rename_i hlast
          obtain rfl := Option.some.inj hinner
          rw [hfirst, List.cons_append, List.dropLast_append_getLast? _ hlast]
        · cases hinner
      · cases hrest

theorem wholeSegment_of_mountable (segments : List Text) : ∀ {count total : Nat},
    mountableSegments segments count = .ok total → ∀ segment ∈ segments, WholeSegment segment := by
  induction segments with
  | nil => intro count total _ segment hsegment; cases hsegment
  | cons first segments ih =>
      intro count total h segment hsegment
      rw [mountableSegments] at h
      cases hfind : first.findIdx? fun byte => byte = openBrace || byte = closeBrace with
      | none =>
          rw [hfind] at h
          rcases List.mem_cons.mp hsegment with rfl | hsegment
          · left
            rw [List.findIdx?_eq_none_iff] at hfind
            rw [hasBrace, Bool.or_eq_false_iff, List.contains_eq_mem, List.contains_eq_mem,
              decide_eq_false_iff_not, decide_eq_false_iff_not]
            exact ⟨fun hmem => absurd (hfind _ hmem) (by decide),
              fun hmem => absurd (hfind _ hmem) (by decide)⟩
          · exact ih h segment hsegment
      | some at_ =>
          rw [hfind] at h
          simp only at h
          split at h
          · cases h
          · rename_i hwhole
            rcases List.mem_cons.mp hsegment with rfl | hsegment
            · right
              rw [Bool.or_eq_true, not_or, Bool.not_eq_true, Bool.not_eq_true] at hwhole
              cases hinner : braced segment with
              | none =>
                  rw [hinner] at hwhole
                  cases hwhole.2
              | some inner =>
                  rw [hinner] at hwhole
                  exact ⟨inner, eq_of_braced hinner, hwhole.2⟩
            · exact ih h segment hsegment

variable {router : Matchit} {template : Text}

def Routable (router : Matchit) (template : Text) : Prop :=
  (MountedPath.new template).routable router = .ok ()

namespace Routable

theorem unsupported (h : Routable router template) : (mountingOf template).unsupported = none := by
  unfold Routable MountedPath.routable at h
  cases hunsupported : (MountedPath.new template).unsupported with
  | none => exact hunsupported
  | some reason =>
      rw [hunsupported] at h
      cases h

theorem wholeSegment (h : Routable router template) :
    ∀ piece ∈ (mountingOf template).axum.splitOn slash, WholeSegment piece := by
  have hmountable : mountable router (mountingOf template).axum = .ok () := by
    have hnone : (MountedPath.new template).unsupported = none := h.unsupported
    unfold Routable MountedPath.routable at h
    rw [hnone] at h
    exact h
  unfold mountable at hmountable
  dsimp only at hmountable
  by_cases hhead : (mountingOf template).axum.head? ≠ some slash
  · rw [if_pos hhead] at hmountable
    cases hmountable
  · rw [if_neg hhead] at hmountable
    cases hcolon : ((mountingOf template).axum.splitOn slash).any fun segment =>
        segment.head? = some colon || segment.head? = some star with
    | true =>
        rw [if_pos hcolon] at hmountable
        cases hmountable
    | false =>
        rw [if_neg (by rw [hcolon]; decide)] at hmountable
        obtain ⟨count, hcount, -⟩ := Lib.bind_eq_ok.mp hmountable
        exact wholeSegment_of_mountable _ hcount

end Routable

/-! ### Clean segments -/

theorem hasBrace_fieldTemplate {last : Nat} (items : List (Text × Nat)) : ∀ {m : Mounting},
    (items.foldl (Mounting.step last) m).unsupported = none →
      ∀ item ∈ items, (fieldTemplate item.1).any hasBrace = false := by
  induction items with
  | nil => intro m _ item hitem; cases hitem
  | cons first items ih =>
      intro m h item hitem
      rcases List.mem_cons.mp hitem with rfl | hitem
      · have hstep := Mounting.unsupported_foldl items h
        by_contra hbrace
        rw [Bool.not_eq_false] at hbrace
        obtain ⟨segment, idx⟩ := item
        have hnote : (m.note last segment idx).unsupported ≠ none := by
          unfold Mounting.note
          dsimp only
          rw [if_pos hbrace]
          split <;> exact Mounting.unsupported_refuse _ _ _ _
        unfold Mounting.step at hstep
        dsimp only at hstep
        split at hstep
        · split at hstep
          · rw [Mounting.unsupported_pushConverted] at hstep
            exact Mounting.unsupported_refuse _ _ _ _ hstep
          · rw [Mounting.unsupported_pushComposite] at hstep
            exact hnote hstep
        · rw [Mounting.unsupported_pushConverted] at hstep
          split at hstep
          · exact Mounting.unsupported_refuse _ _ _ _ hstep
          · exact hnote hstep
      · exact ih h item hitem

def RouterSegment.Clean : RouterSegment → Prop
  | literal text => slash ∉ text ∧ hasBrace text = false
  | capture opening name => (opening = [openBrace] ∨ opening = [openBrace, star]) ∧
      slash ∉ name ∧ hasBrace name = false

def NamedIn (segment name : Text) : Prop :=
  slash ∉ name ∨ ∃ field suffix tail, name = field ++ suffix ∧ slash ∉ suffix ∧
    segment = openBrace :: field ++ tail

theorem NamedIn.slash_notMem {segment name opening : Text} (h : NamedIn segment name)
    (hself : splitTopLevel segment = [segment])
    (hopening : opening = [openBrace] ∨ opening = [openBrace, star])
    (hwhole : ∀ piece ∈ (opening ++ name ++ [closeBrace]).splitOn slash, WholeSegment piece) :
    slash ∉ name := by
  rcases h with hname | ⟨field, suffix, tail, rfl, hsuffix, rfl⟩
  · exact hname
  intro hmem
  have hfield : slash ∈ field := (List.mem_append.mp hmem).resolve_right hsuffix
  cases hsplit : Lib.splitOnce slash field with
  | none => exact Lib.splitOnce_eq_none_iff.mp hsplit hfield
  | some parts =>
      obtain ⟨before, after⟩ := parts
      obtain ⟨rfl, hbefore⟩ := Lib.splitOnce_eq_some_iff.mp hsplit
      have hopen : slash ∉ opening ++ before := by
        intro hmem
        rcases List.mem_append.mp hmem with hmem | hmem
        · rcases hopening with rfl | rfl <;> exact absurd hmem (by decide)
        · exact hbefore hmem
      have hpiece : WholeSegment (opening ++ before) := by
        refine hwhole _ ?_
        have htext : opening ++ (before ++ slash :: after ++ suffix) ++ [closeBrace] =
            (opening ++ before) ++ slash :: (after ++ suffix ++ [closeBrace]) := by simp
        rw [htext, Lib.splitOn_append_cons,
          Lib.splitOn_of_splitOnce_none (Lib.splitOnce_eq_none_iff.mpr hopen)]
        exact List.mem_cons_self
      obtain ⟨inner, hinner, hbrace⟩ : ∃ inner, before = inner ++ [closeBrace] ∧
          hasBrace inner = false := by
        rcases hpiece with hnone | ⟨inner, hinner, hbrace⟩
        · rw [hasBrace_append, Bool.or_eq_false_iff] at hnone
          rcases hopening with rfl | rfl <;> exact absurd hnone.1 (by decide)
        · rcases hopening with rfl | rfl
          · exact ⟨inner, (List.cons.inj hinner).2, hbrace⟩
          · cases inner with
            | nil => exact absurd (List.cons.inj (List.cons.inj hinner).2).1 (by decide)
            | cons byte inner =>
                refine ⟨inner, (List.cons.inj (List.cons.inj hinner).2).2, ?_⟩
                rw [← List.singleton_append, hasBrace_append, Bool.or_eq_false_iff] at hbrace
                exact hbrace.2
      have hclosed : Closed (openBrace :: before) := by
        rw [hinner]
        exact Closed.braces hbrace
      have hcut : openBrace :: (before ++ slash :: after) ++ tail =
          openBrace :: before ++ slash :: (after ++ tail) := by simp
      exact not_closed_of_slash hself hcut hclosed

theorem wholeSegment_self {text : Text} (hslash : slash ∉ text)
    (hwhole : ∀ piece ∈ text.splitOn slash, WholeSegment piece) : WholeSegment text := by
  refine hwhole text ?_
  rw [Lib.splitOn_of_splitOnce_none (Lib.splitOnce_eq_none_iff.mpr hslash)]
  exact List.mem_singleton_self _

theorem clean_capture {segment name opening : Text} (h : NamedIn segment name)
    (hself : splitTopLevel segment = [segment])
    (hopening : opening = [openBrace] ∨ opening = [openBrace, star])
    (hwhole : ∀ piece ∈ (opening ++ name ++ [closeBrace]).splitOn slash, WholeSegment piece) :
    (RouterSegment.capture opening name).Clean := by
  have hname := h.slash_notMem hself hopening hwhole
  refine ⟨hopening, hname, ?_⟩
  have htext : slash ∉ opening ++ name ++ [closeBrace] := by
    rw [List.append_assoc]
    intro hmem
    rcases List.mem_append.mp hmem with hmem | hmem
    · rcases hopening with rfl | rfl <;> exact absurd hmem (by decide)
    · rcases List.mem_append.mp hmem with hmem | hmem
      · exact hname hmem
      · exact absurd hmem (by decide)
  rcases wholeSegment_self htext hwhole with hnone | ⟨inner, hinner, hbrace⟩
  · rw [hasBrace_append, Bool.or_eq_false_iff] at hnone
    exact absurd hnone.2 (by decide)
  · rcases hopening with rfl | rfl
    · have heq : name = inner := List.append_cancel_right (List.cons.inj hinner).2
      rwa [heq]
    · have htail : star :: name ++ [closeBrace] = inner ++ [closeBrace] := (List.cons.inj hinner).2
      have heq : star :: name = inner := List.append_cancel_right htail
      rw [← heq, ← List.singleton_append, hasBrace_append, Bool.or_eq_false_iff] at hbrace
      exact hbrace.2

theorem convertSegment_literal {segment text : Text} {idx : Nat} {isLast : Bool}
    (h : convertSegment segment idx isLast = .literal text) :
    text = segment ∧ braced segment = none := by
  unfold convertSegment at h
  cases hbraced : braced segment with
  | some inner =>
      rw [hbraced] at h
      simp only at h
      split at h
      · split at h
        · cases h
        · split at h
          · cases h
          · split at h <;> cases h
      · cases h
  | none =>
      rw [hbraced] at h
      simp only at h
      split at h
      · cases h
      · split at h
        · cases h
        · cases h
          exact ⟨rfl, rfl⟩

theorem namedIn_convertSegment {segment name : Text} {idx : Nat} {isLast catchAll : Bool}
    (h : convertSegment segment idx isLast = .capture name catchAll) : NamedIn segment name := by
  unfold convertSegment at h
  cases hbraced : braced segment with
  | some inner =>
      have hsegment := eq_of_braced hbraced
      rw [hbraced] at h
      simp only at h
      cases hsplit : Lib.splitOnce equals inner with
      | some bound =>
          obtain ⟨field, template⟩ := bound
          obtain ⟨rfl, -⟩ := Lib.splitOnce_eq_some_iff.mp hsplit
          have hname : name = field := by
            rw [hsplit] at h
            simp only at h
            split at h
            · cases h; rfl
            · split at h
              · cases h; rfl
              · split at h <;> · cases h; rfl
          refine Or.inr ⟨field, [], equals :: template ++ [closeBrace], ?_, List.not_mem_nil, ?_⟩
          · rw [hname, List.append_nil]
          · rw [hsegment]
            simp
      | none =>
          rw [hsplit] at h
          cases h
          exact Or.inr ⟨name, [], [closeBrace], (List.append_nil _).symm, List.not_mem_nil, hsegment⟩
  | none =>
      rw [hbraced] at h
      simp only at h
      left
      split at h
      · cases h
        exact (Mounts.decimalName idx).2
      · split at h
        · cases h
          exact (Mounts.decimalName idx).2
        · cases h

theorem clean_convertedSegment {segment : Text} {idx : Nat} {isLast : Bool}
    (hself : splitTopLevel segment = [segment])
    (hwhole : ∀ piece ∈ (convertedSegment segment idx isLast).text.splitOn slash, WholeSegment piece) :
    (convertedSegment segment idx isLast).Clean := by
  have hopening : ∀ catchAll : Bool, (if catchAll then [openBrace, star] else [openBrace]) = [openBrace] ∨
      (if catchAll then [openBrace, star] else [openBrace]) = [openBrace, star] := by
    intro catchAll
    cases catchAll
    · exact Or.inl rfl
    · exact Or.inr rfl
  unfold convertedSegment at hwhole ⊢
  cases hconvert : convertSegment segment idx isLast with
  | literal text =>
      rw [hconvert] at hwhole
      obtain ⟨rfl, hbraced⟩ := convertSegment_literal hconvert
      have hslash : slash ∉ text := by
        intro hmem
        cases hsplit : Lib.splitOnce slash text with
        | none => exact Lib.splitOnce_eq_none_iff.mp hsplit hmem
        | some parts =>
            obtain ⟨before, after⟩ := parts
            obtain ⟨htext, hbefore⟩ := Lib.splitOnce_eq_some_iff.mp hsplit
            have hpiece : WholeSegment before := by
              refine hwhole before ?_
              rw [RouterSegment.text, Lib.splitOn_of_splitOnce_some hsplit]
              exact List.mem_cons_self
            exact not_closed_of_slash hself htext (hpiece.closed hbefore)
      refine ⟨hslash, ?_⟩
      rcases wholeSegment_self hslash hwhole with hnone | ⟨inner, hinner, -⟩
      · exact hnone
      · rw [hinner, braced_braces] at hbraced
        cases hbraced
  | capture name catchAll =>
      rw [hconvert] at hwhole
      exact clean_capture (namedIn_convertSegment hconvert) hself (hopening catchAll) hwhole

theorem clean_partSegment {segment field template : Text} (hself : splitTopLevel segment = [segment])
    (hsegment : segment = openBrace :: field ++ equals :: template ++ [closeBrace])
    (hbrace : hasBrace template = false) {part : Text × Nat}
    (hpart : part ∈ (template.splitOn slash).zipIdx)
    (hwhole : ∀ piece ∈ (partSegment field part).text.splitOn slash, WholeSegment piece) :
    (partSegment field part).Clean := by
  unfold partSegment at hwhole ⊢
  split at hwhole
  · rename_i hcaptured
    rw [if_pos hcaptured]
    refine clean_capture (Or.inr ⟨field, [dot] ++ decimal part.2, equals :: template ++ [closeBrace],
      ?_, ?_, ?_⟩) hself (Or.inl rfl) hwhole
    · rw [List.append_assoc]
    · intro hmem
      rcases List.mem_append.mp hmem with hmem | hmem
      · exact absurd hmem (by decide)
      · exact (Mounts.decimalName part.2).2 hmem
    · rw [hsegment]
      simp
  · rename_i hcaptured
    rw [if_neg hcaptured]
    have hmem : part.1 ∈ template.splitOn slash := by
      obtain ⟨text, k⟩ := part
      exact List.fst_mem_of_mem_zipIdx hpart
    refine ⟨Lib.notMem_of_mem_splitOn hmem, ?_⟩
    rw [hasBrace, Bool.or_eq_false_iff, List.contains_eq_mem, List.contains_eq_mem,
      decide_eq_false_iff_not, decide_eq_false_iff_not] at hbrace ⊢
    exact ⟨fun hopen => hbrace.1 (Lib.mem_of_mem_splitOn hmem _ hopen),
      fun hclose => hbrace.2 (Lib.mem_of_mem_splitOn hmem _ hclose)⟩

theorem Routable.clean (h : Routable router template) :
    ∀ segment ∈ pathSegments template, segment.Clean := by
  intro segment hsegment
  have hwhole : ∀ piece ∈ segment.text.splitOn slash, WholeSegment piece := by
    intro piece hpiece
    refine h.wholeSegment piece ?_
    have hne : (pathSegments template).map RouterSegment.text ≠ [] := by
      intro hnil
      rw [List.map_eq_nil_iff.mp hnil] at hsegment
      cases hsegment
    rw [(writes_mountingOf template).axum, Lib.splitOn_intercalate_flatMap hne]
    exact List.mem_flatMap.mpr ⟨_, List.mem_map_of_mem hsegment, hpiece⟩
  obtain ⟨⟨text, idx⟩, hitem, hround⟩ := List.mem_flatMap.mp hsegment
  have hself : splitTopLevel text = [text] := splitTopLevel_self (List.fst_mem_of_mem_zipIdx hitem)
  have hbrace := hasBrace_fieldTemplate _ h.unsupported (text, idx) hitem
  unfold roundSegments at hround
  cases hbound : ((braced text).bind (Lib.splitOnce equals)).filter fun bound =>
      idx ≠ (topSegments template).length - 1 && bound.2 ≠ wildcard with
  | none =>
      simp only [hbound] at hround
      rw [List.mem_singleton.mp hround] at hwhole ⊢
      exact clean_convertedSegment hself hwhole
  | some bound =>
      simp only [hbound] at hround
      split at hround
      · rw [List.mem_singleton.mp hround] at hwhole ⊢
        exact clean_convertedSegment hself hwhole
      · obtain ⟨part, hpart, rfl⟩ := List.mem_map.mp hround
        obtain ⟨hsome, -⟩ := Option.filter_eq_some_iff.mp hbound
        obtain ⟨inner, hinner, hsplit⟩ := Option.bind_eq_some_iff.mp hsome
        have htemplate : fieldTemplate text = some bound.2 := by rw [fieldTemplate, hsome]; rfl
        obtain ⟨heq, -⟩ := Lib.splitOnce_eq_some_iff.mp hsplit
        rw [htemplate] at hbrace
        refine clean_partSegment hself ?_ hbrace hpart hwhole
        rw [eq_of_braced hinner, heq]
        simp

theorem count_intercalate {byte : UInt8} (hbyte : byte ≠ slash) (texts : List Text) :
    ([slash].intercalate texts).count byte = (texts.map (List.count byte)).sum := by
  induction texts with
  | nil => rfl
  | cons first rest ih =>
      cases rest with
      | nil => simp
      | cons second rest =>
          have hslash : [slash].count byte = 0 :=
            List.count_eq_zero.mpr fun hmem => hbyte (List.mem_singleton.mp hmem)
          rw [List.intercalate_cons_cons, List.count_append, List.count_append, ih, hslash,
            Nat.add_zero]
          rfl

theorem count_shape {segment : RouterSegment} (h : segment.Clean) :
    segment.shape.count closeBrace = segment.name?.toList.length := by
  cases segment with
  | literal text =>
      obtain ⟨-, hbrace⟩ := h
      rw [hasBrace, Bool.or_eq_false_iff, List.contains_eq_mem, List.contains_eq_mem,
        decide_eq_false_iff_not, decide_eq_false_iff_not] at hbrace
      exact List.count_eq_zero.mpr hbrace.2
  | capture opening name =>
      obtain ⟨rfl | rfl, -⟩ := h
      · rfl
      · rfl

theorem Routable.length_captures (h : Routable router template) :
    (MountedPath.new template).captures.length = (MountedPath.new template).shape.count closeBrace := by
  have hsum : ∀ segments : List RouterSegment, (∀ segment ∈ segments, segment.Clean) →
      ((segments.map RouterSegment.shape).map (List.count closeBrace)).sum =
        (segments.filterMap RouterSegment.name?).length := by
    intro segments
    induction segments with
    | nil => intro _; rfl
    | cons first rest ih =>
        intro hclean
        have hrest := ih fun segment hsegment => hclean segment (List.mem_cons_of_mem _ hsegment)
        rw [List.map_cons, List.map_cons, List.sum_cons, hrest,
          count_shape (hclean first List.mem_cons_self), List.filterMap_cons]
        cases first.name? <;> simp [Nat.add_comm]
  have hwrites := writes_mountingOf template
  change (mountingOf template).captures.length = (mountingOf template).shape.count closeBrace
  rw [hwrites.captures, hwrites.shape, count_intercalate (by decide), hsum _ h.clean]

/-! ### The tables -/

variable {decoder : PercentDecoder}

def RouteBinding.Servable (router : Matchit) (shape : Text) (binding : RouteBinding) : Prop :=
  ∃ template, binding.mount = MountedPath.new template ∧ Routable router template ∧
    binding.mount.shape = shape

def PathTable.Built (decoder : PercentDecoder) (router : Matchit) (shape : Text) (table : PathTable) :
    Prop :=
  ∃ group, (∀ binding ∈ group, binding.Servable router shape) ∧
    Lib.Grouping.build (tableOf decoder) (addTo decoder) group = some table

/-- The tables that serve are of this kind. -/
theorem built_of_mem_pathTables {uri : UriParser} {pool : DescriptorPool} {aliases : List AliasConfig}
    {selection : RpcSelection} {table : PathTable}
    (h : table ∈ pathTables decoder router uri pool aliases selection) :
    ∃ shape, table.Built decoder router shape := by
  obtain ⟨group, hgroup, hbuild⟩ :=
    Lib.exists_of_mem_forall₂ (forall₂_pathTables decoder router uri pool aliases selection).flip h
  have hmem := mem_of_mem_retainMountable hgroup
  rw [Lib.grouped_lists] at hmem
  obtain ⟨shape, -, rfl⟩ := List.mem_map.mp hmem
  refine ⟨shape, _, fun binding hbinding => ?_, hbuild⟩
  obtain ⟨hbinding, hshape⟩ := List.mem_filter.mp hbinding
  obtain ⟨entry, -, hentry⟩ := List.mem_flatMap.mp hbinding
  obtain ⟨mount, hmount, rfl⟩ := List.mem_map.mp hentry
  obtain ⟨hmount, hroutable⟩ := List.mem_filter.mp hmount
  have htemplate : ∃ template, mount = MountedPath.new template := by
    rcases List.mem_append.mp hmount with hmount | hmount
    · obtain ⟨config, -, hconfig⟩ := List.mem_filterMap.mp hmount
      obtain ⟨suffix, -, hsuffix⟩ := Option.bind_eq_some_iff.mp hconfig
      split at hsuffix
      · exact ⟨_, (Option.some.inj hsuffix).symm⟩
      · cases hsuffix
    · exact ⟨_, List.mem_singleton.mp hmount⟩
  obtain ⟨template, rfl⟩ := htemplate
  refine ⟨template, rfl, ?_, of_decide_eq_true hshape⟩
  unfold Routable
  cases hresult : (MountedPath.new template).routable router with
  | ok done => rfl
  | error reason =>
      rw [hresult] at hroutable
      cases hroutable

structure PathTable.Named (decoder : PercentDecoder) (table : PathTable) (group : List RouteBinding) :
    Prop where
  first : ∃ binding ∈ group, table.path = binding.mount.axum ∧ table.captures = binding.mount.captures
  bindings : ∀ held ∈ table.bindings, ∃ binding ∈ group, ∃ names,
    held = Binding.ofMount decoder binding.mount binding.entry names ∧
      names.getD table.captures = binding.mount.captures

theorem PathTable.Named.of_build {group : List RouteBinding} {table : PathTable}
    (hbuild : Lib.Grouping.build (tableOf decoder) (addTo decoder) group = some table) :
    table.Named decoder group := by
  refine Lib.Grouping.build_induct ?_ ?_ hbuild
  · intro binding
    refine ⟨⟨binding, by simp, rfl, rfl⟩, fun held hheld => ?_⟩
    exact ⟨binding, by simp, none, List.mem_singleton.mp hheld, rfl⟩
  · rintro group binding before - ⟨⟨first, hfirst, hpath, hcaptures⟩, hbindings⟩
    have hkept : ∀ held ∈ before.bindings, ∃ other ∈ group ++ [binding], ∃ names,
        held = Binding.ofMount decoder other.mount other.entry names ∧
          names.getD before.captures = other.mount.captures := by
      intro held hheld
      obtain ⟨other, hother, hnames⟩ := hbindings held hheld
      exact ⟨other, List.mem_append_left _ hother, hnames⟩
    simp only [addTo, PathTable.add]
    split
    · exact ⟨⟨first, List.mem_append_left _ hfirst, hpath, hcaptures⟩, hkept⟩
    · refine ⟨⟨first, List.mem_append_left _ hfirst, hpath, hcaptures⟩, fun held hheld => ?_⟩
      rcases (List.mem_insertIdx (PathTable.place_le _ _)).mp hheld with rfl | hheld
      · refine ⟨binding, List.mem_append_right _ List.mem_cons_self, _, rfl, ?_⟩
        split
        · rfl
        · rename_i hsame
          exact (not_not.mp hsame).symm
      · exact hkept held hheld

structure PathTable.Mounts (decoder : PercentDecoder) (router : Matchit) (table : PathTable)
    (binding : Binding) (template first : Text) : Prop where
  routable : Routable router template
  routable_first : Routable router first
  shape_eq : (MountedPath.new first).shape = (MountedPath.new template).shape
  path_eq : table.path = (MountedPath.new first).axum
  captures_eq : table.captures = (MountedPath.new first).captures
  binding_eq : ∃ entry names, binding = Binding.ofMount decoder (MountedPath.new template) entry names ∧
    names.getD table.captures = (MountedPath.new template).captures

theorem PathTable.Built.exists_mounts {shape : Text} {table : PathTable}
    (h : table.Built decoder router shape) {binding : Binding} (hbinding : binding ∈ table.bindings) :
    ∃ template first, table.Mounts decoder router binding template first := by
  obtain ⟨group, hgroup, hbuild⟩ := h
  obtain ⟨⟨held, hheld, hpath, hcaptures⟩, hbindings⟩ := PathTable.Named.of_build hbuild
  obtain ⟨own, hown, names, hbinding, hnames⟩ := hbindings binding hbinding
  obtain ⟨template, htemplate, hroutable, hshape⟩ := hgroup own hown
  obtain ⟨first, hfirst, hroutable', hshape'⟩ := hgroup held hheld
  rw [hfirst] at hpath hcaptures hshape'
  rw [htemplate] at hbinding hnames hshape
  exact ⟨template, first, hroutable, hroutable', hshape'.trans hshape.symm, hpath, hcaptures,
    own.entry, names, hbinding, hnames⟩

theorem PathTable.Mounts.length_captures {table : PathTable} {binding : Binding} {template first : Text}
    (h : table.Mounts decoder router binding template first) :
    (MountedPath.new template).captures.length = table.captures.length := by
  rw [h.captures_eq, h.routable.length_captures, h.routable_first.length_captures, h.shape_eq]

end StructuredProxy
