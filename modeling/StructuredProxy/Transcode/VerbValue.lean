import StructuredProxy.Transcode.Choose
import StructuredProxy.Transcode.Params

/-!
# The value before a verb

A verb is matched on the path as it was received, its escapes in upper case, and comes off the value of
the last capture after that was decoded. The value is the decoding of what stands before the verb
exactly when the request's verb decodes as the template's does.
-/

namespace StructuredProxy

/-- A request's segments spell a route's: a literal itself, a variable one segment, a catch-all all
that are left. -/
inductive Spelled : List Text → List Text → List Param → Prop
  | done : Spelled [] [] []
  | literal {segments path : List Text} {params : List Param} (text : Text)
      (hbrace : hasBrace text = false) (rest : Spelled segments path params) :
      Spelled (text :: segments) (text :: path) params
  | named {segments path : List Text} {params : List Param} (name value : Text)
      (rest : Spelled segments path params) :
      Spelled ((openBrace :: name ++ [closeBrace]) :: segments) (value :: path)
        ((name, value) :: params)
  | catchAll {path : List Text} (name : Text) (hpath : path ≠ []) :
      Spelled [openBrace :: star :: name ++ [closeBrace]] path [(name, [slash].intercalate path)]

/-- A router of the router crate that holds one route: its match of a path, the captures still
percent-encoded. -/
structure SingleRoute where
  at_ : Text → Text → Option (List Param)
  spelled : ∀ {route path params}, at_ route path = some params →
    Spelled (route.splitOn slash) (path.splitOn slash) params

variable {decoder : PercentDecoder}

/-- The value of a capture: a variable over several segments keeps its `%2F`. -/
def PercentDecoder.decoded (decoder : PercentDecoder) (multi : Bool) (raw : Text) : Text :=
  if multi then decodeMultiSegment decoder raw else decoder.decode raw

def captureStep (decoder : PercentDecoder) (multiSegment : List Nat) (params : List Param)
    (found : Param × Nat) : Except Text (List Param) :=
  let value := decoder.decoded (multiSegment.contains found.2) found.1.2
  if isUtf8 value then .ok (params ++ [(found.1.1, value)])
  else .error (str "path parameter " ++ found.1.1 ++ str " is not valid UTF-8")

/-- Add the captures of the table matching `path` to `params`; none when it does not match. -/
def capture (decoder : PercentDecoder) (single : SingleRoute) (table : PathTable)
    (multiSegment : List Nat) (path : Text) (params : List Param) : Option (Except Text (List Param)) :=
  (single.at_ table.path path).map fun found =>
    found.zipIdx.foldlM (captureStep decoder multiSegment) params

def decodedParams (decoder : PercentDecoder) (multiSegment : List Nat) (found : List (Param × Nat)) :
    List Param :=
  found.map fun param => (param.1.1, decoder.decoded (multiSegment.contains param.2) param.1.2)

theorem foldlM_captureStep {multiSegment : List Nat} (found : List (Param × Nat)) :
    ∀ {params result : List Param}, found.foldlM (captureStep decoder multiSegment) params = .ok result →
      result = params ++ decodedParams decoder multiSegment found := by
  induction found with
  | nil =>
      intro params result h
      cases h
      exact (List.append_nil params).symm
  | cons param found ih =>
      intro params result h
      rw [List.foldlM_cons] at h
      obtain ⟨next, hnext, hrest⟩ := Lib.bind_eq_ok.mp h
      rw [captureStep] at hnext
      split at hnext
      · obtain rfl := Except.ok.inj hnext
        rw [ih hrest, List.append_assoc]
        rfl
      · cases hnext

theorem exists_of_capture {single : SingleRoute} {table : PathTable} {multiSegment : List Nat}
    {path : Text} {before params : List Param}
    (h : capture decoder single table multiSegment path before = some (.ok params)) :
    ∃ found, Spelled (table.path.splitOn slash) (path.splitOn slash) found ∧
      single.at_ table.path path = some found ∧
      params = before ++ decodedParams decoder multiSegment found.zipIdx := by
  obtain ⟨found, hfound, hok⟩ := Option.map_eq_some_iff.mp h
  exact ⟨found, single.spelled hfound, hfound, foldlM_captureStep _ hok⟩

theorem decoded_cons_colon (multi : Bool) (after : Text) :
    decoder.decoded multi (colon :: after) = colon :: decoder.decoded multi after := by
  cases multi with
  | true => exact decodeMultiSegment_cons_colon after
  | false => exact decoder.decode_cons_colon after

theorem decoded_append_colon (multi : Bool) (before after : Text) :
    decoder.decoded multi (before ++ colon :: after) =
      decoder.decoded multi before ++ decoder.decoded multi (colon :: after) := by
  rw [decoded_cons_colon]
  cases multi with
  | true => exact decodeMultiSegment_append_colon before after
  | false => exact decoder.decode_append_colon before after

/-- A request's verb is decoded as the template's verb `raw` is, over several segments up to the case
of a kept escape. -/
def PercentDecoder.SameVerb (decoder : PercentDecoder) (multi : Bool) (raw verb : Text) : Prop :=
  if multi then
    normalizeEscapes (decodeMultiSegment decoder verb) =
      normalizeEscapes (fromUtf8Lossy (decodeMultiSegment decoder raw))
  else decoder.decode verb = fromUtf8Lossy (decoder.decode raw)

theorem Verb.without_append_iff (verb : Verb) (multi : Bool) (front : Text) {tail : Text}
    (htail : tail ≠ []) :
    verb.without multi (front ++ tail) = front ↔
      (if multi then normalizeEscapes tail else tail) =
        if multi then verb.multiSegment else verb.decoded := by
  unfold Verb.without
  generalize (if multi then verb.multiSegment else verb.decoded) = spelled
  have hlength : ∀ text : Text, (if multi then normalizeEscapes text else text).length = text.length := by
    intro text
    cases multi
    · rfl
    · exact length_normalizeEscapes text
  have hcut : (front ++ tail).length - tail.length = front.length := by
    rw [List.length_append, Nat.add_sub_cancel]
  dsimp only
  constructor
  · intro h
    by_cases hsame : (if multi then
        normalizeEscapes ((front ++ tail).drop ((front ++ tail).length - spelled.length))
      else (front ++ tail).drop ((front ++ tail).length - spelled.length)) = spelled
    · rw [if_pos hsame] at h
      have hcount := congrArg List.length hsame
      rw [hlength, List.length_drop, List.length_append] at hcount
      have hfront := congrArg List.length h
      rw [List.length_take, List.length_append] at hfront
      have heq : spelled.length = tail.length := by omega
      rwa [heq, hcut, List.drop_left] at hsame
    · rw [if_neg hsame] at h
      exact absurd (List.append_right_eq_self.mp h) htail
  · intro hsame
    have heq : spelled.length = tail.length := by rw [← hsame, hlength]
    rw [heq, hcut, List.drop_left, if_pos hsame, List.take_left]

/-- **The verb comes off whole** exactly when it is decoded as the template's is. -/
theorem without_decoded_iff (multi emptyOk : Bool) (raw text after : Text) :
    (Verb.new decoder raw emptyOk).without multi (decoder.decoded multi (text ++ colon :: after)) =
        decoder.decoded multi text ↔
      decoder.SameVerb multi raw (colon :: after) := by
  have hverb : decoder.decoded multi (colon :: after) ≠ [] := by
    rw [decoded_cons_colon]
    exact List.cons_ne_nil _ _
  rw [decoded_append_colon, Verb.without_append_iff _ _ _ hverb]
  cases multi <;> rfl

theorem Spelled.exists_last {segments path : List Text} {params : List Param}
    (h : Spelled segments path params) : ∀ {init : List Text} {last : Text},
      segments = init ++ [last] → hasBrace last = true →
      ∃ found name front rest, params = found ++ [(name, [slash].intercalate rest)] ∧
        path = front ++ rest ∧ rest ≠ [] := by
  induction h with
  | done =>
      intro init last hsegments
      cases init <;> cases hsegments
  | @literal segments path params text hbrace rest ih =>
      intro init last hsegments hlast
      cases init with
      | nil =>
          obtain ⟨rfl, -⟩ := List.cons.inj hsegments
          rw [hbrace] at hlast
          cases hlast
      | cons first init =>
          obtain ⟨found, name, front, rest, hparams, hpath, hne⟩ := ih (List.cons.inj hsegments).2 hlast
          exact ⟨found, name, text :: front, rest, hparams, by rw [hpath, List.cons_append], hne⟩
  | @named segments path params name value rest ih =>
      intro init last hsegments hlast
      cases init with
      | nil =>
          obtain ⟨-, rfl⟩ := List.cons.inj hsegments
          cases rest
          exact ⟨[], name, [], [value], by simp, rfl, List.cons_ne_nil _ _⟩
      | cons first init =>
          obtain ⟨found, last, front, rest, hparams, hpath, hne⟩ := ih (List.cons.inj hsegments).2 hlast
          exact ⟨(name, value) :: found, last, value :: front, rest,
            by rw [hparams, List.cons_append], by rw [hpath, List.cons_append], hne⟩
  | @catchAll path name hpath =>
      intro init last _ _
      exact ⟨[], name, [], path, rfl, rfl, hpath⟩

theorem hasBrace_text {segment : RouterSegment} (h : segment.Clean) :
    hasBrace segment.text = segment.name?.isSome := by
  cases segment with
  | literal text => exact h.2
  | capture opening name =>
      rcases h.1 with rfl | rfl <;> simp [RouterSegment.text, RouterSegment.name?, hasBrace]

theorem Spelled.length_params {texts path : List Text} {params : List Param}
    (h : Spelled texts path params) : ∀ {segments : List RouterSegment},
      texts = segments.map RouterSegment.text → (∀ segment ∈ segments, segment.Clean) →
      params.length = (segments.filterMap RouterSegment.name?).length := by
  have hbraced : ∀ inner : Text, hasBrace (openBrace :: inner ++ [closeBrace]) = true := by
    intro inner
    simp [hasBrace]
  have hcapture : ∀ {segment : RouterSegment} {inner : Text}, segment.Clean →
      openBrace :: inner ++ [closeBrace] = segment.text → ∃ name, segment.name? = some name := by
    intro segment inner hclean htext
    have hsome := hasBrace_text hclean
    rw [← htext, hbraced] at hsome
    exact Option.isSome_iff_exists.mp hsome.symm
  induction h with
  | done =>
      intro segments htexts _
      rw [List.map_eq_nil_iff.mp htexts.symm]
      rfl
  | literal text hbrace rest ih =>
      intro segments htexts hclean
      obtain ⟨segment, segments, rfl, htext, hrest⟩ := List.map_eq_cons_iff.mp htexts.symm
      have hnone := hasBrace_text (hclean segment List.mem_cons_self)
      rw [htext, hbrace] at hnone
      have hname : segment.name? = none := Option.isNone_iff_eq_none.mp (by
        rw [← Option.not_isSome, ← hnone]
        rfl)
      rw [List.filterMap_cons, hname]
      exact ih hrest.symm fun other hother => hclean other (List.mem_cons_of_mem _ hother)
  | named name value rest ih =>
      intro segments htexts hclean
      obtain ⟨segment, segments, rfl, htext, hrest⟩ := List.map_eq_cons_iff.mp htexts.symm
      obtain ⟨own, hown⟩ := hcapture (hclean segment List.mem_cons_self) htext.symm
      rw [List.filterMap_cons, hown, List.length_cons, List.length_cons,
        ih hrest.symm fun other hother => hclean other (List.mem_cons_of_mem _ hother)]
  | catchAll name hpath =>
      intro segments htexts hclean
      obtain ⟨segment, segments, rfl, htext, hrest⟩ := List.map_eq_cons_iff.mp htexts.symm
      obtain ⟨own, hown⟩ := hcapture (hclean segment List.mem_cons_self) htext.symm
      rw [List.map_eq_nil_iff.mp hrest, List.filterMap_cons, hown]
      rfl

def lastText (template : Text) : Text := (topSegments template).getLastD []

theorem convertSegment_isVariable {text : Text} (h : IsVariable text) (idx : Nat) :
    ∃ name, convertSegment text idx true = .capture name (spansSegments text) := by
  rcases h with ⟨inner, rfl⟩ | rfl | rfl
  · have hstars : (openBrace :: inner ++ [closeBrace] == doubleWildcard) = false := by
      simp [doubleWildcard, openBrace, star]
    unfold convertSegment spansSegments fieldTemplate
    rw [braced_braces, hstars]
    cases hsplit : Lib.splitOnce equals inner with
    | none => exact ⟨inner, by simp [hsplit]⟩
    | some bound =>
        refine ⟨bound.1, ?_⟩
        simp only [Option.bind_some, hsplit, Option.map_some, Option.any_some, Bool.false_or]
        by_cases hone : bound.2 = wildcard
        · rw [if_pos hone, hone]
          rfl
        · rw [if_neg hone]
          by_cases hall : bound.2 = doubleWildcard
          · rw [if_pos hall, hall]
            rfl
          · rw [if_neg hall, beq_eq_false_iff_ne.mpr hall, Bool.or_false]
            cases bound.2.contains slash <;> rfl
  · exact ⟨decimal idx, rfl⟩
  · exact ⟨decimal idx, rfl⟩

@[simp]
theorem Mounting.note_unbound (last : Nat) (m : Mounting) (segment : Text) (idx : Nat) :
    (m.note last segment idx).unbound = m.unbound := by
  unfold Mounting.note
  dsimp only
  split <;> split <;> split <;> rfl

@[simp]
theorem Mounting.note_multiSegment (last : Nat) (m : Mounting) (segment : Text) (idx : Nat) :
    (m.note last segment idx).multiSegment = m.multiSegment := by
  unfold Mounting.note
  dsimp only
  split <;> split <;> split <;> rfl

theorem Mounting.step_last (last : Nat) (m : Mounting) (segment : Text) :
    Mounting.step last m (segment, last) = (m.note last segment last).pushConverted segment last true := by
  have hfilter : ((braced segment).bind (Lib.splitOnce equals)).filter
      (fun bound => last ≠ last && bound.2 ≠ wildcard) = none := by
    cases (braced segment).bind (Lib.splitOnce equals) <;> simp
  unfold Mounting.step
  simp only [hfilter]
  simp

theorem roundSegments_last (last : Nat) (segment : Text) :
    roundSegments last (segment, last) = [convertedSegment segment last true] := by
  have hfilter : ((braced segment).bind (Lib.splitOnce equals)).filter
      (fun bound => last ≠ last && bound.2 ≠ wildcard) = none := by
    cases (braced segment).bind (Lib.splitOnce equals) <;> simp
  unfold roundSegments
  simp only [hfilter]
  simp

/-- What the loop has written for a template with a verb ends in the capture of its last segment. -/
theorem exists_capture_of_verb {template raw : Text}
    (hverb : (MountedPath.new template).verb = some raw) :
    ∃ (m : Mounting) (init : List RouterSegment) (name : Text), m.Writes init ∧
      pathSegments template = init ++ [.capture
        (if spansSegments (lastText template) then [openBrace, star] else [openBrace]) name] ∧
      (MountedPath.new template).unbound = m.unbound ++
        [lastText template == wildcard || lastText template == doubleWildcard] ∧
      (MountedPath.new template).multiSegment = m.multiSegment ++ [spansSegments (lastText template)] := by
  have hsplit : MountedPath.splitVerb template = ((MountedPath.splitVerb template).1, some raw) :=
    Prod.ext rfl hverb
  obtain ⟨-, -, parts, last, hparts, hvariable⟩ := exists_of_splitVerb hsplit
  have htop : topSegments template = parts ++ [last] := hparts
  have hlast : lastText template = last := by
    rw [lastText, htop]
    simp
  have hzip : (topSegments template).zipIdx = parts.zipIdx ++ [(last, parts.length)] := by
    rw [htop, List.zipIdx_append]
    simp
  have hcount : (topSegments template).length - 1 = parts.length := by
    rw [htop, List.length_append]
    rfl
  have hloop : mountingOf template = (Mounting.note parts.length
      (parts.zipIdx.foldl (Mounting.step parts.length) {}) last parts.length).pushConverted last
        parts.length true := by
    rw [mountingOf, hcount, hzip, List.foldl_append]
    exact Mounting.step_last _ _ _
  obtain ⟨name, hconvert⟩ := convertSegment_isVariable hvariable parts.length
  have hwrites := Mounting.Writes.start.foldl parts.length parts.zipIdx
  rw [List.nil_append] at hwrites
  refine ⟨_, _, name, hwrites, ?_, ?_, ?_⟩
  · rw [pathSegments, hcount, hzip, List.flatMap_append, List.flatMap_singleton, roundSegments_last,
      convertedSegment, hconvert, hlast]
  · have hunbound : (mountingOf template).unbound =
        (parts.zipIdx.foldl (Mounting.step parts.length) {}).unbound ++
          [last == wildcard || last == doubleWildcard] := by
      rw [hloop, Mounting.pushConverted, hconvert]
      simp [Mounting.pushCapture, Mounting.pushSegment]
    rw [hlast]
    exact hunbound
  · have hmulti : (mountingOf template).multiSegment =
        (parts.zipIdx.foldl (Mounting.step parts.length) {}).multiSegment ++ [spansSegments last] := by
      rw [hloop, Mounting.pushConverted, hconvert]
      simp [Mounting.pushCapture, Mounting.pushSegment]
    rw [hlast]
    exact hmulti

/-! ### The path of a table -/

theorem roundSegments_ne_nil (last : Nat) (item : Text × Nat) : roundSegments last item ≠ [] := by
  unfold roundSegments
  split
  · split
    · exact List.cons_ne_nil _ _
    · rename_i bound _ _
      simp [List.splitOn_ne_nil]
  · exact List.cons_ne_nil _ _

theorem pathSegments_ne_nil (template : Text) : pathSegments template ≠ [] := by
  obtain ⟨first, rest, hfirst⟩ :=
    List.exists_cons_of_ne_nil (splitTopLevelFrom_ne_nil 0 (MountedPath.splitVerb template).1)
  have htop : topSegments template = first :: rest := hfirst
  rw [pathSegments, htop, List.zipIdx_cons, List.flatMap_cons]
  exact List.append_ne_nil_of_left_ne_nil (roundSegments_ne_nil _ _) _

theorem RouterSegment.Clean.slash_notMem {segment : RouterSegment} (h : segment.Clean) :
    slash ∉ segment.text ∧ slash ∉ segment.shape := by
  cases segment with
  | literal text => exact ⟨h.1, h.1⟩
  | capture opening name =>
      obtain ⟨hopening, hname, -⟩ := h
      have hopen : slash ∉ opening := by rcases hopening with rfl | rfl <;> decide
      have hclose : slash ∉ [closeBrace] := by decide
      simp only [RouterSegment.text, RouterSegment.shape, List.mem_append, not_or]
      exact ⟨⟨⟨hopen, hname⟩, hclose⟩, hopen, hclose⟩

namespace Routable

variable {router : Matchit} {template : Text}

theorem splitOn_axum (h : Routable router template) :
    (MountedPath.new template).axum.splitOn slash = (pathSegments template).map RouterSegment.text := by
  have haxum : (MountedPath.new template).axum = _ := (writes_mountingOf template).axum
  rw [haxum]
  refine List.splitOn_intercalate slash ?_ (mt List.map_eq_nil_iff.mp (pathSegments_ne_nil template))
  intro text htext
  obtain ⟨segment, hsegment, rfl⟩ := List.mem_map.mp htext
  exact (h.clean segment hsegment).slash_notMem.1

theorem splitOn_shape (h : Routable router template) :
    (MountedPath.new template).shape.splitOn slash =
      (pathSegments template).map RouterSegment.shape := by
  have hshape : (MountedPath.new template).shape = _ := (writes_mountingOf template).shape
  rw [hshape]
  refine List.splitOn_intercalate slash ?_ (mt List.map_eq_nil_iff.mp (pathSegments_ne_nil template))
  intro text htext
  obtain ⟨segment, hsegment, rfl⟩ := List.mem_map.mp htext
  exact (h.clean segment hsegment).slash_notMem.2

end Routable

namespace PathTable.Mounts

variable {router : Matchit} {table : PathTable} {binding : Binding} {template first : Text}

theorem splitOn_path (h : table.Mounts decoder router binding template first) :
    table.path.splitOn slash = (pathSegments first).map RouterSegment.text := by
  rw [h.path_eq, h.routable_first.splitOn_axum]

theorem exists_last (h : table.Mounts decoder router binding template first) {raw : Text}
    (hverb : (MountedPath.new template).verb = some raw) :
    ∃ init last, table.path.splitOn slash = init ++ [last] ∧ hasBrace last = true := by
  obtain ⟨m, init, name, -, hsegments, -, -⟩ := exists_capture_of_verb hverb
  have hshapes : (pathSegments first).map RouterSegment.shape =
      (pathSegments template).map RouterSegment.shape := by
    rw [← h.routable_first.splitOn_shape, ← h.routable.splitOn_shape, h.shape_eq]
  obtain ⟨others, last, hothers⟩ :=
    (List.eq_nil_or_concat (pathSegments first)).resolve_left (pathSegments_ne_nil first)
  rw [List.concat_eq_append] at hothers
  refine ⟨others.map RouterSegment.text, last.text, ?_, ?_⟩
  · rw [h.splitOn_path, hothers, List.map_append]
    rfl
  · have hclean := h.routable_first.clean last (by rw [hothers]; simp)
    rw [hothers, hsegments, List.map_append, List.map_append] at hshapes
    have hlast := congrArg List.getLast? hshapes
    rw [List.map_singleton, List.map_singleton, List.getLast?_concat, List.getLast?_concat] at hlast
    cases last with
    | capture opening name => exact hasBrace_text hclean
    | literal text =>
        have htext : text = _ := Option.some.inj hlast
        have hbrace := hclean.2
        rw [htext] at hbrace
        simp [RouterSegment.shape, hasBrace] at hbrace

theorem length_found (h : table.Mounts decoder router binding template first) {path : List Text}
    {found : List Param} (hspelled : Spelled (table.path.splitOn slash) path found) :
    found.length = table.captures.length := by
  have hcaptures : (MountedPath.new first).captures = _ := (writes_mountingOf first).captures
  rw [h.captures_eq, hcaptures]
  exact hspelled.length_params h.splitOn_path h.routable_first.clean

end PathTable.Mounts

/-! ### The verb of a request -/

theorem exists_of_splitVerb_path {path rest verb segment : Text} {segments : List Text}
    (h : splitVerb path = some (rest, verb)) (hpath : path.splitOn slash = segments ++ [segment]) :
    ∃ before after, verb = colon :: after ∧ segment = before ++ verb := by
  have hslash : slash ∉ segment :=
    Lib.notMem_of_mem_splitOn (l := path) (by rw [hpath]; simp)
  have hnone : segment.reverse.findIdx? (· = slash) = none := by
    rw [List.findIdx?_eq_none_iff]
    intro byte hbyte
    exact decide_eq_false fun heq => hslash (heq ▸ List.mem_reverse.mp hbyte)
  have hjoin : [slash].intercalate (path.splitOn slash) = path := List.intercalate_splitOn slash
  rw [hpath] at hjoin
  -- Wherever the last segment starts, the verb is its text from the first colon.
  have hcut : ∀ front, path = front ++ segment →
      ((path.drop front.length).findIdx? (· = colon)).map (fun i => path.splitAt (front.length + i)) =
        some (rest, verb) → ∃ before after, verb = colon :: after ∧ segment = before ++ verb := by
    intro front hfront hfound
    rw [hfront, List.drop_left, Lib.findIdx?_eq_splitOnce, Option.map_map] at hfound
    obtain ⟨parts, hparts, hsplit⟩ := Option.map_eq_some_iff.mp hfound
    obtain ⟨rfl, -⟩ := Lib.splitOnce_eq_some_iff.mp hparts
    rw [Function.comp_apply, List.splitAt_eq, ← List.append_assoc, ← List.length_append,
      List.drop_left] at hsplit
    obtain rfl := (Prod.mk.inj hsplit).2
    exact ⟨parts.1, parts.2, rfl, rfl⟩
  unfold splitVerb at h
  cases segments with
  | nil =>
      rw [List.nil_append, List.intercalate_singleton] at hjoin
      subst hjoin
      simp only [hnone, Nat.zero_add] at h
      refine hcut [] rfl ?_
      simpa using h
  | cons first segments =>
      rw [Lib.intercalate_concat [slash] (List.cons_ne_nil _ _)] at hjoin
      have hlast : path.reverse.findIdx? (· = slash) = some segment.length := by
        rw [← hjoin, List.reverse_append, List.reverse_append, List.findIdx?_append, hnone]
        simp [List.findIdx?_cons]
      have hstart : path.length - segment.length =
          ([slash].intercalate (first :: segments) ++ [slash]).length := by
        rw [← hjoin, List.length_append, Nat.add_sub_cancel]
      simp only [hlast, hstart] at h
      exact hcut _ hjoin.symm h

theorem PathTable.any_of_served {table : PathTable} {method : Method} {answers : Binding → Bool}
    {index : Nat} (h : table.served method answers = some index) :
    (table.bindings[index]?).any answers = true := by
  have hfound : ∀ p : Binding → Bool,
      table.bindings.findIdx? (fun binding => answers binding && p binding) = some index →
      (table.bindings[index]?).any answers = true := by
    intro p hp
    obtain ⟨hlt, hadmits, -⟩ := List.findIdx?_eq_some_iff_getElem.mp hp
    rw [List.getElem?_eq_getElem hlt, Option.any_some]
    exact (Bool.and_eq_true_iff.mp hadmits).1
  rw [PathTable.served, Option.or_eq_some_iff] at h
  rcases h with h | ⟨-, h⟩
  · exact hfound _ h
  · split at h
    · exact hfound _ h
    · cases h

namespace Routes

variable {routes : Routes} {method : Method} {path : Text} {ranks : Nat → Bool}
  {position at_ index : Nat}

theorem any_of_firstServing {admits : Binding → Bool} {ranked : List Nat}
    (h : routes.firstServing method admits ranked = some (.route at_ index)) :
    ((routes.table at_).bindings[index]?).any admits = true := by
  rw [firstServing, Option.or_eq_some_iff] at h
  rcases h with hfound | ⟨-, hother⟩
  · obtain ⟨other, -, hserved⟩ := List.exists_of_findSome?_eq_some hfound
    obtain ⟨i, hi, heq⟩ := Option.map_eq_some_iff.mp hserved
    cases heq
    exact PathTable.any_of_served hi
  · obtain ⟨other, -, heq⟩ := Option.map_eq_some_iff.mp hother
    cases heq

theorem any_of_answer {admits : Binding → Bool} {tree : Index} {first : Nat}
    (h : routes.answer method admits tree first path ranks = some (.route at_ index)) :
    ((routes.table at_).bindings[index]?).any admits = true := by
  rw [answer_eq, answerFrom_none] at h
  exact any_of_firstServing h

theorem any_of_choosePlain (h : routes.choosePlain position method path ranks = .route at_ index) :
    ((routes.table at_).bindings[index]?).any (isPlain path) = true := by
  unfold choosePlain at h
  dsimp only at h
  split at h
  · exact any_of_answer ((getD_notFound_eq_iff Choice.noConfusion).mp h)
  · cases h

theorem any_of_chooseVerb
    (h : routes.chooseVerb position method path ranks = some (.route at_ index)) :
    ∃ rest verb, splitVerb path = some (rest, verb) ∧
      ((routes.table at_).bindings[index]?).any (isBound path rest (normalizeEscapes verb)) = true := by
  obtain ⟨parts, hparts, h⟩ := Option.bind_eq_some_iff.mp h
  obtain ⟨tree, -, h⟩ := Option.bind_eq_some_iff.mp h
  obtain ⟨first, -, h⟩ := Option.bind_eq_some_iff.mp h
  exact ⟨parts.1, parts.2, hparts, any_of_answer h⟩

/-- The binding chosen for a request is one without a verb, or one of the request's verb. -/
theorem any_of_chooseRanked
    (h : routes.chooseRanked position method path ranks = .route at_ index) :
    ((routes.table at_).bindings[index]?).any (isPlain path) = true ∨
      ∃ rest verb, splitVerb path = some (rest, verb) ∧
        ((routes.table at_).bindings[index]?).any (isBound path rest (normalizeEscapes verb)) = true := by
  unfold chooseRanked at h
  dsimp only at h
  split at h
  · rename_i choice hliteral
    subst h
    split at hliteral
    · rw [choose_table_eq] at hliteral
      exact Or.inl (any_of_firstServing hliteral)
    · cases hliteral
  · split at h
    · rename_i choice hverb
      subst h
      exact Or.inr (any_of_chooseVerb hverb)
    · exact Or.inl (any_of_choosePlain h)

end Routes

/-! ### The value -/

theorem mem_positions_iff {marked : List Bool} {position : Nat} :
    position ∈ positions marked ↔ marked[position]? = some true := by
  rw [positions, List.mem_filterMap]
  constructor
  · rintro ⟨⟨bare, at_⟩, hmem, hsome⟩
    cases bare with
    | false => cases hsome
    | true =>
        obtain rfl := Option.some.inj hsome
        exact List.mem_zipIdx_iff_getElem?.mp hmem
  · intro h
    exact ⟨(true, position), List.mem_zipIdx_iff_getElem?.mpr h, rfl⟩

theorem contains_positions_concat (marked : List Bool) (last : Bool) :
    (positions (marked ++ [last])).contains marked.length = last := by
  rw [Bool.eq_iff_iff, List.contains_iff_mem, mem_positions_iff, List.getElem?_concat_length,
    Option.some_inj]

theorem Binding.ownParams_concat {binding : Binding} {names values : List Text} {name value : Text}
    (hlength : names.length = values.length) (hbound : names.length ∉ binding.unbound) :
    binding.ownParams (names ++ [name]) (values ++ [value]) =
      binding.ownParams names values ++ [(name, value)] := by
  have hzip : (names.zip values).length = names.length := by
    rw [List.length_zip, ← hlength, Nat.min_self]
  rw [ownParams, List.zip_append hlength, List.zipIdx_append, List.filter_append, List.map_append,
    hzip, Nat.zero_add]
  simp [hbound, ownParams]

theorem Binding.valuesOf_concat {binding : Binding} {verb : Verb} (hverb : binding.verb = some verb)
    (values : List Text) (value : Text) :
    binding.valuesOf (values ++ [value]) =
      values ++ [verb.without (binding.multiSegment.contains values.length) value] := by
  have hlast : (values ++ [value]).length - 1 = values.length := by
    rw [List.length_append]
    rfl
  simp only [valuesOf, hverb, hlast, Lib.modify_concat]

theorem decodedParams_concat (multiSegment : List Nat) (found : List Param) (name raw : Text) :
    (decodedParams decoder multiSegment (found ++ [(name, raw)]).zipIdx).map Prod.snd =
      (decodedParams decoder multiSegment found.zipIdx).map Prod.snd ++
        [decoder.decoded (multiSegment.contains found.length) raw] := by
  rw [decodedParams, List.zipIdx_append, List.map_append, List.map_append, Nat.zero_add]
  rfl

theorem intercalate_concat_append (parts : List Text) (before after : Text) :
    [slash].intercalate (parts ++ [before ++ after]) =
      [slash].intercalate (parts ++ [before]) ++ after := by
  cases parts with
  | nil => simp
  | cons part parts =>
      rw [Lib.intercalate_concat [slash] (List.cons_ne_nil _ _),
        Lib.intercalate_concat [slash] (List.cons_ne_nil _ _), List.append_assoc]
      simp

section Value

variable {router : Matchit} {routes : Routes} {binding : Binding} {template first raw path : Text}
  {ranks : Nat → Bool} {method : Method} {position at_ index : Nat}

theorem exists_splitVerb_of_chosen (hindex : (routes.table at_).bindings[index]? = some binding)
    (hverb : binding.verb.isSome = true)
    (hchoose : routes.chooseRanked position method path ranks = .route at_ index) :
    ∃ rest verb, splitVerb path = some (rest, verb) := by
  rcases Routes.any_of_chooseRanked hchoose with hplain | ⟨rest, verb, hsplit, -⟩
  · rw [hindex, Option.any_some, Routes.isPlain, Bool.and_eq_true] at hplain
    rw [← Option.not_isSome, hverb] at hplain
    cases hplain.1
  · exact ⟨rest, verb, hsplit⟩

/-- **The value before a verb.** For a binding whose template ends in a variable and the verb `raw`, the
value bound to that variable is the decoding of the text captured before the request's verb exactly
when the request's verb is decoded as `raw` is. -/
theorem last_value_iff (single : SingleRoute)
    (hmounts : (routes.table at_).Mounts decoder router binding template first)
    (hindex : (routes.table at_).bindings[index]? = some binding)
    (hverb : (MountedPath.new template).verb = some raw)
    (hvariable : (braced (lastText template)).isSome = true)
    (hchoose : routes.chooseRanked position method path ranks = .route at_ index)
    {before params : List Param}
    (hcapture : capture decoder single (routes.table at_) binding.multiSegment path before =
      some (.ok params)) :
    ∃ rest verb found name text, splitVerb path = some (rest, verb) ∧
      single.at_ (routes.table at_).path path = some (found ++ [(name, text ++ verb)]) ∧
      ∃ own value others composites, (MountedPath.new template).captures.getLast? = some own ∧
        (routes.table at_).bindParams index params = some (before ++ others ++ (own, value) :: composites) ∧
        composites.length = binding.composites.length ∧
        (value = decoder.decoded (spansSegments (lastText template)) text ↔
          decoder.SameVerb (spansSegments (lastText template)) raw verb) := by
  obtain ⟨entry, names, hbinding, -⟩ := hmounts.binding_eq
  have hown : binding.verb = some (Verb.new decoder raw (MountedPath.new template).emptyLast) := by
    rw [hbinding, Binding.ofMount, hverb, Option.map_some]
  -- The request's verb ends the text of the last capture.
  obtain ⟨rest, verb, hsplit⟩ := exists_splitVerb_of_chosen hindex (by rw [hown]; rfl) hchoose
  obtain ⟨found, hspelled, hfound, rfl⟩ := exists_of_capture hcapture
  obtain ⟨init, last, hroute, hbrace⟩ := hmounts.exists_last hverb
  have hcount := hmounts.length_found hspelled
  obtain ⟨found, name, front, segments, rfl, hpath, hne⟩ := hspelled.exists_last hroute hbrace
  obtain ⟨others, segment, rfl⟩ := (List.eq_nil_or_concat segments).resolve_left hne
  rw [List.concat_eq_append] at hpath hfound hcount ⊢
  rw [← List.append_assoc] at hpath
  obtain ⟨kept, after, rfl, rfl⟩ := exists_of_splitVerb_path hsplit hpath
  rw [intercalate_concat_append] at hfound hcount ⊢
  refine ⟨rest, colon :: after, found, name, _, hsplit, hfound, ?_⟩
  generalize [slash].intercalate (others ++ [kept]) = text at hcount
  -- The last capture is the template's last segment.
  obtain ⟨m, writtenInit, own, hwrites, hsegments, hunbound, hmulti⟩ := exists_capture_of_verb hverb
  have hcaptures : (MountedPath.new template).captures = m.captures ++ [own] := by
    have hall : (MountedPath.new template).captures = _ := (writes_mountingOf template).captures
    rw [hall, hsegments, List.filterMap_append, ← hwrites.captures]
    rfl
  have hposition : found.length = m.captures.length := by
    have hlength := hmounts.length_captures
    rw [hcaptures, List.length_append] at hlength
    rw [List.length_append] at hcount
    exact Nat.succ.inj (hcount.trans hlength.symm)
  have hspans : binding.multiSegment.contains found.length = spansSegments (lastText template) := by
    rw [hbinding, Binding.ofMount, hmulti, hposition, ← hwrites.multiSegment, contains_positions_concat]
  have hbound : found.length ∉ binding.unbound := by
    rw [← List.contains_iff_mem, hbinding, Binding.ofMount, hunbound, hposition, ← hwrites.unbound,
      contains_positions_concat, Bool.or_eq_true, beq_iff_eq, beq_iff_eq]
    rintro (heq | heq) <;> rw [heq] at hvariable <;> cases hvariable
  have hlength : (decodedParams decoder binding.multiSegment
      (found ++ [(name, text ++ colon :: after)]).zipIdx).length =
      (routes.table at_).captures.length := by
    rw [decodedParams, List.length_map, List.length_zipIdx, hcount]
  have hvalues : ((decodedParams decoder binding.multiSegment found.zipIdx).map Prod.snd).length =
      m.captures.length := by
    rw [List.length_map, decodedParams, List.length_map, List.length_zipIdx, hposition]
  have hparams := hmounts.bindParams_eq hindex before hlength
  rw [decodedParams_concat, Binding.valuesOf_concat hown, hcaptures, hvalues, ← hposition, hspans,
    Binding.ownParams_concat hvalues.symm (hposition ▸ hbound), ← List.append_assoc,
    ← List.append_cons] at hparams
  exact ⟨own, _, _, _, by rw [hcaptures, List.getLast?_concat], hparams, List.length_map _,
    without_decoded_iff _ _ raw text after⟩

end Value

/-! A catalogue whose names span segments, with a verb of two escapes: `%25%2f` and `%25%2F` are one
verb to the routes, but its text over several segments, `%%2f`, is not an escape anymore. -/

def matchSegments : List Text → List Text → Option (List Param)
  | [], [] => some []
  | [], _ :: _ => none
  | _ :: _, [] => none
  | segment :: segments, value :: path =>
      match braced segment with
      | none =>
          if hasBrace segment = false ∧ segment = value then matchSegments segments path else none
      | some name =>
          match name with
          | 42 :: rest =>
              if segments = [] ∧ [slash].intercalate (value :: path) ≠ [] then
                some [(rest, [slash].intercalate (value :: path))]
              else none
          | name =>
              if value.isEmpty then none
              else (matchSegments segments path).map fun params => (name, value) :: params

theorem spelled_matchSegments (segments : List Text) : ∀ {path : List Text} {params : List Param},
    matchSegments segments path = some params → Spelled segments path params := by
  induction segments with
  | nil =>
      intro path params h
      cases path with
      | nil =>
          obtain rfl := Option.some.inj h
          exact .done
      | cons value path => cases h
  | cons segment segments ih =>
      intro path params h
      cases path with
      | nil => cases h
      | cons value path =>
          unfold matchSegments at h
          cases hbraced : braced segment with
          | none =>
              simp only [hbraced] at h
              split at h
              · rename_i hliteral
                obtain ⟨hbrace, rfl⟩ := hliteral
                exact .literal segment hbrace (ih h)
              · cases h
          | some name =>
              obtain rfl := eq_of_braced hbraced
              simp only [hbraced] at h
              split at h
              · split at h
                · rename_i hlast
                  obtain ⟨rfl, -⟩ := hlast
                  obtain rfl := Option.some.inj h
                  exact .catchAll _ (List.cons_ne_nil _ _)
                · cases h
              · split at h
                · cases h
                · obtain ⟨rest, hrest, rfl⟩ := Option.map_eq_some_iff.mp h
                  exact .named _ value (ih hrest)

def segmentRoute : SingleRoute where
  at_ route path := matchSegments (route.splitOn slash) (path.splitOn slash)
  spelled h := spelled_matchSegments _ h

def itemPath : Text := str "/v1/\x7bname=**\x7d:%25%2f"

def itemEntry : RouteEntry where
  httpPath := itemPath
  httpMethod := .one Method.GET
  grpcPath := str "/Items/Get"

def itemRoutes : Routes :=
  Routes.new false [PathTable.new percentDecoder (MountedPath.new itemPath) itemEntry]

/-- The verb in another spelling stays in the value. -/
theorem item_verb_stays :
    itemRoutes.choose 0 Method.GET (str "/v1/x:%25%2F") = .route 0 0 ∧
      ((itemRoutes.table 0).bindings[0]?).map Binding.multiSegment = some [0] ∧
      splitVerb (str "/v1/x:%25%2F") = some (str "/v1/x", str ":%25%2F") ∧
      capture percentDecoder segmentRoute (itemRoutes.table 0) [0] (str "/v1/x:%25%2F") [] =
        some (.ok [(str "name", str "x:%%2F")]) ∧
      (itemRoutes.table 0).bindParams 0 [(str "name", str "x:%%2F")] =
        some [(str "name", str "x:%%2F")] ∧
      decodeMultiSegment percentDecoder (str "x") ≠ str "x:%%2F" := by
  refine ⟨?_, ?_, ?_, ?_, ?_, ?_⟩ <;> decide +kernel

theorem item_verb_comes_off : ∃ text value others composites,
    capture percentDecoder segmentRoute (itemRoutes.table 0) [0] (str "/v1/x:%25%2f") [] =
        some (.ok [(str "name", str "x:%%2f")]) ∧
      (itemRoutes.table 0).bindParams 0 [(str "name", str "x:%%2f")] =
        some (others ++ (str "name", value) :: composites) ∧
      (value = percentDecoder.decoded true text ↔
        percentDecoder.SameVerb true (str ":%25%2f") (str ":%25%2f")) := by
  have hmounts : (itemRoutes.table 0).Mounts percentDecoder ⟨fun _ _ => none⟩
      (Binding.ofMount percentDecoder (MountedPath.new itemPath) itemEntry none) itemPath itemPath :=
    ⟨by unfold Routable; decide +kernel, by unfold Routable; decide +kernel, rfl, rfl, rfl,
      itemEntry, none, rfl, rfl⟩
  have hcapture : capture percentDecoder segmentRoute (itemRoutes.table 0) [0] (str "/v1/x:%25%2f") [] =
      some (.ok [(str "name", str "x:%%2f")]) := by decide +kernel
  have hchoose : itemRoutes.chooseRanked 0 Method.GET (str "/v1/x:%25%2f") (fun _ => true) =
      .route 0 0 := by decide +kernel
  obtain ⟨rest, verb, found, name, text, hsplit, -, own, value, others, composites, hown, hbound, -,
    hiff⟩ := last_value_iff segmentRoute hmounts (by decide +kernel)
      (show (MountedPath.new itemPath).verb = some (str ":%25%2f") by decide +kernel)
      (by decide +kernel) hchoose hcapture
  have hname : (MountedPath.new itemPath).captures.getLast? = some (str "name") := by decide +kernel
  have hverb : splitVerb (str "/v1/x:%25%2f") = some (str "/v1/x", str ":%25%2f") := by decide +kernel
  have hspans : spansSegments (lastText itemPath) = true := by decide +kernel
  obtain rfl := Option.some.inj (hown.symm.trans hname)
  obtain ⟨-, rfl⟩ := Prod.mk.inj (Option.some.inj (hsplit.symm.trans hverb))
  rw [hspans] at hiff
  exact ⟨text, value, others, composites, hcapture, hbound, hiff⟩

end StructuredProxy
