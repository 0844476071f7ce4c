import StructuredProxy.Lib.Compact
import StructuredProxy.Transcode.CleanPath

/-!
# Path parameters

`bind_params` rewrites the parameters a router matched in place: the verb comes off the last capture,
the fields spelled out over several segments are pushed after the captures, and the captures take the
binding's own names, those the router alone named going. An access out of range is `none`.
-/

namespace StructuredProxy

abbrev Param := Text × Text

/-- `is_char_boundary`: a character does not go on at `index`. -/
def isCharBoundary (text : Text) (index : Nat) : Bool :=
  index == 0 ||
    match text[index]? with
    | none => index == text.length
    | some byte => !(0x80 ≤ byte && byte < 0xC0)

def checkedSub (a b : Nat) : Option Nat := if b ≤ a then some (a - b) else none

namespace Verb

def cutAt (verb : Verb) (multi : Bool) (value : Text) : Option Nat :=
  if multi then
    (checkedSub value.length verb.multiSegment.length).filter fun start =>
      isCharBoundary value start && sameOctets (value.drop start) verb.multiSegment
  else if verb.decoded.isSuffixOf value then some (value.length - verb.decoded.length)
  else none

def strip (verb : Verb) (multi : Bool) (value : Text) : Text :=
  match verb.cutAt multi value with
  | some len => value.take len
  | none => value

end Verb

namespace Binding

def joinParts (base : Nat) (params : List Param) (value : Text) (part : Part × Nat) : Option Text := do
  let value := if part.2 > 0 then value ++ [slash] else value
  match part.1 with
  | .literal text => some (value ++ text)
  | .capture position => do
      let param ← params[base + position]?
      some (value ++ param.2)

/-- The field of a composite, put back together after the captures. -/
def pushComposite (base : Nat) (params : List Param) (composite : Composite) : Option (List Param) := do
  let value ← composite.parts.zipIdx.foldlM (joinParts base params) []
  some (params ++ [(composite.field, value)])

def visitParam (binding : Binding) (captures : List Text) (base at_ : Nat) (param : Param) :
    Option (Option Param) :=
  match checkedSub at_ base with
  | none => some (some param)
  | some position =>
      if binding.unbound.contains position then some none
      else do
        let name ← (binding.names.getD captures)[position]?
        some (some (name, param.2))

end Binding

namespace PathTable

def stripVerb (table : PathTable) (binding : Binding) (base : Nat) (params : List Param) :
    Option (List Param) :=
  match binding.verb, checkedSub table.captures.length 1 with
  | some verb, some last => do
      let param ← params[base + last]?
      some (params.set (base + last)
        (param.1, verb.strip (binding.multiSegment.contains last) param.2))
  | _, _ => some params

/-- Turn the parameters matched on this table's path into those of the binding at `index`. -/
def bindParams (table : PathTable) (index : Nat) (params : List Param) : Option (List Param) := do
  let binding ← table.bindings[index]?
  let base ← checkedSub params.length table.captures.length
  let params ← table.stripVerb binding base params
  let matched := params.length
  let params ← binding.composites.foldlM (Binding.pushComposite base) params
  let (params, kept) ← (List.range matched).foldlM
    (Lib.compactStep (binding.visitParam table.captures base)) (params, 0)
  some (params.take kept ++ params.drop matched)

end PathTable

def Verb.without (verb : Verb) (multi : Bool) (value : Text) : Text :=
  let spelled := if multi then verb.multiSegment else verb.decoded
  let tail := value.drop (value.length - spelled.length)
  if (if multi then normalizeEscapes tail else tail) = spelled then
    value.take (value.length - spelled.length)
  else value

def Part.valueIn (values : List Text) : Part → Text
  | literal text => text
  | capture position => values.getD position []

def Composite.paramOf (values : List Text) (composite : Composite) : Param :=
  (composite.field, [slash].intercalate (composite.parts.map (Part.valueIn values)))

namespace Binding

def valuesOf (binding : Binding) (values : List Text) : List Text :=
  let last := values.length - 1
  match binding.verb with
  | some verb => values.modify last (verb.without (binding.multiSegment.contains last))
  | none => values

theorem length_valuesOf (binding : Binding) (values : List Text) :
    (binding.valuesOf values).length = values.length := by
  unfold valuesOf
  cases binding.verb with
  | none => rfl
  | some verb => exact List.length_modify _ _ _

def ownParams (binding : Binding) (names values : List Text) : List Param :=
  ((names.zip values).zipIdx.filter fun param => !binding.unbound.contains param.2).map Prod.fst

end Binding

theorem normalizeEscapes_head? (text : Text) : (normalizeEscapes text).head? = text.head? := by
  cases text <;> rfl

theorem isCharBoundary_of_colon {text : Text} {start : Nat}
    (h : (text.drop start).head? = some colon) : isCharBoundary text start = true := by
  rw [List.head?_drop] at h
  rw [isCharBoundary, h]
  exact Bool.or_true _

namespace Verb

variable {verb : Verb}

theorem strip_eq_without (hcolon : verb.multiSegment.head? = some colon) (multi : Bool) (value : Text) :
    verb.strip multi value = verb.without multi value := by
  cases multi with
  | true =>
      unfold strip cutAt without
      simp only [if_true, checkedSub]
      by_cases hle : verb.multiSegment.length ≤ value.length
      · rw [if_pos hle, Option.filter_some]
        by_cases hsame : normalizeEscapes (value.drop (value.length - verb.multiSegment.length)) =
            verb.multiSegment
        · have hboundary : isCharBoundary value (value.length - verb.multiSegment.length) = true := by
            refine isCharBoundary_of_colon ?_
            rw [← normalizeEscapes_head?, hsame, hcolon]
          rw [if_pos hsame, hboundary, sameOctets_iff.mpr hsame]
          rfl
        · rw [if_neg hsame, Bool.eq_false_iff.mpr (mt sameOctets_iff.mp hsame), Bool.and_false]
          rfl
      · rw [if_neg hle, if_neg]
        · rfl
        · intro hsame
          have hlength := congrArg List.length hsame
          rw [length_normalizeEscapes, List.length_drop] at hlength
          omega
  | false =>
      unfold strip cutAt without
      simp only [Bool.false_eq_true, if_false]
      by_cases hsuffix : verb.decoded <:+ value
      · rw [if_pos (List.isSuffixOf_iff_suffix.mpr hsuffix),
          if_pos (List.suffix_iff_eq_drop.mp hsuffix).symm]
      · rw [if_neg (mt List.isSuffixOf_iff_suffix.mp hsuffix), if_neg]
        exact fun hsame => hsuffix (List.suffix_iff_eq_drop.mpr hsame.symm)

theorem multiSegment_head? (decoder : PercentDecoder) {raw : Text} (hraw : raw.head? = some colon)
    (emptyOk : Bool) :
    (Verb.new decoder raw emptyOk).multiSegment.head? = some colon := by
  obtain ⟨rest, rfl⟩ := List.head?_eq_some_iff.mp hraw
  rw [Verb.new, normalizeEscapes_head?, decodeMultiSegment_cons_colon,
    fromUtf8Lossy_cons (by decide)]
  rfl

end Verb

/-! ### The steps -/

theorem PathTable.stripVerb_eq {table : PathTable} {binding : Binding}
    (hcolon : ∀ verb ∈ binding.verb, verb.multiSegment.head? = some colon) (before : List Param)
    {captured : List Param} (hlength : captured.length = table.captures.length) :
    ∃ stripped, table.stripVerb binding before.length (before ++ captured) = some (before ++ stripped) ∧
      stripped.map Prod.snd = binding.valuesOf (captured.map Prod.snd) := by
  unfold stripVerb Binding.valuesOf
  cases hverb : binding.verb with
  | none => exact ⟨captured, rfl, rfl⟩
  | some verb =>
      rcases List.eq_nil_or_concat captured with rfl | ⟨init, last, rfl⟩
      · rw [← hlength]
        exact ⟨[], rfl, rfl⟩
      · rw [List.concat_eq_append] at hlength ⊢
        have hlast : table.captures.length = init.length + 1 := by
          rw [← hlength, List.length_append]
          rfl
        have hsub : checkedSub table.captures.length 1 = some init.length := by
          rw [hlast]
          rfl
        have hget : (before ++ (init ++ [last]))[before.length + init.length]? = some last := by
          simp
        refine ⟨init ++ [(last.1, verb.strip (binding.multiSegment.contains init.length) last.2)],
          ?_, ?_⟩
        · simp only [hsub, hget, Option.bind_eq_bind, Option.bind_some, Option.some.injEq]
          simp
        · rw [Verb.strip_eq_without (hcolon verb hverb)]
          have hmodify := Lib.modify_concat (init.map Prod.snd) last.2
            (verb.without (binding.multiSegment.contains init.length))
          rw [List.length_map] at hmodify
          simpa using hmodify.symm

def Holds (base : Nat) (values : List Text) (params : List Param) : Prop :=
  ∀ position < values.length, (params[base + position]?).map Prod.snd = some (values.getD position [])

theorem holds_append (before captured after : List Param) :
    Holds before.length (captured.map Prod.snd) (before ++ captured ++ after) := by
  intro position hposition
  rw [List.length_map] at hposition
  rw [List.append_assoc, List.getElem?_append_right (Nat.le_add_right _ _), Nat.add_sub_cancel_left,
    List.getElem?_append_left hposition, ← List.getElem?_map, List.getD_eq_getElem?_getD]
  have hlt : position < (captured.map Prod.snd).length := by rwa [List.length_map]
  rw [List.getElem?_eq_getElem hlt]
  rfl

namespace Binding

variable {base : Nat} {values : List Text} {params : List Param}

theorem joinParts_eq (hvalues : Holds base values params) (value : Text) (index : Nat) {part : Part}
    (hpart : ∀ position, part = .capture position → position < values.length) :
    joinParts base params value (part, index) =
      some ((if index > 0 then value ++ [slash] else value) ++ part.valueIn values) := by
  cases part with
  | literal text => rfl
  | capture position =>
      obtain ⟨param, hparam, hvalue⟩ := Option.map_eq_some_iff.mp (hvalues position (hpart position rfl))
      simp only [joinParts, hparam, Option.bind_eq_bind, Option.bind_some, hvalue, Part.valueIn]

theorem foldlM_joinParts_succ (hvalues : Holds base values params) {parts : List Part} :
    ∀ {index : Nat} (value : Text),
      (∀ position, Part.capture position ∈ parts → position < values.length) →
      (parts.zipIdx (index + 1)).foldlM (joinParts base params) value =
        some (value ++ (parts.map (Part.valueIn values)).flatMap ([slash] ++ ·)) := by
  induction parts with
  | nil => intro index value _; exact congrArg some (List.append_nil value).symm
  | cons part parts ih =>
      intro index value hparts
      have hpart : ∀ position, part = .capture position → position < values.length :=
        fun position hpart => hparts position (hpart ▸ List.mem_cons_self)
      rw [List.zipIdx_cons, List.foldlM_cons, joinParts_eq hvalues value _ hpart,
        if_pos (Nat.succ_pos index), Option.bind_eq_bind, Option.bind_some,
        ih _ fun position hmem => hparts position (List.mem_cons_of_mem _ hmem)]
      simp

theorem foldlM_joinParts (hvalues : Holds base values params) {parts : List Part}
    (hparts : ∀ position, Part.capture position ∈ parts → position < values.length) :
    parts.zipIdx.foldlM (joinParts base params) [] =
      some ([slash].intercalate (parts.map (Part.valueIn values))) := by
  cases parts with
  | nil => rfl
  | cons part parts =>
      have hpart : ∀ position, part = .capture position → position < values.length :=
        fun position hpart => hparts position (hpart ▸ List.mem_cons_self)
      rw [List.zipIdx_cons, List.foldlM_cons, joinParts_eq hvalues [] _ hpart,
        if_neg (Nat.lt_irrefl 0), Option.bind_eq_bind, Option.bind_some, List.map_cons,
        Lib.intercalate_cons_eq]
      exact foldlM_joinParts_succ hvalues _ fun position hmem =>
        hparts position (List.mem_cons_of_mem _ hmem)

/-- The composites follow the captures, each with its parts joined. -/
theorem foldlM_pushComposite {before captured : List Param} {composites : List Composite} :
    ∀ after : List Param, (∀ composite ∈ composites, composite.Within captured.length) →
      composites.foldlM (pushComposite before.length) (before ++ captured ++ after) =
        some (before ++ captured ++
          (after ++ composites.map (Composite.paramOf (captured.map Prod.snd)))) := by
  induction composites with
  | nil => intro after _; rw [List.map_nil, List.append_nil]; rfl
  | cons composite composites ih =>
      intro after hwithin
      have hcomposite : ∀ position, Part.capture position ∈ composite.parts →
          position < (captured.map Prod.snd).length := by
        intro position hposition
        rw [List.length_map]
        exact hwithin composite List.mem_cons_self position hposition
      have hpush : pushComposite before.length (before ++ captured ++ after) composite =
          some (before ++ captured ++ (after ++ [composite.paramOf (captured.map Prod.snd)])) := by
        rw [pushComposite, foldlM_joinParts (holds_append before captured after) hcomposite,
          Option.bind_eq_bind, Option.bind_some, List.append_assoc (before ++ captured)]
        rfl
      rw [List.foldlM_cons, hpush, Option.bind_eq_bind, Option.bind_some,
        ih _ fun other hother => hwithin other (List.mem_cons_of_mem _ hother)]
      simp

def becomes (binding : Binding) (names : List Text) (base at_ : Nat) (param : Param) : Option Param :=
  if at_ < base then some param
  else if binding.unbound.contains (at_ - base) then none
  else some (names.getD (at_ - base) [], param.2)

theorem visitParam_eq {binding : Binding} {captures names : List Text}
    (hnames : binding.names.getD captures = names) {at_ : Nat} (hat : at_ < base + names.length)
    (param : Param) :
    binding.visitParam captures base at_ param = some (binding.becomes names base at_ param) := by
  unfold visitParam becomes checkedSub
  by_cases hbase : base ≤ at_
  · rw [if_pos hbase, if_neg (Nat.not_lt.mpr hbase), hnames]
    have hlt : at_ - base < names.length := by omega
    dsimp only
    split
    · rfl
    · rw [List.getElem?_eq_getElem hlt, List.getD_eq_getElem?_getD, List.getElem?_eq_getElem hlt]
      rfl
  · rw [if_neg hbase, if_pos (Nat.not_le.mp hbase)]

theorem filterMap_becomes_before (binding : Binding) (names : List Text) (before : List Param) :
    before.zipIdx.filterMap (fun entry => binding.becomes names before.length entry.2 entry.1) =
      before := by
  have hkeep : ∀ entry ∈ before.zipIdx,
      binding.becomes names before.length entry.2 entry.1 = some entry.1 := by
    intro entry hentry
    have hlt := List.snd_lt_of_mem_zipIdx hentry
    exact if_pos hlt
  rw [List.filterMap_congr hkeep, ← Function.comp_def some Prod.fst, List.filterMap_eq_map,
    List.zipIdx_map_fst]

theorem filterMap_becomes (binding : Binding) (base : Nat) {all : List Text} {captured : List Param} :
    ∀ {names : List Text} {k : Nat}, all.drop k = names → names.length = captured.length →
      (captured.zipIdx (base + k)).filterMap (fun entry => binding.becomes all base entry.2 entry.1) =
        (((names.zip (captured.map Prod.snd)).zipIdx k).filter fun param =>
          !binding.unbound.contains param.2).map Prod.fst := by
  induction captured with
  | nil =>
      intro names k _ hlength
      rw [List.map_nil, List.zip_nil_right]
      rfl
  | cons param captured ih =>
      intro names k hall hlength
      cases names with
      | nil => cases hlength
      | cons name names =>
          have hname : all.getD k [] = name := by
            rw [List.getD_eq_getElem?_getD, ← List.head?_drop, hall]
            rfl
          have hrest : all.drop (k + 1) = names := by
            rw [← List.tail_drop, hall]
            rfl
          have hbecomes : binding.becomes all base (base + k) param =
              if binding.unbound.contains k then none else some (name, param.2) := by
            rw [becomes, if_neg (by omega), Nat.add_sub_cancel_left, hname]
          have htail := ih hrest (Nat.succ.inj hlength)
          rw [List.zipIdx_cons, List.filterMap_cons, hbecomes, List.map_cons, List.zip_cons_cons,
            List.zipIdx_cons, List.filter_cons, Nat.add_assoc, htail]
          cases binding.unbound.contains k <;> rfl

end Binding

/-! ### The binding -/

section Bound

variable {decoder : PercentDecoder} {router : Matchit} {table : PathTable} {binding : Binding}
  {template first : Text}

theorem PathTable.Mounts.verb_colon (h : table.Mounts decoder router binding template first) :
    ∀ verb ∈ binding.verb, verb.multiSegment.head? = some colon := by
  intro verb hverb
  obtain ⟨entry, names, rfl, -⟩ := h.binding_eq
  obtain ⟨raw, hraw, rfl⟩ := Option.map_eq_some_iff.mp hverb
  have hsplit : MountedPath.splitVerb template = ((MountedPath.splitVerb template).1, some raw) :=
    Prod.ext rfl hraw
  exact Verb.multiSegment_head? decoder (exists_of_splitVerb hsplit).2.1 _

theorem PathTable.Mounts.within (h : table.Mounts decoder router binding template first) :
    ∀ composite ∈ binding.composites, composite.Within table.captures.length := by
  intro composite hcomposite
  rw [← h.length_captures]
  obtain ⟨entry, names, rfl, -⟩ := h.binding_eq
  exact (writes_mountingOf template).composites composite hcomposite

/-- The names a binding gives the captures are those of its own template. -/
theorem PathTable.Mounts.names_eq (h : table.Mounts decoder router binding template first) :
    binding.names.getD table.captures = (MountedPath.new template).captures := by
  obtain ⟨entry, names, rfl, hnames⟩ := h.binding_eq
  exact hnames

theorem PathTable.Mounts.bindParams_eq (h : table.Mounts decoder router binding template first)
    {index : Nat} (hindex : table.bindings[index]? = some binding) (before : List Param)
    {captured : List Param} (hlength : captured.length = table.captures.length) :
    table.bindParams index (before ++ captured) =
      some (before ++
        binding.ownParams (MountedPath.new template).captures
          (binding.valuesOf (captured.map Prod.snd)) ++
        binding.composites.map (Composite.paramOf (binding.valuesOf (captured.map Prod.snd)))) := by
  obtain ⟨stripped, hstrip, hvalues⟩ := stripVerb_eq h.verb_colon before hlength
  have hcount : stripped.length = table.captures.length := by
    have hsame := congrArg List.length hvalues
    rwa [Binding.length_valuesOf, List.length_map, List.length_map, hlength] at hsame
  have hbase : checkedSub (before ++ captured).length table.captures.length = some before.length := by
    rw [List.length_append, hlength, checkedSub, if_pos (Nat.le_add_left _ _), Nat.add_sub_cancel]
  have hwithin : ∀ composite ∈ binding.composites, composite.Within stripped.length := by
    rw [hcount]
    exact h.within
  have hcomposites := @Binding.foldlM_pushComposite before stripped binding.composites [] hwithin
  rw [List.append_nil, List.nil_append] at hcomposites
  -- The loop over the matched parameters keeps the prefixes and the captures the binding names.
  have hlist : (before ++ stripped).length ≤ (before ++ stripped ++
      binding.composites.map (Composite.paramOf (stripped.map Prod.snd))).length := by
    simp only [List.length_append]
    omega
  have hcompact := Lib.compact_eq hlist fun i hi param _ => Binding.visitParam_eq h.names_eq (by
    rw [h.length_captures, ← hcount, ← List.length_append]
    exact hi) param
  have hkept : Lib.keptOf (binding.becomes (MountedPath.new template).captures before.length)
      (before ++ stripped).length
      (before ++ stripped ++ binding.composites.map (Composite.paramOf (stripped.map Prod.snd))) =
      before ++ binding.ownParams (MountedPath.new template).captures (stripped.map Prod.snd) := by
    have hown := binding.filterMap_becomes before.length
      (List.drop_zero (l := (MountedPath.new template).captures)) (h.length_captures.trans hcount.symm)
    rw [Nat.add_zero] at hown
    rw [Lib.keptOf, List.take_left, List.zipIdx_append, List.filterMap_append, Nat.zero_add,
      binding.filterMap_becomes_before, hown]
    rfl
  rw [hkept, List.drop_left] at hcompact
  obtain ⟨state, hrounds, hresult⟩ := Option.map_eq_some_iff.mp hcompact
  rw [← hvalues, ← hresult]
  simp only [bindParams, hindex, hbase, hstrip, hcomposites, Option.bind_eq_bind, Option.bind_some,
    hrounds]

/-- **Binding the parameters** of a request: the prefixes' stay, the captures the binding names follow
under the names its own template gives them, then the fields spelled out over several segments. Every
binding of a table that serves was mounted from a template. -/
theorem bindParams_binding {uri : UriParser} {pool : DescriptorPool} {aliases : List AliasConfig}
    {selection : RpcSelection} (hserved : table ∈ pathTables decoder router uri pool aliases selection)
    {index : Nat} (hindex : table.bindings[index]? = some binding) (before : List Param)
    {captured : List Param} (hlength : captured.length = table.captures.length) :
    (∃ template first, table.Mounts decoder router binding template first) ∧
      ∀ template first, table.Mounts decoder router binding template first →
        binding.names.getD table.captures = (MountedPath.new template).captures ∧
        table.bindParams index (before ++ captured) =
          some (before ++
            binding.ownParams (MountedPath.new template).captures
              (binding.valuesOf (captured.map Prod.snd)) ++
            binding.composites.map
              (Composite.paramOf (binding.valuesOf (captured.map Prod.snd)))) := by
  obtain ⟨shape, hbuilt⟩ := built_of_mem_pathTables hserved
  refine ⟨hbuilt.exists_mounts (List.mem_of_getElem? hindex), fun template first hmounts => ?_⟩
  exact ⟨hmounts.names_eq, hmounts.bindParams_eq hindex before hlength⟩

end Bound

/-! A note under a shelf, and the same path with the names swapped, the segments before the last one
field and a verb. -/

def getNotePath : Text := str "/v1/\x7bshelf\x7d/notes/\x7bnote\x7d"

def pinNotePath : Text := str "/v1/\x7bnote=*/notes\x7d/\x7bshelf\x7d:pin"

def getNote : RouteBinding where
  entry := { httpPath := getNotePath, httpMethod := .one Method.GET, grpcPath := str "/Notes/Get" }
  mount := MountedPath.new getNotePath

def pinNote : RouteBinding where
  entry := { httpPath := pinNotePath, httpMethod := .one Method.POST, grpcPath := str "/Notes/Pin" }
  mount := MountedPath.new pinNotePath

def noteTable : PathTable := addTo percentDecoder (tableOf percentDecoder getNote) pinNote

def notePool : DescriptorPool where
  httpExtension := true
  services := [{
    fullName := str "Notes"
    methods := [{ name := str "Get", http := some { get := getNotePath } },
      { name := str "Pin", http := some { post := pinNotePath } }] }]

def noteParams : List Param :=
  [(str "tenant", str "t"), (str "shelf", str "7"), (str "note", str "9:pin")]

example : noteTable.bindParams 1 noteParams =
    some [(str "tenant", str "t"), (str "shelf", str "9"), (str "note", str "7/notes")] := by
  decide +kernel

theorem noteTable_bound : ∃ binding, noteTable.bindings[1]? = some binding ∧
    binding.names.getD noteTable.captures = (MountedPath.new pinNotePath).captures ∧
      noteTable.bindParams 1 noteParams = some ([(str "tenant", str "t")] ++
        binding.ownParams (MountedPath.new pinNotePath).captures
          (binding.valuesOf [str "7", str "9:pin"]) ++
        binding.composites.map (Composite.paramOf (binding.valuesOf [str "7", str "9:pin"]))) := by
  have hget : Routable ⟨fun _ _ => none⟩ getNotePath := by unfold Routable; decide +kernel
  have hpin : Routable ⟨fun _ _ => none⟩ pinNotePath := by unfold Routable; decide +kernel
  have hserved : noteTable ∈ pathTables percentDecoder ⟨fun _ _ => none⟩ ⟨some⟩ notePool [] {} := by
    decide +kernel
  have hindex : noteTable.bindings[1]? = some (Binding.ofMount percentDecoder (MountedPath.new pinNotePath)
      pinNote.entry (some (MountedPath.new pinNotePath).captures)) := by decide +kernel
  obtain ⟨-, hbound⟩ := bindParams_binding hserved hindex [(str "tenant", str "t")]
    (show [(str "shelf", str "7"), (str "note", str "9:pin")].length = noteTable.captures.length by
      decide +kernel)
  exact ⟨_, hindex, hbound pinNotePath getNotePath
    ⟨hpin, hget, by decide +kernel, by decide +kernel, by decide +kernel, _, _, rfl, rfl⟩⟩

end StructuredProxy
