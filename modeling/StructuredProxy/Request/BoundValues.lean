import StructuredProxy.Request.BodyWins
import StructuredProxy.Request.Overwritten

/-!
# A body value for a field the path binds decides nothing

A body that fails is read again without the keys the path binds; one that passes keeps them until the
path writes over them. Either comes to the same as the body without the entries that name bound fields,
for the message and for what a query may still fill. Only a field on the way under both of its names
gets past `strip_path_fields`, which follows one of them.
-/

namespace StructuredProxy

variable {types : Types} {proto : ProtoJson} {libs : Libraries} {input type : MessageType}
  {mapping : BodyMapping} {p q : List Field}

theorem blocks_recordPaths (paths : List (List Field)) (q : List Field) : ∀ {presence : Presence}
    {trees : List KeyTree}, presence.entries = KeyTree.entries.all 0 trees →
    (presence.recordPaths paths).blocks types q = (presence.blocks types q ||
      paths.any fun path => (KeyTree.chain false path).any (KeyTree.blocks types q)) := by
  induction paths with
  | nil => intro presence trees _; exact (Bool.or_false _).symm
  | cons path paths ih =>
      intro presence trees hentries
      have hnext : (presence.recordPath path false).entries =
          KeyTree.entries.all 0 (trees ++ KeyTree.chain false path) := by
        rw [KeyTree.all_append, KeyTree.all_chain, ← hentries]
        rfl
      refine (ih hnext).trans ?_
      rw [Presence.blocks_eq hnext, Presence.blocks_eq hentries, List.any_append, List.any_cons]
      simp only [Presence.recordPath, Bool.or_assoc]

theorem blocks_recordMessage_paths (json : Json) (paths : List (List Field)) (q : List Field) :
    ((recordMessage types proto input json {}).recordPaths paths).blocks types q =
      ((recordMessage types proto input json {}).blocks types q ||
        paths.any fun path => (KeyTree.chain false path).any (KeyTree.blocks types q)) := by
  unfold recordMessage
  split
  · exact @blocks_recordPaths types paths q _ [] rfl
  · split
    · exact blocks_recordPaths paths q (List.nil_append _)
    · exact @blocks_recordPaths types paths q _ [] rfl

theorem chains_block {paths : List (List Field)} (hpaths : ∀ path ∈ paths, PathIn types input path)
    (hq : PathIn types input q) (hnear : ∃ path ∈ paths, Near path q) :
    (paths.any fun path => (KeyTree.chain false path).any (KeyTree.blocks types q)) = true := by
  obtain ⟨path, hpath, hbegins | hbegins⟩ := hnear
  · exact List.any_eq_true.mpr
      ⟨path, hpath, KeyTree.chain_blocks_of_above types (hpaths path hpath).ne_nil hbegins⟩
  · exact List.any_eq_true.mpr
      ⟨path, hpath, KeyTree.chain_blocks_of_isPrefix types false hq.ne_nil hbegins⟩

structure Draft.Like (types : Types) (input : MessageType) (draft draft' : Draft) : Prop where
  fields : draft.fields = draft'.fields
  isSome : draft.presence.isSome = draft'.presence.isSome
  blocks : ∀ q, PathIn types input q → draft.blocks types q = draft'.blocks types q

theorem assign_like {readers : StringReaders} {path : List Field} (hpath : PathIn types input path)
    (values : List Text) {draft draft' : Draft} (hlike : draft.Like types input draft') :
    (assign types readers .fill path values draft).1 = (assign types readers .fill path values draft').1 ∧
      (assign types readers .fill path values draft).2.Like types input
        (assign types readers .fill path values draft').2 := by
  obtain ⟨fields, presence⟩ := draft
  obtain ⟨fields', presence'⟩ := draft'
  obtain ⟨rfl, hsome, hblocks⟩ := hlike
  have hsame : ∀ fields, Draft.Like types input ⟨fields, presence⟩ ⟨fields, presence'⟩ := fun fields =>
    ⟨rfl, hsome, hblocks⟩
  have hfill := recordedAfter_fill path presence
  have hfill' := recordedAfter_fill path presence'
  have hblocked : presence.any (·.blocks types path) = presence'.any (·.blocks types path) :=
    hblocks path hpath
  unfold recordedAfter at hfill hfill'
  unfold assign
  simp only [hblocked, hfill, hfill']
  split
  · exact ⟨rfl, hsame fields⟩
  · split
    · exact ⟨rfl, hsame fields⟩
    · split
      · exact ⟨rfl, hsame fields⟩
      · split <;> exact ⟨rfl, hsame _⟩

theorem bare_bindQuery_like {query : List (Text × Text)} {draft draft' : Draft} (inside : Bool)
    (hlike : draft.Like types input draft') :
    bare (bindQuery types libs input query inside draft) =
      bare (bindQuery types libs input query inside draft') := by
  obtain ⟨hresult, hnext⟩ := @bindPairs_related types libs.strings .fill query (rootStart input) none
    (Draft.Like types input) (fun key found values next next' hresolve hnext =>
      assign_like (resolve_pathIn (rootStart_sound input) hresolve) values hnext) draft draft' hlike
  have hbare := bare_settled hresult hnext.fields
  have hsome := hlike.isSome
  unfold bindQuery
  cases hpresence : draft.presence with
  | none =>
      cases hpresence' : draft'.presence with
      | none =>
          rw [bare, bare, Except.map, Except.map, hlike.fields]
      | some presence' =>
          rw [hpresence, hpresence'] at hsome
          cases hsome
  | some presence =>
      cases hpresence' : draft'.presence with
      | none =>
          rw [hpresence, hpresence'] at hsome
          cases hsome
      | some presence' =>
          rcases bare_cases hbare with ⟨error, hfirst, hfirst'⟩ |
            ⟨set, next, next', hfirst, hfirst', hfields⟩
          · simp only [hfirst, hfirst', Except.map]
          · simp only [hfirst, hfirst', Except.map, bare, hfields]

def finishBuild (types : Types) (libs : Libraries) (input : MessageType)
    (pathParams query : List (Text × Text)) (inside : Bool) (draft : Draft) : Except Text Fields := do
  let (inside, draft) ← bindPath types libs input pathParams inside draft
  let (inside, draft) ← bindQuery types libs input query inside draft
  if inside then checkWellKnown types libs input draft.fields
  return draft.fields

structure Draft.Over (types : Types) (input : MessageType) (paths : List (List Field))
    (draft draft' : Draft) : Prop where
  fields : draft.fields.OverAll paths draft'.fields
  isSome : draft.presence.isSome = draft'.presence.isSome
  blocks : ∀ q, PathIn types input q →
    (draft.presence.map (·.recordPaths paths)).any (·.blocks types q) =
      (draft'.presence.map (·.recordPaths paths)).any (·.blocks types q)

/-- **Drafts that differ in what the path writes over are finished alike.** -/
theorem finishBuild_over {pathParams query : List (Text × Text)} {draft draft' : Draft} (inside : Bool)
    (hway : (pathFields types input pathParams).Pairwise GivesWay)
    (hover : draft.Over types input (pathFields types input pathParams) draft') :
    (finishBuild types libs input pathParams query inside draft).toOption =
      (finishBuild types libs input pathParams query inside draft').toOption := by
  have hrun := @Fields.OverAll.runSteps_eq types input libs.strings pathParams hway _ _ hover.fields
  unfold finishBuild
  rw [Lib.toOption_bind, Lib.toOption_bind, bindPath_toOption, bindPath_toOption, hrun]
  cases Lib.runSteps (bindValue libs.strings) (boundValues types input pathParams) draft'.fields with
  | none => rfl
  | some fields =>
      have hlike : Draft.Like types input
          ⟨fields, draft.presence.map (·.recordPaths (pathFields types input pathParams))⟩
          ⟨fields, draft'.presence.map (·.recordPaths (pathFields types input pathParams))⟩ :=
        ⟨rfl, by simpa using hover.isSome, hover.blocks⟩
      have hquery := @bare_bindQuery_like types libs input query _ _
        (inside || bindsInside types input pathParams) hlike
      simp only [Option.map_some, Option.bind_some]
      rcases bare_cases hquery with ⟨error, hfirst, hfirst'⟩ |
        ⟨set, next, next', hfirst, hfirst', hfields⟩
      · rw [hfirst, hfirst']
      · rw [hfirst, hfirst', Lib.toOption_bind, Lib.toOption_bind]
        simp only [Except.toOption, Option.bind_some, hfields]

/-! ### One body -/

def Json.rest (types : Types) (input : MessageType) (mapping : BodyMapping)
    (pathParams : List (Text × Text)) (body : Json) : Json :=
  body.eraseBound mapping (pathFields types input pathParams)

def Json.leftover (types : Types) (input : MessageType) (mapping : BodyMapping)
    (pathParams : List (Text × Text)) (body : Json) : Json :=
  (body.rest types input mapping pathParams).toValue

def Json.readsFirst (types : Types) (proto : ProtoJson) (input : MessageType) (mapping : BodyMapping)
    (body : Json) : Bool :=
  (readMessage types proto input (wrapBody input mapping body)).isOk

/-- A body that is read once names the fields on the way to a bound field by names that are read as
those fields, and are names of no others when there is a query; it names no bound field inside a
well-known type. One that is read again loses exactly the entries that name bound fields to
`strip_path_fields`. -/
structure PlainBody (types : Types) (proto : ProtoJson) (input : MessageType) (mapping : BodyMapping)
    (pathParams query : List (Text × Text)) (body : Json) : Prop where
  reads : body.readsFirst types proto input mapping = true →
    body.OnWays MessageType.readsAs types input mapping (pathParams.map Prod.fst)
  only : body.readsFirst types proto input mapping = true → query ≠ [] →
    body.OnWays MessageType.namesOnly types input mapping (pathParams.map Prod.fst)
  outside : body.readsFirst types proto input mapping = true →
    body.OutsideWellKnown types input mapping (pathParams.map Prod.fst)
  stripped : body.readsFirst types proto input mapping = false →
    stripPathFields types input mapping pathParams body.toValue =
      body.leftover types input mapping pathParams

/-- What is left of the body in the read that counts: the second one, of a value, when the first one
fails and the path binds anything. -/
def Json.lastRead (types : Types) (proto : ProtoJson) (input : MessageType) (mapping : BodyMapping)
    (pathParams : List (Text × Text)) (body : Json) : Json :=
  if body.readsFirst types proto input mapping || pathParams.isEmpty then
    body.rest types input mapping pathParams
  else body.leftover types input mapping pathParams

variable {pathParams query : List (Text × Text)} {body : Json}

theorem pathIn_of_pathFields {path : List Field} (h : path ∈ pathFields types input pathParams) :
    PathIn types input path := by
  obtain ⟨key, -, hkey⟩ := List.mem_filterMap.mp h
  obtain ⟨found, hfound, rfl⟩ := Option.map_eq_some_iff.mp hkey
  exact resolve_pathIn (rootStart_sound input) hfound

theorem readsFirst_eq (presence : Option Presence) : body.readsFirst types libs.proto input mapping =
    (deserialize types libs input mapping body presence).isOk := by
  rw [Json.readsFirst, deserialize]
  cases readMessage types libs.proto input (wrapBody input mapping body) <;> rfl

/-- A body that reads differs from what is left of it in what the path writes over. -/
theorem deserialize_over
    (hmapping : ∀ name, mapping = .field name → ∃ field, input.getFieldByName name = some field)
    (hbody : PlainBody types libs.proto input mapping pathParams query body) {presence : Option Presence}
    (hpresence : ∀ recorded ∈ presence, recorded = {} ∧ query ≠ []) {draft : Draft}
    (h : deserialize types libs input mapping body presence = .ok draft) :
    ∃ draft', deserialize types libs input mapping (body.rest types input mapping pathParams)
        presence = .ok draft' ∧
      draft.Over types input (pathFields types input pathParams) draft' := by
  unfold deserialize at h ⊢
  cases hread : readMessage types libs.proto input (wrapBody input mapping body) with
  | error error =>
      rw [hread] at h
      cases h
  | ok read =>
      rw [hread] at h
      obtain rfl := Except.ok.inj h
      have hfirst : body.readsFirst types libs.proto input mapping = true := by
        rw [Json.readsFirst, hread]
        rfl
      have hquery : presence.isSome = true → query ≠ [] := fun h =>
        (hpresence _ (Option.get_mem h)).2
      have hover := @readMessage_eraseBound types libs.proto input mapping presence.isSome hmapping _ _ _
        (fun _ h => h) (hbody.reads hfirst) (fun h => hbody.only hfirst (hquery h))
        (hbody.outside hfirst)
      obtain ⟨read', hread', hfields⟩ := hover.reads read hread
      change readMessage types libs.proto input
        (wrapBody input mapping (body.rest types input mapping pathParams)) = .ok read' at hread'
      rw [hread']
      refine ⟨_, rfl, hfields, by cases presence <;> rfl, fun q hq => ?_⟩
      cases presence with
      | none => rfl
      | some recorded =>
          obtain ⟨rfl, -⟩ := hpresence recorded rfl
          have hblocks := hover.blocks rfl q hq
          simp only [Option.map_some, Option.any_some]
          rw [blocks_recordMessage_paths, blocks_recordMessage_paths, Bool.eq_iff_iff, Bool.or_eq_true,
            Bool.or_eq_true]
          constructor
          · rintro (hbefore | hchains)
            · exact (hblocks.more hbefore).imp_right (chains_block (fun _ => pathIn_of_pathFields) hq)
            · exact Or.inr hchains
          · exact Or.imp_left hblocks.less

/-- **A body comes to the same as what is left of it.** -/
theorem finishBuild_jsonBody
    (hmapping : ∀ name, mapping = .field name → ∃ field, input.getFieldByName name = some field)
    (hway : (pathFields types input pathParams).Pairwise GivesWay)
    (hbody : PlainBody types libs.proto input mapping pathParams query body) {presence : Option Presence}
    (hpresence : ∀ recorded ∈ presence, recorded = {} ∧ query ≠ []) {bytes : Text}
    (hparse : libs.parseJson bytes = .ok body) (hnull : ¬(mapping = .root ∧ body = .null)) :
    ((jsonBody types libs input mapping bytes pathParams presence).toOption.bind fun draft =>
        (finishBuild types libs input pathParams query false draft).toOption) =
      ((deserialize types libs input mapping
        (body.lastRead types libs.proto input mapping pathParams) presence).toOption.bind fun draft =>
          (finishBuild types libs input pathParams query false draft).toOption) := by
  have htext : ¬(mapping = .root && trimJsonWhitespace bytes = str "null") = true := by
    rw [Bool.and_eq_true, decide_eq_true_eq, decide_eq_true_eq, ← libs.parseJson_null, hparse]
    rintro ⟨hroot, hjson⟩
    exact hnull ⟨hroot, Except.ok.inj hjson⟩
  rw [jsonBody, if_neg htext, hparse]
  simp only
  cases hfirst : deserialize types libs input mapping body presence with
  | ok draft =>
      obtain ⟨draft', hsecond, hover⟩ := deserialize_over hmapping hbody hpresence hfirst
      have hreads : body.readsFirst types libs.proto input mapping = true := by
        rw [readsFirst_eq presence, hfirst]
        rfl
      rw [Json.lastRead, hreads, Bool.true_or, if_pos rfl, hsecond]
      exact finishBuild_over false hway hover
  | error error =>
      simp only
      have hreads : body.readsFirst types libs.proto input mapping = false := by
        rw [readsFirst_eq presence, hfirst]
        rfl
      have hsame : (presence.map fun _ => ({} : Presence)) = presence := by
        cases presence with
        | none => rfl
        | some recorded => rw [Option.map_some, (hpresence recorded rfl).1]
      rw [Json.lastRead, hreads, Bool.false_or]
      cases hparams : pathParams.isEmpty with
      | true =>
          obtain rfl := List.isEmpty_iff.mp hparams
          rw [if_pos rfl, if_pos rfl]
          have hrest : body.rest types input mapping [] = body := rfl
          rw [hrest, hfirst]
          rfl
      | false =>
          rw [if_neg (by decide), if_neg (by decide), hsame, hbody.stripped hreads]
          cases deserialize types libs input mapping (body.leftover types input mapping pathParams)
            presence <;> rfl

/-! ### Two bodies -/

theorem Json.toValue_eq_null {json : Json} : json.toValue = .null ↔ json = .null := by
  cases json <;> simp [toValue]

theorem Json.erase_eq_null {json : Json} {path : List Field} : json.erase path = .null ↔ json = .null := by
  cases json with
  | object entries =>
      obtain ⟨keep, change, herase, -⟩ := Json.erase_object path entries
      rw [herase]
      simp
  | _ => rw [erase_of_not_object path rfl]

theorem Json.leftover_eq_null : body.leftover types input mapping pathParams = .null ↔ body = .null := by
  rw [leftover, toValue_eq_null, rest, eraseBound]
  induction pathFields types input pathParams generalizing body with
  | nil => rfl
  | cons path paths ih => rw [List.foldl_cons, ih, erase_eq_null]

theorem toOption_build_json (hmapping : mapping ≠ .none) (bytes : Text) :
    (build types libs input mapping (.json bytes) pathParams query).toOption =
      ((jsonBody types libs input mapping (jsonText bytes) pathParams
        (if query.isEmpty then none else some {})).toOption.bind fun draft =>
          (finishBuild types libs input pathParams query false draft).toOption) := by
  have hread : readBody types libs input mapping (.json bytes) pathParams
      (if query.isEmpty then none else some {}) = (jsonBody types libs input mapping (jsonText bytes)
        pathParams (if query.isEmpty then none else some {})).map fun draft => (false, draft) := by
    cases mapping with
    | none => exact absurd rfl hmapping
    | root => rfl
    | field name => rfl
  unfold build
  simp only
  rw [hread, Lib.toOption_bind, Lib.toOption_map, Option.bind_map]
  rfl

/-- Two bodies read alike: both fail or give one message, and their keys keep a query from the same
fields. -/
structure ReadsAlike (types : Types) (proto : ProtoJson) (input : MessageType) (json json' : Json) :
    Prop where
  reads : (readMessage types proto input json).toOption = (readMessage types proto input json').toOption
  blocks : ∀ q, PathIn types input q → (recordMessage types proto input json {}).blocks types q =
    (recordMessage types proto input json' {}).blocks types q

/-- What is left of the body reads alike in the order it came in and as a value. -/
def Json.OrderFree (types : Types) (proto : ProtoJson) (input : MessageType) (mapping : BodyMapping)
    (pathParams : List (Text × Text)) (body : Json) : Prop :=
  ReadsAlike types proto input
    (wrapBody input mapping (body.lastRead types proto input mapping pathParams))
    (wrapBody input mapping (body.leftover types input mapping pathParams))

theorem ReadsAlike.finishBuild_eq {json json' : Json}
    (halike : ReadsAlike types libs.proto input (wrapBody input mapping json)
      (wrapBody input mapping json'))
    (hway : (pathFields types input pathParams).Pairwise GivesWay)
    {presence : Option Presence} (hpresence : ∀ recorded ∈ presence, recorded = {}) :
    ((deserialize types libs input mapping json presence).toOption.bind fun draft =>
        (finishBuild types libs input pathParams query false draft).toOption) =
      ((deserialize types libs input mapping json' presence).toOption.bind fun draft =>
        (finishBuild types libs input pathParams query false draft).toOption) := by
  rw [deserialize, deserialize, Lib.toOption_map, Lib.toOption_map, halike.reads]
  cases (readMessage types libs.proto input (wrapBody input mapping json')).toOption with
  | none => rfl
  | some read =>
      refine finishBuild_over false hway ⟨.refl, by cases presence <;> rfl, fun q hq => ?_⟩
      cases presence with
      | none => rfl
      | some recorded =>
          obtain rfl := hpresence recorded rfl
          simp only [Option.map_some, Option.any_some]
          rw [blocks_recordMessage_paths, blocks_recordMessage_paths, halike.blocks q hq]

/-- A path parameter has no value of its field, whatever the message. -/
def PathRefused (types : Types) (readers : StringReaders) (input : MessageType)
    (pathParams : List (Text × Text)) : Prop :=
  ∃ bound ∈ boundValues types input pathParams, ∀ fields, bindValue readers bound fields = none

theorem PathRefused.finishBuild_eq (h : PathRefused types libs.strings input pathParams) (inside : Bool)
    (draft : Draft) : (finishBuild types libs input pathParams query inside draft).toOption = none := by
  rw [finishBuild, Lib.toOption_bind, bindPath_toOption, Lib.runSteps_refused h]
  rfl

/-- Path parameters give way to later ones, both bodies are plain, and the reads that count are of the
same JSON or do not depend on its order. -/
structure PlainBodies (types : Types) (libs : Libraries) (input : MessageType) (mapping : BodyMapping)
    (pathParams query : List (Text × Text)) (body body' : Json) : Prop where
  way : (pathFields types input pathParams).Pairwise GivesWay
  plain : PlainBody types libs.proto input mapping pathParams query body
  plain' : PlainBody types libs.proto input mapping pathParams query body'
  order : body.lastRead types libs.proto input mapping pathParams =
      body'.lastRead types libs.proto input mapping pathParams ∨
    body.OrderFree types libs.proto input mapping pathParams ∧
      body'.OrderFree types libs.proto input mapping pathParams

def bookJson (title : Json) : List (Text × Json) :=
  [(str "theBook", .object [(str "title", title)])]

def numberBody : Text := str "\x7b\"theBook\": \x7b\"title\": 5\x7d\x7d"

def numberLibraries : Libraries :=
  sampleLibraries [] [(titleBody, bookJson (.string (str "b"))), (numberBody, bookJson (.number (str "5")))]
    []

def titleParams : List (Text × Text) := [(str "the_book.title", str "p")]

theorem title_pathFields : pathFields [bookType, updateType] updateType titleParams =
    [[bookField, titleField]] := by decide +kernel

theorem title_givesWay : (pathFields [bookType, updateType] updateType titleParams).Pairwise GivesWay := by
  rw [title_pathFields]
  exact List.pairwise_singleton _ _

theorem title_outside (body : Json) : body.OutsideWellKnown [bookType, updateType] updateType .root
    (titleParams.map Prod.fst) := by
  intro key hkey found hfound hinside
  obtain rfl := List.mem_singleton.mp hkey
  have hresolve : resolve [bookType, updateType] (rootStart updateType) (str "the_book.title") =
      some ⟨[bookField, titleField], false, false⟩ := by decide +kernel
  obtain rfl := Option.some.inj (hresolve.symm.trans hfound)
  cases hinside

theorem bookJson_rest (title : Json) : (Json.object (bookJson title)).rest [bookType, updateType] updateType
    .root titleParams = .object [(str "theBook", .object [])] := by
  rw [Json.rest, title_pathFields]
  rfl

theorem sortEntries_one (key : Text) (json : Json) : sortEntries [(key, json)] = [(key, json)] := by
  simp [sortEntries, List.eraseDups_cons]

theorem sortEntries_two {first second : Text} (hle : first ≤ second) (hne : first ≠ second)
    (json json' : Json) :
    sortEntries [(first, json), (second, json')] = [(first, json), (second, json')] := by
  have hdups : [first, second].eraseDups = [first, second] := by
    simp [List.eraseDups_cons, Ne.symm hne]
  have hsorted : [first, second].mergeSort (fun a b => decide (a ≤ b)) = [first, second] :=
    List.mergeSort_of_pairwise (by simpa using hle)
  simp [sortEntries, hdups, hsorted, List.lookup_cons, beq_false_of_ne hne]

theorem toValue_of_one (key : Text) {json : Json} (h : json.toValue = json) :
    (Json.object [(key, json)]).toValue = .object [(key, json)] := by
  rw [Json.toValue, toValueEntries, toValueEntries, h, sortEntries_one]

theorem toValue_of_none : (Json.object []).toValue = .object [] := by
  simp [Json.toValue, toValueEntries, sortEntries]

theorem bookJson_leftover (title : Json) : (Json.object (bookJson title)).leftover [bookType, updateType]
    updateType .root titleParams = .object [(str "theBook", .object [])] := by
  rw [Json.leftover, bookJson_rest, toValue_of_one _ toValue_of_none]

theorem bookJson_plain {title : Json} (htitle : title.toValue = title) :
    PlainBody [bookType, updateType] numberLibraries.proto updateType .root titleParams []
      (.object (bookJson title)) where
  reads := by
    intro _ path hpath _
    rw [← pathFields, title_pathFields] at hpath
    obtain rfl := List.mem_singleton.mp hpath
    have hreads : (Json.object [(str "theBook", .object [(str "title", .null)])]).onWay
        MessageType.readsAs [bookType, updateType] updateType [bookField, titleField] = true := by
      decide +kernel
    exact hreads
  only := fun _ hquery => absurd rfl hquery
  outside := fun _ => title_outside _
  stripped := by
    intro _
    rw [bookJson_leftover, bookJson, toValue_of_one _ (toValue_of_one _ htitle)]
    rfl

theorem bookJson_lastRead (title : Json) : (Json.object (bookJson title)).lastRead [bookType, updateType]
    numberLibraries.proto updateType .root titleParams = .object [(str "theBook", .object [])] := by
  rw [Json.lastRead, bookJson_leftover, bookJson_rest, ite_self]

def builtBook (bytes : Text) : Except Text Fields :=
  build [bookType, updateType] numberLibraries updateType .root (.json bytes) titleParams []

def bothNames (title : Json) : List (Text × Json) :=
  [(str "theBook", .object []), (str "the_book", .object [(str "title", title)])]

def bothTitle : Text := str "\x7b\"theBook\": \x7b\x7d, \"the_book\": \x7b\"title\": \"b\"\x7d\x7d"

def bothNumber : Text := str "\x7b\"theBook\": \x7b\x7d, \"the_book\": \x7b\"title\": 5\x7d\x7d"

def bothLibraries : Libraries :=
  sampleLibraries []
    [(bothTitle, bothNames (.string (str "b"))), (bothNumber, bothNames (.number (str "5")))] []

def builtBoth (bytes : Text) : Except Text Fields :=
  build [bookType, updateType] bothLibraries updateType .root (.json bytes) titleParams []

theorem toValue_bothNames {title : Json} (htitle : title.toValue = title) :
    (Json.object (bothNames title)).toValue = .object (bothNames title) := by
  have hvalues : toValueEntries (bothNames title) = bothNames title := by
    rw [bothNames, toValueEntries, toValueEntries, toValueEntries, toValue_of_none,
      toValue_of_one _ htitle]
  rw [Json.toValue, hvalues, bothNames, sortEntries_two (by decide +kernel) (by decide +kernel)]

theorem isOk_eq {α : Type} (result : Except Text α) : result.isOk = result.toOption.isSome := by
  cases result <;> rfl

theorem jsonBody_bothNumber : jsonBody [bookType, updateType] bothLibraries updateType .root bothNumber
    titleParams none = .error (bodyError (str "invalid type")) := by
  have hparse : bothLibraries.parseJson bothNumber = .ok (.object (bothNames (.number (str "5")))) := rfl
  have hfirst : deserialize [bookType, updateType] bothLibraries updateType .root
      (.object (bothNames (.number (str "5")))) none = .error (str "invalid type") := rfl
  have hsecond : deserialize [bookType, updateType] bothLibraries updateType .root
      (stripPathFields [bookType, updateType] updateType .root titleParams
        (.object (bothNames (.number (str "5"))))) none = .error (str "invalid type") := rfl
  rw [jsonBody, if_neg (by decide +kernel), hparse]
  simp only [hfirst]
  rw [if_neg (by decide), toValue_bothNames rfl, Option.map_none, hsecond]
  rfl

end StructuredProxy
