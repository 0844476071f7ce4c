import StructuredProxy.Request.BodySets
import StructuredProxy.Request.Pairs
import StructuredProxy.Request.PathWins

/-!
# The body wins over the query

What the body sets is recorded while it is read, or left to a path parameter that is recorded when it is
bound. So a query changes nothing at a field the body sets, unless the field is taken out of the body and
no path parameter stands for it. That takes a name two fields share, the JSON name of one and the proto
name of the other: a path key then takes the one out of the body and stands for the other.
-/

namespace StructuredProxy

variable {types : Types} {libs : Libraries} {input : MessageType} {p : List Field}

/-- A path parameter is recorded under names that the fields on the way to `p` have. -/
def RecordedByPath (types : Types) (input : MessageType) (keys : List Text) (p : List Field) : Prop :=
  ∃ key ∈ keys, ∃ found, resolve types (rootStart input) key = some found ∧
    covers.go (found.path.map Field.name) p = true

theorem guards_recordMessage {proto : ProtoJson} {json : Json} (hp : PathIn types input p)
    (hsets : json.sets types p = true) (presence : Presence) :
    (recordMessage types proto input json presence).Guards types input p := by
  intro q hq hnear
  unfold recordMessage
  split
  · exact Bool.true_or _
  · cases p with
    | nil => cases hp
    | cons f p =>
        obtain ⟨entries, -, -, rfl, -⟩ := Json.exists_of_sets hsets
        refine Presence.blocks_of_trees (List.append_nil _).symm ?_
        exact (recorded_recordedKeys input entries).blocks hq hnear hsets

theorem guards_deserialize {mapping : BodyMapping} {body : Json} {presence : Option Presence}
    {draft : Draft} (hp : PathIn types input p)
    (hsets : (wrapBody input mapping body).sets types p = true)
    (h : deserialize types libs input mapping body presence = .ok draft) :
    draft.Guards types input p := by
  unfold deserialize at h
  cases hread : readMessage types libs.proto input (wrapBody input mapping body) with
  | error error =>
      rw [hread] at h
      cases h
  | ok fields =>
      rw [hread] at h
      obtain rfl := Except.ok.inj h
      intro recorded hrecorded
      obtain ⟨earlier, -, rfl⟩ := Option.map_eq_some_iff.mp hrecorded
      exact guards_recordMessage hp hsets earlier

/-- A field a JSON body sets is recorded, unless it is taken out of the body. -/
theorem guards_jsonBody {mapping : BodyMapping} {bytes : Text} {body : Json}
    {pathParams : List (Text × Text)} {presence : Option Presence} {draft : Draft}
    (hparse : libs.parseJson bytes = .ok body) (hp : PathIn types input p)
    (hsets : (wrapBody input mapping body).sets types p = true)
    (hkept : (readMessage types libs.proto input (wrapBody input mapping body)).isOk = true ∨
      (wrapBody input mapping (stripPathFields types input mapping pathParams body.toValue)).sets types
        p = true)
    (h : jsonBody types libs input mapping bytes pathParams presence = .ok draft) :
    draft.Guards types input p := by
  unfold jsonBody at h
  split at h
  · rename_i hnull
    rw [Bool.and_eq_true, decide_eq_true_eq, decide_eq_true_eq, ← libs.parseJson_null, hparse] at hnull
    obtain ⟨rfl, hnull⟩ := hnull
    obtain rfl := Except.ok.inj hnull
    cases p with
    | nil => cases hp
    | cons f p => obtain ⟨_, _, _, heq, -⟩ := Json.exists_of_sets hsets; cases heq
  · rw [hparse] at h
    simp only at h
    split at h
    · rename_i first hfirst
      obtain rfl := Except.ok.inj h
      exact guards_deserialize hp hsets hfirst
    · rename_i hfirst
      have hstripped := hkept.resolve_left fun hok => by
        obtain ⟨fields, hfields⟩ := exists_of_isOk hok
        rw [deserialize, hfields] at hfirst
        cases hfirst
      split at h
      · cases h
      · cases hsecond : deserialize types libs input mapping
            (stripPathFields types input mapping pathParams body.toValue)
            (presence.map fun _ => {}) with
        | error error =>
            rw [hsecond] at h
            cases h
        | ok second =>
            rw [hsecond] at h
            obtain rfl := Except.ok.inj h
            exact guards_deserialize hp hstripped hsecond

def formStart (types : Types) (input : MessageType) (mapping : BodyMapping) : Option Start :=
  match mapping with
  | .field name => (formField types input name).map fun (field, inner) =>
      { root := input, inside := inner.hasSpecialJson, within := some field }
  | _ => some (rootStart input)

theorem formBody_eq {mapping : BodyMapping} {start : Start} (pairs pathParams : List (Text × Text))
    (presence : Option Presence) (h : formStart types input mapping = some start) :
    ∃ draft, formBody types libs input mapping pairs pathParams presence =
      bindPairs types libs.strings pairs start .set (some pathParams) draft := by
  cases mapping with
  | field name =>
      obtain ⟨⟨field, inner⟩, hfield, rfl⟩ := Option.map_eq_some_iff.mp h
      simp only [formBody, hfield]
      exact ⟨_, rfl⟩
  | none =>
      obtain rfl := Option.some.inj h
      exact ⟨_, rfl⟩
  | root =>
      obtain rfl := Option.some.inj h
      exact ⟨_, rfl⟩

theorem guards_assign_set {readers : StringReaders} {path : List Field} (hne : path ≠ [])
    (values : List Text) {draft : Draft} (hguards : draft.Guards types input p) :
    (assign types readers .set path values draft).2.Guards types input p := by
  have hcases := assign_cases types readers .set hne values draft
  generalize assign types readers .set path values draft = result at hcases ⊢
  cases hcases with
  | blocked hmode _ => exact hguards
  | failed error _ => exact hguards
  | written _ _ _ _ =>
      intro presence hpresence
      obtain ⟨earlier, hearlier, rfl⟩ := Option.map_eq_some_iff.mp hpresence
      exact (hguards earlier hearlier).recordPath _ _

theorem guards_assign_self {readers : StringReaders} (hne : p ≠ []) {values : List Text}
    {draft draft' : Draft} (h : assign types readers .set p values draft = (.ok (), draft')) :
    draft'.Guards types input p := by
  have hcases := assign_cases types readers .set hne values draft
  rw [h] at hcases
  generalize hresult : ((.ok (), draft') : Except Text Unit × Draft) = result at hcases
  cases hcases with
  | blocked hmode _ => cases hmode
  | failed error _ => cases hresult
  | written _ _ _ _ =>
      obtain ⟨-, rfl⟩ := Prod.mk.inj hresult
      intro presence hpresence
      obtain ⟨earlier, -, rfl⟩ := Option.map_eq_some_iff.mp hpresence
      exact earlier.guards_recordPath_self hne

theorem guards_formBody {mapping : BodyMapping} {pairs pathParams : List (Text × Text)}
    {presence : Option Presence} {inside : Bool} {draft : Draft} {start : Start} {key : Text}
    {found : Resolved} (hp : PathIn types input found.path)
    (hkept : ∀ param ∈ pathParams, covers param.1 found.path = false)
    (hstart : formStart types input mapping = some start)
    (hkey : key ∈ pairs.map Prod.fst) (hresolve : resolve types start key = some found)
    (h : formBody types libs input mapping pairs pathParams presence = (.ok inside, draft)) :
    draft.Guards types input found.path := by
  obtain ⟨before, hform⟩ := formBody_eq pairs pathParams presence hstart
  rw [hform] at h
  have huncovered : ((some pathParams).any fun params => params.any fun param =>
      covers param.1 found.path) = false := by
    rw [Option.any_some, List.any_eq_false]
    intro param hparam
    rw [hkept param hparam]
    exact Bool.false_ne_true
  refine @bindPairs_binds types libs.strings .set pairs start (some pathParams)
    (fun next => next.Guards types input found.path) found.path ?_ ?_ huncovered key found hkey hresolve
    rfl inside before draft h
  · intro key found values draft hresolve hguards
    exact guards_assign_set (resolve_ne_nil hresolve) values hguards
  · intro values draft draft' hassign
    exact guards_assign_self hp.ne_nil hassign

theorem chain_blocks_of_covers {r : List Field} (hne : r ≠ []) : ∀ {p q : List Field},
    covers.go (r.map Field.name) p = true → q ≠ [] → q <+: p ∨ p <+: q →
    (KeyTree.chain false r).any (KeyTree.blocks types q) = true := by
  induction r with
  | nil => exact absurd rfl hne
  | cons f r ih =>
      intro p q hcovers hq hnear
      cases p with
      | nil => cases hcovers
      | cons g p =>
          cases q with
          | nil => exact absurd rfl hq
          | cons g' q =>
              obtain ⟨rfl, htails⟩ : g' = g ∧ (q <+: p ∨ p <+: q) := by
                rcases hnear with hnear | hnear
                · exact (List.cons_prefix_cons.mp hnear).imp_right Or.inl
                · exact (List.cons_prefix_cons.mp hnear).imp Eq.symm Or.inr
              rw [List.map_cons, covers.go, Bool.and_eq_true] at hcovers
              rw [KeyTree.chain, List.any_cons, KeyTree.blocks, hcovers.1, KeyTree.anyBlocks_eq]
              cases r with
              | nil => simp [Held.isWhole]
              | cons next r =>
                  cases q with
                  | nil => simp
                  | cons h q =>
                      simp [ih (List.cons_ne_nil _ _) hcovers.2 (List.cons_ne_nil _ _) htails]

theorem Presence.guards_recordPath_of_covers (presence : Presence) {path : List Field} (hne : path ≠ [])
    (hcovers : covers.go (path.map Field.name) p = true) :
    (presence.recordPath path false).Guards types input p := by
  intro q hq hnear
  have hentries : (presence.recordPath path false).entries =
      presence.entries ++ KeyTree.entries.all 0 (KeyTree.chain false path) ++ [] := by
    rw [List.append_nil, KeyTree.all_chain]
    rfl
  exact blocks_of_trees hentries (chain_blocks_of_covers hne hcovers hq.ne_nil hnear)

/-- Once the path is bound, what was recorded or left to the path is guarded. -/
theorem guards_bindPath {params : List (Text × Text)} : ∀ {inside inside' : Bool} {draft draft' : Draft},
    draft.Guards types input p ∨ RecordedByPath types input (params.map Prod.fst) p →
    bindPath types libs input params inside draft = .ok (inside', draft') →
    draft'.Guards types input p := by
  induction params with
  | nil =>
      intro inside inside' draft draft' hguards h
      obtain ⟨-, rfl⟩ := Prod.mk.inj (Except.ok.inj h)
      refine hguards.resolve_right ?_
      rintro ⟨key, hkey, -⟩
      cases hkey
  | cons param params ih =>
      intro inside inside' draft draft' hguards h
      obtain ⟨key, raw⟩ := param
      obtain ⟨⟨set, next⟩, hset, h⟩ := Lib.bind_eq_ok.mp h
      refine ih ?_ h
      cases hresolve : resolve types (rootStart input) key with
      | none =>
          rw [settled_eq_ok, bind, hresolve] at hset
          obtain ⟨-, rfl⟩ := Prod.mk.inj hset
          refine hguards.imp_right ?_
          rintro ⟨other, hother, found, hfound, hbegins⟩
          rcases List.mem_cons.mp hother with rfl | hother
          · exact absurd (hresolve.symm.trans hfound) (by simp)
          · exact ⟨other, hother, found, hfound, hbegins⟩
      | some found =>
          obtain ⟨field, value, -, -, rfl⟩ := settled_bind_set hresolve hset
          rcases hguards with hguards | ⟨other, hother, found', hfound', hbegins⟩
          · refine Or.inl fun presence hpresence => ?_
            obtain ⟨earlier, hearlier, rfl⟩ := Option.map_eq_some_iff.mp hpresence
            exact (hguards earlier hearlier).recordPath _ _
          · rcases List.mem_cons.mp hother with rfl | hother
            · obtain rfl := Option.some.inj (hresolve.symm.trans hfound')
              refine Or.inl fun presence hpresence => ?_
              obtain ⟨earlier, -, rfl⟩ := Option.map_eq_some_iff.mp hpresence
              exact earlier.guards_recordPath_of_covers (resolve_ne_nil hresolve) hbegins
            · exact Or.inr ⟨other, hother, found', hfound', hbegins⟩

/-! ### What is recorded does not change what is set -/

theorem assign_set_fields {readers : StringReaders} {path : List Field} (values : List Text)
    {draft draft' : Draft} (hfields : draft.fields = draft'.fields) :
    (assign types readers .set path values draft).1 = (assign types readers .set path values draft').1 ∧
      (assign types readers .set path values draft).2.fields =
        (assign types readers .set path values draft').2.fields := by
  obtain ⟨fields, presence⟩ := draft
  obtain ⟨fields', presence'⟩ := draft'
  obtain rfl : fields = fields' := hfields
  unfold assign
  simp only [reduceCtorEq, decide_false, Bool.false_and, Bool.false_eq_true, if_false]
  split
  · exact ⟨rfl, rfl⟩
  · split
    · exact ⟨rfl, rfl⟩
    · split <;> exact ⟨rfl, rfl⟩

def bare (result : Except Text (Bool × Draft)) : Except Text (Bool × Fields) :=
  result.map fun result => (result.1, result.2.fields)

theorem bare_settled {result result' : Except Text Bool × Draft} (hresult : result.1 = result'.1)
    (hfields : result.2.fields = result'.2.fields) : bare (settled result) = bare (settled result') := by
  obtain ⟨result, draft⟩ := result
  obtain ⟨result', draft'⟩ := result'
  obtain rfl : result = result' := hresult
  cases result with
  | error error => rfl
  | ok inside =>
      have hfields : draft.fields = draft'.fields := hfields
      simp [bare, settled, Except.map, hfields]

theorem bare_cases {first first' : Except Text (Bool × Draft)} (h : bare first = bare first') :
    (∃ error, first = .error error ∧ first' = .error error) ∨
      ∃ inside draft draft', first = .ok (inside, draft) ∧ first' = .ok (inside, draft') ∧
        draft.fields = draft'.fields := by
  cases first with
  | error error =>
      cases first' with
      | error error' => cases h; exact Or.inl ⟨error, rfl, rfl⟩
      | ok result' => cases h
  | ok result =>
      cases first' with
      | error error' => cases h
      | ok result' =>
          obtain ⟨inside, draft⟩ := result
          obtain ⟨inside', draft'⟩ := result'
          obtain ⟨rfl, hfields⟩ := Prod.mk.inj (Except.ok.inj h)
          exact Or.inr ⟨inside, draft, draft', rfl, rfl, hfields⟩

theorem bare_bind {readers : StringReaders} {start : Start} (key : Text) (values : List Text)
    {draft draft' : Draft} (hfields : draft.fields = draft'.fields) :
    bare (settled (bind types readers start key values .set draft)) =
      bare (settled (bind types readers start key values .set draft')) := by
  unfold bind
  split
  · exact bare_settled rfl hfields
  · rename_i found hresolve
    obtain ⟨hresult, hnext⟩ := @assign_set_fields types readers found.path values draft draft' hfields
    generalize assign types readers .set found.path values draft = result at hresult hnext ⊢
    generalize assign types readers .set found.path values draft' = result' at hresult hnext ⊢
    obtain ⟨result, next⟩ := result
    obtain ⟨result', next'⟩ := result'
    obtain rfl : result = result' := hresult
    cases result with
    | error error => exact bare_settled rfl hnext
    | ok done => exact bare_settled rfl hnext

theorem bare_bindPath {params : List (Text × Text)} : ∀ {inside : Bool} {draft draft' : Draft},
    draft.fields = draft'.fields →
    bare (bindPath types libs input params inside draft) =
      bare (bindPath types libs input params inside draft') := by
  induction params with
  | nil =>
      intro inside draft draft' hfields
      simp [bare, bindPath, Except.map, hfields]
  | cons param params ih =>
      intro inside draft draft' hfields
      obtain ⟨key, raw⟩ := param
      rw [bindPath, bindPath]
      rcases bare_cases (@bare_bind types libs.strings (rootStart input) key [raw] _ _ hfields) with
        ⟨error, hfirst, hfirst'⟩ | ⟨set, next, next', hfirst, hfirst', hnext⟩
      · simp only [hfirst, hfirst']
      · simp only [hfirst, hfirst']
        exact ih hnext

theorem fields_jsonBody {mapping : BodyMapping} {bytes : Text} {pathParams : List (Text × Text)}
    (presence presence' : Option Presence) :
    (jsonBody types libs input mapping bytes pathParams presence).map Draft.fields =
      (jsonBody types libs input mapping bytes pathParams presence').map Draft.fields := by
  unfold jsonBody
  split
  · rfl
  · split
    · rfl
    · rename_i body hparse
      unfold deserialize
      cases readMessage types libs.proto input (wrapBody input mapping body) with
      | ok fields => rfl
      | error error =>
          cases pathParams.isEmpty with
          | true => rfl
          | false =>
              cases readMessage types libs.proto input (wrapBody input mapping
                (stripPathFields types input mapping pathParams body.toValue)) <;> rfl

theorem bare_readBody {mapping : BodyMapping} {body : Body} {pathParams : List (Text × Text)}
    (presence presence' : Option Presence) :
    bare (readBody types libs input mapping body pathParams presence) =
      bare (readBody types libs input mapping body pathParams presence') := by
  have hjson : ∀ bytes, bare ((jsonBody types libs input mapping bytes pathParams presence).map
      fun draft => (false, draft)) = bare ((jsonBody types libs input mapping bytes pathParams
        presence').map fun draft => (false, draft)) := by
    intro bytes
    have hfields := @fields_jsonBody types libs input mapping bytes pathParams presence presence'
    have hbare : ∀ result : Except Text Draft, bare (result.map fun draft => (false, draft)) =
        (result.map Draft.fields).map fun fields => (false, fields) := by
      intro result
      cases result <;> rfl
    rw [hbare, hbare, hfields]
  have hform : ∀ pairs, bare (settled (formBody types libs input mapping pairs pathParams presence)) =
      bare (settled (formBody types libs input mapping pairs pathParams presence')) := by
    intro pairs
    unfold formBody
    have hrelated : ∀ (start : Start) {draft draft' : Draft}, draft.fields = draft'.fields →
        bare (settled (bindPairs types libs.strings pairs start .set (some pathParams) draft)) =
          bare (settled (bindPairs types libs.strings pairs start .set (some pathParams) draft')) := by
      intro start draft draft' hfields
      obtain ⟨hresult, hnext⟩ := @bindPairs_related types libs.strings .set pairs start (some pathParams)
        (fun next next' => next.fields = next'.fields)
        (fun key found values next next' _ hnext => assign_set_fields values hnext) draft draft' hfields
      exact bare_settled hresult hnext
    split
    · split
      · rfl
      · exact hrelated _ rfl
    · exact hrelated _ rfl
  unfold readBody
  simp only
  split
  · rfl
  · rfl
  · rfl
  · exact hjson _
  · split
    · exact hjson _
    · exact hform _

/-! ### The body against two queries -/

def BodySets (types : Types) (libs : Libraries) (input : MessageType) (mapping : BodyMapping)
    (body : Body) (p : List Field) : Prop :=
  match mapping, body with
  | .none, _ => False
  | _, .absent => False
  | mapping, .json bytes => ∃ json, libs.parseJson (jsonText bytes) = .ok json ∧
      (wrapBody input mapping json).sets types p = true
  | mapping, .form bytes => bytes ≠ [] ∧ ∃ start key found, formStart types input mapping = some start ∧
      key ∈ (libs.parseForm bytes).map Prod.fst ∧ resolve types start key = some found ∧ found.path = p

theorem readBody_form {mapping : BodyMapping} {bytes : Text} {pathParams : List (Text × Text)}
    {presence : Option Presence} (hmapping : mapping ≠ .none) (hne : bytes ≠ []) :
    readBody types libs input mapping (.form bytes) pathParams presence =
      settled (formBody types libs input mapping (libs.parseForm bytes) pathParams presence) := by
  have hempty : ¬bytes.isEmpty = true := by simpa using hne
  cases mapping with
  | none => exact absurd rfl hmapping
  | root => exact if_neg hempty
  | field name => exact if_neg hempty

/-- What the body sets at `p` stays in it: a JSON body passes its first read or still sets `p` without
what the path keys name, and no path key takes the key of a form body. -/
def KeptInBody (types : Types) (libs : Libraries) (input : MessageType) (mapping : BodyMapping)
    (body : Body) (pathParams : List (Text × Text)) (p : List Field) : Prop :=
  match body with
  | .absent => True
  | .json bytes => ∀ json, libs.parseJson (jsonText bytes) = .ok json →
      (readMessage types libs.proto input (wrapBody input mapping json)).isOk = true ∨
        (wrapBody input mapping (stripPathFields types input mapping pathParams json.toValue)).sets types
          p = true
  | .form _ => ∀ param ∈ pathParams, covers param.1 p = false

theorem guards_readBody {mapping : BodyMapping} {body : Body} {pathParams : List (Text × Text)}
    {presence : Option Presence} {inside : Bool} {draft : Draft} (hp : PathIn types input p)
    (hkept : KeptInBody types libs input mapping body pathParams p)
    (hsets : BodySets types libs input mapping body p)
    (h : readBody types libs input mapping body pathParams presence = .ok (inside, draft)) :
    draft.Guards types input p := by
  cases body with
  | absent => cases mapping <;> exact hsets.elim
  | json bytes =>
      have hjson : ∀ json, libs.parseJson (jsonText bytes) = .ok json →
          (wrapBody input mapping json).sets types p = true →
          (jsonBody types libs input mapping (jsonText bytes) pathParams presence).map
            (fun draft => (false, draft)) = .ok (inside, draft) → draft.Guards types input p := by
        intro json hparse hsets h
        obtain ⟨read, hbody, hread⟩ := Lib.map_eq_ok h
        obtain ⟨-, rfl⟩ := Prod.mk.inj hread
        exact guards_jsonBody hparse hp hsets (hkept json hparse) hbody
      cases mapping with
      | none => exact hsets.elim
      | _ =>
          obtain ⟨json, hparse, hsets⟩ := hsets
          exact hjson json hparse hsets h
  | form bytes =>
      have hform : ∀ start key found, formStart types input mapping = some start →
          key ∈ (libs.parseForm bytes).map Prod.fst → resolve types start key = some found →
          found.path = p →
          settled (formBody types libs input mapping (libs.parseForm bytes) pathParams presence) =
            .ok (inside, draft) → draft.Guards types input p := by
        rintro start key found hstart hkey hresolve rfl h
        exact guards_formBody hp hkept hstart hkey hresolve (settled_eq_ok.mp h)
      cases mapping with
      | none => exact hsets.elim
      | _ =>
          obtain ⟨hne, start, key, found, hstart, hkey, hresolve, hpath⟩ := hsets
          rw [readBody_form (by simp) hne] at h
          exact hform start key found hstart hkey hresolve hpath h

/-- **No query changes what the body sets.** Two requests that differ in their query agree at a field
the body sets, when the field stays in the body or a path parameter is recorded in its place. -/
theorem queries_agree_on_body_field {mapping : BodyMapping} {body : Body}
    {pathParams query query' : List (Text × Text)} {fields fields' : Fields}
    (hp : PathIn types input p) (hsets : BodySets types libs input mapping body p)
    (hkept : KeptInBody types libs input mapping body pathParams p ∨
      RecordedByPath types input (pathParams.map Prod.fst) p)
    (hbuild : build types libs input mapping body pathParams query = .ok fields)
    (hbuild' : build types libs input mapping body pathParams query' = .ok fields') :
    fields.valueAt p = fields'.valueAt p := by
  obtain ⟨read, draft, bound, draftBound, filled, draftFilled, hread, hpath, hquery, rfl⟩ :=
    build_eq_ok hbuild
  obtain ⟨read', draft', bound', draftBound', filled', draftFilled', hread', hpath', hquery', rfl⟩ :=
    build_eq_ok hbuild'
  have hsame : bare (.ok (read, draft)) = bare (.ok (read', draft')) := by
    rw [← hread, ← hread']
    exact bare_readBody _ _
  obtain ⟨rfl, hfields⟩ := Prod.mk.inj (Except.ok.inj hsame)
  have hsame' : bare (.ok (bound, draftBound)) = bare (.ok (bound', draftBound')) := by
    rw [← hpath, ← hpath']
    exact bare_bindPath hfields
  have hbound : draftBound.fields = draftBound'.fields := (Prod.mk.inj (Except.ok.inj hsame')).2
  have hguards := guards_bindPath
    (hkept.imp_left fun hkept => guards_readBody hp hkept hsets hread) hpath
  have hguards' := guards_bindPath
    (hkept.imp_left fun hkept => guards_readBody hp hkept hsets hread') hpath'
  calc draftFilled.fields.valueAt p
      = draftBound.fields.valueAt p := valueAt_bindQuery hp hguards hquery
    _ = draftBound'.fields.valueAt p := by rw [hbound]
    _ = draftFilled'.fields.valueAt p := (valueAt_bindQuery hp hguards' hquery').symm

theorem pathIn_title : PathIn [bookType, updateType] updateType [bookField, titleField] :=
  .step List.mem_cons_self rfl rfl rfl (.last List.mem_cons_self)

def builtUpdate (query : List (Text × Text)) : Except Text Fields :=
  build [bookType, updateType] titleLibraries updateType .root (.json titleBody)
    [(str "name", str "n")] query

/-- Two queries for a title the body sets leave the body's. -/
theorem queries_agree_on_body_title : ∃ fields fields',
    builtUpdate [(str "theBook.title", str "q")] = .ok fields ∧
    builtUpdate [(str "the_book.title", str "r")] = .ok fields' ∧
    fields.valueAt [bookField, titleField] = fields'.valueAt [bookField, titleField] := by
  have hok : (builtUpdate [(str "theBook.title", str "q")]).isOk = true := by decide +kernel
  have hok' : (builtUpdate [(str "the_book.title", str "r")]).isOk = true := by decide +kernel
  obtain ⟨fields, hbuild⟩ := exists_of_isOk hok
  obtain ⟨fields', hbuild'⟩ := exists_of_isOk hok'
  refine ⟨fields, fields', hbuild, hbuild', ?_⟩
  have hsets : BodySets [bookType, updateType] titleLibraries updateType .root (.json titleBody)
      [bookField, titleField] := ⟨_, rfl, by decide +kernel⟩
  have hkept : KeptInBody [bookType, updateType] titleLibraries updateType .root (.json titleBody)
      [(str "name", str "n")] [bookField, titleField] := by
    intro json hparse
    obtain rfl := Except.ok.inj hparse
    exact Or.inl (by decide +kernel)
  exact queries_agree_on_body_field pathIn_title hsets (Or.inl hkept) hbuild hbuild'

def textField : Field := { number := 1, name := str "text", jsonName := str "text", kind := .string }

def noteType : MessageType := { fullName := str "library.Note", fields := [textField] }

def labelField : Field := { number := 1, name := str "label", jsonName := str "tag", kind := .message 0 }

def tagField : Field := { number := 2, name := str "tag", jsonName := str "mark", kind := .string }

def labelType : MessageType := { fullName := str "library.Label", fields := [labelField, tagField] }

def labelLibraries : Libraries :=
  sampleLibraries [] [] [(str "label.text=1", [(str "label.text", str "1")])]

def builtLabel (query : List (Text × Text)) : Option Text :=
  match build [noteType, labelType] labelLibraries labelType .root (.form (str "label.text=1"))
      [(str "tag.text", str "t")] query with
  | .ok fields =>
      match fields.valueAt [labelField, textField] with
      | some (.string text) => some text
      | _ => none
  | .error _ => none

/-- The path key `tag.text` takes the text of the label out of the form, as `tag` is the JSON name of the
label, and is then dropped, as `tag` is a string field: the text is whatever the query says. -/
theorem query_decides_label :
    BodySets [noteType, labelType] labelLibraries labelType .root (.form (str "label.text=1"))
        [labelField, textField] ∧
      builtLabel [(str "label.text", str "5")] = some (str "5") ∧
      builtLabel [(str "label.text", str "6")] = some (str "6") := by
  refine ⟨⟨by decide, rootStart labelType, str "label.text", ⟨[labelField, textField], false, false⟩, rfl,
    ?_, ?_, rfl⟩, ?_, ?_⟩
  all_goals decide +kernel

end StructuredProxy
