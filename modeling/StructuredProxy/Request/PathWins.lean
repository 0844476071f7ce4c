import StructuredProxy.Lib.Fallible
import StructuredProxy.Request.Binding
import StructuredProxy.Request.Build

/-!
# The path wins

A path parameter sets its field after the body, so whatever the body holds there is replaced, and it is
recorded as set, so no query parameter for the field, for one above it or for one below it is assigned.
-/

namespace StructuredProxy

variable {types : Types} {libs : Libraries} {input : MessageType} {p q : List Field}

/-- No query parameter for the path, for a field above it or for one below it is assigned. -/
def Presence.Guards (types : Types) (input : MessageType) (presence : Presence) (p : List Field) : Prop :=
  ∀ q, PathIn types input q → q <+: p ∨ p <+: q → presence.blocks types q = true

theorem Presence.blocks_of_isPrefix {presence more : Presence}
    (hentries : presence.entries <+: more.entries) (hwhole : presence.whole = true → more.whole = true)
    (hblocks : presence.blocks types p = true) : more.blocks types p = true := by
  obtain ⟨after, hafter⟩ := hentries
  unfold blocks at hblocks ⊢
  rw [Bool.or_eq_true] at hblocks ⊢
  refine hblocks.imp hwhole fun hnone => ?_
  rw [← hafter, List.foldlM_append, Option.isNone_iff_eq_none.mp hnone]
  rfl

theorem Presence.Guards.recordPath {presence : Presence} (hguards : presence.Guards types input p)
    (q : List Field) (fields : Bool) : (presence.recordPath q fields).Guards types input p :=
  fun other hother hnear => blocks_of_isPrefix (List.prefix_append _ _) id (hguards other hother hnear)

theorem Presence.guards_recordPath_self (presence : Presence) (hne : p ≠ []) :
    (presence.recordPath p false).Guards types input p := by
  intro q hq hnear
  have hentries : (presence.recordPath p false).entries =
      presence.entries ++ KeyTree.entries.all 0 (KeyTree.chain false p) ++ [] := by
    rw [List.append_nil, KeyTree.all_chain]
    rfl
  refine blocks_of_trees hentries ?_
  rcases hnear with hbegins | hbegins
  · exact KeyTree.chain_blocks_of_isPrefix types false hq.ne_nil hbegins
  · exact KeyTree.chain_blocks_of_above types hne hbegins

def Draft.Guards (types : Types) (input : MessageType) (draft : Draft) (p : List Field) : Prop :=
  ∀ presence ∈ draft.presence, presence.Guards types input p

theorem apart_of_unblocked {draft : Draft} (hguards : draft.Guards types input p)
    (hsome : draft.presence.isSome = true) (hq : PathIn types input q)
    (hblocks : draft.blocks types q = false) : Apart q p := by
  obtain ⟨presence, hpresence⟩ := Option.isSome_iff_exists.mp hsome
  have hopen : presence.blocks types q = false := by
    rw [Draft.blocks, hpresence] at hblocks
    exact hblocks
  have hnear : ¬(q <+: p ∨ p <+: q) := fun hnear =>
    absurd (hguards presence hpresence q hq hnear) (by simp [hopen])
  exact not_or.mp hnear

theorem valueAt_bindPairs_fill {readers : StringReaders} {pairs : List (Text × Text)} {start : Start}
    (hstart : start.Sound) (hp : PathIn types start.root p) {draft : Draft}
    (hsome : draft.presence.isSome = true) (hguards : draft.Guards types start.root p) :
    (bindPairs types readers pairs start .fill none draft).2.fields.valueAt p =
      draft.fields.valueAt p := by
  let holds : Draft → Prop := fun next =>
    next.presence = draft.presence ∧ next.fields.valueAt p = draft.fields.valueAt p
  have hassign : ∀ (key : Text) (found : Resolved) (values : List Text) (next : Draft),
      resolve types start key = some found → holds next →
        holds (assign types readers .fill found.path values next).2 := by
    intro key found values next hresolve hnext
    have hpath := resolve_pathIn hstart hresolve
    have hcases := assign_cases types readers .fill hpath.ne_nil values next
    generalize assign types readers .fill found.path values next = result at hcases ⊢
    obtain ⟨hpresence, hvalue⟩ := hnext
    cases hcases with
    | blocked hmode hblocks => exact ⟨hpresence, hvalue⟩
    | failed error hunblocked => exact ⟨hpresence, hvalue⟩
    | written hunblocked hlast hread hfree =>
        have hapart : Apart found.path p := by
          refine apart_of_unblocked hguards hsome hpath ?_
          rw [Draft.blocks, ← hpresence]
          exact hunblocked rfl
        refine ⟨(recordedAfter_fill _ _).trans hpresence, ?_⟩
        exact (valueAt_setAt_of_apart hpath hp hapart _).trans hvalue
  exact (bindPairs_keeps hassign ⟨rfl, rfl⟩).2

/-! ### The path parameters -/

theorem rootStart_sound (input : MessageType) : (rootStart input).Sound := fun _ h => by cases h

theorem settled_eq_ok {result : Except Text Bool × Draft} {inside : Bool} {draft : Draft} :
    settled result = .ok (inside, draft) ↔ result = (.ok inside, draft) := by
  obtain ⟨result, other⟩ := result
  cases result with
  | error error => simp [settled, Except.map]
  | ok set => simp [settled, Except.map]

theorem settled_bind_set {key : Text} {found : Resolved} {raw : Text} {draft draft' : Draft}
    {inside : Bool} (hresolve : resolve types (rootStart input) key = some found)
    (h : settled (bind types libs.strings (rootStart input) key [raw] .set draft) =
      .ok (inside, draft')) :
    ∃ field value, found.path.getLast? = some field ∧
      fieldValue libs.strings field [raw] = .ok value ∧
      draft' = { fields := setAt value found.path draft.fields,
                 presence := draft.presence.map (·.recordPath found.path false) } := by
  rw [settled_eq_ok, bind, hresolve] at h
  simp only at h
  have hcases := assign_cases types libs.strings .set (resolve_ne_nil hresolve) [raw] draft
  generalize assign types libs.strings .set found.path [raw] draft = result at h hcases
  cases hcases with
  | blocked hmode _ => exact absurd hmode (by decide)
  | failed error _ => exact absurd h (by simp)
  | written _ hlast hvalue _ => exact ⟨_, _, hlast, hvalue, (Prod.mk.inj h).2.symm⟩

theorem bindPath_append (before after : List (Text × Text)) : ∀ (inside : Bool) (draft : Draft),
    bindPath types libs input (before ++ after) inside draft =
      (bindPath types libs input before inside draft).bind fun (inside, draft) =>
        bindPath types libs input after inside draft := by
  induction before with
  | nil => intro inside draft; rfl
  | cons param before ih =>
      intro inside draft
      obtain ⟨key, raw⟩ := param
      rw [List.cons_append, bindPath, bindPath]
      cases settled (bind types libs.strings (rootStart input) key [raw] .set draft) with
      | error error => rfl
      | ok result => exact ih _ _

/-- The run of the path parameters that are bound: each binds its field or is dropped. -/
theorem bindPath_keeps {holds : Draft → Prop} {params : List (Text × Text)} :
    ∀ {inside inside' : Bool} {draft draft' : Draft},
    (∀ param ∈ params, ∀ found, resolve types (rootStart input) param.1 = some found →
      ∀ (value : Value) (next : Draft), holds next →
        holds { fields := setAt value found.path next.fields,
                presence := next.presence.map (·.recordPath found.path false) }) →
    bindPath types libs input params inside draft = .ok (inside', draft') → holds draft →
    holds draft' := by
  induction params with
  | nil =>
      intro inside inside' draft draft' _ h hdraft
      obtain ⟨-, rfl⟩ := Prod.mk.inj (Except.ok.inj h)
      exact hdraft
  | cons param params ih =>
      intro inside inside' draft draft' hkeep h hdraft
      obtain ⟨key, raw⟩ := param
      rw [bindPath] at h
      cases hbind : settled (bind types libs.strings (rootStart input) key [raw] .set draft) with
      | error error =>
          rw [hbind] at h
          cases h
      | ok result =>
          obtain ⟨set, next⟩ := result
          rw [hbind] at h
          have hkeep' := fun param hmem => hkeep param (List.mem_cons_of_mem _ hmem)
          refine ih hkeep' h ?_
          cases hresolve : resolve types (rootStart input) key with
          | none =>
              rw [settled_eq_ok, bind, hresolve] at hbind
              obtain ⟨-, rfl⟩ := Prod.mk.inj hbind
              exact hdraft
          | some found =>
              obtain ⟨field, value, -, -, rfl⟩ := settled_bind_set hresolve hbind
              exact hkeep (key, raw) List.mem_cons_self found hresolve value draft hdraft

theorem build_eq_ok {mapping : BodyMapping} {body : Body} {pathParams query : List (Text × Text)}
    {fields : Fields} (h : build types libs input mapping body pathParams query = .ok fields) :
    ∃ inside draft inside' draft' inside'' draft'',
      readBody types libs input mapping body pathParams (if query.isEmpty then none else some {}) =
        .ok (inside, draft) ∧
      bindPath types libs input pathParams inside draft = .ok (inside', draft') ∧
      bindQuery types libs input query inside' draft' = .ok (inside'', draft'') ∧
      draft''.fields = fields := by
  obtain ⟨⟨inside, draft⟩, hbody, h⟩ := Lib.bind_eq_ok.mp h
  obtain ⟨⟨inside', draft'⟩, hpath, h⟩ := Lib.bind_eq_ok.mp h
  obtain ⟨⟨inside'', draft''⟩, hquery, h⟩ := Lib.bind_eq_ok.mp h
  refine ⟨inside, draft, inside', draft', inside'', draft'', hbody, hpath, hquery, ?_⟩
  simp only at h
  split at h
  · obtain ⟨-, -, h⟩ := Lib.bind_eq_ok.mp h
    exact Except.ok.inj h
  · exact Except.ok.inj h

theorem valueAt_bindQuery {query : List (Text × Text)} {inside inside' : Bool} {draft draft' : Draft}
    (hp : PathIn types input p) (hguards : draft.Guards types input p)
    (h : bindQuery types libs input query inside draft = .ok (inside', draft')) :
    draft'.fields.valueAt p = draft.fields.valueAt p := by
  unfold bindQuery at h
  split at h
  · obtain ⟨-, rfl⟩ := Prod.mk.inj (Except.ok.inj h)
    rfl
  · rename_i presence hpresence
    cases hsettled : settled (bindPairs types libs.strings query (rootStart input) .fill none draft) with
    | error error =>
        rw [hsettled] at h
        cases h
    | ok result =>
        obtain ⟨set, next⟩ := result
        rw [hsettled] at h
        obtain ⟨-, rfl⟩ := Prod.mk.inj (Except.ok.inj h)
        have hkept := @valueAt_bindPairs_fill types p libs.strings query (rootStart input)
          (rootStart_sound input) hp draft (by rw [hpresence]; rfl) hguards
        rw [settled_eq_ok.mp hsettled] at hkept
        exact hkept

/-- **The path wins.** The message built holds at the field a path parameter names the value that
parameter reads as, when no other path parameter names the field, one above it or one below it. -/
theorem build_holds_path_value {mapping : BodyMapping} {body : Body} {query : List (Text × Text)}
    {before after : List (Text × Text)} {key raw : Text} {found : Resolved} {fields : Fields}
    (hbuild : build types libs input mapping body (before ++ (key, raw) :: after) query = .ok fields)
    (hresolve : resolve types (rootStart input) key = some found)
    (halone : ∀ other ∈ before ++ after, ∀ found', resolve types (rootStart input) other.1 = some found' →
      Apart found'.path found.path) :
    ∃ field value, found.path.getLast? = some field ∧
      fieldValue libs.strings field [raw] = .ok value ∧ fields.valueAt found.path = some value := by
  obtain ⟨inside, draft, inside', draft', inside'', draft'', -, hpath, hquery, rfl⟩ := build_eq_ok hbuild
  have hfound : PathIn types input found.path := resolve_pathIn (rootStart_sound input) hresolve
  rw [bindPath_append] at hpath
  obtain ⟨⟨insideBefore, draftBefore⟩, -, hpath⟩ := Lib.bind_eq_ok.mp hpath
  obtain ⟨⟨set, draftSet⟩, hset, hpath⟩ := Lib.bind_eq_ok.mp hpath
  obtain ⟨field, value, hlast, hvalue, rfl⟩ := settled_bind_set hresolve hset
  have hkeep := @bindPath_keeps types libs input
    (fun next => next.Guards types input found.path ∧ next.fields.valueAt found.path = some value) after
    _ _ _ _ ?_ hpath ⟨?_, valueAt_setAt_self hfound.ne_nil⟩
  · obtain ⟨hguards, hheld⟩ := hkeep
    exact ⟨field, value, hlast, hvalue, (valueAt_bindQuery hfound hguards hquery).trans hheld⟩
  · rintro other hother found' hresolve' written next ⟨hguards, hheld⟩
    have hapart := halone other (List.mem_append_right _ hother) found' hresolve'
    have hfound' : PathIn types input found'.path := resolve_pathIn (rootStart_sound input) hresolve'
    refine ⟨?_, (valueAt_setAt_of_apart hfound' hfound hapart _).trans hheld⟩
    intro presence hpresence
    obtain ⟨earlier, hearlier, rfl⟩ := Option.map_eq_some_iff.mp hpresence
    exact (hguards earlier hearlier).recordPath _ _
  · intro presence hpresence
    obtain ⟨earlier, -, rfl⟩ := Option.map_eq_some_iff.mp hpresence
    exact earlier.guards_recordPath_self hfound.ne_nil

def sampleLibraries (wrappers : List Nat) (objects : List (Text × List (Text × Json)))
    (forms : List (Text × List (Text × Text))) : Libraries where
  strings :=
    { parseF64 := fun _ => .error (str "invalid float literal")
      toF32 := fun _ => 0
      base64Standard := fun _ => .error ⟨none, str "invalid"⟩
      base64UrlSafe := fun _ => .error ⟨none, str "invalid"⟩
      message := fun type raw =>
        if type ∈ wrappers then .ok [(1, .string raw)] else .error (str "invalid type") }
  proto :=
    { leaf := fun field json =>
        match field.kind, json with
        | .string, .string value => .ok (some (.string value))
        | .int32, .number token => (parseInt (-2 ^ 31) (2 ^ 31 - 1) token).map fun n => some (.i32 n)
        | _, .null => .ok none
        | _, _ => .error (str "invalid type")
      leafKeys := fun _ _ => none
      leafKeys_recorded := by simp
      special := fun _ _ => .error (str "invalid type") }
  parseJson := fun bytes =>
    if trimJsonWhitespace bytes = str "null" then .ok .null
    else (objects.lookup bytes).elim (.error (str "expected value")) fun entries => .ok (.object entries)
  parseJson_null := by
    intro bytes
    constructor
    · intro h
      split at h
      · assumption
      · cases hlookup : objects.lookup bytes with
        | none => rw [hlookup] at h; cases h
        | some entries => rw [hlookup] at h; cases h
    · intro h
      exact if_pos h
  parseForm := fun bytes => (forms.lookup bytes).getD []
  writeJson := fun _ _ => .ok ()

def titleField : Field := { number := 1, name := str "title", jsonName := str "title", kind := .string }

def bookField : Field :=
  { number := 1, name := str "the_book", jsonName := str "theBook", kind := .message 0 }

def bookType : MessageType := { fullName := str "library.Book", fields := [titleField] }

def nameField : Field := { number := 2, name := str "name", jsonName := str "name", kind := .string }

def updateType : MessageType := { fullName := str "library.Update", fields := [bookField, nameField] }

theorem exists_of_isOk {α : Type} {result : Except Text α} (h : result.isOk = true) :
    ∃ a, result = .ok a := by
  cases result with
  | error error => cases h
  | ok a => exact ⟨a, rfl⟩

def titleBody : Text := str "\x7b\"theBook\": \x7b\"title\": \"b\"\x7d\x7d"

def titleLibraries : Libraries :=
  sampleLibraries [] [(titleBody, [(str "theBook", .object [(str "title", .string (str "b"))])])] []

def builtTitle : Except Text Fields :=
  build [bookType, updateType] titleLibraries updateType .root (.json titleBody)
    ([] ++ (str "the_book.title", str "p") :: []) [(str "theBook.title", str "q")]

/-- The title in the path replaces the body's and keeps the query's out. -/
theorem build_holds_path_title : ∃ fields, builtTitle = .ok fields ∧
    ∃ field value, [bookField, titleField].getLast? = some field ∧
      fieldValue titleLibraries.strings field [str "p"] = .ok value ∧
      fields.valueAt [bookField, titleField] = some value := by
  have hok : builtTitle.isOk = true := by decide +kernel
  have hresolve : resolve [bookType, updateType] (rootStart updateType) (str "the_book.title") =
      some ⟨[bookField, titleField], false, false⟩ := by decide +kernel
  obtain ⟨fields, hbuild⟩ := exists_of_isOk hok
  exact ⟨fields, hbuild, build_holds_path_value hbuild hresolve fun other hother => by cases hother⟩

end StructuredProxy
