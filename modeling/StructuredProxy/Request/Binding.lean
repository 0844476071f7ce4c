import StructuredProxy.Request.Bind
import StructuredProxy.Request.Paths

/-!
# What binding can do to a draft

Every key resolves to a path of the input type, and every assignment either leaves the draft as it was
or writes one value at a path that was free. What holds of one assignment holds of all the pairs of a
query or form.
-/

namespace StructuredProxy

variable {types : Types}

theorem mem_of_fieldNamed {type : MessageType} {name : Text} {field : Field} {aliased : Bool}
    (h : fieldNamed type name = some (field, aliased)) :
    field ∈ type.fields ∧ field.named name = true := by
  unfold fieldNamed at h
  split at h
  · rename_i other hother
    obtain ⟨rfl, -⟩ := Prod.mk.inj (Option.some.inj h)
    obtain ⟨hmem, hname⟩ := MessageType.mem_of_getFieldByName hother
    exact ⟨hmem, by simp [Field.named, hname]⟩
  · obtain ⟨other, hother, heq⟩ := Option.map_eq_some_iff.mp h
    obtain ⟨rfl, -⟩ := Prod.mk.inj heq
    obtain ⟨hmem, hname⟩ := MessageType.mem_of_getFieldByJsonName hother
    exact ⟨hmem, by simp [Field.named, hname]⟩

theorem exists_fieldNamed {type : MessageType} {field : Field} (hfield : field ∈ type.fields)
    {key : Text} (hnamed : field.named key = true) :
    ∃ other aliased, fieldNamed type key = some (other, aliased) := by
  unfold fieldNamed
  cases hname : type.getFieldByName key with
  | some other => exact ⟨other, false, rfl⟩
  | none =>
      rw [Field.named, Bool.or_eq_true, decide_eq_true_eq, decide_eq_true_eq] at hnamed
      have hjson : key = field.jsonName := by
        refine hnamed.resolve_left fun hkey => ?_
        rw [hkey, MessageType.getFieldByName_name hfield] at hname
        cases hname
      have hsome : (type.getFieldByJsonName key).isSome = true :=
        List.find?_isSome.mpr ⟨field, hfield, decide_eq_true hjson.symm⟩
      obtain ⟨other, hother⟩ := Option.isSome_iff_exists.mp hsome
      exact ⟨other, true, by rw [hother]; rfl⟩

theorem resolveSegments_cons_cons {type : MessageType} {segment next : Text} {segments : List Text}
    {found : Resolved} (h : resolveSegments types type (segment :: next :: segments) = some found) :
    ∃ field aliased inner rest, fieldNamed type segment = some (field, aliased) ∧
      types.typeOf field.kind = some inner ∧ field.isList = false ∧ field.isMap = false ∧
      resolveSegments types inner (next :: segments) = some rest ∧
      found = { path := field :: rest.path, inside := inner.hasSpecialJson || rest.inside,
                aliased := aliased || rest.aliased } := by
  rw [resolveSegments] at h
  obtain ⟨⟨field, aliased⟩, hfield, h⟩ := Option.bind_eq_some_iff.mp h
  obtain ⟨inner, hinner, h⟩ := Option.bind_eq_some_iff.mp h
  split at h
  · exact absurd h (by simp)
  · rename_i hsingular
    rw [Bool.or_eq_true, not_or, Bool.not_eq_true, Bool.not_eq_true] at hsingular
    obtain ⟨rest, hrest, h⟩ := Option.bind_eq_some_iff.mp h
    exact ⟨field, aliased, inner, rest, hfield, hinner, hsingular.1, hsingular.2, hrest,
      (Option.some.inj h).symm⟩

theorem resolveSegments_step {type inner : MessageType} {segment next : Text} {segments : List Text}
    {field : Field} {aliased : Bool} {rest : Resolved}
    (hfield : fieldNamed type segment = some (field, aliased))
    (hinner : types.typeOf field.kind = some inner) (hlist : field.isList = false)
    (hmap : field.isMap = false) (hrest : resolveSegments types inner (next :: segments) = some rest) :
    resolveSegments types type (segment :: next :: segments) =
      some { path := field :: rest.path, inside := inner.hasSpecialJson || rest.inside,
             aliased := aliased || rest.aliased } := by
  rw [resolveSegments, hfield]
  simp only [Option.bind_eq_bind, Option.bind_some, hinner, hlist, hmap, Bool.or_false,
    Bool.false_eq_true, if_false, hrest]

theorem resolveSegments_singleton {type : MessageType} {segment : Text} {found : Resolved}
    (h : resolveSegments types type [segment] = some found) :
    ∃ field aliased, fieldNamed type segment = some (field, aliased) ∧
      found = { path := [field], inside := false, aliased } := by
  rw [resolveSegments] at h
  obtain ⟨⟨field, aliased⟩, hfield, heq⟩ := Option.map_eq_some_iff.mp h
  exact ⟨field, aliased, hfield, heq.symm⟩

theorem resolveSegments_pathIn {segments : List Text} : ∀ {type : MessageType} {found : Resolved},
    resolveSegments types type segments = some found → PathIn types type found.path := by
  induction segments with
  | nil => intro type found h; exact absurd h (by simp [resolveSegments])
  | cons segment segments ih =>
      intro type found h
      cases segments with
      | nil =>
          obtain ⟨field, aliased, hfield, rfl⟩ := resolveSegments_singleton h
          exact .last (mem_of_fieldNamed hfield).1
      | cons next segments =>
          obtain ⟨field, aliased, inner, rest, hfield, hinner, hlist, hmap, hrest, rfl⟩ :=
            resolveSegments_cons_cons h
          have hpath := ih hrest
          cases hcases : rest.path with
          | nil => rw [hcases] at hpath; cases hpath
          | cons first path =>
              rw [hcases] at hpath
              exact .step (mem_of_fieldNamed hfield).1 hlist hmap hinner hpath

def Start.Sound (start : Start) : Prop :=
  ∀ field ∈ start.within, field ∈ start.root.fields ∧ field.isList = false ∧ field.isMap = false

theorem resolve_pathIn {start : Start} (hstart : start.Sound) {key : Text} {found : Resolved}
    (h : resolve types start key = some found) : PathIn types start.root found.path := by
  unfold resolve at h
  cases hwithin : start.within with
  | none =>
      rw [hwithin] at h
      obtain ⟨rest, hrest, rfl⟩ := Option.map_eq_some_iff.mp h
      have hpath := resolveSegments_pathIn hrest
      exact hpath
  | some field =>
      rw [hwithin] at h
      obtain ⟨inner, hinner, h⟩ := Option.bind_eq_some_iff.mp h
      obtain ⟨rest, hrest, h⟩ := Option.bind_eq_some_iff.mp h
      obtain rfl := Option.some.inj h
      obtain ⟨hmem, hlist, hmap⟩ := hstart field hwithin
      have hpath := resolveSegments_pathIn hrest
      cases hcases : rest.path with
      | nil => rw [hcases] at hpath; cases hpath
      | cons first path =>
          rw [hcases] at hpath
          exact .step hmem hlist hmap hinner hpath

theorem resolve_ne_nil {start : Start} {key : Text} {found : Resolved}
    (h : resolve types start key = some found) : found.path ≠ [] := by
  unfold resolve at h
  split at h
  · obtain ⟨rest, hrest, rfl⟩ := Option.map_eq_some_iff.mp h
    exact (resolveSegments_pathIn hrest).ne_nil
  · obtain ⟨inner, hinner, h⟩ := Option.bind_eq_some_iff.mp h
    obtain ⟨rest, hrest, h⟩ := Option.bind_eq_some_iff.mp h
    obtain rfl := Option.some.inj h
    exact List.cons_ne_nil _ _

variable {readers : StringReaders} {mode : BindingMode}

def recordedAfter (mode : BindingMode) (path : List Field) (presence : Option Presence) :
    Option Presence :=
  presence.map fun presence => if mode = .set then presence.recordPath path false else presence

theorem recordedAfter_fill (path : List Field) (presence : Option Presence) :
    recordedAfter .fill path presence = presence := by
  cases presence <;> rfl

def Draft.blocks (types : Types) (draft : Draft) (path : List Field) : Bool :=
  draft.presence.any (·.blocks types path)

/-- An assignment is left out, fails and changes nothing, or writes one value. -/
inductive Assigned (types : Types) (readers : StringReaders) (mode : BindingMode)
    (path : List Field) (values : List Text) (draft : Draft) : Except Text Unit × Draft → Prop
  | blocked (hmode : mode = .fill) (hblocks : draft.blocks types path = true) :
      Assigned types readers mode path values draft (.ok (), draft)
  | failed (error : Text) (hfree : mode = .fill → draft.blocks types path = false) :
      Assigned types readers mode path values draft (.error error, draft)
  | written {field : Field} {value : Value}
      (hunblocked : mode = .fill → draft.blocks types path = false)
      (hlast : path.getLast? = some field) (hvalue : fieldValue readers field values = .ok value)
      (hfree : FreeAt draft.fields path) :
      Assigned types readers mode path values draft
        (.ok (), { fields := setAt value path draft.fields,
                   presence := recordedAfter mode path draft.presence })

theorem assign_cases (types : Types) (readers : StringReaders) (mode : BindingMode)
    {path : List Field} (hne : path ≠ []) (values : List Text) (draft : Draft) :
    Assigned types readers mode path values draft (assign types readers mode path values draft) := by
  unfold assign
  by_cases hblocked : (mode = .fill && draft.presence.any (·.blocks types path)) = true
  · rw [if_pos hblocked]
    rw [Bool.and_eq_true, decide_eq_true_eq] at hblocked
    exact .blocked hblocked.1 hblocked.2
  · rw [if_neg hblocked]
    have hunblocked : mode = .fill → draft.blocks types path = false := by
      intro hmode
      rw [Bool.and_eq_true, decide_eq_true_eq, not_and, Bool.not_eq_true] at hblocked
      exact hblocked hmode
    have hlast := List.getLast?_eq_some_getLast hne
    rw [hlast]
    simp only
    cases hvalue : fieldValue readers (path.getLast hne) values with
    | error error => exact .failed error hunblocked
    | ok value =>
        simp only
        by_cases hfree : FreeAt draft.fields path
        · rw [assignAt_of_free value hfree]
          exact .written hunblocked hlast hvalue hfree
        · obtain ⟨error, herror⟩ := assignAt_of_not_free value hfree
          rw [herror]
          exact .failed error hunblocked

/-! ### All the pairs -/

section Related

variable {pairs : List (Text × Text)} {start : Start} {pathParams : Option (List (Text × Text))}
  {Related : Draft → Draft → Prop}
  (hassign : ∀ (key : Text) (found : Resolved) (values : List Text) (draft draft' : Draft),
    resolve types start key = some found → Related draft draft' →
      (assign types readers mode found.path values draft).1 =
          (assign types readers mode found.path values draft').1 ∧
        Related (assign types readers mode found.path values draft).2
          (assign types readers mode found.path values draft').2)
include hassign

theorem bindResolved_related {key : Text} {found : Resolved}
    (hresolve : resolve types start key = some found) (values : List Text) {draft draft' : Draft}
    (hdraft : Related draft draft') :
    (bindResolved types readers pathParams found.path values mode draft).1 =
        (bindResolved types readers pathParams found.path values mode draft').1 ∧
      Related (bindResolved types readers pathParams found.path values mode draft).2
        (bindResolved types readers pathParams found.path values mode draft').2 := by
  obtain ⟨hresult, hnext⟩ := hassign key found values draft draft' hresolve hdraft
  unfold bindResolved
  split
  · exact ⟨rfl, hdraft⟩
  · generalize assign types readers mode found.path values draft = result at hresult hnext ⊢
    generalize assign types readers mode found.path values draft' = result' at hresult hnext ⊢
    obtain ⟨result, next⟩ := result
    obtain ⟨result', next'⟩ := result'
    obtain rfl : result = result' := hresult
    cases result with
    | error error => exact ⟨rfl, hnext⟩
    | ok done => exact ⟨rfl, hnext⟩

structure FirstPass.Like (Related : Draft → Draft → Prop) (state state' : FirstPass) : Prop where
  draft : Related state.draft state'.draft
  inside : state.inside = state'.inside
  aliased : state.aliased = state'.aliased
  failed : state.failed = state'.failed

theorem firstPassStep_related (run : Text × List Nat) {state state' : FirstPass}
    (hstate : state.Like Related state') :
    (firstPassStep types readers pairs start mode pathParams state run).Like Related
      (firstPassStep types readers pairs start mode pathParams state' run) := by
  obtain ⟨key, positions⟩ := run
  cases hresolve : resolve types start key with
  | none =>
      simp only [firstPassStep, hresolve]
      exact hstate
  | some found =>
      simp only [firstPassStep, hresolve]
      split
      · exact ⟨hstate.draft, hstate.inside, by simp only [hstate.aliased], hstate.failed⟩
      · obtain ⟨hresult, hnext⟩ := @bindResolved_related types readers mode start pathParams Related
          hassign key found hresolve (valuesAt pairs positions) _ _ hstate.draft
        generalize bindResolved types readers pathParams found.path (valuesAt pairs positions) mode
          state.draft = result at hresult hnext ⊢
        generalize bindResolved types readers pathParams found.path (valuesAt pairs positions) mode
          state'.draft = result' at hresult hnext ⊢
        obtain ⟨result, next⟩ := result
        obtain ⟨result', next'⟩ := result'
        obtain rfl : result = result' := hresult
        cases result with
        | error error =>
            exact ⟨hnext, hstate.inside, hstate.aliased, by simp only [hstate.failed]⟩
        | ok assigned =>
            exact ⟨hnext, by simp only [hstate.inside], hstate.aliased, hstate.failed⟩

theorem secondPass_related (groups : List (Text × List Nat)) :
    ∀ {inside : Bool} {draft draft' : Draft}, Related draft draft' →
    (secondPass types readers pairs start mode pathParams groups inside draft).1 =
        (secondPass types readers pairs start mode pathParams groups inside draft').1 ∧
      Related (secondPass types readers pairs start mode pathParams groups inside draft).2
        (secondPass types readers pairs start mode pathParams groups inside draft').2 := by
  induction groups with
  | nil => intro inside draft draft' hdraft; exact ⟨rfl, hdraft⟩
  | cons group groups ih =>
      intro inside draft draft' hdraft
      obtain ⟨key, positions⟩ := group
      rw [secondPass, secondPass]
      cases hresolve : resolve types start key with
      | none => exact ih hdraft
      | some found =>
          obtain ⟨hresult, hnext⟩ := @bindResolved_related types readers mode start pathParams Related
            hassign key found hresolve (valuesAt pairs positions) _ _ hdraft
          simp only
          generalize bindResolved types readers pathParams found.path (valuesAt pairs positions) mode
            draft = result at hresult hnext ⊢
          generalize bindResolved types readers pathParams found.path (valuesAt pairs positions) mode
            draft' = result' at hresult hnext ⊢
          obtain ⟨result, next⟩ := result
          obtain ⟨result', next'⟩ := result'
          obtain rfl : result = result' := hresult
          cases result with
          | error error => exact ⟨rfl, hnext⟩
          | ok assigned => exact ih hnext

theorem firstPass_related (groups : List (Text × List Nat)) : ∀ {state state' : FirstPass},
    state.Like Related state' →
    (groups.foldl (firstPassStep types readers pairs start mode pathParams) state).Like Related
      (groups.foldl (firstPassStep types readers pairs start mode pathParams) state') := by
  induction groups with
  | nil => intro state state' hstate; exact hstate
  | cons run groups ih =>
      intro state state' hstate
      exact ih (firstPassStep_related hassign run hstate)

/-- **What every assignment keeps between two drafts, a query or form keeps.** -/
theorem bindPairs_related {draft draft' : Draft} (hdraft : Related draft draft') :
    (bindPairs types readers pairs start mode pathParams draft).1 =
        (bindPairs types readers pairs start mode pathParams draft').1 ∧
      Related (bindPairs types readers pairs start mode pathParams draft).2
        (bindPairs types readers pairs start mode pathParams draft').2 := by
  have hstart : FirstPass.Like Related { draft } { draft := draft' } := ⟨hdraft, rfl, rfl, rfl⟩
  have hfirst := @firstPass_related types readers mode pairs start pathParams Related hassign
    (runs pairs) _ _ hstart
  unfold bindPairs
  simp only [hfirst.failed, hfirst.aliased, hfirst.inside]
  split
  · exact ⟨rfl, hfirst.draft⟩
  · exact secondPass_related hassign _ hfirst.draft

end Related

section Keeps

variable {pairs : List (Text × Text)} {start : Start} {pathParams : Option (List (Text × Text))}
  {holds : Draft → Prop}
  (hassign : ∀ (key : Text) (found : Resolved) (values : List Text) (draft : Draft),
    resolve types start key = some found → holds draft →
      holds (assign types readers mode found.path values draft).2)
include hassign

theorem assign_related_self (key : Text) (found : Resolved) (values : List Text)
    (draft draft' : Draft) (hresolve : resolve types start key = some found)
    (hdraft : draft = draft' ∧ holds draft) :
    (assign types readers mode found.path values draft).1 =
        (assign types readers mode found.path values draft').1 ∧
      (assign types readers mode found.path values draft).2 =
          (assign types readers mode found.path values draft').2 ∧
        holds (assign types readers mode found.path values draft).2 := by
  obtain ⟨rfl, hdraft⟩ := hdraft
  exact ⟨rfl, rfl, hassign key found values draft hresolve hdraft⟩

theorem secondPass_keeps (groups : List (Text × List Nat)) (inside : Bool) {draft : Draft}
    (hdraft : holds draft) :
    holds (secondPass types readers pairs start mode pathParams groups inside draft).2 :=
  (secondPass_related (assign_related_self hassign) groups ⟨rfl, hdraft⟩).2.2

theorem firstPassStep_keeps (run : Text × List Nat) {state : FirstPass} (hstate : holds state.draft) :
    holds (firstPassStep types readers pairs start mode pathParams state run).draft :=
  (firstPassStep_related (assign_related_self hassign) run
    (⟨⟨rfl, hstate⟩, rfl, rfl, rfl⟩ : state.Like _ state)).draft.2

theorem bindPairs_keeps {draft : Draft} (hdraft : holds draft) :
    holds (bindPairs types readers pairs start mode pathParams draft).2 :=
  (bindPairs_related (assign_related_self hassign) ⟨rfl, hdraft⟩).2.2

end Keeps

end StructuredProxy
