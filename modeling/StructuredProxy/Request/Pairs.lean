import StructuredProxy.Request.Binding

/-!
# Every key of a query or form is bound

The proto-name key of a path resolves to the path again, so a key the first pass puts off, or fails on
while the field also came under its JSON name, is bound in the second pass.
-/

namespace StructuredProxy

variable {types : Types}

theorem fieldNamed_name {type : MessageType} {field : Field} (hfield : field ∈ type.fields) :
    fieldNamed type field.name = some (field, false) := by
  rw [fieldNamed, MessageType.getFieldByName_name hfield]

theorem resolveSegments_names {path : List Field} : ∀ {type : MessageType}, PathIn types type path →
    ∃ inside, resolveSegments types type (path.map Field.name) =
      some { path, inside, aliased := false } := by
  induction path with
  | nil => intro type h; cases h
  | cons field path ih =>
      intro type h
      cases h with
      | last hfield =>
          refine ⟨false, ?_⟩
          rw [List.map_cons, List.map_nil, resolveSegments, fieldNamed_name hfield]
          rfl
      | step hfield hlist hmap hinner hpath =>
          obtain ⟨inside, hrest⟩ := ih hpath
          rw [List.map_cons] at hrest
          exact ⟨_, resolveSegments_step (fieldNamed_name hfield) hinner hlist hmap hrest⟩

theorem dot_notMem_names {path : List Field} : ∀ {type : MessageType}, PathIn types type path →
    ∀ name ∈ path.map Field.name, dot ∉ name := by
  induction path with
  | nil => intro type h; cases h
  | cons field path ih =>
      intro type h name hname
      rw [List.map_cons, List.mem_cons] at hname
      rcases hname with rfl | hname
      · exact MessageType.dot_notMem_name h.mem
      · cases h with
        | last hfield => cases hname
        | step hfield hlist hmap hinner hpath => exact ih hpath name hname

theorem splitOn_canonicalKey {type : MessageType} {path : List Field} (h : PathIn types type path) :
    (canonicalKey path).splitOn dot = path.map Field.name := by
  refine List.splitOn_intercalate dot (dot_notMem_names h) ?_
  simpa using h.ne_nil

theorem resolve_canonicalKey {start : Start} {key : Text} {found : Resolved}
    (h : resolve types start key = some found) :
    ∃ inside, resolve types start (canonicalKey (start.own found.path)) =
      some { path := found.path, inside, aliased := false } := by
  unfold resolve at h
  cases hwithin : start.within with
  | none =>
      rw [hwithin] at h
      obtain ⟨rest, hrest, rfl⟩ := Option.map_eq_some_iff.mp h
      have hpath := resolveSegments_pathIn hrest
      obtain ⟨inside, hnames⟩ := resolveSegments_names hpath
      refine ⟨start.inside || inside, ?_⟩
      simp only [resolve, hwithin, Start.own, Option.isSome_none, Bool.false_eq_true, if_false,
        splitOn_canonicalKey hpath, hnames, Option.map_some]
  | some field =>
      rw [hwithin] at h
      obtain ⟨inner, hinner, h⟩ := Option.bind_eq_some_iff.mp h
      obtain ⟨rest, hrest, h⟩ := Option.bind_eq_some_iff.mp h
      obtain rfl := Option.some.inj h
      have hpath := resolveSegments_pathIn hrest
      obtain ⟨inside, hnames⟩ := resolveSegments_names hpath
      refine ⟨start.inside || inside, ?_⟩
      simp only [resolve, hwithin, Start.own, Option.isSome_some, if_true, List.drop_succ_cons,
        List.drop_zero, splitOn_canonicalKey hpath, hnames, Option.bind_eq_bind, Option.bind_some, hinner]

theorem mem_runs {pairs : List (Text × Text)} {pair : Text × Text} (hpair : pair ∈ pairs) :
    (pair.1, pairs.findIdxs (·.1 = pair.1)) ∈ runs pairs := by
  refine List.mem_map.mpr ⟨pair.1, ?_, rfl⟩
  rw [List.mem_mergeSort, List.mem_eraseDups]
  exact List.mem_map_of_mem hpair

theorem mem_mergedGroups {pairs : List (Text × Text)} {aliased : List (Text × List Nat)}
    {key : Text} (hkey : key ∈ aliased.map Prod.fst) :
    ∃ positions, (key, positions) ∈ mergedGroups pairs aliased := by
  refine ⟨_, List.mem_map.mpr ⟨key, ?_, rfl⟩⟩
  rw [List.mem_mergeSort, List.mem_eraseDups]
  exact hkey

/-! ### A key that is bound -/

section Bound

variable {readers : StringReaders} {mode : BindingMode} {pairs : List (Text × Text)} {start : Start}
  {pathParams : Option (List (Text × Text))} {done : Draft → Prop} {path : List Field}
  (hkeep : ∀ (key : Text) (found : Resolved) (values : List Text) (draft : Draft),
    resolve types start key = some found → done draft →
      done (assign types readers mode found.path values draft).2)
  (hset : ∀ (values : List Text) (draft draft' : Draft),
    assign types readers mode path values draft = (.ok (), draft') → done draft')
  (huncovered : (pathParams.any fun params => params.any fun (key, _) => covers key path) = false)
include hkeep hset huncovered

omit hkeep in
theorem bindResolved_binds {values : List Text} {draft draft' : Draft} {assigned : Bool}
    (h : bindResolved types readers pathParams path values mode draft = (.ok assigned, draft')) :
    done draft' := by
  rw [bindResolved, huncovered, if_neg (by decide)] at h
  have hset' := hset values draft
  generalize assign types readers mode path values draft = result at h hset'
  obtain ⟨result, next⟩ := result
  cases result with
  | error error => cases h
  | ok _ =>
      obtain ⟨-, rfl⟩ := Prod.mk.inj h
      exact hset' _ rfl

theorem secondPass_binds {key : Text} {found : Resolved}
    (hresolve : resolve types start key = some found) (hpath : found.path = path)
    {groups : List (Text × List Nat)} : ∀ {inside inside' : Bool} {draft draft' : Draft},
    key ∈ groups.map Prod.fst →
    secondPass types readers pairs start mode pathParams groups inside draft = (.ok inside', draft') →
    done draft' := by
  induction groups with
  | nil => intro inside inside' draft draft' hkey; cases hkey
  | cons group groups ih =>
      intro inside inside' draft draft' hkey h
      obtain ⟨other, positions⟩ := group
      rw [secondPass] at h
      rcases List.mem_cons.mp hkey with rfl | hkey
      · rw [hresolve] at h
        simp only at h
        cases hbound : bindResolved types readers pathParams found.path (valuesAt pairs positions) mode
            draft with
        | mk result next =>
            rw [hbound] at h
            cases result with
            | error error => cases h
            | ok assigned =>
                rw [hpath] at hbound
                have hnext := bindResolved_binds hset huncovered hbound
                have hlast := @secondPass_keeps types readers mode pairs start pathParams done hkeep groups
                  (inside || assigned && found.inside) next hnext
                simp only at h
                rw [h] at hlast
                exact hlast
      · cases hother : resolve types start other with
        | none =>
            rw [hother] at h
            exact ih hkey h
        | some found' =>
            rw [hother] at h
            simp only at h
            split at h
            · cases h
            · exact ih hkey h

def FirstPass.Tried (done : Draft → Prop) (key : Text) (state : FirstPass) : Prop :=
  done state.draft ∨ key ∈ state.failed.map Prod.fst

omit hkeep in
theorem firstPassStep_tried {key : Text} {found : Resolved}
    (hresolve : resolve types start key = some found) (hpath : found.path = path)
    (haliased : found.aliased = false) (positions : List Nat) (state : FirstPass) :
    (firstPassStep types readers pairs start mode pathParams state (key, positions)).Tried done key := by
  simp only [firstPassStep, hresolve, haliased, Bool.false_eq_true, if_false]
  cases hbound : bindResolved types readers pathParams found.path (valuesAt pairs positions) mode
      state.draft with
  | mk result next =>
      cases result with
      | error error => exact Or.inr (by simp)
      | ok assigned =>
          rw [hpath] at hbound
          exact Or.inl (bindResolved_binds hset huncovered hbound)

omit hset huncovered in
theorem firstPassStep_keeps_tried {key : Text} (run : Text × List Nat) {state : FirstPass}
    (hstate : state.Tried done key) :
    (firstPassStep types readers pairs start mode pathParams state run).Tried done key := by
  refine hstate.imp (firstPassStep_keeps hkeep run) fun hfailed => ?_
  unfold firstPassStep
  simp only
  split
  · exact hfailed
  · split
    · exact hfailed
    · split
      · exact hfailed
      · simp [hfailed]

omit hkeep hset huncovered in
theorem firstPass_aliased {key : Text} {found : Resolved}
    (hresolve : resolve types start key = some found) (haliased : found.aliased = true)
    {groups : List (Text × List Nat)} {positions : List Nat} (hmem : (key, positions) ∈ groups)
    (state : FirstPass) :
    canonicalKey (start.own found.path) ∈
      ((groups.foldl (firstPassStep types readers pairs start mode pathParams) state).aliased.map
        Prod.fst) := by
  refine Lib.foldl_of_mem (fun state : FirstPass =>
    canonicalKey (start.own found.path) ∈ state.aliased.map Prod.fst) ?_ hmem ?_ state
  · intro run _ state hstate
    unfold firstPassStep
    simp only
    split
    · exact hstate
    · split
      · simp [hstate]
      · split <;> exact hstate
  · intro state
    simp [firstPassStep, hresolve, haliased]

/-- **A key of the pairs is bound.** What assigning its field brings about, and every assignment keeps,
holds once all pairs are bound. -/
theorem bindPairs_binds {key : Text} {found : Resolved} (hkey : key ∈ pairs.map Prod.fst)
    (hresolve : resolve types start key = some found) (hpath : found.path = path) {inside : Bool}
    {draft draft' : Draft}
    (h : bindPairs types readers pairs start mode pathParams draft = (.ok inside, draft')) :
    done draft' := by
  obtain ⟨pair, hpair, rfl⟩ := List.mem_map.mp hkey
  have hrun := mem_runs hpair
  unfold bindPairs at h
  simp only at h
  have haliases := @firstPass_aliased types readers mode pairs start pathParams pair.1 found hresolve
  have htried : found.aliased = false → FirstPass.Tried done pair.1
      ((runs pairs).foldl (firstPassStep types readers pairs start mode pathParams) { draft }) := by
    intro haliased
    refine Lib.foldl_of_mem (FirstPass.Tried done pair.1) ?_ hrun ?_ _
    · exact fun run _ _ hstate => firstPassStep_keeps_tried hkeep run hstate
    · exact firstPassStep_tried hset huncovered hresolve hpath haliased _
  replace haliases := fun haliased => haliases haliased hrun { draft }
  generalize (runs pairs).foldl (firstPassStep types readers pairs start mode pathParams) { draft } =
    state at h haliases htried
  split at h
  · cases h
  · rename_i hfailed
    cases haliased : found.aliased with
    | true =>
        obtain ⟨positions, hgroup⟩ := @mem_mergedGroups pairs _ _ (haliases haliased)
        obtain ⟨inside', hresolve'⟩ := resolve_canonicalKey hresolve
        refine secondPass_binds hkeep hset huncovered hresolve' hpath ?_ h
        exact List.mem_map.mpr ⟨_, hgroup, rfl⟩
    | false =>
        rcases htried haliased with hdone | hmem
        · have hlast := @secondPass_keeps types readers mode pairs start pathParams done hkeep
            (mergedGroups pairs state.aliased) state.inside state.draft hdone
          rw [h] at hlast
          exact hlast
        · obtain ⟨failure, hfailure, hkey⟩ := List.mem_map.mp hmem
          have hcovered := List.find?_eq_none.mp hfailed failure hfailure
          obtain ⟨run, hrun, hrunKey⟩ : ∃ run ∈ state.aliased, run.1 = failure.1 := by
            simpa using hcovered
          have hcanonical : pair.1 ∈ state.aliased.map Prod.fst :=
            List.mem_map.mpr ⟨run, hrun, hrunKey.trans hkey⟩
          obtain ⟨positions, hgroup⟩ := @mem_mergedGroups pairs _ _ hcanonical
          refine secondPass_binds hkeep hset huncovered hresolve hpath ?_ h
          exact List.mem_map.mpr ⟨_, hgroup, rfl⟩

end Bound

end StructuredProxy
