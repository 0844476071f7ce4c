import StructuredProxy.Request.Pairs
import StructuredProxy.Lib.Commute

/-!
# The outcome of binding pairs as a run of steps

`bind_pairs` binds each field once in effect: the first pass binds the keys spelled with proto names, and
those of fields that also came under a JSON name only as an attempt, which the second pass repeats with
all the values of the field. The outcome is that of one step for each field.
-/

namespace StructuredProxy

variable {types : Types} {readers : StringReaders}

/-! ### One field -/

def bindStep (readers : StringReaders) (skips : List Field → Bool) (values : List Text)
    (path : List Field) (fields : Fields) : Option Fields :=
  if skips path then some fields
  else
    match path.getLast? with
    | none => some fields
    | some field =>
        match fieldValue readers field values with
        | .error _ => none
        | .ok value =>
            match assignAt value path fields with
            | (.ok (), fields) => some fields
            | (.error _, _) => none

/-- What binding a field can do: nothing, fail on its values, or write a value where it may. -/
inductive BindStep (readers : StringReaders) (skips : List Field → Bool) (values : List Text)
    (path : List Field) : (Fields → Option Fields) → Prop
  | skipped (hskips : skips path = true) : BindStep readers skips values path some
  | refused (hskips : skips path = false) : BindStep readers skips values path fun _ => none
  | written (value : Value) {step : Fields → Option Fields} (hskips : skips path = false)
      (hwrites : ∀ fields, FreeAt fields path → step fields = some (setAt value path fields))
      (hfails : ∀ fields, ¬FreeAt fields path → step fields = none) :
      BindStep readers skips values path step

theorem bindStep_cases {skips : List Field → Bool} (values : List Text) {path : List Field}
    (hne : path ≠ []) : BindStep readers skips values path (bindStep readers skips values path) := by
  cases hskips : skips path with
  | true =>
      have hstep : bindStep readers skips values path = some := by
        funext fields
        exact if_pos hskips
      rw [hstep]
      exact .skipped hskips
  | false =>
      have hlast := List.getLast?_eq_some_getLast hne
      cases hvalue : fieldValue readers (path.getLast hne) values with
      | error error =>
          have hstep : bindStep readers skips values path = fun _ => none := by
            funext fields
            simp only [bindStep, hskips, Bool.false_eq_true, if_false, hlast, hvalue]
          rw [hstep]
          exact .refused hskips
      | ok value =>
          have hstep : ∀ fields, bindStep readers skips values path fields =
              match assignAt value path fields with
              | (.ok (), fields) => some fields
              | (.error _, _) => none := by
            intro fields
            simp only [bindStep, hskips, Bool.false_eq_true, if_false, hlast, hvalue]
          refine .written value hskips ?_ ?_
          · intro fields hfree
            rw [hstep, assignAt_of_free value hfree]
          · intro fields hfree
            obtain ⟨error, herror⟩ := assignAt_of_not_free value hfree
            rw [hstep, herror]

section Steps

variable {skips : List Field → Bool} {type : MessageType} {p q : List Field} {v w : List Text}

theorem partFreely_comm (hp : PathIn types type p) (hq : PathIn types type q) (hapart : Apart p q) :
    PartFreely p q ↔ PartFreely q p := by
  refine Apart.induct (fun p q hf hg hne => ?_) (fun f _ _ _ _ ih => ?_) hp hq hapart
  · rw [PartFreely, PartFreely, if_neg hne, if_neg (Ne.symm hne), mem_rivals_comm hf hg]
  · have hstep : ∀ p q, PartFreely (f :: p) (f :: q) ↔ PartFreely p q := fun p q => by
      rw [PartFreely, if_pos rfl]
    rwa [hstep, hstep]

/-- Fields neither of which is above the other are bound in either order. -/
theorem bindStep_swaps (hp : PathIn types type p) (hq : PathIn types type q) (hapart : Apart p q)
    (fields : Fields) :
    (bindStep readers skips v p fields).bind (bindStep readers skips w q) =
      (bindStep readers skips w q fields).bind (bindStep readers skips v p) := by
  have hcasesP := @bindStep_cases readers skips v p hp.ne_nil
  have hcasesQ := @bindStep_cases readers skips w q hq.ne_nil
  generalize bindStep readers skips v p = stepP at hcasesP ⊢
  generalize bindStep readers skips w q = stepQ at hcasesQ ⊢
  cases hcasesP with
  | skipped _ => rw [Option.bind_some, Option.bind_fun_some]
  | refused _ => cases stepQ fields <;> rfl
  | written value _ hwritesP hfailsP =>
      cases hcasesQ with
      | skipped _ => rw [Option.bind_some, Option.bind_fun_some]
      | refused _ => cases stepP fields <;> rfl
      | written value' _ hwritesQ hfailsQ =>
          have hfreeQ := @freeAt_setAt_of_apart _ value _ _ _ hp hq hapart fields
          have hfreeP := @freeAt_setAt_of_apart _ value' _ _ _ hq hp hapart.symm fields
          rw [partFreely_comm hp hq hapart] at hfreeP
          by_cases hp' : FreeAt fields p
          · by_cases hq' : FreeAt fields q
            · rw [hwritesP fields hp', hwritesQ fields hq', Option.bind_some, Option.bind_some]
              by_cases hpart : PartFreely q p
              · rw [hwritesQ _ (hfreeQ.mpr ⟨hq', hpart⟩), hwritesP _ (hfreeP.mpr ⟨hp', hpart⟩),
                  setAt_comm hq hp hapart.symm]
              · rw [hfailsQ _ fun h => hpart (hfreeQ.mp h).2, hfailsP _ fun h => hpart (hfreeP.mp h).2]
            · rw [hwritesP fields hp', hfailsQ fields hq', Option.bind_some,
                hfailsQ _ fun h => hq' (hfreeQ.mp h).1]
              rfl
          · rw [hfailsP fields hp']
            by_cases hq' : FreeAt fields q
            · rw [hwritesQ fields hq', Option.bind_some, hfailsP _ fun h => hp' (hfreeP.mp h).1]
              rfl
            · rw [hfailsQ fields hq']
              rfl

/-- Binding a field again, or one above it, leaves nothing of the value that was there. -/
theorem bindStep_setAt (hq : q ≠ []) (hskips : skips q = false) (hbegins : q <+: p) (value : Value)
    (fields : Fields) :
    bindStep readers skips w q (setAt value p fields) = bindStep readers skips w q fields := by
  have hfree := @freeAt_setAt_of_isPrefix value q p fields hbegins
  have hcases := @bindStep_cases readers skips w q hq
  generalize bindStep readers skips w q = step at hcases ⊢
  cases hcases with
  | skipped hskipped => exact absurd (hskips.symm.trans hskipped) (by decide)
  | refused _ => rfl
  | written value' _ hwrites hfails =>
      by_cases hq' : FreeAt fields q
      · rw [hwrites _ (hfree.mpr hq'), hwrites fields hq', setAt_setAt_of_isPrefix hq hbegins]
      · rw [hfails _ fun h => hq' (hfree.mp h), hfails fields hq']

/-- Binding a field again, or one above it, takes the place of an attempt. -/
theorem bindStep_attempt (hq : q ≠ []) (hp : p ≠ []) (hskips : skips q = false) (hbegins : q <+: p)
    (fields : Fields) :
    bindStep readers skips w q ((bindStep readers skips v p fields).getD fields) =
      bindStep readers skips w q fields := by
  have hcases := @bindStep_cases readers skips v p hp
  generalize bindStep readers skips v p = step at hcases ⊢
  cases hcases with
  | skipped _ => rfl
  | refused _ => rfl
  | written value _ hwrites hfails =>
      by_cases hp' : FreeAt fields p
      · rw [hwrites fields hp', Option.getD_some, bindStep_setAt hq hskips hbegins]
      · rw [hfails fields hp']
        rfl

theorem freeAt_append {q rest : List Field} (hrest : ∀ field ∈ rest, field.oneof = none) :
    ∀ {fields : Fields}, FreeAt fields (q ++ rest) ↔ FreeAt fields q := by
  induction q with
  | nil =>
      induction rest with
      | nil => intro fields; exact Iff.rfl
      | cons field rest ih =>
          obtain ⟨hfield, hrest⟩ := List.forall_mem_cons.mp hrest
          intro fields
          have hfree : Free fields field := by simp [Free, Field.rivals, hfield]
          exact ⟨fun _ => trivial, fun _ => ⟨hfree, (ih hrest).mpr trivial⟩⟩
  | cons field q ih => intro fields; exact and_congr_right fun _ => ih

/-- No field of a oneof is on the way down from the later path to the earlier one. -/
def GivesWay (early late : List Field) : Prop :=
  ∀ rest, early = late ++ rest → ∀ field ∈ rest, field.oneof = none

/-- Binding a field above one that was just bound, with no oneof in between, leaves nothing of it. -/
theorem bindStep_yields (hp : p ≠ []) (hq : q ≠ []) (hskips : skips q = false) (hbegins : q <+: p)
    (hway : GivesWay p q) : ∃ rest : Fields → Option Fields, ∀ fields,
      (bindStep readers skips v p fields).bind (bindStep readers skips w q) =
        (bindStep readers skips w q fields).bind rest := by
  have hcases := @bindStep_cases readers skips v p hp
  generalize bindStep readers skips v p = step at hcases ⊢
  cases hcases with
  | skipped _ => exact ⟨some, fun fields => by rw [Option.bind_some, Option.bind_fun_some]⟩
  | refused _ => exact ⟨fun _ => none, fun fields => by rw [Option.bind_none, Option.bind_fun_none]⟩
  | written value _ hwrites hfails =>
      refine ⟨some, fun fields => ?_⟩
      rw [Option.bind_fun_some]
      by_cases hp' : FreeAt fields p
      · rw [hwrites fields hp', Option.bind_some, bindStep_setAt hq hskips hbegins]
      · rw [hfails fields hp', Option.bind_none]
        obtain ⟨rest, rfl⟩ := hbegins
        rw [freeAt_append (hway rest rfl)] at hp'
        have hcases := @bindStep_cases readers skips w q hq
        generalize bindStep readers skips w q = step at hcases ⊢
        cases hcases with
        | skipped hskipped => exact absurd (hskips.symm.trans hskipped) (by decide)
        | refused _ => rfl
        | written _ _ _ hfails => rw [hfails fields hp']

end Steps

/-! ### The two passes -/

/-- Whether a path is left alone: a path parameter binds it, or it is filled only and was set before. -/
def skipsPath (types : Types) (mode : BindingMode) (pathParams : Option (List (Text × Text)))
    (presence : Option Presence) (path : List Field) : Bool :=
  (pathParams.any fun params => params.any fun (key, _) => covers key path) ||
    (mode = .fill && presence.any (·.blocks types path))

def outcome (result : Except Text Bool × Draft) : Option Fields :=
  match result with
  | (.ok _, draft) => some draft.fields
  | (.error _, _) => none

def Draft.Holds (mode : BindingMode) (presence : Option Presence) (draft : Draft) : Prop :=
  mode = .fill → draft.presence = presence

section Passes

variable {mode : BindingMode} {pathParams : Option (List (Text × Text))} {presence : Option Presence}

theorem bindResolved_outcome {path : List Field} (hne : path ≠ []) (values : List Text) {draft : Draft}
    (hdraft : draft.Holds mode presence) :
    (∃ error, bindResolved types readers pathParams path values mode draft = (.error error, draft) ∧
        bindStep readers (skipsPath types mode pathParams presence) values path draft.fields = none) ∨
      ∃ assigned next, bindResolved types readers pathParams path values mode draft =
          (.ok assigned, next) ∧
        bindStep readers (skipsPath types mode pathParams presence) values path draft.fields =
          some next.fields ∧ next.Holds mode presence := by
  unfold bindResolved
  cases hcovered : (pathParams.any fun params => params.any fun (key, _) => covers key path) with
  | true =>
      refine Or.inr ⟨false, draft, rfl, ?_, hdraft⟩
      exact if_pos (by rw [skipsPath, hcovered, Bool.true_or])
  | false =>
      rw [if_neg (by decide)]
      have hskips : skipsPath types mode pathParams presence path =
          (mode = .fill && draft.presence.any (·.blocks types path)) := by
        rw [skipsPath, hcovered, Bool.false_or]
        by_cases hmode : mode = .fill
        · rw [hdraft hmode]
        · simp [hmode]
      unfold assign
      cases hblocked : (mode = .fill && draft.presence.any (·.blocks types path)) with
      | true =>
          refine Or.inr ⟨true, draft, rfl, ?_, hdraft⟩
          exact if_pos (hskips.trans hblocked)
      | false =>
          have hlast := List.getLast?_eq_some_getLast hne
          simp only [bindStep, hskips, hblocked, Bool.false_eq_true, if_false, hlast]
          cases fieldValue readers (path.getLast hne) values with
          | error error => exact Or.inl ⟨error, rfl, rfl⟩
          | ok value =>
              simp only
              by_cases hfree : FreeAt draft.fields path
              · rw [assignAt_of_free value hfree]
                refine Or.inr ⟨true, _, rfl, rfl, fun hmode => ?_⟩
                subst hmode
                exact (recordedAfter_fill path _).trans (hdraft rfl)
              · obtain ⟨error, herror⟩ := assignAt_of_not_free value hfree
                rw [herror]
                exact Or.inl ⟨error, rfl, rfl⟩

variable {pairs : List (Text × Text)} {start : Start}

def attemptRun (types : Types) (readers : StringReaders) (skips : List Field → Bool)
    (pairs : List (Text × Text)) (start : Start) (repeated : Text → Bool) (run : Text × List Nat)
    (fields : Fields) : Option Fields :=
  match resolve types start run.1 with
  | none => some fields
  | some found =>
      if found.aliased then some fields
      else if repeated run.1 then
        some ((bindStep readers skips (valuesAt pairs run.2) found.path fields).getD fields)
      else bindStep readers skips (valuesAt pairs run.2) found.path fields

def groupRun (types : Types) (readers : StringReaders) (skips : List Field → Bool)
    (pairs : List (Text × Text)) (start : Start) (run : Text × List Nat) (fields : Fields) :
    Option Fields :=
  match resolve types start run.1 with
  | none => some fields
  | some found => bindStep readers skips (valuesAt pairs run.2) found.path fields

/-- The first pass so far: its message when every failure is repeated, none otherwise. -/
def FirstPass.outcome (repeated : Text → Bool) (state : FirstPass) : Option Fields :=
  if state.failed.all fun failure => repeated failure.1 then some state.draft.fields else none

theorem firstPassStep_outcome (repeated : Text → Bool) (run : Text × List Nat) {state : FirstPass}
    (hstate : state.draft.Holds mode presence) :
    (firstPassStep types readers pairs start mode pathParams state run).draft.Holds mode presence ∧
      (firstPassStep types readers pairs start mode pathParams state run).outcome repeated =
        (state.outcome repeated).bind (attemptRun types readers
          (skipsPath types mode pathParams presence) pairs start repeated run) := by
  obtain ⟨key, positions⟩ := run
  have hidle : (∀ fields, attemptRun types readers (skipsPath types mode pathParams presence) pairs start
      repeated (key, positions) fields = some fields) → (state.outcome repeated).bind (attemptRun types
        readers (skipsPath types mode pathParams presence) pairs start repeated (key, positions)) =
      state.outcome repeated := by
    intro hsome
    rw [show attemptRun types readers (skipsPath types mode pathParams presence) pairs start repeated
      (key, positions) = some from funext hsome, Option.bind_fun_some]
  cases hresolve : resolve types start key with
  | none =>
      rw [hidle fun fields => by simp only [attemptRun, hresolve]]
      simp only [firstPassStep, hresolve]
      exact ⟨hstate, trivial⟩
  | some found =>
      cases haliased : found.aliased with
      | true =>
          rw [hidle fun fields => by simp only [attemptRun, hresolve, haliased, if_true]]
          simp only [firstPassStep, hresolve, haliased, if_true]
          exact ⟨hstate, rfl⟩
      | false =>
          have hrun : ∀ fields, attemptRun types readers (skipsPath types mode pathParams presence) pairs
              start repeated (key, positions) fields =
                if repeated key then some ((bindStep readers (skipsPath types mode pathParams presence)
                  (valuesAt pairs positions) found.path fields).getD fields)
                else bindStep readers (skipsPath types mode pathParams presence)
                  (valuesAt pairs positions) found.path fields := by
            intro fields
            simp only [attemptRun, hresolve, haliased, Bool.false_eq_true, if_false]
          simp only [firstPassStep, hresolve, haliased, Bool.false_eq_true, if_false]
          unfold FirstPass.outcome
          rcases @bindResolved_outcome types readers mode pathParams presence found.path
              (resolve_ne_nil hresolve) (valuesAt pairs positions) state.draft hstate with
            ⟨error, hbound, hstep⟩ | ⟨assigned, next, hbound, hstep, hnext⟩
          · rw [hbound]
            refine ⟨hstate, ?_⟩
            simp only [List.all_append, List.all_cons, List.all_nil, Bool.and_true]
            cases hfailed : state.failed.all fun failure => repeated failure.1 with
            | false => rfl
            | true => cases hrepeated : repeated key <;> simp [hrun, hstep, hrepeated]
          · rw [hbound]
            refine ⟨hnext, ?_⟩
            cases hfailed : state.failed.all fun failure => repeated failure.1 with
            | false => rfl
            | true => cases hrepeated : repeated key <;> simp [hrun, hstep, hrepeated]

theorem firstPass_outcome (repeated : Text → Bool) (groups : List (Text × List Nat)) :
    ∀ {state : FirstPass}, state.draft.Holds mode presence →
    (groups.foldl (firstPassStep types readers pairs start mode pathParams) state).draft.Holds mode
        presence ∧
      (groups.foldl (firstPassStep types readers pairs start mode pathParams) state).outcome repeated =
        (state.outcome repeated).bind (Lib.runSteps (attemptRun types readers
          (skipsPath types mode pathParams presence) pairs start repeated) groups) := by
  induction groups with
  | nil => intro state hstate; exact ⟨hstate, (Option.bind_fun_some _).symm⟩
  | cons run groups ih =>
      intro state hstate
      obtain ⟨hnext, hstep⟩ := @firstPassStep_outcome types readers mode pathParams presence pairs start
        repeated run state hstate
      obtain ⟨hlast, hrest⟩ := ih hnext
      refine ⟨hlast, ?_⟩
      rw [List.foldl_cons, hrest, hstep, Option.bind_assoc]
      rfl

theorem secondPass_outcome (groups : List (Text × List Nat)) : ∀ {inside : Bool} {draft : Draft},
    draft.Holds mode presence →
    outcome (secondPass types readers pairs start mode pathParams groups inside draft) =
      Lib.runSteps (groupRun types readers (skipsPath types mode pathParams presence) pairs start) groups
        draft.fields := by
  induction groups with
  | nil => intro inside draft _; rfl
  | cons run groups ih =>
      intro inside draft hdraft
      obtain ⟨key, positions⟩ := run
      rw [secondPass, Lib.runSteps_cons, groupRun]
      cases hresolve : resolve types start key with
      | none => exact ih hdraft
      | some found =>
          rcases @bindResolved_outcome types readers mode pathParams presence found.path
              (resolve_ne_nil hresolve) (valuesAt pairs positions) draft hdraft with
            ⟨error, hbound, hstep⟩ | ⟨assigned, next, hbound, hstep, hnext⟩
          · simp only [hbound, hstep]
            rfl
          · simp only [hbound, hstep, Option.bind_some]
            exact ih hnext

def aliasOf (types : Types) (start : Start) (run : Text × List Nat) : Option (Text × List Nat) :=
  (resolve types start run.1).bind fun found =>
    if found.aliased then some (canonicalKey (start.own found.path), run.2) else none

theorem firstPass_aliased_eq (groups : List (Text × List Nat)) : ∀ (state : FirstPass),
    (groups.foldl (firstPassStep types readers pairs start mode pathParams) state).aliased =
      state.aliased ++ groups.filterMap (aliasOf types start) := by
  induction groups with
  | nil => intro state; exact (List.append_nil _).symm
  | cons run groups ih =>
      intro state
      obtain ⟨key, positions⟩ := run
      rw [List.foldl_cons, ih]
      cases hresolve : resolve types start key with
      | none => simp [firstPassStep, aliasOf, hresolve]
      | some found =>
          cases haliased : found.aliased with
          | true => simp [firstPassStep, aliasOf, hresolve, haliased]
          | false =>
              have hnone : aliasOf types start (key, positions) = none := by
                simp [aliasOf, hresolve, haliased]
              rw [List.filterMap_cons_none hnone]
              simp only [firstPassStep, hresolve, haliased, Bool.false_eq_true, if_false]
              split <;> rfl

def aliases (types : Types) (pairs : List (Text × Text)) (start : Start) : List (Text × List Nat) :=
  (runs pairs).filterMap (aliasOf types start)

theorem bindPairs_outcome {draft : Draft} :
    outcome (bindPairs types readers pairs start mode pathParams draft) =
      (Lib.runSteps (attemptRun types readers (skipsPath types mode pathParams draft.presence) pairs start
          fun key => (aliases types pairs start).any (·.1 = key)) (runs pairs) draft.fields).bind
        (Lib.runSteps (groupRun types readers (skipsPath types mode pathParams draft.presence) pairs start)
          (mergedGroups pairs (aliases types pairs start))) := by
  have haliased : ((runs pairs).foldl (firstPassStep types readers pairs start mode pathParams)
      { draft }).aliased = aliases types pairs start := firstPass_aliased_eq _ _
  obtain ⟨hholds, hfirst⟩ := @firstPass_outcome types readers mode pathParams draft.presence pairs start
    (fun key => (aliases types pairs start).any (·.1 = key)) (runs pairs) { draft } fun _ => rfl
  unfold bindPairs
  simp only
  generalize (runs pairs).foldl (firstPassStep types readers pairs start mode pathParams) { draft } =
    state at haliased hholds hfirst ⊢
  have hstart : FirstPass.outcome (fun key => (aliases types pairs start).any (·.1 = key)) { draft } =
      some draft.fields := rfl
  rw [hstart, Option.bind_some] at hfirst
  rw [← hfirst, haliased]
  split
  · rename_i key error hfailed
    obtain ⟨hmem, huncovered⟩ : (key, error) ∈ state.failed ∧
        ((aliases types pairs start).any (·.1 = key)) = false :=
      ⟨List.mem_of_find?_eq_some hfailed, by simpa using List.find?_some hfailed⟩
    have hall : (state.failed.all fun failure => (aliases types pairs start).any (·.1 = failure.1)) =
        false := by
      rw [List.all_eq_false]
      exact ⟨_, hmem, by rw [huncovered]; decide⟩
    rw [FirstPass.outcome, hall]
    rfl
  · rename_i hnone
    have hall : (state.failed.all fun failure => (aliases types pairs start).any (·.1 = failure.1)) =
        true := by
      rw [List.all_eq_true]
      intro failure hfailure
      simpa using List.find?_eq_none.mp hnone failure hfailure
    rw [FirstPass.outcome, hall, if_pos rfl, Option.bind_some]
    exact secondPass_outcome _ hholds

end Passes

end StructuredProxy
