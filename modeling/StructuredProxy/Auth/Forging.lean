import StructuredProxy.Auth.Guards
import StructuredProxy.Lib.Fallible

/-!
# What a guard sets, and what the client sent under the same name

The JWT guard and the decider drop what the client sent under a name before they set it. ext_authz
appends, so what a request held under a name its answer sets stays in front of the answer's values.
-/

namespace StructuredProxy.Auth

open Lib Addressing

variable {forms : HeaderForms} {numberText : NumberText} {reserved : List Text}

/-- Each header the answer sets holds exactly the answer's values, in order, other than those the
guard must leave alone. -/
def Passed.Unforged (reserved : List Text) (passed : Passed) : Prop :=
  ∀ name, passed.sets.containsKey name = true → leavesAlone reserved name = false →
    passed.after.getAll name = passed.sets.getAll name

theorem single_injectClaimHeaders {headers : Headers} (h : headers.Single) (claims : Json)
    (mapping : List (Text × Text)) :
    (injectClaimHeaders forms numberText headers claims mapping).Single := by
  refine foldl_keeps HeaderMap.Single (fun mapped _ headers hsingle => ?_) h
  rw [injectClaimHeader]
  split
  · exact hsingle
  · split
    · exact hsingle.insert _ _
    · exact hsingle

namespace JwtAuth

variable {auth : JwtAuth} {path method : Text} {headers : Headers} {passed : Passed}

theorem single_of_decide {claimHeaders : Headers} {claims : Option Json}
    (h : auth.decide forms numberText headers path method = .allow claimHeaders claims) :
    claimHeaders.Single := by
  have hclaims : ∀ claims found, auth.decideClaims forms numberText found path method =
      .allow claimHeaders claims → claimHeaders.Single := by
    intro claims found hdecided
    unfold decideClaims at hdecided
    split at hdecided
    · rename_i refusal hrefusal
      rw [hdecided, refuses] at hrefusal
      split at hrefusal
      · cases hrefusal
      · split at hrefusal
        · cases hrefusal
        · split at hrefusal
          · cases hrefusal
          · split at hrefusal
            · cases hrefusal
            · split at hrefusal <;> cases hrefusal
    · split at hdecided
      · cases hdecided
        exact HeaderMap.single_empty
      · cases hdecided
        exact single_injectClaimHeaders HeaderMap.single_empty _ _
  rw [decide] at h
  split at h
  · exact hclaims _ _ h
  · split at h
    · cases h
    · exact hclaims _ _ h

theorem unforged (h : auth.middleware forms numberText path method headers = .ok passed) :
    passed.Unforged reserved := by
  rw [middleware] at h
  split at h
  · cases h
  · cases h
  · rename_i claimHeaders claims hdecided
    cases h
    intro name hset _
    rw [HeaderMap.getAll_insertAll (single_of_decide hdecided), if_pos hset]

end JwtAuth

theorem getAll_applyHeaders {name : Text} (hname : leavesAlone reserved name = false)
    (headers : Headers) (sets : List (Text × Text)) :
    (applyHeaders reserved headers sets).getAll name =
      headers.getAll name ++ HeaderMap.getAll name ⟨sets⟩ := by
  induction sets generalizing headers with
  | nil => exact (List.append_nil _).symm
  | cons set sets ih =>
      obtain ⟨key, value⟩ := set
      have hfold : applyHeaders reserved headers ((key, value) :: sets) =
          applyHeaders reserved
            (if leavesAlone reserved key then headers else headers.append key value) sets := rfl
      rw [hfold, ih]
      by_cases hkey : key = name
      · subst hkey
        rw [if_neg (by simp [hname]), HeaderMap.getAll_append_self, List.append_assoc]
        simp [HeaderMap.getAll]
      · have hrest : HeaderMap.getAll name ⟨(key, value) :: sets⟩ = HeaderMap.getAll name ⟨sets⟩ := by
          simp [HeaderMap.getAll, hkey]
        rw [hrest]
        split
        · rfl
        · rw [HeaderMap.getAll_append_of_ne (Ne.symm hkey)]

def Passed.Fresh (reserved : List Text) (passed : Passed) : Prop :=
  ∀ name, passed.sets.containsKey name = true → leavesAlone reserved name = false →
    passed.before.getAll name = []

theorem Authz.unforged_iff_fresh {authz : Authz} {headers : Headers} {passed : Passed}
    (h : authz.middleware forms reserved headers = .ok passed) :
    passed.Unforged reserved ↔ passed.Fresh reserved := by
  rw [middleware] at h
  split at h
  · split at h
    · rename_i sets hsets
      cases h
      refine forall_congr' fun name => forall_congr' fun hset => forall_congr' fun hname => ?_
      rw [getAll_applyHeaders hname]
      exact List.append_left_eq_self
    · cases h
  · split at h
    · cases h
      constructor
      · intro _ name hset
        cases hset
      · intro _ name hset
        cases hset
    · cases h

theorem getAll_appendValues (name : Text) (values : List Text) (headers : Headers) :
    (values.foldl (fun headers value => headers.append name value) headers).getAll name =
      headers.getAll name ++ values := by
  induction values generalizing headers with
  | nil => exact (List.append_nil _).symm
  | cons value values ih =>
      rw [List.foldl_cons, ih, HeaderMap.getAll_append_self, List.append_assoc,
        List.singleton_append]

theorem getAll_appendValues_of_ne {name other : Text} (hne : other ≠ name) (values : List Text)
    (headers : Headers) :
    (values.foldl (fun headers value => headers.append name value) headers).getAll other =
      headers.getAll other := by
  refine foldl_keeps (fun after : Headers => after.getAll other = headers.getAll other)
    (fun value _ after h => ?_) rfl
  rw [HeaderMap.getAll_append_of_ne hne, h]

theorem getAll_stripThenInsertOne {inject headers : Headers} {name : Text}
    (hname : leavesAlone reserved name = false) :
    (stripThenInsertOne reserved inject headers name).getAll name = inject.getAll name := by
  rw [stripThenInsertOne, if_neg (by simp [hname]), getAll_appendValues,
    HeaderMap.getAll_remove_self, List.nil_append]

theorem getAll_stripThenInsertOne_of_ne {inject headers : Headers} {name other : Text}
    (hne : other ≠ name) :
    (stripThenInsertOne reserved inject headers name).getAll other = headers.getAll other := by
  rw [stripThenInsertOne]
  split
  · rfl
  · rw [getAll_appendValues_of_ne hne, HeaderMap.getAll_remove_of_ne hne]

theorem decider_unforged {decider : Headers → Decision} {headers : Headers} {passed : Passed}
    (h : authDeciderGate decider reserved headers = .ok passed) : passed.Unforged reserved := by
  rw [authDeciderGate] at h
  split at h
  · rename_i inject hdecided
    cases h
    intro name hset hname
    -- its own turn sets the name, and every other turn leaves it
    refine foldl_of_mem (fun after : Headers => after.getAll name = inject.getAll name) ?_
      (HeaderMap.mem_keys.mpr hset) (fun after => getAll_stripThenInsertOne hname) headers
    intro other _ after hafter
    by_cases hother : name = other
    · subst hother
      exact getAll_stripThenInsertOne hname
    · rw [getAll_stripThenInsertOne_of_ne hother, hafter]
  · cases h
  · cases h

/-! ### The pipeline -/

theorem runGuard_eq_ok {guard : Option (Headers → Except Rejection Passed)} {headers after : Headers}
    {passed : Option Passed} (h : runGuard guard headers = .ok (passed, after)) :
    ∀ stage, passed = some stage → ∃ run, guard = some run ∧ run headers = .ok stage := by
  intro stage hstage
  subst hstage
  cases guard with
  | none => cases h
  | some run =>
      refine ⟨run, rfl, ?_⟩
      simp only [runGuard] at h
      cases hrun : run headers with
      | error rejection =>
          rw [hrun] at h
          cases h
      | ok found =>
          rw [hrun] at h
          cases h
          rfl

def Passage.Unforged (reserved : List Text) (passage : Passage) : Prop :=
  (∀ stage, passage.auth = some stage → stage.Unforged reserved) ∧
    (∀ stage, passage.authz = some stage → stage.Unforged reserved) ∧
      ∀ stage, passage.decider = some stage → stage.Unforged reserved

/-- **A client cannot forge a header a guard sets, exactly when no name ext_authz sets is on the
request that reaches it.** -/
theorem Guards.unforged_iff {guards : Guards} {path method : Text} {headers after : Headers}
    {passage : Passage}
    (h : guards.run forms numberText path method headers = .ok (passage, after)) :
    passage.Unforged guards.reserved ↔
      ∀ stage, passage.authz = some stage → stage.Fresh guards.reserved := by
  obtain ⟨⟨auth, headers₁⟩, hauth, h⟩ := bind_eq_ok.mp h
  obtain ⟨⟨authz, headers₂⟩, hauthz, h⟩ := bind_eq_ok.mp h
  obtain ⟨⟨decider, headers₃⟩, hdecider, h⟩ := bind_eq_ok.mp h
  cases h
  have hjwt : ∀ stage, auth = some stage → stage.Unforged guards.reserved := by
    intro stage hstage
    obtain ⟨run, hguard, hrun⟩ := runGuard_eq_ok hauth stage hstage
    obtain ⟨jwt, -, rfl⟩ := Option.map_eq_some_iff.mp hguard
    exact JwtAuth.unforged hrun
  have hcheck : ∀ stage, authz = some stage →
      (stage.Unforged guards.reserved ↔ stage.Fresh guards.reserved) := by
    intro stage hstage
    obtain ⟨run, hguard, hrun⟩ := runGuard_eq_ok hauthz stage hstage
    obtain ⟨check, -, rfl⟩ := Option.map_eq_some_iff.mp hguard
    exact Authz.unforged_iff_fresh hrun
  have hdecided : ∀ stage, decider = some stage → stage.Unforged guards.reserved := by
    intro stage hstage
    obtain ⟨run, hguard, hrun⟩ := runGuard_eq_ok hdecider stage hstage
    obtain ⟨decide, -, rfl⟩ := Option.map_eq_some_iff.mp hguard
    exact decider_unforged hrun
  constructor
  · intro hunforged stage hstage
    exact (hcheck stage hstage).mp (hunforged.2.1 stage hstage)
  · intro hfresh
    exact ⟨hjwt, fun stage hstage => (hcheck stage hstage).mpr (hfresh stage hstage), hdecided⟩

def plainForms : HeaderForms := ⟨some, some⟩

def subjectAuth : JwtAuth where
  verify := fun _ => some (.object [(str "sub", .string (str "alice"))])
  claimsHeaders := [(str "sub", str "x-user")]
  rolesClaim := str "roles"
  matchRule := fun _ _ => none

def settingAuthz (name value : Text) : Authz where
  check := fun _ => some ⟨some 0, some (.ok [some (name, value)])⟩
  failureModeAllow := false

def tenantDecider : Headers → Decision := fun _ =>
  .allow ⟨[(str "x-tenant", str "acme"), (str "x-tenant", str "emea")]⟩

def threeGuards : Guards where
  auth := some subjectAuth
  authz := some (settingAuthz (str "x-role") (str "reader"))
  decider := some tenantDecider
  reserved := []

def forgedHeaders : Headers :=
  ⟨[(str "authorization", str "Bearer token"), (str "x-user", str "admin"),
    (str "x-tenant", str "root")]⟩

def threeGuardsPassage : Passage :=
  let bearer := (str "authorization", str "Bearer token")
  let user := (str "x-user", str "alice")
  let role := (str "x-role", str "reader")
  let forgedTenant := (str "x-tenant", str "root")
  let tenants := [(str "x-tenant", str "acme"), (str "x-tenant", str "emea")]
  { auth := some ⟨forgedHeaders, ⟨[user]⟩, ⟨[bearer, forgedTenant, user]⟩⟩
    authz := some
      ⟨⟨[bearer, forgedTenant, user]⟩, ⟨[role]⟩, ⟨[bearer, forgedTenant, user, role]⟩⟩
    decider := some
      ⟨⟨[bearer, forgedTenant, user, role]⟩, ⟨tenants⟩, ⟨[bearer, user, role] ++ tenants⟩⟩ }

theorem three_guards_unforged : threeGuardsPassage.Unforged threeGuards.reserved :=
  have hrun : threeGuards.run plainForms id (str "/v1/x") (str "GET") forgedHeaders =
      .ok (threeGuardsPassage, ⟨[(str "authorization", str "Bearer token"),
        (str "x-user", str "alice"), (str "x-role", str "reader"), (str "x-tenant", str "acme"),
        (str "x-tenant", str "emea")]⟩) := by
    decide +kernel
  (Guards.unforged_iff hrun).mpr (by
    intro stage hstage name hset _
    cases hstage
    have hname : str "x-role" = name := by simpa [HeaderMap.containsKey] using hset
    subst hname
    decide +kernel)

def userAuthz : Guards where
  auth := none
  authz := some (settingAuthz (str "x-user") (str "alice"))
  decider := none
  reserved := []

def userAuthzPassage : Passage where
  auth := none
  authz := some ⟨⟨[(str "x-user", str "admin")]⟩, ⟨[(str "x-user", str "alice")]⟩,
    ⟨[(str "x-user", str "admin"), (str "x-user", str "alice")]⟩⟩
  decider := none

theorem authz_keeps_forged_user :
    userAuthz.run plainForms id (str "/v1/x") (str "GET") ⟨[(str "x-user", str "admin")]⟩ =
        .ok (userAuthzPassage, ⟨[(str "x-user", str "admin"), (str "x-user", str "alice")]⟩) ∧
      ¬ userAuthzPassage.Unforged userAuthz.reserved := by
  refine ⟨by decide +kernel, fun h => ?_⟩
  have hvalues := h.2.1 _ rfl (str "x-user") (by decide +kernel) (by decide +kernel)
  exact absurd hvalues (by decide +kernel)

end StructuredProxy.Auth
