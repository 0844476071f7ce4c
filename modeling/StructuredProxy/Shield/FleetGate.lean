import StructuredProxy.Shield.Publish

/-!
# Gate steps and reconcile passes

One instance and a shared store that never fails: gate steps, each a lookup of the budget left and at
once a record when there is any, between the phases of reconcile passes. What a pass does for one key:
it claims the counts of the key, adds them to the shared counters, reads those back and rounds the
estimate up.
-/

namespace StructuredProxy

open Lib

/-- Where the reconcile pass is, with the time it started at. -/
inductive Pass where
  | idle
  | claimed (now : Nat) (plans : List PushPlan)
  | pushed (now : Nat) (plans : List PushPlan)
  | read (now : Nat) (plans : List PushPlan) (reads : List (Nat × Nat))

/-- The counters of the instance and the shared store, with the plans claimed and the admits recorded. -/
structure Fleet where
  counters : GlobalCounters
  shared : Shared
  pass : Pass := .idle
  claimed : List PushPlan := []
  recorded : List Account := []

inductive FleetEvent where
  | gate (key : Text) (budget window now instant : Nat)
  | claim (now instant : Nat)
  | push
  | read
  | apply (instant : Nat)

namespace Fleet

/-- A gate step, or the next phase of a pass; a phase out of turn does nothing. -/
def step (r : Rounding) (f : Fleet) : FleetEvent → Fleet
  | .gate key budget window now instant =>
      let (remaining, counters) := f.counters.fleetRemaining key budget window now instant
      if 0 < remaining then
        { f with
          counters := counters.record key window now instant
          recorded :=
            if (counters.stateFor key window now instant).isSome then
              (key, windowSecs window, epochAt now window) :: f.recorded
            else f.recorded }
      else { f with counters }
  | .claim now instant =>
      match f.pass with
      | .idle =>
          let (plans, counters) := (f.counters.evictStale instant).claimPlans now
          { f with
            counters
            claimed := plans ++ f.claimed
            pass := if plans.isEmpty then .idle else .claimed now plans }
      | _ => f
  | .push =>
      match f.pass with
      | .claimed now plans => { f with shared := pushDeltas plans f.shared, pass := .pushed now plans }
      | _ => f
  | .read =>
      match f.pass with
      | .pushed now plans => { f with pass := .read now plans (readEpochs plans f.shared) }
      | _ => f
  | .apply instant =>
      match f.pass with
      | .read now plans reads =>
          { f with counters := f.counters.applyEstimates r now instant plans reads, pass := .idle }
      | _ => f

def run (r : Rounding) (f : Fleet) (events : List FleetEvent) : Fleet := events.foldl (step r) f

end Fleet

namespace Rounding

variable (r : Rounding)

theorem round_nonneg {q : Rat} (hq : 0 ≤ q) : 0 ≤ r.round q := by
  have hzero : r.round ((0 : Nat) : Rat) = ((0 : Nat) : Rat) := r.exact 0 (Nat.zero_le _)
  calc (0 : Rat) = r.round 0 := by simpa using hzero.symm
    _ ≤ r.round q := r.mono _ _ hq

theorem le_estimate {n cur : Nat} (hle : n ≤ cur) (hn : n ≤ 2 ^ 53) (prev elapsed window : Nat) :
    n ≤ r.estimate cur prev elapsed window := by
  have hsliding : (n : Rat) ≤ r.slidingEstimate cur prev elapsed window := by
    unfold slidingEstimate
    have hfrac : ∀ q : Rat, 0 ≤ 1 - min (max q 0) 1 := fun q => sub_nonneg.mpr (min_le_right _ _)
    have hprev : 0 ≤ r.round (r.round prev * r.round (1 - min (max (r.round (r.asSecsF64 elapsed /
        max (r.asSecsF64 window) minPositive)) 0) 1)) :=
      r.round_nonneg (mul_nonneg (r.round_nonneg (Nat.cast_nonneg _)) (r.round_nonneg (hfrac _)))
    have hcur : (n : Rat) ≤ r.round cur := by
      calc (n : Rat) = r.round n := (r.exact n hn).symm
        _ ≤ r.round cur := r.mono _ _ (Nat.cast_le.mpr hle)
    calc (n : Rat) = r.round n := (r.exact n hn).symm
      _ ≤ _ := r.mono _ _ (le_add_of_le_of_nonneg hcur hprev)
  have hceil : (n : Int) ≤ ⌈r.slidingEstimate cur prev elapsed window⌉ := by
    have hcast : ((n : Int) : Rat) ≤ r.slidingEstimate cur prev elapsed window := by
      exact_mod_cast hsliding
    exact Int.cast_le.mp (hcast.trans (Int.le_ceil _))
  refine Nat.le_min.mpr ⟨?_, by omega⟩
  exact (Int.le_toNat (le_max_right _ _)).mpr (hceil.trans (le_max_left _ _))

end Rounding

/-! ### What a pass does for one key -/

namespace GlobalCounters

variable {c : GlobalCounters} {key : Text} {now : Nat}

theorem get_claimKey_self (c : GlobalCounters) (key : Text) (now : Nat) :
    (c.claimKey key now).2.states.get key = (c.states.get key).map fun s => (s.claim key now).2 := by
  unfold claimKey
  cases hget : c.states.get key with
  | none => exact hget
  | some s => exact KeyMap.get_set_self

theorem get_claimKey_of_ne {other : Text} (hne : key ≠ other) :
    (c.claimKey other now).2.states.get key = c.states.get key := by
  unfold claimKey
  cases c.states.get other with
  | none => rfl
  | some s => exact KeyMap.get_set_of_ne hne

theorem key_of_mem_claim {s : KeyState} {plan : PushPlan} (h : plan ∈ (s.claim key now).1) :
    plan.key = key := by
  unfold KeyState.claim at h
  split at h
  · rcases List.mem_cons.mp h with rfl | h
    · rfl
    · split at h
      · obtain rfl := List.mem_singleton.mp h
        rfl
      · cases h
  · cases h

theorem filter_claimKey (c : GlobalCounters) (key other : Text) (now : Nat) :
    (c.claimKey other now).1.filter (·.key = key) =
      if other = key then (c.states.get key).elim [] fun s => (s.claim key now).1 else [] := by
  unfold claimKey
  by_cases hkey : other = key
  · subst hkey
    rw [if_pos rfl]
    cases c.states.get other with
    | none => rfl
    | some s =>
        refine List.filter_eq_self.mpr fun plan hplan => ?_
        exact decide_eq_true (key_of_mem_claim hplan)
  · rw [if_neg hkey]
    cases c.states.get other with
    | none => rfl
    | some s =>
        refine List.filter_eq_nil_iff.mpr fun plan hplan hnamed => hkey ?_
        exact (key_of_mem_claim hplan).symm.trans (of_decide_eq_true hnamed)

/-- `claim_plans` takes from a key what a claim of that key takes. -/
theorem claimPlans_key (c : GlobalCounters) (key : Text) (now : Nat) :
    (c.claimPlans now).2.states.get key = (c.states.get key).map (fun s => (s.claim key now).2) ∧
      (c.claimPlans now).1.filter (·.key = key) =
        (c.states.get key).elim [] fun s => (s.claim key now).1 := by
  -- Over any list of distinct keys; the key itself is claimed at its one place.
  have hfold : ∀ (keys : List Text), keys.Nodup → ∀ (plans : List PushPlan) (c : GlobalCounters),
      (keys.foldl (fun (plans, c) key => (plans ++ (c.claimKey key now).1, (c.claimKey key now).2))
          (plans, c)).2.states.get key =
        (if key ∈ keys then (c.states.get key).map fun s => (s.claim key now).2 else c.states.get key) ∧
      (keys.foldl (fun (plans, c) key => (plans ++ (c.claimKey key now).1, (c.claimKey key now).2))
          (plans, c)).1.filter (·.key = key) = plans.filter (·.key = key) ++
        if key ∈ keys then (c.states.get key).elim [] fun s => (s.claim key now).1 else [] := by
    intro keys
    induction keys with
    | nil => intro _ plans c; exact ⟨rfl, (List.append_nil _).symm⟩
    | cons other keys ih =>
        intro hnodup plans c
        rw [List.nodup_cons] at hnodup
        obtain ⟨hget, hplans⟩ := ih hnodup.2 (plans ++ (c.claimKey other now).1) (c.claimKey other now).2
        rw [List.foldl_cons, hget, hplans, List.filter_append, filter_claimKey, List.append_assoc]
        by_cases hkey : other = key
        · subst hkey
          simp only [hnodup.1, if_false, if_true, List.mem_cons_self, get_claimKey_self, List.append_nil,
            true_and]
        · have hmem : key ∈ other :: keys ↔ key ∈ keys := by
            simp [Ne.symm hkey]
          simp only [hkey, if_false, List.nil_append, get_claimKey_of_ne (Ne.symm hkey), hmem, and_self]
  obtain ⟨hget, hplans⟩ := hfold c.states.keys c.states.nodup [] c
  unfold claimPlans
  rw [hget, hplans]
  by_cases hmem : key ∈ c.states.keys
  · rw [if_pos hmem, if_pos hmem]
    exact ⟨rfl, rfl⟩
  · have hnone : c.states.get key = none := by
      cases hget : c.states.get key with
      | none => rfl
      | some s => exact absurd (List.mem_map.mpr ⟨_, KeyMap.get_eq_some_iff.mp hget, rfl⟩) hmem
    rw [if_neg hmem, if_neg hmem, hnone]
    exact ⟨rfl, rfl⟩

end GlobalCounters

theorem planned_filter (account : Account) (plans : List PushPlan) :
    planned account (plans.filter (·.key = account.1)) = planned account plans := by
  induction plans with
  | nil => rfl
  | cons plan plans ih =>
      rw [planned_cons, List.filter_cons]
      split
      · rw [planned_cons, ih]
      · rename_i hkey
        have haccount : plan.account ≠ account := fun heq => hkey (decide_eq_true (by rw [← heq]; rfl))
        rw [ih, if_neg haccount, Nat.zero_add]

theorem le_pushDeltas (account : Account) (plans : List PushPlan) : ∀ (shared : Shared),
    shared (epochKey account.1 account.2.2) + planned account plans ≤
      pushDeltas plans shared (epochKey account.1 account.2.2) := by
  induction plans with
  | nil => intro shared; exact Nat.le_refl _
  | cons plan plans ih =>
      intro shared
      rw [planned_cons, pushDeltas]
      by_cases hdelta : 0 < plan.delta
      · rw [List.filter_cons_of_pos (by simpa using hdelta), List.foldl_cons]
        refine Nat.le_trans ?_ (ih _)
        by_cases haccount : plan.account = account
        · subst haccount
          rw [if_pos rfl]
          simp only [PushPlan.account, Function.update_self]
          omega
        · rw [if_neg haccount, Nat.zero_add]
          refine Nat.add_le_add_right ?_ _
          rw [Function.update_apply]
          split
          · rename_i hsame
            rw [hsame]
            exact Nat.le_add_right _ _
          · exact Nat.le_refl _
      · have hnone : (if plan.account = account then plan.delta else 0) = 0 := by
          rw [Nat.eq_zero_of_not_pos hdelta, ite_self]
        rw [List.filter_cons_of_neg (by simpa using hdelta), hnone, Nat.zero_add]
        exact ih shared

end StructuredProxy
