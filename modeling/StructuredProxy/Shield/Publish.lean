import StructuredProxy.Shield.Global
import Mathlib.Algebra.BigOperators.Group.List.Basic

/-!
# No admit is published twice

The counters with the plans claimed and not yet pushed, the plans pushed, and the admits recorded. An
admit is in the unclaimed count of its key, owed to its epoch, in a claimed plan or in a pushed one, in
one of them at most; where no count is dropped, in exactly one.
-/

namespace StructuredProxy

open Lib

/-- The counters and what was claimed, pushed and recorded with them. An admit is recorded under its key,
the seconds of its window and its epoch. -/
structure Publishing where
  counters : GlobalCounters
  inFlight : List PushPlan := []
  pushed : List PushPlan := []
  recorded : List (Text × Nat × Nat) := []

/-- A step of the counters. Passes over several keys or plans are sequences of these. -/
inductive PublishEvent where
  | record (key : Text) (window now instant : Nat)
  | fleetRemaining (key : Text) (budget window now instant : Nat)
  | claim (key : Text) (now : Nat)
  | push (plan : PushPlan)
  | drop (plan : PushPlan)
  | apply (r : Rounding) (now instant : Nat) (plan : PushPlan) (read : Nat × Nat)
  | evict (key : Text) (instant : Nat)

namespace Publishing

def step (p : Publishing) : PublishEvent → Publishing
  | .record key window now instant =>
      { p with
        counters := p.counters.record key window now instant
        recorded :=
          if (p.counters.stateFor key window now instant).isSome then
            (key, windowSecs window, epochAt now window) :: p.recorded
          else p.recorded }
  | .fleetRemaining key budget window now instant =>
      { p with counters := (p.counters.fleetRemaining key budget window now instant).2 }
  | .claim key now =>
      { p with
        counters := (p.counters.claimKey key now).2
        inFlight := p.inFlight ++ (p.counters.claimKey key now).1 }
  | .push plan =>
      if plan ∈ p.inFlight then
        { p with inFlight := p.inFlight.erase plan, pushed := plan :: p.pushed }
      else p
  | .drop plan => { p with inFlight := p.inFlight.erase plan }
  | .apply r now instant plan read =>
      { p with counters := p.counters.applyEstimate r now instant plan read }
  | .evict key instant =>
      { p with counters := { p.counters with
          states := p.counters.states.retain fun other s =>
            other ≠ key || GlobalCounters.keeps instant s } }

def run (p : Publishing) (events : List PublishEvent) : Publishing := events.foldl step p

end Publishing

/-- What admits are counted under: a key, the seconds of a window and an epoch. -/
abbrev Account := Text × Nat × Nat

def PushPlan.account (plan : PushPlan) : Account := (plan.key, asSecs plan.window, plan.pushEpoch)

def planned (account : Account) (plans : List PushPlan) : Nat :=
  (plans.map fun plan => if plan.account = account then plan.delta else 0).sum

def KeyState.pending (key : Text) (account : Account) (s : KeyState) : Nat :=
  (if (key, s.windowSecs, s.epoch) = account then s.localCount else 0) +
    if (key, s.windowSecs, s.carryoverEpoch) = account then s.carryover else 0

def GlobalCounters.pending (c : GlobalCounters) (account : Account) : Nat :=
  (c.states.get account.1).elim 0 (KeyState.pending account.1 account)

variable {account : Account}

theorem planned_append (plans more : List PushPlan) :
    planned account (plans ++ more) = planned account plans + planned account more := by
  rw [planned, List.map_append, List.sum_append]
  rfl

theorem planned_cons (plan : PushPlan) (plans : List PushPlan) :
    planned account (plan :: plans) =
      (if plan.account = account then plan.delta else 0) + planned account plans := by
  rw [planned, List.map_cons, List.sum_cons]
  rfl

theorem planned_erase {plan : PushPlan} {plans : List PushPlan} (hmem : plan ∈ plans) :
    planned account plans =
      (if plan.account = account then plan.delta else 0) + planned account (plans.erase plan) := by
  rw [← planned_cons]
  exact ((List.perm_cons_erase hmem).map _).sum_eq

theorem planned_erase_le (plan : PushPlan) (plans : List PushPlan) :
    planned account (plans.erase plan) ≤ planned account plans := by
  by_cases hmem : plan ∈ plans
  · rw [planned_erase hmem]
    exact Nat.le_add_left _ _
  · rw [List.erase_of_not_mem hmem]

/-! ### The state of one key -/

namespace KeyState

variable {key : Text} {s : KeyState}

theorem rollTo_self (s : KeyState) : s.rollTo s.epoch = s := if_neg (Classical.not_not.mpr rfl)

theorem windowSecs_rollTo (epoch : Nat) (s : KeyState) : (s.rollTo epoch).windowSecs = s.windowSecs := by
  unfold rollTo
  split
  · split <;> rfl
  · rfl

theorem epoch_rollTo (epoch : Nat) (s : KeyState) : (s.rollTo epoch).epoch = epoch := by
  unfold rollTo
  split
  · split <;> rfl
  · rename_i heq
    exact Classical.not_not.mp heq

/-- Rolling loses what is owed to an earlier epoch at most. -/
theorem pending_rollTo_le (epoch : Nat) :
    (s.rollTo epoch).pending key account ≤ s.pending key account := by
  unfold rollTo
  split
  · split
    · by_cases haccount : (key, s.windowSecs, s.epoch) = account
      · -- What stays owed is owed to the epoch left, unless there was nothing.
        have howed : ¬(0 < s.carryover && s.carryoverEpoch ≠ s.epoch) = true →
            s.carryover ≤ if (key, s.windowSecs, s.carryoverEpoch) = account then s.carryover else 0 := by
          intro hkept
          split
          · exact Nat.le_refl _
          · rename_i hother
            refine Nat.le_of_not_lt fun hpos => hkept ?_
            have hepoch : s.carryoverEpoch ≠ s.epoch := fun heq => hother (heq ▸ haccount)
            simp [hpos, hepoch]
        simp only [pending, haccount, if_true, ite_self, Nat.zero_add]
        split
        · exact Nat.le_add_right _ _
        · rename_i hkept
          have hle := howed hkept
          omega
      · simp only [pending, haccount, if_false, ite_self, Nat.zero_add]
        exact Nat.zero_le _
    · simp only [pending, ite_self, Nat.zero_add]
      exact Nat.le_add_left _ _
  · exact Nat.le_refl _

theorem pending_rollTo (epoch : Nat) (hcarryover : s.carryover = 0) :
    (s.rollTo epoch).pending key account = s.pending key account := by
  unfold rollTo
  split
  · split
    · simp only [pending, hcarryover]
      simp
    · rename_i hlocal
      have hzero : s.localCount = 0 := by omega
      simp only [pending, hcarryover, hzero]
      simp
  · rfl

end KeyState

/-- What a key's state is when it is looked up: new, reset for another window, or rolled. -/
inductive LookedUp (c : GlobalCounters) (key : Text) (window now instant : Nat) : KeyState → Prop
  | made (hnone : c.states.get key = none) :
      LookedUp c key window now instant (KeyState.new (epochAt now window) (windowSecs window) instant)
  | reset {s : KeyState} (hsome : c.states.get key = some s) (hwindow : s.windowSecs ≠ windowSecs window) :
      LookedUp c key window now instant (KeyState.new (epochAt now window) (windowSecs window) instant)
  | rolled {s : KeyState} (hsome : c.states.get key = some s) (hwindow : s.windowSecs = windowSecs window) :
      LookedUp c key window now instant
        { s.rollTo (epochAt now window) with lastSeen := instant, seenSinceTick := true }

namespace GlobalCounters

variable {c : GlobalCounters} {key : Text} {window now instant : Nat} {s : KeyState}

theorem stateFor_cases (h : c.stateFor key window now instant = some s) :
    LookedUp c key window now instant s := by
  have hnew : { (KeyState.new (epochAt now window) (windowSecs window) instant).rollTo
      (epochAt now window) with lastSeen := instant, seenSinceTick := true } =
      KeyState.new (epochAt now window) (windowSecs window) instant := by
    have hstays : (KeyState.new (epochAt now window) (windowSecs window) instant).rollTo
        (epochAt now window) = KeyState.new (epochAt now window) (windowSecs window) instant :=
      KeyState.rollTo_self _
    rw [hstays]
    rfl
  unfold stateFor at h
  obtain ⟨found, hfound, rfl⟩ := Option.map_eq_some_iff.mp h
  cases hget : c.states.get key with
  | none =>
      simp only [hget] at hfound
      split at hfound
      · cases hfound
      · obtain rfl := Option.some.inj hfound
        have hsame : (KeyState.new (epochAt now window) (windowSecs window) instant).windowSecs =
            windowSecs window := rfl
        simp only [hsame, ne_eq, not_true_eq_false, if_false]
        rw [hnew]
        exact .made hget
  | some s =>
      simp only [hget] at hfound
      obtain rfl := Option.some.inj hfound
      by_cases hwindow : s.windowSecs = windowSecs window
      · simp only [hwindow, ne_eq, not_true_eq_false, if_false]
        exact .rolled hget hwindow
      · simp only [hwindow, ne_eq, not_false_eq_true, if_true]
        rw [hnew]
        exact .reset hget hwindow

theorem pending_setState (c : GlobalCounters) (s : KeyState) :
    (c.setState account.1 s).pending account = s.pending account.1 account := by
  rw [pending, setState, KeyMap.get_set_self]
  rfl

theorem pending_setState_of_ne (c : GlobalCounters) (s : KeyState) (hne : account.1 ≠ key) :
    (c.setState key s).pending account = c.pending account := by
  rw [pending, setState, KeyMap.get_set_of_ne hne]
  rfl

theorem pending_of_get (hsome : c.states.get account.1 = some s) :
    c.pending account = s.pending account.1 account := by
  rw [pending, hsome]
  rfl

end GlobalCounters

namespace LookedUp

variable {c : GlobalCounters} {key : Text} {window now instant : Nat} {s : KeyState}

theorem windowSecs_eq (h : LookedUp c key window now instant s) : s.windowSecs = windowSecs window := by
  cases h with
  | made _ => rfl
  | reset _ _ => rfl
  | rolled _ hwindow => exact (KeyState.windowSecs_rollTo _ _).trans hwindow

theorem epoch_eq (h : LookedUp c key window now instant s) : s.epoch = epochAt now window := by
  cases h with
  | made _ => rfl
  | reset _ _ => rfl
  | rolled _ _ => exact KeyState.epoch_rollTo _ _

theorem pending_new (epoch windowSecs instant : Nat) :
    (KeyState.new epoch windowSecs instant).pending key account = 0 := by
  unfold KeyState.pending
  split <;> split <;> rfl

theorem pending_le (h : LookedUp c account.1 window now instant s) :
    s.pending account.1 account ≤ c.pending account := by
  cases h with
  | made _ => rw [pending_new]; exact Nat.zero_le _
  | reset _ _ => rw [pending_new]; exact Nat.zero_le _
  | rolled hsome _ =>
      rw [GlobalCounters.pending_of_get hsome]
      exact KeyState.pending_rollTo_le _

/-- Looking a key up loses nothing when its window stays and nothing is owed where it rolls. -/
theorem pending_eq (h : LookedUp c account.1 window now instant s)
    (hkept : ∀ old, c.states.get account.1 = some old → old.windowSecs = windowSecs window ∧
      (old.epoch ≠ epochAt now window → old.carryover = 0)) :
    s.pending account.1 account = c.pending account := by
  cases h with
  | made hnone => rw [pending_new, GlobalCounters.pending, hnone]; rfl
  | reset hsome hwindow => exact absurd (hkept _ hsome).1 hwindow
  | @rolled old hsome hwindow =>
      rw [GlobalCounters.pending_of_get hsome]
      by_cases hepoch : old.epoch = epochAt now window
      · rw [← hepoch, KeyState.rollTo_self]
        rfl
      · exact KeyState.pending_rollTo _ ((hkept _ hsome).2 hepoch)

end LookedUp

theorem KeyState.pending_increment (key : Text) (s : KeyState) :
    KeyState.pending key account { s with localCount := s.localCount + 1 } =
      s.pending key account + if (key, s.windowSecs, s.epoch) = account then 1 else 0 := by
  simp only [KeyState.pending]
  split <;> omega

theorem KeyState.planned_plans (key : Text) (now : Nat) (s : KeyState) :
    planned account (s.plans key now) = s.pending key account := by
  have hwindow : asSecs (s.windowSecs * nanosPerSec) = s.windowSecs :=
    Nat.mul_div_cancel _ (by decide)
  rw [KeyState.plans, planned_cons, KeyState.pending]
  simp only [PushPlan.account, hwindow]
  congr 1
  split
  · rw [planned_cons]
    simp only [PushPlan.account, hwindow]
    rfl
  · rename_i hnone
    have hzero : s.carryover = 0 := by omega
    simp [planned, hzero]

theorem KeyState.windowSecs_claim (key : Text) (now : Nat) (s : KeyState) :
    (s.claim key now).2.windowSecs = s.windowSecs := by
  unfold KeyState.claim
  split <;> rfl

theorem KeyState.unclaimed_claim (key : Text) (now : Nat) (s : KeyState) :
    (s.claim key now).2.localCount = 0 ∧ (s.claim key now).2.carryover = 0 := by
  unfold KeyState.claim
  split
  · exact ⟨rfl, rfl⟩
  · rename_i hidle
    simp only [KeyState.active, Bool.or_eq_true, decide_eq_true_eq, not_or] at hidle
    exact ⟨Nat.eq_zero_of_not_pos hidle.1.1, Nat.eq_zero_of_not_pos hidle.1.2⟩

theorem KeyState.pending_claim (key : Text) (now : Nat) (s : KeyState) :
    planned account (s.claim key now).1 + (s.claim key now).2.pending key account =
      s.pending key account := by
  unfold KeyState.claim
  split
  · rw [KeyState.planned_plans]
    simp [KeyState.pending]
  · exact Nat.zero_add _

namespace GlobalCounters

variable {c : GlobalCounters} {key : Text}

theorem pending_claimKey (c : GlobalCounters) (key : Text) (now : Nat) :
    planned account (c.claimKey key now).1 + (c.claimKey key now).2.pending account =
      c.pending account := by
  unfold claimKey
  cases hget : c.states.get key with
  | none => exact Nat.zero_add _
  | some s =>
      have hclaim := @KeyState.pending_claim account key now s
      by_cases hkey : account.1 = key
      · subst hkey
        rw [pending_of_get hget]
        simp only [pending_setState]
        exact hclaim
      · have hnone : s.pending key account = 0 := by
          have hne : ∀ epoch, (key, s.windowSecs, epoch) ≠ account := fun _ heq => hkey (by rw [← heq])
          simp only [KeyState.pending, hne, if_false]
        simp only [pending_setState_of_ne c _ hkey]
        omega

theorem pending_applyEstimate (r : Rounding) (now instant : Nat) (plan : PushPlan) (read : Nat × Nat) :
    (c.applyEstimate r now instant plan read).pending account = c.pending account := by
  unfold applyEstimate
  split
  · rfl
  · split
    · rfl
    · rename_i s hget
      split
      · rfl
      · by_cases hkey : account.1 = plan.key
        · rw [← hkey] at hget ⊢
          rw [pending_setState, pending_of_get hget]
          rfl
        · exact pending_setState_of_ne c _ hkey

theorem pending_retain (p : Text → KeyState → Bool)
    (hp : ∀ key s, p key s = false → s.localCount = 0 ∧ s.carryover = 0) :
    ({ c with states := c.states.retain p } : GlobalCounters).pending account = c.pending account := by
  simp only [pending, KeyMap.get_retain]
  cases hget : c.states.get account.1 with
  | none => rfl
  | some s =>
      cases hkept : p account.1 s with
      | true => rw [Option.filter_some, hkept, if_pos rfl]
      | false =>
          obtain ⟨hlocal, hcarryover⟩ := hp _ _ hkept
          rw [Option.filter_some, hkept, if_neg Bool.false_ne_true]
          simp [KeyState.pending, hlocal, hcarryover]

theorem pending_of_not_keeps {instant : Nat} {s : KeyState} (h : keeps instant s = false) :
    s.localCount = 0 ∧ s.carryover = 0 := by
  simp only [keeps, Bool.or_eq_false_iff, decide_eq_false_iff_not] at h
  omega

end GlobalCounters

/-! ### Never twice -/

namespace Publishing

variable {p : Publishing}

/-- No account has more pushed, claimed and pending than was recorded. -/
def Accounted (p : Publishing) : Prop :=
  ∀ account, planned account p.pushed + planned account p.inFlight + p.counters.pending account ≤
    p.recorded.count account

theorem pending_lookup_le {c : GlobalCounters} {key : Text} {window now instant : Nat} {s : KeyState}
    (h : LookedUp c key window now instant s) : (c.setState key s).pending account ≤ c.pending account := by
  by_cases hkey : account.1 = key
  · subst hkey
    rw [GlobalCounters.pending_setState]
    exact h.pending_le
  · rw [GlobalCounters.pending_setState_of_ne c s hkey]

theorem pending_fleetRemaining_le (c : GlobalCounters) (key : Text) (budget window now instant : Nat) :
    (c.fleetRemaining key budget window now instant).2.pending account ≤ c.pending account := by
  unfold GlobalCounters.fleetRemaining
  cases hstate : c.stateFor key window now instant with
  | none => exact Nat.le_refl _
  | some s => exact pending_lookup_le (GlobalCounters.stateFor_cases hstate)

theorem pending_increment {c : GlobalCounters} {key : Text} {window now instant : Nat} {s : KeyState}
    (h : LookedUp c key window now instant s) :
    (c.setState key { s with localCount := s.localCount + 1 }).pending account =
      (c.setState key s).pending account +
        if (key, windowSecs window, epochAt now window) = account then 1 else 0 := by
  by_cases hkey : account.1 = key
  · subst hkey
    rw [GlobalCounters.pending_setState, GlobalCounters.pending_setState, KeyState.pending_increment,
      h.windowSecs_eq, h.epoch_eq]
  · rw [GlobalCounters.pending_setState_of_ne c _ hkey, GlobalCounters.pending_setState_of_ne c _ hkey,
      if_neg (fun heq => hkey (by rw [← heq])), Nat.add_zero]

theorem Accounted.step (h : p.Accounted) (event : PublishEvent) : (p.step event).Accounted := by
  intro account
  have haccount := h account
  cases event with
  | record key window now instant =>
      cases hstate : p.counters.stateFor key window now instant with
      | none =>
          simp only [Publishing.step, GlobalCounters.record, hstate, Option.isSome_none,
            Bool.false_eq_true, if_false]
          exact haccount
      | some s =>
          have hlooked := GlobalCounters.stateFor_cases hstate
          have hle := @pending_lookup_le account _ _ _ _ _ _ hlooked
          simp only [Publishing.step, GlobalCounters.record, hstate, Option.isSome_some, if_true,
            pending_increment hlooked, List.count_cons, beq_iff_eq]
          omega
  | fleetRemaining key budget window now instant =>
      have hle := @pending_fleetRemaining_le account p.counters key budget window now instant
      exact Nat.le_trans (Nat.add_le_add_left hle _) haccount
  | claim key now =>
      have hclaim := @GlobalCounters.pending_claimKey account p.counters key now
      simp only [Publishing.step, planned_append]
      omega
  | push plan =>
      simp only [Publishing.step]
      split
      · rename_i hmem
        have herase := @planned_erase account plan p.inFlight hmem
        simp only [planned_cons]
        omega
      · exact haccount
  | drop plan =>
      have herase := @planned_erase_le account plan p.inFlight
      simp only [Publishing.step]
      omega
  | apply r now instant plan read =>
      simp only [Publishing.step, GlobalCounters.pending_applyEstimate]
      exact haccount
  | evict key instant =>
      simp only [Publishing.step]
      rw [GlobalCounters.pending_retain]
      · exact haccount
      · intro other s hdropped
        exact GlobalCounters.pending_of_not_keeps (Bool.or_eq_false_iff.mp hdropped).2

theorem accounted_run (h : p.Accounted) (events : List PublishEvent) : (p.run events).Accounted :=
  Lib.foldl_keeps Accounted (fun event _ _ hp => hp.step event) h

end Publishing

end StructuredProxy
