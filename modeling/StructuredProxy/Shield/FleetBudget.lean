import StructuredProxy.Shield.FleetGate

/-!
# The gate of one instance keeps to its budget

A claim takes admits out of the unclaimed count, and the estimate holds them only once the pass has
applied it; an idle key is not refreshed, and its estimate is not trusted for long. Within one epoch of a
key, gate steps that find the admits claimed so far in an estimate still trusted never admit past the
budget. Gate steps that do not may.
-/

namespace StructuredProxy

open Lib

/-- A key with its window in seconds, the epoch the run stays in, its budget, and the instant the run
starts at. -/
structure Watch where
  key : Text
  secs : Nat
  epoch : Nat
  budget : Nat
  start : Nat

namespace Watch

variable (watch : Watch)

def account : Account := (watch.key, watch.secs, watch.epoch)

def unclaimed (c : GlobalCounters) : Nat :=
  (c.states.get watch.key).elim 0 fun s =>
    if s.windowSecs = watch.secs ∧ s.epoch = watch.epoch then s.localCount else 0

def Covers (instant : Nat) : Prop :=
  watch.start ≤ instant ∧ instant < watch.start + watch.secs * nanosPerSec

def Within : FleetEvent → Prop
  | .gate key budget window now instant =>
      watch.Covers instant ∧ (key = watch.key → budget = watch.budget ∧
        windowSecs window = watch.secs ∧ epochAt now window = watch.epoch)
  | .claim now instant =>
      watch.Covers instant ∧ epochAt now (watch.secs * nanosPerSec) = watch.epoch
  | _ => True

end Watch

namespace Fleet

variable (watch : Watch)

def admits (f : Fleet) : Nat := f.recorded.count watch.account

def out (f : Fleet) : Nat := planned watch.account f.claimed

def stored (f : Fleet) : Nat := f.shared (epochKey watch.key watch.epoch)

/-- A gate step of the key finds no pass between its claim and its apply, and the admits claimed so far,
if any, in an estimate that is still trusted. -/
def Sees (f : Fleet) : FleetEvent → Prop
  | .gate key _ _ _ instant => key = watch.key → f.pass matches .idle ∧
      (f.out watch = 0 ∨ ∀ s, f.counters.states.get watch.key = some s →
        instant - s.estimateAt < f.counters.staleAfter)
  | _ => True

def Runs (r : Rounding) (watch : Watch) : Fleet → List FleetEvent → Prop
  | _, [] => True
  | f, event :: events =>
      watch.Within event ∧ f.Sees watch event ∧ Runs r watch (f.step r event) events

def refreshes (plan : PushPlan) : Bool := plan.key = watch.key && !plan.isCarryover

/-- Where the claimed admits are in each phase of a pass, for the estimate of the key. -/
def Held (out stored remote : Nat) : Pass → Prop
  | .idle => out ≤ stored ∧ out ≤ remote
  | .claimed _ plans => out ≤ stored + planned watch.account plans ∧
      (∀ plan ∈ plans, refreshes watch plan = true →
        plan.readEpoch = watch.epoch ∧ asSecs plan.window = watch.secs) ∧
      (out ≤ remote ∨ ∃ plan ∈ plans, refreshes watch plan = true)
  | .pushed _ plans => out ≤ stored ∧
      (∀ plan ∈ plans, refreshes watch plan = true →
        plan.readEpoch = watch.epoch ∧ asSecs plan.window = watch.secs) ∧
      (out ≤ remote ∨ ∃ plan ∈ plans, refreshes watch plan = true)
  | .read _ plans reads => out ≤ stored ∧
      (∀ entry ∈ plans.zip reads, refreshes watch entry.1 = true →
        entry.1.readEpoch = watch.epoch ∧ asSecs entry.1.window = watch.secs ∧ out ≤ entry.2.1) ∧
      (out ≤ remote ∨ ∃ entry ∈ plans.zip reads, refreshes watch entry.1 = true)

/-- Every admit of the epoch is claimed or unclaimed, none past the budget; once there is one, the key is
tracked in its epoch and what was claimed is on its way to the estimate. -/
structure Safe (f : Fleet) : Prop where
  counted : f.admits watch ≤ f.out watch + watch.unclaimed f.counters
  bounded : f.out watch + f.counters.pending watch.account ≤ f.admits watch
  within : f.admits watch ≤ watch.budget
  tracked : 0 < f.admits watch → ∃ s, f.counters.states.get watch.key = some s ∧
    s.windowSecs = watch.secs ∧ s.epoch = watch.epoch ∧ watch.start ≤ s.lastSeen ∧
    Held watch (f.out watch) (f.stored watch) s.remoteEstimate f.pass

variable {watch : Watch} {f : Fleet} {r : Rounding}

theorem Safe.congr (h : f.Safe watch) {counters : GlobalCounters} {recorded : List Account}
    (hget : counters.states.get watch.key = f.counters.states.get watch.key)
    (hcount : recorded.count watch.account = f.recorded.count watch.account) :
    ({ f with counters, recorded } : Fleet).Safe watch := by
  have hpending : counters.pending watch.account = f.counters.pending watch.account := by
    simp only [GlobalCounters.pending, Watch.account, hget]
  refine ⟨?_, ?_, ?_, ?_⟩
  · simp only [admits, Watch.unclaimed, hcount, hget]
    exact h.counted
  · simp only [admits, hcount, hpending]
    exact h.bounded
  · simp only [admits, hcount]
    exact h.within
  · simp only [admits, hcount, hget]
    exact h.tracked

/-! ### Gate steps -/

theorem get_fleetRemaining_of_ne {c : GlobalCounters} {key other : Text} (hne : key ≠ other)
    (budget window now instant : Nat) :
    (c.fleetRemaining other budget window now instant).2.states.get key = c.states.get key := by
  unfold GlobalCounters.fleetRemaining
  cases c.stateFor other window now instant with
  | none => rfl
  | some s => exact KeyMap.get_set_of_ne hne

theorem get_record_of_ne {c : GlobalCounters} {key other : Text} (hne : key ≠ other)
    (window now instant : Nat) :
    (c.record other window now instant).states.get key = c.states.get key := by
  unfold GlobalCounters.record
  cases c.stateFor other window now instant with
  | none => rfl
  | some s => exact KeyMap.get_set_of_ne hne

theorem Safe.gate_other (h : f.Safe watch) {key : Text} (hkey : key ≠ watch.key)
    (budget window now instant : Nat) : (f.step r (.gate key budget window now instant)).Safe watch := by
  have hne : watch.key ≠ key := Ne.symm hkey
  have hremaining := @get_fleetRemaining_of_ne f.counters watch.key key hne budget window now instant
  simp only [step]
  split
  · refine h.congr ((get_record_of_ne hne window now instant).trans hremaining) ?_
    split
    · refine List.count_cons_of_ne fun heq => hkey ?_
      exact (Prod.mk.inj heq).1
    · rfl
  · exact h.congr hremaining rfl

theorem stateFor_again {c : GlobalCounters} {key : Text} {window now instant : Nat} {s : KeyState}
    (h : c.stateFor key window now instant = some s) :
    (c.setState key s).stateFor key window now instant = some s := by
  have hlooked := GlobalCounters.stateFor_cases h
  have hfresh : s.lastSeen = instant ∧ s.seenSinceTick = true := by
    cases hlooked <;> exact ⟨rfl, rfl⟩
  have hget : (c.setState key s).states.get key = some s := KeyMap.get_set_self
  have hstays : s.rollTo (epochAt now window) = s := by
    rw [← hlooked.epoch_eq]
    exact s.rollTo_self
  unfold GlobalCounters.stateFor
  simp only [hget, Option.map_some, hlooked.windowSecs_eq, ne_eq, not_true_eq_false, if_false, hstays]
  rw [← hfresh.1, ← hfresh.2, ← hlooked.windowSecs_eq]

theorem unclaimed_lookup {c : GlobalCounters} {window now instant : Nat} {s : KeyState}
    (hwindow : windowSecs window = watch.secs) (hepoch : epochAt now window = watch.epoch)
    (hlooked : LookedUp c watch.key window now instant s) : watch.unclaimed c = s.localCount := by
  cases hlooked with
  | made hnone => simp only [Watch.unclaimed, hnone]; rfl
  | reset hsome hother =>
      simp only [Watch.unclaimed, hsome]
      exact if_neg fun h => hother (h.1.trans hwindow.symm)
  | @rolled old hsome hsame =>
      simp only [Watch.unclaimed, hsome, Option.elim_some]
      by_cases hold : old.epoch = watch.epoch
      · rw [if_pos ⟨hsame.trans hwindow, hold⟩, hepoch, ← hold, old.rollTo_self]
      · rw [if_neg fun h => hold h.2]
        unfold KeyState.rollTo
        rw [hepoch, if_pos hold]
        split <;> rfl

theorem Safe.lookup_tracked (h : f.Safe watch) {window now instant : Nat} {s : KeyState}
    (hwindow : windowSecs window = watch.secs) (hepoch : epochAt now window = watch.epoch)
    (hlooked : LookedUp f.counters watch.key window now instant s) (hadmits : 0 < f.admits watch) :
    ∃ old, f.counters.states.get watch.key = some old ∧ old.windowSecs = watch.secs ∧
      old.epoch = watch.epoch ∧ Held watch (f.out watch) (f.stored watch) old.remoteEstimate f.pass ∧
      s = { old with lastSeen := instant, seenSinceTick := true } := by
  obtain ⟨old, hget, hsecs, hold, -, hheld⟩ := h.tracked hadmits
  refine ⟨old, hget, hsecs, hold, hheld, ?_⟩
  cases hlooked with
  | made hnone => rw [hnone] at hget; cases hget
  | reset hsome hother =>
      obtain rfl := Option.some.inj (hsome.symm.trans hget)
      exact absurd (hsecs.trans hwindow.symm) hother
  | rolled hsome _ =>
      obtain rfl := Option.some.inj (hsome.symm.trans hget)
      rw [hepoch, ← hold, KeyState.rollTo_self]

theorem unclaimed_setState {c : GlobalCounters} {s : KeyState} (hsecs : s.windowSecs = watch.secs)
    (hepoch : s.epoch = watch.epoch) : watch.unclaimed (c.setState watch.key s) = s.localCount := by
  simp only [Watch.unclaimed, GlobalCounters.setState, KeyMap.get_set_self, Option.elim_some]
  exact if_pos ⟨hsecs, hepoch⟩

section Gate

variable {window now instant : Nat} {s : KeyState}

theorem Safe.lookup (h : f.Safe watch) (hwindow : windowSecs window = watch.secs)
    (hepoch : epochAt now window = watch.epoch) (hcovers : watch.Covers instant)
    (hlooked : LookedUp f.counters watch.key window now instant s) :
    ({ f with counters := f.counters.setState watch.key s } : Fleet).Safe watch := by
  have hsecs := hlooked.windowSecs_eq.trans hwindow
  have hepochS := hlooked.epoch_eq.trans hepoch
  refine ⟨?_, ?_, h.within, fun hadmits => ?_⟩
  · simp only [unclaimed_setState hsecs hepochS]
    rw [← unclaimed_lookup hwindow hepoch hlooked]
    exact h.counted
  · have hle : (f.counters.setState watch.key s).pending watch.account ≤
        f.counters.pending watch.account := Publishing.pending_lookup_le hlooked
    exact Nat.le_trans (Nat.add_le_add_left hle _) h.bounded
  · obtain ⟨old, -, hsecsOld, hepochOld, hheld, rfl⟩ := h.lookup_tracked hwindow hepoch hlooked hadmits
    exact ⟨_, KeyMap.get_set_self, hsecsOld, hepochOld, hcovers.1, hheld⟩

/-- The gate counts every admit of the epoch. -/
theorem Safe.admits_le_used (h : f.Safe watch) (hwindow : windowSecs window = watch.secs)
    (hepoch : epochAt now window = watch.epoch)
    (hlooked : LookedUp f.counters watch.key window now instant s) (hidle : f.pass = .idle)
    (hfresh : f.out watch = 0 ∨ ∀ s, f.counters.states.get watch.key = some s →
      instant - s.estimateAt < f.counters.staleAfter) :
    f.admits watch ≤
      (if instant - s.estimateAt < f.counters.staleAfter then s.remoteEstimate else 0) + s.localCount := by
  have hcounted := h.counted
  rw [unclaimed_lookup hwindow hepoch hlooked] at hcounted
  rcases hfresh with hnone | hfresh
  · rw [hnone, Nat.zero_add] at hcounted
    exact Nat.le_trans hcounted (Nat.le_add_left _ _)
  · rcases Nat.eq_zero_or_pos (f.admits watch) with hzero | hadmits
    · rw [hzero]
      exact Nat.zero_le _
    · obtain ⟨old, hget, -, -, hheld, rfl⟩ := h.lookup_tracked hwindow hepoch hlooked hadmits
      rw [hidle] at hheld
      rw [if_pos (hfresh old hget)]
      exact Nat.le_trans hcounted (Nat.add_le_add_right hheld.2 _)

theorem Safe.record (h : ({ f with counters := f.counters.setState watch.key s } : Fleet).Safe watch)
    (hwindow : windowSecs window = watch.secs) (hepoch : epochAt now window = watch.epoch)
    (hcovers : watch.Covers instant) (hidle : f.pass = .idle)
    (hlooked : LookedUp f.counters watch.key window now instant s)
    (hremote : f.out watch ≤ s.remoteEstimate) (hstored : f.out watch ≤ f.stored watch)
    (hroom : f.admits watch < watch.budget) :
    ({ f with
      counters := f.counters.setState watch.key { s with localCount := s.localCount + 1 }
      recorded := (watch.key, windowSecs window, epochAt now window) :: f.recorded } :
        Fleet).Safe watch := by
  have hsecs := hlooked.windowSecs_eq.trans hwindow
  have hepochS := hlooked.epoch_eq.trans hepoch
  have haccount : (watch.key, windowSecs window, epochAt now window) = watch.account := by
    rw [hwindow, hepoch]
    rfl
  have hcount : ((watch.key, windowSecs window, epochAt now window) :: f.recorded).count watch.account =
      f.admits watch + 1 := by
    rw [haccount, List.count_cons_self]
    rfl
  have hseen : watch.start ≤ s.lastSeen := by
    have hlast : s.lastSeen = instant := by cases hlooked <;> rfl
    rw [hlast]
    exact hcovers.1
  refine ⟨?_, ?_, ?_, fun _ => ⟨_, KeyMap.get_set_self, hsecs, hepochS, hseen, ?_⟩⟩
  · have hcounted := h.counted
    rw [unclaimed_setState hsecs hepochS] at hcounted
    have hset := @unclaimed_setState watch f.counters { s with localCount := s.localCount + 1 } hsecs
      hepochS
    simp only [admits, hcount, hset]
    exact Nat.succ_le_succ hcounted
  · have hbounded := h.bounded
    have hincrement := @Publishing.pending_increment watch.account _ _ _ _ _ _ hlooked
    rw [if_pos haccount] at hincrement
    simp only [admits, hcount, hincrement]
    exact Nat.succ_le_succ hbounded
  · simp only [admits, hcount]
    exact hroom
  · rw [hidle]
    exact ⟨hstored, hremote⟩

theorem Safe.gate (h : f.Safe watch) {key : Text} {budget : Nat}
    (hwithin : watch.Within (.gate key budget window now instant))
    (hsees : f.Sees watch (.gate key budget window now instant)) :
    (f.step r (.gate key budget window now instant)).Safe watch := by
  by_cases hkey : key = watch.key
  swap
  · exact h.gate_other hkey budget window now instant
  subst hkey
  obtain ⟨hcovers, hkey⟩ := hwithin
  obtain ⟨rfl, hwindow, hepoch⟩ := hkey rfl
  obtain ⟨hmatches, hfresh⟩ := hsees rfl
  have hidle : f.pass = .idle := by
    cases hpass : f.pass with
    | idle => rfl
    | _ => rw [hpass] at hmatches; cases hmatches
  cases hstate : f.counters.stateFor watch.key window now instant with
  | none =>
      simp only [step, GlobalCounters.fleetRemaining, GlobalCounters.record, hstate, Option.isSome_none,
        Bool.false_eq_true, if_false, ite_self]
      exact h
  | some s =>
      have hlooked := GlobalCounters.stateFor_cases hstate
      have hlookedSafe := h.lookup hwindow hepoch hcovers hlooked
      have hused := h.admits_le_used hwindow hepoch hlooked hidle hfresh
      have hagain := stateFor_again hstate
      simp only [step, GlobalCounters.fleetRemaining, GlobalCounters.record, hstate, hagain,
        Option.isSome_some, if_true]
      generalize (if instant - s.estimateAt < f.counters.staleAfter then s.remoteEstimate else 0) =
        remote at hused ⊢
      split
      · rename_i hremaining
        have hroom : f.admits watch < watch.budget := by omega
        have hset : (f.counters.setState watch.key s).setState watch.key
            { s with localCount := s.localCount + 1 } =
            f.counters.setState watch.key { s with localCount := s.localCount + 1 } := by
          simp only [GlobalCounters.setState, KeyMap.set_set]
        have hheld : f.out watch ≤ f.stored watch ∧ f.out watch ≤ s.remoteEstimate := by
          rcases Nat.eq_zero_or_pos (f.out watch) with hzero | hout
          · rw [hzero]
            exact ⟨Nat.zero_le _, Nat.zero_le _⟩
          · have hadmits : 0 < f.admits watch := by
              have hbounded := h.bounded
              omega
            obtain ⟨old, -, -, -, hheld, rfl⟩ := h.lookup_tracked hwindow hepoch hlooked hadmits
            rw [hidle] at hheld
            exact hheld
        rw [hset]
        exact hlookedSafe.record hwindow hepoch hcovers hidle hlooked hheld.2 hheld.1 hroom
      · exact hlookedSafe

end Gate

/-! ### The phases of a pass -/

theorem keeps_within {s : KeyState} {instant : Nat} (hsecs : watch.secs < 2 ^ 64)
    (hwindow : s.windowSecs = watch.secs) (hseen : watch.start ≤ s.lastSeen)
    (hcovers : watch.Covers instant) : GlobalCounters.keeps instant s = true := by
  have hpos : 0 < watch.secs * nanosPerSec := by
    have hlt := hcovers.2
    have hle := hcovers.1
    omega
  have hsecsPos : 0 < watch.secs := Nat.pos_of_mul_pos_right hpos
  have hmin : watch.secs ≤ min (s.windowSecs * 2) (2 ^ 64 - 1) := by
    rw [hwindow]
    omega
  have hspan : watch.secs * nanosPerSec ≤ min (s.windowSecs * 2) (2 ^ 64 - 1) * nanosPerSec :=
    Nat.mul_le_mul_right _ hmin
  have hlt := hcovers.2
  unfold GlobalCounters.keeps
  rw [Bool.or_eq_true]
  refine Or.inr (decide_eq_true (Nat.lt_of_lt_of_le ?_ (Nat.le_max_right _ _)))
  omega

theorem Safe.evictStale (h : f.Safe watch) (hsecs : watch.secs < 2 ^ 64) {instant : Nat}
    (hcovers : watch.Covers instant) :
    ({ f with counters := f.counters.evictStale instant } : Fleet).Safe watch := by
  have hget : (f.counters.evictStale instant).states.get watch.key =
      (f.counters.states.get watch.key).filter (GlobalCounters.keeps instant) := KeyMap.get_retain
  refine ⟨?_, ?_, h.within, fun hadmits => ?_⟩
  · have hunclaimed : watch.unclaimed (f.counters.evictStale instant) = watch.unclaimed f.counters := by
      simp only [Watch.unclaimed, hget]
      cases f.counters.states.get watch.key with
      | none => rfl
      | some s =>
          cases hkept : GlobalCounters.keeps instant s with
          | true => rw [Option.filter_some, hkept, if_pos rfl]
          | false =>
              have hlocal := (GlobalCounters.pending_of_not_keeps hkept).1
              rw [Option.filter_some, hkept, if_neg Bool.false_ne_true]
              simp [hlocal]
    simp only [hunclaimed]
    exact h.counted
  · have hpending : (f.counters.evictStale instant).pending watch.account =
        f.counters.pending watch.account :=
      GlobalCounters.pending_retain _ fun _ s => GlobalCounters.pending_of_not_keeps
    simp only [hpending]
    exact h.bounded
  · obtain ⟨s, hsome, hwindow, hepoch, hseen, hheld⟩ := h.tracked hadmits
    refine ⟨s, ?_, hwindow, hepoch, hseen, hheld⟩
    rw [hget, hsome, Option.filter_some, keeps_within hsecs hwindow hseen hcovers, if_pos rfl]

theorem out_append (plans : List PushPlan) (counters : GlobalCounters) (pass : Pass) :
    ({ f with counters, claimed := plans ++ f.claimed, pass } : Fleet).out watch =
      planned watch.account plans + f.out watch := planned_append _ _

theorem refreshes_claim {s : KeyState} {now : Nat} (hsecs : s.windowSecs = watch.secs)
    (hnow : epochAt now (watch.secs * nanosPerSec) = watch.epoch) :
    (∀ plan ∈ (s.claim watch.key now).1, refreshes watch plan = true →
      plan.readEpoch = watch.epoch ∧ asSecs plan.window = watch.secs) ∧
    (s.active = true → ∃ plan ∈ (s.claim watch.key now).1, refreshes watch plan = true) := by
  have hwindow : asSecs (watch.secs * nanosPerSec) = watch.secs := Nat.mul_div_cancel _ (by decide)
  unfold KeyState.claim KeyState.plans
  cases hactive : s.active with
  | false =>
      simp only [Bool.false_eq_true, if_false]
      exact ⟨fun plan hplan => (by cases hplan), fun h => (by cases h)⟩
  | true =>
      simp only [if_true, hsecs, hnow]
      refine ⟨fun plan hplan hrefreshes => ?_, fun _ => ⟨_, List.mem_cons_self, ?_⟩⟩
      · rcases List.mem_cons.mp hplan with rfl | hplan
        · exact ⟨rfl, hwindow⟩
        · split at hplan
          · obtain rfl := List.mem_singleton.mp hplan
            simp [refreshes] at hrefreshes
          · cases hplan
      · simp [refreshes]

theorem planned_idle {s : KeyState} {now : Nat} (hidle : s.active = false) :
    (s.claim watch.key now).1 = [] := by
  unfold KeyState.claim
  rw [hidle]
  rfl

theorem claim_keeps (key : Text) (now : Nat) (s : KeyState) :
    (s.claim key now).2.epoch = s.epoch ∧ (s.claim key now).2.lastSeen = s.lastSeen ∧
      (s.claim key now).2.remoteEstimate = s.remoteEstimate := by
  unfold KeyState.claim
  split <;> exact ⟨rfl, rfl, rfl⟩

theorem unclaimed_le_planned (c : GlobalCounters) (now : Nat) :
    watch.unclaimed c ≤ planned watch.account
      ((c.states.get watch.key).elim [] fun s => (s.claim watch.key now).1) := by
  unfold Watch.unclaimed
  cases c.states.get watch.key with
  | none => exact Nat.zero_le _
  | some s =>
      have hclaim := @KeyState.pending_claim watch.account watch.key now s
      obtain ⟨hlocal, hcarryover⟩ := KeyState.unclaimed_claim watch.key now s
      have hnone : (s.claim watch.key now).2.pending watch.key watch.account = 0 := by
        simp [KeyState.pending, hlocal, hcarryover]
      rw [hnone, Nat.add_zero] at hclaim
      simp only [Option.elim_some, hclaim, KeyState.pending]
      split
      · rename_i hsame
        rw [if_pos (by rw [hsame.1, hsame.2]; rfl)]
        exact Nat.le_add_right _ _
      · exact Nat.zero_le _

theorem Held.claim {s : KeyState} {now out stored remote : Nat} {plans : List PushPlan}
    (hheld : Held watch out stored remote .idle) (hsecs : s.windowSecs = watch.secs)
    (hnow : epochAt now (watch.secs * nanosPerSec) = watch.epoch)
    (hfilter : plans.filter (fun plan => decide (plan.key = watch.key)) = (s.claim watch.key now).1) :
    Held watch (planned watch.account plans + out) stored remote
      (if plans.isEmpty then .idle else .claimed now plans) := by
  obtain ⟨hreads, hrefresh⟩ := @refreshes_claim watch s now hsecs hnow
  have hmem : ∀ plan, plan ∈ (s.claim watch.key now).1 ↔ plan ∈ plans ∧ plan.key = watch.key := by
    intro plan
    rw [← hfilter, List.mem_filter, decide_eq_true_eq]
  have hread : ∀ plan ∈ plans, refreshes watch plan = true →
      plan.readEpoch = watch.epoch ∧ asSecs plan.window = watch.secs := by
    intro plan hplan hrefreshes
    have hkey : plan.key = watch.key := of_decide_eq_true (Bool.and_eq_true_iff.mp hrefreshes).1
    exact hreads plan ((hmem plan).mpr ⟨hplan, hkey⟩) hrefreshes
  obtain ⟨hstored, hremote⟩ := hheld
  cases hactive : s.active with
  | false =>
      have hnone : planned watch.account plans = 0 := by
        have hplanned : planned watch.account (plans.filter fun plan => decide (plan.key = watch.key)) =
            planned watch.account plans := planned_filter watch.account plans
        rw [← hplanned, hfilter, planned_idle hactive]
        rfl
      rw [hnone, Nat.zero_add]
      split
      · exact ⟨hstored, hremote⟩
      · exact ⟨Nat.le_trans hstored (Nat.le_add_right _ _), hread, Or.inl hremote⟩
  | true =>
      obtain ⟨plan, hplan, hrefreshes⟩ := hrefresh hactive
      have hinPlans := ((hmem plan).mp hplan).1
      rw [if_neg fun hempty => List.ne_nil_of_mem hinPlans (List.isEmpty_iff.mp hempty)]
      refine ⟨?_, hread, Or.inr ⟨plan, hinPlans, hrefreshes⟩⟩
      omega

theorem Safe.claimPlans (h : f.Safe watch) (hidle : f.pass = .idle) {now : Nat}
    (hnow : epochAt now (watch.secs * nanosPerSec) = watch.epoch) :
    ({ f with
      counters := (f.counters.claimPlans now).2
      claimed := (f.counters.claimPlans now).1 ++ f.claimed
      pass := if (f.counters.claimPlans now).1.isEmpty then .idle
        else .claimed now (f.counters.claimPlans now).1 } : Fleet).Safe watch := by
  obtain ⟨hget, hfilter⟩ := f.counters.claimPlans_key watch.key now
  generalize f.counters.claimPlans now = claimed at hget hfilter ⊢
  obtain ⟨plans, counters⟩ := claimed
  simp only at hget hfilter ⊢
  have hplanned : planned watch.account plans =
      planned watch.account
        ((f.counters.states.get watch.key).elim [] fun s => (s.claim watch.key now).1) := by
    rw [← hfilter]
    exact (planned_filter watch.account plans).symm
  have hmoved : planned watch.account plans + counters.pending watch.account =
      f.counters.pending watch.account := by
    rw [hplanned]
    simp only [GlobalCounters.pending, Watch.account, hget]
    cases f.counters.states.get watch.key with
    | none => rfl
    | some s => exact KeyState.pending_claim _ _ _
  refine ⟨?_, ?_, h.within, fun hadmits => ?_⟩
  · have hunclaimed := @unclaimed_le_planned watch f.counters now
    have hcounted := h.counted
    rw [← hplanned] at hunclaimed
    rw [out_append]
    simp only [admits] at hcounted ⊢
    omega
  · have hbounded := h.bounded
    rw [out_append]
    simp only [admits] at hbounded ⊢
    omega
  · obtain ⟨s, hsome, hsecs, hepoch, hseen, hheld⟩ := h.tracked hadmits
    rw [hidle] at hheld
    rw [hsome] at hget hfilter
    obtain ⟨hepochClaim, hseenClaim, hremoteClaim⟩ := claim_keeps watch.key now s
    refine ⟨_, hget, (KeyState.windowSecs_claim _ _ _).trans hsecs, hepochClaim.trans hepoch,
      hseenClaim ▸ hseen, ?_⟩
    rw [out_append, hremoteClaim]
    exact hheld.claim hsecs hnow hfilter

theorem Safe.phase (h : f.Safe watch) {shared : Shared} {pass : Pass}
    (hheld : ∀ remote, Held watch (f.out watch) (f.stored watch) remote f.pass →
      Held watch (f.out watch) (shared (epochKey watch.key watch.epoch)) remote pass) :
    ({ f with shared, pass } : Fleet).Safe watch := by
  refine ⟨h.counted, h.bounded, h.within, fun hadmits => ?_⟩
  obtain ⟨s, hsome, hsecs, hepoch, hseen, hbefore⟩ := h.tracked hadmits
  exact ⟨s, hsome, hsecs, hepoch, hseen, hheld _ hbefore⟩

theorem Safe.push (h : f.Safe watch) : (f.step r .push).Safe watch := by
  simp only [step]
  split
  · rename_i now plans hpass
    refine h.phase fun remote hheld => ?_
    rw [hpass] at hheld
    obtain ⟨hout, hreads, hrefresh⟩ := hheld
    exact ⟨Nat.le_trans hout (le_pushDeltas watch.account plans f.shared), hreads, hrefresh⟩
  · exact h

theorem zip_readEpochs (plans : List PushPlan) (shared : Shared) :
    plans.zip (readEpochs plans shared) = plans.map fun plan =>
      (plan, shared (epochKey plan.key plan.readEpoch),
        shared (epochKey plan.key (plan.readEpoch - 1))) := by
  rw [readEpochs]
  induction plans with
  | nil => rfl
  | cons plan plans ih => rw [List.map_cons, List.zip_cons_cons, ih, List.map_cons]

theorem Safe.read (h : f.Safe watch) : (f.step r .read).Safe watch := by
  simp only [step]
  split
  · rename_i now plans hpass
    refine h.phase fun remote hheld => ?_
    rw [hpass] at hheld
    obtain ⟨hout, hreads, hrefresh⟩ := hheld
    refine ⟨hout, fun entry hentry hrefreshes => ?_, hrefresh.imp_right fun ⟨plan, hplan, hrefreshes⟩ => ?_⟩
    · rw [zip_readEpochs] at hentry
      obtain ⟨plan, hplan, rfl⟩ := List.mem_map.mp hentry
      obtain ⟨hepoch, hsecs⟩ := hreads plan hplan hrefreshes
      refine ⟨hepoch, hsecs, ?_⟩
      have hkey : plan.key = watch.key := of_decide_eq_true (Bool.and_eq_true_iff.mp hrefreshes).1
      simp only [hkey, hepoch]
      exact hout
    · have hentry : (plan, f.shared (epochKey plan.key plan.readEpoch),
          f.shared (epochKey plan.key (plan.readEpoch - 1))) ∈ plans.zip (readEpochs plans f.shared) := by
        rw [zip_readEpochs]
        exact List.mem_map_of_mem hplan
      exact ⟨_, hentry, hrefreshes⟩
  · exact h

def Estimated (watch : Watch) (n : Nat) (c : GlobalCounters) : Prop :=
  ∃ s, c.states.get watch.key = some s ∧ s.windowSecs = watch.secs ∧ s.epoch = watch.epoch ∧
    watch.start ≤ s.lastSeen ∧ n ≤ s.remoteEstimate

theorem applyEstimate_state {c : GlobalCounters} {now instant : Nat} {plan : PushPlan} {read : Nat × Nat}
    {key : Text} {s : KeyState} (hsome : c.states.get key = some s) :
    ∃ s', (c.applyEstimate r now instant plan read).states.get key = some s' ∧
      s'.windowSecs = s.windowSecs ∧ s'.epoch = s.epoch ∧ s'.lastSeen = s.lastSeen ∧
      s'.localCount = s.localCount ∧ s'.carryover = s.carryover ∧
      s'.carryoverEpoch = s.carryoverEpoch ∧
      (s'.remoteEstimate = s.remoteEstimate ∧
          (plan.key = key → plan.isCarryover = false → s.windowSecs = asSecs plan.window →
            plan.readEpoch < s.epoch) ∨
        plan.key = key ∧ plan.isCarryover = false ∧ s'.remoteEstimate =
          r.estimate read.1 read.2 (elapsedInWindow now plan.window) plan.window) := by
  unfold GlobalCounters.applyEstimate
  cases hcarryover : plan.isCarryover with
  | true => exact ⟨s, hsome, rfl, rfl, rfl, rfl, rfl, rfl, Or.inl ⟨rfl, fun _ h => by cases h⟩⟩
  | false =>
      by_cases hkey : plan.key = key
      · subst hkey
        simp only [hsome, Bool.false_eq_true, if_false]
        split
        · rename_i hskip
          refine ⟨s, hsome, rfl, rfl, rfl, rfl, rfl, rfl, Or.inl ⟨rfl, fun _ _ hsame => ?_⟩⟩
          rw [Bool.or_eq_true, decide_eq_true_eq, decide_eq_true_eq] at hskip
          exact hskip.resolve_left fun hne => hne hsame
        · exact ⟨_, KeyMap.get_set_self, rfl, rfl, rfl, rfl, rfl, rfl, Or.inr ⟨trivial, trivial, rfl⟩⟩
      · simp only [Bool.false_eq_true, if_false]
        refine ⟨s, ?_, rfl, rfl, rfl, rfl, rfl, rfl, Or.inl ⟨rfl, fun h => absurd h hkey⟩⟩
        split
        · exact hsome
        · split
          · exact hsome
          · exact (KeyMap.get_set_of_ne (Ne.symm hkey)).trans hsome

theorem Estimated.applyEstimate {n : Nat} {c : GlobalCounters} (h : Estimated watch n c) (hn : n ≤ 2 ^ 53)
    (now instant : Nat) {plan : PushPlan} {read : Nat × Nat}
    (hread : refreshes watch plan = true → n ≤ read.1) :
    Estimated watch n (c.applyEstimate r now instant plan read) := by
  obtain ⟨s, hsome, hsecs, hepoch, hseen, hremote⟩ := h
  obtain ⟨s', hsome', hsecs', hepoch', hseen', -, -, -, hestimate⟩ :=
    @applyEstimate_state r c now instant plan read watch.key s hsome
  refine ⟨s', hsome', hsecs'.trans hsecs, hepoch'.trans hepoch, hseen' ▸ hseen, ?_⟩
  rcases hestimate with ⟨hsame, -⟩ | ⟨hkey, hcarryover, hestimate⟩
  · rw [hsame]
    exact hremote
  · rw [hestimate]
    refine r.le_estimate (hread ?_) hn _ _ _
    simp [refreshes, hkey, hcarryover]

theorem Estimated.of_read {n : Nat} {c : GlobalCounters} (h : Estimated watch 0 c) (hn : n ≤ 2 ^ 53)
    (now instant : Nat) {plan : PushPlan} {read : Nat × Nat} (hrefreshes : refreshes watch plan = true)
    (hepoch : plan.readEpoch = watch.epoch) (hsecs : asSecs plan.window = watch.secs)
    (hread : n ≤ read.1) : Estimated watch n (c.applyEstimate r now instant plan read) := by
  obtain ⟨s, hsome, hsecsS, hepochS, hseen, -⟩ := h
  obtain ⟨s', hsome', hsecs', hepoch', hseen', -, -, -, hestimate⟩ :=
    @applyEstimate_state r c now instant plan read watch.key s hsome
  refine ⟨s', hsome', hsecs'.trans hsecsS, hepoch'.trans hepochS, hseen' ▸ hseen, ?_⟩
  simp only [refreshes, Bool.and_eq_true, decide_eq_true_eq, Bool.not_eq_true'] at hrefreshes
  rcases hestimate with ⟨-, hskipped⟩ | ⟨-, -, hestimate⟩
  · have hlater := hskipped hrefreshes.1 hrefreshes.2 (hsecsS.trans hsecs.symm)
    omega
  · rw [hestimate]
    exact r.le_estimate hread hn _ _ _

theorem estimated_applyEstimates {n : Nat} {c : GlobalCounters} {now instant : Nat} {plans : List PushPlan}
    {reads : List (Nat × Nat)} {remote : Nat} (h : Estimated watch remote c) (hn : n ≤ 2 ^ 53)
    (hreads : ∀ entry ∈ plans.zip reads, refreshes watch entry.1 = true →
      entry.1.readEpoch = watch.epoch ∧ asSecs entry.1.window = watch.secs ∧ n ≤ entry.2.1)
    (hrefresh : n ≤ remote ∨ ∃ entry ∈ plans.zip reads, refreshes watch entry.1 = true) :
    Estimated watch n (c.applyEstimates r now instant plans reads) := by
  have hweak : ∀ {m k : Nat} {c : GlobalCounters}, m ≤ k → Estimated watch k c → Estimated watch m c := by
    rintro m k c hle ⟨s, hsome, hsecs, hepoch, hseen, hk⟩
    exact ⟨s, hsome, hsecs, hepoch, hseen, Nat.le_trans hle hk⟩
  rcases hrefresh with hle | ⟨entry, hentry, hrefreshes⟩
  · refine Lib.foldl_keeps (Estimated watch n) (fun entry hentry c hc => ?_) (hweak hle h)
    exact hc.applyEstimate hn now instant fun hrefreshes => (hreads entry hentry hrefreshes).2.2
  · obtain ⟨before, after, hsplit⟩ := List.append_of_mem hentry
    obtain ⟨hepoch, hsecs, hread⟩ := hreads entry hentry hrefreshes
    rw [GlobalCounters.applyEstimates, hsplit, List.foldl_append, List.foldl_cons]
    have hbefore : Estimated watch 0 (before.foldl
        (fun c entry => c.applyEstimate r now instant entry.1 entry.2) c) :=
      Lib.foldl_keeps (Estimated watch 0) (fun entry _ c hc =>
        hc.applyEstimate (Nat.zero_le _) now instant fun _ => Nat.zero_le _) (hweak (Nat.zero_le _) h)
    refine Lib.foldl_keeps (Estimated watch n) (fun entry hentry c hc => ?_)
      (hbefore.of_read hn now instant hrefreshes hepoch hsecs hread)
    refine hc.applyEstimate hn now instant fun hrefreshes => (hreads entry ?_ hrefreshes).2.2
    rw [hsplit]
    exact List.mem_append_right _ (List.mem_cons_of_mem _ hentry)

theorem unclaimed_applyEstimate (c : GlobalCounters) (now instant : Nat) (plan : PushPlan)
    (read : Nat × Nat) :
    watch.unclaimed (c.applyEstimate r now instant plan read) = watch.unclaimed c := by
  unfold Watch.unclaimed
  cases hget : c.states.get watch.key with
  | some s =>
      obtain ⟨s', hsome', hsecs, hepoch, -, hlocal, -⟩ :=
        @applyEstimate_state r c now instant plan read watch.key s hget
      simp only [hsome', Option.elim_some, hsecs, hepoch, hlocal]
  | none =>
      have hnone : (c.applyEstimate r now instant plan read).states.get watch.key = none := by
        unfold GlobalCounters.applyEstimate
        split
        · exact hget
        · split
          · exact hget
          · rename_i s hsome
            split
            · exact hget
            · have hkey : watch.key ≠ plan.key := fun heq => by
                rw [heq, hsome] at hget
                cases hget
              exact (KeyMap.get_set_of_ne hkey).trans hget
      rw [hnone]

theorem Safe.apply (h : f.Safe watch) (hbudget : watch.budget ≤ 2 ^ 53) (instant : Nat) :
    (f.step r (.apply instant)).Safe watch := by
  simp only [step]
  split
  swap
  · exact h
  rename_i now plans reads hpass
  have hkept : (f.counters.applyEstimates r now instant plans reads).pending watch.account =
        f.counters.pending watch.account ∧
      watch.unclaimed (f.counters.applyEstimates r now instant plans reads) =
        watch.unclaimed f.counters := by
    refine Lib.foldl_keeps (fun c : GlobalCounters => c.pending watch.account =
        f.counters.pending watch.account ∧ watch.unclaimed c = watch.unclaimed f.counters)
      (fun entry _ c hc => ?_) ⟨rfl, rfl⟩
    exact ⟨(GlobalCounters.pending_applyEstimate r now instant entry.1 entry.2).trans hc.1,
      (unclaimed_applyEstimate c now instant entry.1 entry.2).trans hc.2⟩
  refine ⟨?_, ?_, h.within, fun hadmits => ?_⟩
  · simp only [hkept.2]
    exact h.counted
  · simp only [hkept.1]
    exact h.bounded
  · obtain ⟨s, hsome, hsecs, hepoch, hseen, hheld⟩ := h.tracked hadmits
    rw [hpass] at hheld
    obtain ⟨hstored, hreads, hrefresh⟩ := hheld
    have hout : f.out watch ≤ 2 ^ 53 := by
      have hbounded := h.bounded
      have hwithin := h.within
      omega
    have hbefore : Estimated watch s.remoteEstimate f.counters :=
      ⟨s, hsome, hsecs, hepoch, hseen, Nat.le_refl _⟩
    obtain ⟨s', hsome', hsecs', hepoch', hseen', hremote⟩ :=
      @estimated_applyEstimates watch r _ f.counters now instant plans reads _ hbefore hout hreads hrefresh
    exact ⟨s', hsome', hsecs', hepoch', hseen', hstored, hremote⟩

theorem Safe.step (h : f.Safe watch) (hbudget : watch.budget ≤ 2 ^ 53) (hsecs : watch.secs < 2 ^ 64)
    {event : FleetEvent} (hwithin : watch.Within event) (hsees : f.Sees watch event) :
    (f.step r event).Safe watch := by
  cases event with
  | gate key budget window now instant => exact h.gate hwithin hsees
  | claim now instant =>
      simp only [Fleet.step]
      split
      · rename_i hidle
        exact (h.evictStale hsecs hwithin.1).claimPlans hidle hwithin.2
      · exact h
  | push => exact h.push
  | read => exact h.read
  | apply instant => exact h.apply hbudget instant

theorem Safe.run (hbudget : watch.budget ≤ 2 ^ 53) (hsecs : watch.secs < 2 ^ 64)
    {events : List FleetEvent} : ∀ {f : Fleet}, f.Safe watch → Runs r watch f events →
    (f.run r events).Safe watch := by
  induction events with
  | nil => intro f h _; exact h
  | cons event events ih =>
      intro f h hruns
      exact ih (h.step hbudget hsecs hruns.1 hruns.2.1) hruns.2.2

/-- **The gate of one instance keeps to its budget** in a run within an epoch whose gate steps see what
was claimed. -/
theorem admits_le_budget (r : Rounding) {watch : Watch} (hbudget : watch.budget ≤ 2 ^ 53)
    (hsecs : watch.secs < 2 ^ 64) {counters : GlobalCounters} (shared : Shared)
    (hpending : counters.pending watch.account = 0) {events : List FleetEvent}
    (hruns : Runs r watch { counters, shared } events) :
    ((Fleet.mk counters shared .idle [] []).run r events).recorded.count watch.account ≤ watch.budget := by
  have hsafe : (Fleet.mk counters shared .idle [] []).Safe watch :=
    ⟨Nat.zero_le _, Nat.le_of_eq ((Nat.zero_add _).trans hpending), Nat.zero_le _,
      fun hadmits => absurd hadmits (Nat.lt_irrefl 0)⟩
  exact (hsafe.run hbudget hsecs hruns).within

/-! ### What the gate does not see -/

/-- Exact arithmetic; counts this small are exact in a binary64 too. -/
def exactRounding : Rounding := ⟨id, fun _ _ h => h, fun _ _ => rfl⟩

def hourWatch : Watch := { key := str "k", secs := 3600, epoch := 0, budget := 1, start := 0 }

def hourGate (millis : Nat) : FleetEvent :=
  .gate (str "k") 1 (3600 * nanosPerSec) (millis * 1000000) (millis * 1000000)

def hourPass (millis : Nat) : List FleetEvent :=
  [.claim (millis * 1000000) (millis * 1000000), .push, .read, .apply (millis * 1000000)]

def hourFleet : Fleet :=
  { counters := { interval := 500 * 1000000, states := KeyMap.empty }, shared := fun _ => 0 }

theorem hour_gate_keeps_budget :
    (hourFleet.run exactRounding (hourGate 0 :: hourPass 1 ++ [hourGate 2])).recorded.count
      hourWatch.account ≤ 1 := by
  refine admits_le_budget exactRounding (by decide) (by decide) _ (by decide +kernel) ?_
  have hfresh : ((hourFleet.run exactRounding (hourGate 0 :: hourPass 1)).counters.states.get
      (str "k")).all (fun s => 2 * 1000000 - s.estimateAt < 2 * nanosPerSec) = true := by decide +kernel
  refine ⟨⟨⟨Nat.zero_le _, by decide⟩, fun _ => ⟨rfl, by decide, by decide⟩⟩,
    fun _ => ⟨rfl, Or.inl (by decide +kernel)⟩, ⟨⟨Nat.zero_le _, by decide⟩, by decide⟩, trivial, trivial,
    trivial, trivial, trivial, trivial, trivial,
    ⟨⟨Nat.zero_le _, by decide⟩, fun _ => ⟨rfl, by decide, by decide⟩⟩,
    fun _ => ⟨by decide +kernel, Or.inr fun s hs => ?_⟩, trivial⟩
  have hget : (hourFleet.run exactRounding (hourGate 0 :: hourPass 1)).counters.states.get (str "k") =
      some s := hs
  rw [hget] at hfresh
  have hstale : (hourFleet.run exactRounding (hourGate 0 :: hourPass 1)).counters.staleAfter =
      2 * nanosPerSec := by decide +kernel
  have hlt := of_decide_eq_true hfresh
  rw [← hstale] at hlt
  exact hlt

/-- Between the claim of a pass and its apply an admit is counted nowhere; and a key that idles for two
seconds is not refreshed by the passes and its estimate is no longer trusted. Both times the second
request of the hour is admitted. -/
theorem gate_admits_past_budget :
    (hourFleet.run exactRounding [hourGate 0, .claim 0 0, hourGate 1]).recorded.count
        hourWatch.account = 2 ∧
      (hourFleet.run exactRounding (hourGate 0 :: hourPass 1 ++ hourPass 500 ++ hourPass 1000 ++
        hourPass 1500 ++ hourPass 2000 ++ [hourGate 2300])).recorded.count hourWatch.account = 2 := by
  decide +kernel

end Fleet

end StructuredProxy
