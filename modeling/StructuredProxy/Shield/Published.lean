import StructuredProxy.Shield.Publish

/-!
# No admit is lost in a steady run

Where the window of a key stays, none of its plans is dropped, its admits are recorded and it is claimed
between any two rolls, every admit is pending, claimed or pushed, and a last claim and push leaves the
shared counters with exactly what was recorded.
-/

namespace StructuredProxy

open Lib

namespace Publishing

variable {p : Publishing}

/-! ### Never lost -/

section Steady

variable (key : Text) (w : Nat)

def rolls (p : Publishing) (window now : Nat) : Bool :=
  (p.counters.states.get key).any fun s => s.epoch ≠ epochAt now window

def SteadyLookup (claimed : Bool) (p : Publishing) (window now : Nat) : Prop :=
  windowSecs window = w ∧ (p.rolls key window now = true → claimed = true)

/-- A step that keeps to the window `w` of the key, drops none of its plans, records its admits and
rolls it only after a claim since the last roll. -/
def SteadyStep (claimed : Bool) (p : Publishing) : PublishEvent → Prop
  | .record other window now instant => other = key →
      p.SteadyLookup key w claimed window now ∧ (p.counters.stateFor key window now instant).isSome = true
  | .fleetRemaining other _ window now _ => other = key → p.SteadyLookup key w claimed window now
  | .drop plan => plan.key ≠ key
  | _ => True

def claimedAfter (claimed : Bool) (p : Publishing) : PublishEvent → Bool
  | .record other window now _ => claimed && !(other = key && p.rolls key window now)
  | .fleetRemaining other _ window now _ => claimed && !(other = key && p.rolls key window now)
  | .claim other _ => claimed || other = key
  | _ => claimed

def Steady : Bool → Publishing → List PublishEvent → Prop
  | _, _, [] => True
  | claimed, p, event :: events =>
      p.SteadyStep key w claimed event ∧
        Steady (p.claimedAfter key claimed event) (p.step event) events

structure Balanced (claimed : Bool) (p : Publishing) : Prop where
  balance : ∀ epoch, planned (key, w, epoch) p.pushed + planned (key, w, epoch) p.inFlight +
    p.counters.pending (key, w, epoch) = p.recorded.count (key, w, epoch)
  window : ∀ s, p.counters.states.get key = some s → s.windowSecs = w
  owed : claimed = true → ∀ s, p.counters.states.get key = some s → s.carryover = 0

end Steady

section

variable {key : Text} {w : Nat} {claimed : Bool}

theorem Balanced.kept (h : p.Balanced key w claimed) {window now : Nat}
    (hlookup : p.SteadyLookup key w claimed window now) :
    ∀ old, p.counters.states.get key = some old → old.windowSecs = windowSecs window ∧
      (old.epoch ≠ epochAt now window → old.carryover = 0) := by
  intro old hold
  refine ⟨(h.window old hold).trans hlookup.1.symm, fun hepoch => h.owed (hlookup.2 ?_) old hold⟩
  rw [rolls, hold]
  exact decide_eq_true hepoch

theorem Balanced.lookup (h : p.Balanced key w claimed) {window now instant : Nat} {s : KeyState}
    (hlookup : p.SteadyLookup key w claimed window now)
    (hlooked : LookedUp p.counters key window now instant s) :
    ({ p with counters := p.counters.setState key s } : Publishing).Balanced key w
      (claimed && !p.rolls key window now) := by
  refine ⟨fun epoch => ?_, fun other hother => ?_, fun hclaimed other hother => ?_⟩
  · have hpending := @LookedUp.pending_eq (key, w, epoch) _ _ _ _ _ hlooked (h.kept hlookup)
    have hset := @GlobalCounters.pending_setState (key, w, epoch) p.counters s
    simp only [hset, hpending]
    exact h.balance epoch
  · rw [GlobalCounters.setState, KeyMap.get_set_self] at hother
    obtain rfl := Option.some.inj hother
    exact hlooked.windowSecs_eq.trans hlookup.1
  · rw [GlobalCounters.setState, KeyMap.get_set_self] at hother
    obtain rfl := Option.some.inj hother
    obtain ⟨hclaimed, hstays⟩ := Bool.and_eq_true_iff.mp hclaimed
    cases hlooked with
    | made _ => rfl
    | reset _ _ => rfl
    | @rolled old hsome hwindow =>
        have hepoch : old.epoch = epochAt now window := by
          rw [rolls, hsome] at hstays
          simpa using hstays
        rw [← hepoch, KeyState.rollTo_self]
        exact h.owed hclaimed old hsome

theorem Balanced.setState_of_ne (h : p.Balanced key w claimed) {other : Text} (hne : key ≠ other)
    (s : KeyState) :
    ({ p with counters := p.counters.setState other s } : Publishing).Balanced key w claimed := by
  have hget : (p.counters.setState other s).states.get key = p.counters.states.get key :=
    KeyMap.get_set_of_ne hne
  refine ⟨fun epoch => ?_, ?_, ?_⟩
  · have hpending := @GlobalCounters.pending_setState_of_ne (key, w, epoch) other p.counters s hne
    simp only [hpending]
    exact h.balance epoch
  · simp only [hget]
    exact h.window
  · simp only [hget]
    exact h.owed

theorem Balanced.increment {window now instant : Nat} {s : KeyState}
    (hwindow : windowSecs window = w) (hlooked : LookedUp p.counters key window now instant s)
    (h : ({ p with counters := p.counters.setState key s } : Publishing).Balanced key w claimed) :
    ({ p with
      counters := p.counters.setState key { s with localCount := s.localCount + 1 }
      recorded := (key, windowSecs window, epochAt now window) :: p.recorded } :
        Publishing).Balanced key w claimed := by
  refine ⟨fun epoch => ?_, fun other hother => ?_, fun hclaimed other hother => ?_⟩
  · have hbalance := h.balance epoch
    simp only [pending_increment hlooked, List.count_cons, beq_iff_eq] at hbalance ⊢
    omega
  · rw [GlobalCounters.setState, KeyMap.get_set_self] at hother
    obtain rfl := Option.some.inj hother
    exact hlooked.windowSecs_eq.trans hwindow
  · rw [GlobalCounters.setState, KeyMap.get_set_self] at hother
    obtain rfl := Option.some.inj hother
    exact h.owed hclaimed s KeyMap.get_set_self

theorem Balanced.record (h : p.Balanced key w claimed) {other : Text} {window now instant : Nat}
    (hsteady : p.SteadyStep key w claimed (.record other window now instant)) :
    (p.step (.record other window now instant)).Balanced key w
      (p.claimedAfter key claimed (.record other window now instant)) := by
  by_cases hkey : other = key
  · subst hkey
    obtain ⟨hlookup, hsome⟩ := hsteady rfl
    obtain ⟨s, hstate⟩ := Option.isSome_iff_exists.mp hsome
    have hlooked := GlobalCounters.stateFor_cases hstate
    have hincremented := Balanced.increment hlookup.1 hlooked (h.lookup hlookup hlooked)
    simp only [step, GlobalCounters.record, hstate, Option.isSome_some, if_true, claimedAfter,
      decide_true, Bool.true_and]
    exact hincremented
  · have hcount : ∀ {window' epoch epoch' : Nat},
        ((other, window', epoch') :: p.recorded).count (key, w, epoch) =
          p.recorded.count (key, w, epoch) := by
      intro window' epoch epoch'
      refine List.count_cons_of_ne fun heq => hkey ?_
      exact (Prod.mk.inj heq).1
    simp only [step, GlobalCounters.record, claimedAfter, hkey, decide_false, Bool.false_and,
      Bool.not_false, Bool.and_true]
    cases hstate : p.counters.stateFor other window now instant with
    | none => exact h
    | some s =>
        have hother := h.setState_of_ne (Ne.symm hkey) { s with localCount := s.localCount + 1 }
        refine ⟨fun epoch => ?_, hother.window, hother.owed⟩
        simp only [Option.isSome_some, if_true, hcount]
        exact hother.balance epoch

theorem Balanced.fleetRemaining (h : p.Balanced key w claimed) {other : Text}
    {budget window now instant : Nat}
    (hsteady : p.SteadyStep key w claimed (.fleetRemaining other budget window now instant)) :
    (p.step (.fleetRemaining other budget window now instant)).Balanced key w
      (p.claimedAfter key claimed (.fleetRemaining other budget window now instant)) := by
  simp only [step, GlobalCounters.fleetRemaining, claimedAfter]
  cases hstate : p.counters.stateFor other window now instant with
  | none =>
      refine ⟨h.balance, h.window, fun hclaimed => h.owed ?_⟩
      exact (Bool.and_eq_true_iff.mp hclaimed).1
  | some s =>
      by_cases hkey : other = key
      · subst hkey
        simp only [decide_true, Bool.true_and]
        exact h.lookup (hsteady rfl) (GlobalCounters.stateFor_cases hstate)
      · simp only [hkey, decide_false, Bool.false_and, Bool.not_false, Bool.and_true]
        exact h.setState_of_ne (Ne.symm hkey) s

theorem Balanced.claim (h : p.Balanced key w claimed) (other : Text) (now : Nat) :
    (p.step (.claim other now)).Balanced key w (p.claimedAfter key claimed (.claim other now)) := by
  have hbalance : ∀ epoch, planned (key, w, epoch) p.pushed +
      planned (key, w, epoch) (p.inFlight ++ (p.counters.claimKey other now).1) +
      (p.counters.claimKey other now).2.pending (key, w, epoch) = p.recorded.count (key, w, epoch) := by
    intro epoch
    have hclaim := @GlobalCounters.pending_claimKey (key, w, epoch) p.counters other now
    have hbefore := h.balance epoch
    rw [planned_append]
    omega
  by_cases hkey : other = key
  · subst hkey
    refine ⟨hbalance, fun s hs => ?_, fun _ s hs => ?_⟩
    · simp only [step, GlobalCounters.claimKey] at hs
      cases hget : p.counters.states.get other with
      | none => simp [hget] at hs
      | some old =>
          simp only [hget, GlobalCounters.setState, KeyMap.get_set_self] at hs
          obtain rfl := Option.some.inj hs
          rw [KeyState.windowSecs_claim]
          exact h.window old hget
    · simp only [step, GlobalCounters.claimKey] at hs
      cases hget : p.counters.states.get other with
      | none => simp [hget] at hs
      | some old =>
          simp only [hget, GlobalCounters.setState, KeyMap.get_set_self] at hs
          obtain rfl := Option.some.inj hs
          exact (KeyState.unclaimed_claim other now old).2
  · have hget : (p.counters.claimKey other now).2.states.get key = p.counters.states.get key := by
      unfold GlobalCounters.claimKey
      cases p.counters.states.get other with
      | none => rfl
      | some s => exact KeyMap.get_set_of_ne (Ne.symm hkey)
    refine ⟨hbalance, ?_, ?_⟩
    · simp only [step, hget]
      exact h.window
    · simp only [step, hget, claimedAfter, hkey, decide_false, Bool.or_false]
      exact h.owed

theorem Balanced.push (h : p.Balanced key w claimed) (plan : PushPlan) :
    (p.step (.push plan)).Balanced key w claimed := by
  simp only [step]
  split
  · rename_i hmem
    refine ⟨fun epoch => ?_, h.window, h.owed⟩
    have hbalance := h.balance epoch
    rw [planned_erase hmem] at hbalance
    simp only [planned_cons]
    omega
  · exact h

theorem Balanced.drop (h : p.Balanced key w claimed) {plan : PushPlan} (hplan : plan.key ≠ key) :
    (p.step (.drop plan)).Balanced key w claimed := by
  refine ⟨fun epoch => ?_, h.window, h.owed⟩
  have hbalance := h.balance epoch
  simp only [step]
  by_cases hmem : plan ∈ p.inFlight
  · have haccount : plan.account ≠ (key, w, epoch) := fun heq => hplan (Prod.mk.inj heq).1
    rw [planned_erase hmem, if_neg haccount, Nat.zero_add] at hbalance
    exact hbalance
  · rw [List.erase_of_not_mem hmem]
    exact hbalance

theorem Balanced.apply (h : p.Balanced key w claimed) (r : Rounding) (now instant : Nat) (plan : PushPlan)
    (read : Nat × Nat) : (p.step (.apply r now instant plan read)).Balanced key w claimed := by
  have hstate : ∀ s, (p.counters.applyEstimate r now instant plan read).states.get key = some s →
      ∃ old, p.counters.states.get key = some old ∧ s.windowSecs = old.windowSecs ∧
        s.carryover = old.carryover := by
    intro s hs
    unfold GlobalCounters.applyEstimate at hs
    split at hs
    · exact ⟨s, hs, rfl, rfl⟩
    · split at hs
      · exact ⟨s, hs, rfl, rfl⟩
      · rename_i old hold
        split at hs
        · exact ⟨s, hs, rfl, rfl⟩
        · by_cases hkey : key = plan.key
          · subst hkey
            rw [GlobalCounters.setState, KeyMap.get_set_self] at hs
            obtain rfl := Option.some.inj hs
            exact ⟨old, hold, rfl, rfl⟩
          · rw [GlobalCounters.setState, KeyMap.get_set_of_ne hkey] at hs
            exact ⟨s, hs, rfl, rfl⟩
  refine ⟨fun epoch => ?_, fun s hs => ?_, fun hclaimed s hs => ?_⟩
  · simp only [step, GlobalCounters.pending_applyEstimate]
    exact h.balance epoch
  · obtain ⟨old, hold, hwindow, -⟩ := hstate s hs
    exact hwindow.trans (h.window old hold)
  · obtain ⟨old, hold, -, hcarryover⟩ := hstate s hs
    exact hcarryover.trans (h.owed hclaimed old hold)

theorem Balanced.evict (h : p.Balanced key w claimed) (other : Text) (instant : Nat) :
    (p.step (.evict other instant)).Balanced key w claimed := by
  have hstate : ∀ s, (p.step (.evict other instant)).counters.states.get key = some s →
      p.counters.states.get key = some s := by
    intro s hs
    simp only [step, KeyMap.get_retain] at hs
    exact (Option.filter_eq_some_iff.mp hs).1
  refine ⟨fun epoch => ?_, fun s hs => h.window s (hstate s hs),
    fun hclaimed s hs => h.owed hclaimed s (hstate s hs)⟩
  simp only [step]
  rw [GlobalCounters.pending_retain]
  · exact h.balance epoch
  · intro other' s hdropped
    exact GlobalCounters.pending_of_not_keeps (Bool.or_eq_false_iff.mp hdropped).2

theorem Balanced.step (h : p.Balanced key w claimed) {event : PublishEvent}
    (hsteady : p.SteadyStep key w claimed event) :
    (p.step event).Balanced key w (p.claimedAfter key claimed event) := by
  cases event with
  | record _ _ _ _ => exact h.record hsteady
  | fleetRemaining _ _ _ _ _ => exact h.fleetRemaining hsteady
  | claim other now => exact h.claim other now
  | push plan => exact h.push plan
  | drop plan => exact h.drop hsteady
  | apply r now instant plan read => exact h.apply r now instant plan read
  | evict other instant => exact h.evict other instant

theorem Balanced.run {events : List PublishEvent} : ∀ {p : Publishing} {claimed : Bool},
    p.Balanced key w claimed → Steady key w claimed p events →
    ∃ claimed', (p.run events).Balanced key w claimed' := by
  induction events with
  | nil => intro p claimed h _; exact ⟨claimed, h⟩
  | cons event events ih => intro p claimed h hsteady; exact ih (h.step hsteady.1) hsteady.2

end

/-- `claim_plans` claims one key after the other. -/
theorem run_claims (p : Publishing) (now : Nat) :
    p.run (p.counters.states.keys.map (.claim · now)) =
      { p with
        counters := (p.counters.claimPlans now).2
        inFlight := p.inFlight ++ (p.counters.claimPlans now).1 } := by
  have hfold : ∀ (keys : List Text) (plans : List PushPlan) (c : GlobalCounters),
      ({ p with counters := c, inFlight := p.inFlight ++ plans } : Publishing).run
          (keys.map (.claim · now)) =
        { p with
          counters := (keys.foldl (fun round key =>
            (round.1 ++ (round.2.claimKey key now).1, (round.2.claimKey key now).2)) (plans, c)).2
          inFlight := p.inFlight ++ (keys.foldl (fun round key =>
            (round.1 ++ (round.2.claimKey key now).1, (round.2.claimKey key now).2)) (plans, c)).1 } := by
    intro keys
    induction keys with
    | nil => intro plans c; rfl
    | cons key keys ih =>
        intro plans c
        rw [List.map_cons, run, List.foldl_cons, ← run, List.foldl_cons, ← ih]
        simp only [step, List.append_assoc]
  have hstart := hfold p.counters.states.keys [] p.counters
  rw [List.append_nil] at hstart
  exact hstart

theorem run_applies (p : Publishing) (r : Rounding) (now instant : Nat) (plans : List PushPlan)
    (reads : List (Nat × Nat)) :
    p.run ((plans.zip reads).map fun entry => .apply r now instant entry.1 entry.2) =
      { p with counters := p.counters.applyEstimates r now instant plans reads } := by
  unfold GlobalCounters.applyEstimates
  induction plans.zip reads generalizing p with
  | nil => rfl
  | cons entry entries ih =>
      rw [List.map_cons, run, List.foldl_cons, ← run, ih, List.foldl_cons]
      rfl

/-- A sweep visits one key after the other. -/
theorem run_evicts (p : Publishing) (instant : Nat) :
    p.run (p.counters.states.keys.map (.evict · instant)) =
      { p with counters := p.counters.evictStale instant } := by
  have hfold : ∀ (keys : List Text) (q : Publishing), q.run (keys.map (.evict · instant)) =
      { q with counters := { q.counters with states := q.counters.states.retain fun other s =>
          other ∉ keys || GlobalCounters.keeps instant s } } := by
    intro keys
    induction keys with
    | nil =>
        intro q
        have hall : q.counters.states.retain (fun other s =>
            decide (other ∉ ([] : List Text)) || GlobalCounters.keeps instant s) = q.counters.states := by
          refine KeyMap.retain_eq_self fun other s _ => ?_
          simp
        rw [hall]
        rfl
    | cons key keys ih =>
        intro q
        rw [List.map_cons, run, List.foldl_cons, ← run, ih]
        simp only [step, KeyMap.retain_retain]
        congr 3
        funext other s
        cases GlobalCounters.keeps instant s with
        | true => simp
        | false => simp [Bool.and_comm]
  have hstates : p.counters.states.retain (fun other s =>
      decide (other ∉ p.counters.states.keys) || GlobalCounters.keeps instant s) =
      p.counters.states.retain fun _ s => GlobalCounters.keeps instant s := by
    refine KeyMap.retain_congr fun other s hentry => ?_
    have hmem : other ∈ p.counters.states.keys := List.mem_map.mpr ⟨_, hentry, rfl⟩
    simp [hmem]
  rw [hfold, hstates]
  rfl

/-! ### What is published -/

def flush (key : Text) (now : Nat) (p : Publishing) : Publishing :=
  (p.step (.claim key now)).run ((p.step (.claim key now)).inFlight.map .push)

theorem run_pushes {plans : List PushPlan} : ∀ {p : Publishing}, p.inFlight = plans →
    (p.run (plans.map .push)).inFlight = [] ∧ (p.run (plans.map .push)).counters = p.counters ∧
      (p.run (plans.map .push)).recorded = p.recorded := by
  induction plans with
  | nil => intro p hplans; exact ⟨hplans, rfl, rfl⟩
  | cons plan plans ih =>
      intro p hplans
      have hstep : p.step (.push plan) = { p with inFlight := plans, pushed := plan :: p.pushed } := by
        simp only [step, hplans, List.mem_cons_self, if_true, List.erase_cons_head]
      rw [List.map_cons, run, List.foldl_cons, hstep]
      exact @ih { p with inFlight := plans, pushed := plan :: p.pushed } rfl

theorem steady_pushes {key : Text} {w : Nat} (plans : List PushPlan) : ∀ {claimed : Bool} {p : Publishing},
    Steady key w claimed p (plans.map .push) := by
  induction plans with
  | nil => intro claimed p; trivial
  | cons plan plans ih => intro claimed p; exact ⟨trivial, ih⟩

theorem pending_claimed {key : Text} {w epoch now : Nat} (c : GlobalCounters) :
    (c.claimKey key now).2.pending (key, w, epoch) = 0 := by
  unfold GlobalCounters.claimKey
  cases hget : c.states.get key with
  | none => simp only [GlobalCounters.pending, hget]; rfl
  | some s =>
      obtain ⟨hlocal, hcarryover⟩ := KeyState.unclaimed_claim key now s
      have hset := @GlobalCounters.pending_setState (key, w, epoch) c (s.claim key now).2
      simp only [hset, KeyState.pending, hlocal, hcarryover]
      split <;> split <;> rfl

def fresh (interval : Nat) : Publishing := { counters := ⟨interval, KeyMap.empty⟩ }

theorem planned_nil (account : Account) : planned account [] = 0 := rfl

theorem accounted_fresh (interval : Nat) : (fresh interval).Accounted := fun _ => Nat.le_refl 0

/-- No count of a key is more than the admits recorded: below `2 ^ 64` of them no `u64` overflows. -/
theorem counts_le_recorded (interval : Nat) (events : List PublishEvent) {key : Text} {s : KeyState}
    (hget : ((fresh interval).run events).counters.states.get key = some s) :
    s.localCount ≤ ((fresh interval).run events).recorded.length ∧
      s.carryover ≤ ((fresh interval).run events).recorded.length := by
  have haccounted := accounted_run (accounted_fresh interval) events
  generalize (fresh interval).run events = p at hget haccounted ⊢
  have hle : ∀ account : Account, account.1 = key → s.pending key account ≤ p.recorded.length := by
    rintro account rfl
    have hcount := List.count_le_length (a := account) (l := p.recorded)
    have hpending := haccounted account
    rw [GlobalCounters.pending_of_get hget] at hpending
    omega
  refine ⟨le_trans ?_ (hle (key, s.windowSecs, s.epoch) rfl),
    le_trans ?_ (hle (key, s.windowSecs, s.carryoverEpoch) rfl)⟩
  · rw [KeyState.pending, if_pos rfl]
    exact Nat.le_add_right _ _
  · rw [KeyState.pending, if_pos (rfl : (key, s.windowSecs, s.carryoverEpoch) = _)]
    exact Nat.le_add_left _ _

theorem balanced_fresh (interval : Nat) (key : Text) (w : Nat) : (fresh interval).Balanced key w true :=
  ⟨fun _ => rfl, fun s hs => (by cases hs), fun _ s hs => (by cases hs)⟩

/-- **No admit is published twice**, whatever the interleaving, and none is lost in a steady run that
ends with a claim and a push. -/
theorem published_once (interval : Nat) (events : List PublishEvent) (key : Text) (w epoch : Nat) :
    planned (key, w, epoch) ((fresh interval).run events).pushed ≤
        ((fresh interval).run events).recorded.count (key, w, epoch) ∧
      (Steady key w true (fresh interval) events → ∀ now,
        planned (key, w, epoch) (((fresh interval).run events).flush key now).pushed =
          ((fresh interval).run events).recorded.count (key, w, epoch)) := by
  constructor
  · have haccounted := accounted_run (accounted_fresh interval) events (key, w, epoch)
    omega
  · intro hsteady now
    obtain ⟨claimed, hbalanced⟩ := (balanced_fresh interval key w).run hsteady
    generalize (fresh interval).run events = p at hbalanced ⊢
    have hclaimed := hbalanced.claim key now
    obtain ⟨claimed', hflushed⟩ := hclaimed.run (steady_pushes (p.step (.claim key now)).inFlight)
    obtain ⟨hinFlight, hcounters, hrecorded⟩ := @run_pushes _ (p.step (.claim key now)) rfl
    have hbalance := hflushed.balance epoch
    rw [hinFlight, hcounters, hrecorded] at hbalance
    have hnone : (p.step (.claim key now)).counters.pending (key, w, epoch) = 0 :=
      pending_claimed p.counters
    rw [planned_nil, hnone] at hbalance
    exact hbalance

def twoEpochs : List PublishEvent :=
  [.record (str "k") (60 * nanosPerSec) 0 0,
    .record (str "k") (60 * nanosPerSec) (60 * nanosPerSec) 1]

theorem published_two_epochs : Steady (str "k") 60 true (fresh 0) twoEpochs ∧
    planned (str "k", 60, 0) (((fresh 0).run twoEpochs).flush (str "k") 0).pushed = 1 ∧
    planned (str "k", 60, 1) (((fresh 0).run twoEpochs).flush (str "k") 0).pushed = 1 := by
  have hsteady : Steady (str "k") 60 true (fresh 0) twoEpochs :=
    ⟨fun _ => ⟨⟨by decide, fun _ => rfl⟩, by decide +kernel⟩,
      fun _ => ⟨⟨by decide, fun _ => rfl⟩, by decide +kernel⟩, trivial⟩
  refine ⟨hsteady, ?_, ?_⟩
  · rw [(published_once 0 twoEpochs (str "k") 60 0).2 hsteady 0]
    decide +kernel
  · rw [(published_once 0 twoEpochs (str "k") 60 1).2 hsteady 0]
    decide +kernel

end Publishing

end StructuredProxy
