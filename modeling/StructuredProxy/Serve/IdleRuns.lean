import StructuredProxy.Serve.Idle
import Mathlib.Order.Monotone.Basic

/-!
# A timeout without requests

While a timer runs, a request that starts leaves a notification, and a poll that finds one measures
again. So `idle_for` resolves after a whole timeout without a request, unless a poll that finds both the
timer and a notification ready takes the timer.
-/

namespace StructuredProxy.Serve.Activity

open Lib

variable {timeout : Nat} {activity : Activity} {choice : Choice}

structure Measured (timeout : Nat) (quiet : Nat → Prop) (before after : Activity) : Prop where
  clock : after.clock = before.clock
  active : after.active = before.active
  sleeps : ∀ since changed, after.idle = .sleeping since changed → quiet since
  resolves : ∀ instant, after.idle = .resolved instant →
    before.idle = .resolved instant ∨
      instant = before.clock ∧ ∃ since, quiet since ∧ since + timeout ≤ instant

variable {quiet : Nat → Prop} {choices : List Choice}

theorem Measured.of_measure (hnow : activity.active = 0 → quiet activity.clock)
    (htail : ∀ later : Activity, (later.active = 0 → quiet later.clock) →
      (∀ since changed, later.idle = .sleeping since changed → quiet since) →
        Measured timeout quiet later (loop timeout choices later)) :
    Measured timeout quiet activity (loop timeout choices activity.measure) := by
  have hmeasured := htail activity.measure hnow fun since changed h => by
    by_cases hactive : activity.active = 0
    · rw [measure, if_pos hactive] at h
      cases h
      exact hnow hactive
    · rw [measure, if_neg hactive] at h
      cases h
  refine ⟨hmeasured.clock, hmeasured.active, hmeasured.sleeps, fun instant h => ?_⟩
  rcases hmeasured.resolves instant h with hbefore | hresolves
  · rw [measure] at hbefore
    dsimp only at hbefore
    split at hbefore
    · cases hbefore
    · cases hbefore
  · exact Or.inr hresolves

/-- One turn and what comes after it. Only a turn that resolves with a notification pending measures
what was not quiet. -/
theorem loop_cons_measured (hnow : activity.active = 0 → quiet activity.clock)
    (hquiet : ∀ since changed, activity.idle = .sleeping since changed →
      changed = .woken ∧ ¬ (choice.sleepFirst = true ∧ choice.fired = true ∧
        since + timeout ≤ activity.clock ∧ activity.active = 0) ∨ quiet since)
    (htail : ∀ later : Activity, (later.active = 0 → quiet later.clock) →
      (∀ since changed, later.idle = .sleeping since changed → quiet since) →
        Measured timeout quiet later (loop timeout choices later)) :
    Measured timeout quiet activity (loop timeout (choice :: choices) activity) := by
  have hturned := turned timeout choice activity
  rw [loop]
  generalize turn timeout choice activity = result at hturned
  cases hturned with
  | pends since hidle =>
      refine ⟨rfl, rfl, fun other changed h => ?_, fun _ h => IdleFor.noConfusion h⟩
      cases h
      rcases hidle with hidle | hidle
      · rcases hquiet since _ hidle with ⟨hwoken, -⟩ | hsince
        · cases hwoken
        · exact hsince
      · rcases hquiet since _ hidle with ⟨hwoken, -⟩ | hsince
        · cases hwoken
        · exact hsince
  | waits hidle => exact ⟨rfl, rfl, fun _ _ h => IdleFor.noConfusion h, fun _ h => IdleFor.noConfusion h⟩
  | resolves since changed permit hidle hactive hdue hfired hfirst =>
      refine ⟨rfl, rfl, fun _ _ h => IdleFor.noConfusion h, fun instant h => Or.inr ?_⟩
      cases h
      refine ⟨rfl, since, ?_, hdue⟩
      rcases hquiet since changed hidle with ⟨rfl, hnot⟩ | hsince
      · rcases hfirst with hsleep | hready
        · exact absurd ⟨hsleep, hfired, hdue, hactive⟩ hnot
        · cases hready
      · exact hsince
  | rounds permit hless =>
      have hround := @Measured.of_measure timeout { activity with permit } quiet choices hnow htail
      exact ⟨hround.clock, hround.active, hround.sleeps, hround.resolves⟩
  | stands hidle =>
      refine ⟨rfl, rfl, fun since changed h => ?_, fun instant h => Or.inl h⟩
      rcases hidle with hidle | ⟨instant, hidle⟩
      · cases hidle.symm.trans h
      · cases hidle.symm.trans h

theorem loop_measured (choices : List Choice) : ∀ activity : Activity,
    (activity.active = 0 → quiet activity.clock) →
    (∀ since changed, activity.idle = .sleeping since changed → quiet since) →
      Measured timeout quiet activity (loop timeout choices activity) := by
  induction choices with
  | nil => exact fun _ _ hquiet => ⟨rfl, rfl, hquiet, fun _ h => Or.inl h⟩
  | cons choice choices ih =>
      intro activity hnow hquiet
      exact loop_cons_measured hnow (fun since changed h => Or.inr (hquiet since changed h)) ih

def Notices (timeout : Nat) (activity : Activity) : Event → Prop
  | .poll first _ _ => ∀ since, activity.idle = .sleeping since .woken → activity.active = 0 →
      first.fired = true → since + timeout ≤ activity.clock → first.sleepFirst = false
  | _ => True

theorem poll_measured {first second third : Choice}
    (hnow : activity.active = 0 → quiet activity.clock)
    (hquiet : ∀ since changed, activity.idle = .sleeping since changed →
      changed = .woken ∨ quiet since)
    (hnotices : Notices timeout activity (.poll first second third)) :
    Measured timeout quiet activity (activity.poll timeout first second third) := by
  rw [poll]
  split
  · exact .of_measure hnow (loop_measured _)
  · refine loop_cons_measured hnow (fun since changed hidle => ?_) (loop_measured _)
    rcases hquiet since changed hidle with rfl | hsince
    · refine Or.inl ⟨rfl, fun hresolves => ?_⟩
      obtain ⟨hsleep, hfired, hdue, hactive⟩ := hresolves
      rw [hnotices since hidle hactive hfired hdue] at hsleep
      cases hsleep
    · exact Or.inr hsince

/-! ### Whole schedules -/

section

variable (timeout) (events : Nat → Event)

def Quiet (moment since : Nat) : Prop :=
  ∃ start, start ≤ moment ∧ (run timeout events start).clock = since ∧
    ∀ between, start ≤ between → between ≤ moment → (run timeout events between).active = 0

/-- What holds at every moment: a timer that no notification ends runs since it is quiet, and one that
ran out had been quiet for the timeout. -/
structure Sound (moment : Nat) : Prop where
  sleeps : ∀ since changed, (run timeout events moment).idle = .sleeping since changed →
    changed = .woken ∨ Quiet timeout events moment since
  resolved : ∀ instant, (run timeout events moment).idle = .resolved instant →
    instant ≤ (run timeout events moment).clock ∧
      ∀ earlier < moment, 0 < (run timeout events earlier).active →
        (run timeout events (earlier + 1)).clock + timeout ≤ instant ∨
          instant ≤ (run timeout events earlier).clock

end

variable {events : Nat → Event} {moment since : Nat}

theorem run_succ : run timeout events (moment + 1) =
    happen timeout moment (run timeout events moment) (events moment) := rfl

theorem Quiet.active (h : Quiet timeout events moment since) :
    (run timeout events moment).active = 0 := by
  obtain ⟨start, hstart, -, hquiet⟩ := h
  exact hquiet moment hstart (Nat.le_refl _)

theorem Quiet.succ (h : Quiet timeout events moment since)
    (hactive : (run timeout events (moment + 1)).active = 0) :
    Quiet timeout events (moment + 1) since := by
  obtain ⟨start, hstart, hclock, hquiet⟩ := h
  refine ⟨start, Nat.le_succ_of_le hstart, hclock, fun between hfrom hto => ?_⟩
  rcases Nat.le_or_eq_of_le_succ hto with hto | rfl
  · exact hquiet between hfrom hto
  · exact hactive

theorem notifyOne_sleeping {changed : Notified} (hsettled : activity.settled = true)
    (h : activity.notifyOne.idle = .sleeping since changed) : changed = .woken := by
  obtain ⟨clock, active, permit, idle⟩ := activity
  cases idle with
  | sleeping since own =>
      cases own with
      | init => cases hsettled
      | queued =>
          cases h
          rfl
      | woken =>
          cases h
          rfl
  | waiting own => cases own <;> cases h
  | _ => cases h

theorem notifyOne_resolved {instant : Nat} (h : activity.notifyOne.idle = .resolved instant) :
    activity.idle = .resolved instant := by
  obtain ⟨clock, active, permit, idle⟩ := activity
  cases idle with
  | sleeping since own => cases own <;> cases h
  | waiting own => cases own <;> cases h
  | unpolled => cases h
  | resolved own => exact h

theorem notifyOne_keeps (activity : Activity) :
    activity.notifyOne.clock = activity.clock ∧ activity.notifyOne.active = activity.active := by
  rw [notifyOne]
  split
  · exact ⟨rfl, rfl⟩
  · exact ⟨rfl, rfl⟩

theorem poll_keeps (first second third : Choice) (activity : Activity) :
    (activity.poll timeout first second third).clock = activity.clock ∧
      (activity.poll timeout first second third).active = activity.active := by
  have hmeasured : Measured timeout (fun _ => True) activity
      (activity.poll timeout first second third) := by
    rw [poll]
    split
    · exact .of_measure (fun _ => trivial) fun later _ _ =>
        loop_measured _ later (fun _ => trivial) fun _ _ _ => trivial
    · exact loop_measured _ _ (fun _ => trivial) fun _ _ _ => trivial
  exact ⟨hmeasured.clock, hmeasured.active⟩

theorem clock_le_succ (moment : Nat) :
    (run timeout events moment).clock ≤ (run timeout events (moment + 1)).clock := by
  rw [run_succ]
  cases events moment with
  | tick elapsed => exact Nat.le_add_right _ _
  | enter =>
      rw [happen, enter]
      split
      · rw [(notifyOne_keeps _).1]
      · exact Nat.le_refl _
  | leave =>
      rw [happen, leave]
      split
      · rw [(notifyOne_keeps _).1]
      · exact Nat.le_refl _
  | poll first second third => rw [happen, (poll_keeps first second third _).1]

theorem clock_mono {earlier later : Nat} (h : earlier ≤ later) :
    (run timeout events earlier).clock ≤ (run timeout events later).clock :=
  monotone_nat_of_le_succ clock_le_succ h

theorem Sound.resolved_succ {instant : Nat} (h : Sound timeout events moment)
    (hidle : (run timeout events moment).idle = .resolved instant) :
    instant ≤ (run timeout events (moment + 1)).clock ∧
      ∀ earlier < moment + 1, 0 < (run timeout events earlier).active →
        (run timeout events (earlier + 1)).clock + timeout ≤ instant ∨
          instant ≤ (run timeout events earlier).clock := by
  obtain ⟨hclock, hearlier⟩ := h.resolved instant hidle
  refine ⟨Nat.le_trans hclock (clock_le_succ moment), fun earlier hlt hactive => ?_⟩
  rcases Nat.lt_succ_iff_lt_or_eq.mp hlt with hlt | rfl
  · exact hearlier earlier hlt hactive
  · exact Or.inr hclock

theorem Sound.succ (h : Sound timeout events moment)
    (hsleeps : ∀ since changed, (run timeout events (moment + 1)).idle = .sleeping since changed →
      changed = .woken ∨ Quiet timeout events (moment + 1) since)
    (hresolved : ∀ instant, (run timeout events (moment + 1)).idle = .resolved instant →
      (run timeout events moment).idle = .resolved instant) :
    Sound timeout events (moment + 1) :=
  ⟨hsleeps, fun instant hinstant => h.resolved_succ (hresolved instant hinstant)⟩

theorem Sound.untold (h : Sound timeout events moment)
    (hidle : (run timeout events (moment + 1)).idle = (run timeout events moment).idle)
    (hactive : (run timeout events moment).active = 0 → (run timeout events (moment + 1)).active = 0) :
    Sound timeout events (moment + 1) := by
  refine h.succ (fun since changed hsleeping => ?_) fun instant hresolved => hidle ▸ hresolved
  rw [hidle] at hsleeping
  rcases h.sleeps since changed hsleeping with hwoken | hquiet
  · exact Or.inl hwoken
  · exact Or.inr (hquiet.succ (hactive hquiet.active))

theorem Sound.notified {active : Nat} (h : Sound timeout events moment)
    (hrun : run timeout events (moment + 1) = notifyOne { run timeout events moment with active }) :
    Sound timeout events (moment + 1) := by
  have hsettled : settled { run timeout events moment with active } = true :=
    run_settled events moment
  refine h.succ (fun since changed hidle => Or.inl ?_) fun instant hidle => ?_
  · rw [hrun] at hidle
    exact notifyOne_sleeping hsettled hidle
  · rw [hrun] at hidle
    have hbefore := notifyOne_resolved hidle
    exact hbefore

theorem Sound.enter (h : Sound timeout events moment) (hevent : events moment = .enter) :
    Sound timeout events (moment + 1) := by
  have hrun : run timeout events (moment + 1) = (run timeout events moment).enter := by
    rw [run_succ, hevent]
    rfl
  by_cases hactive : (run timeout events moment).active = 0
  · rw [Activity.enter, if_pos hactive] at hrun
    exact h.notified hrun
  · rw [Activity.enter, if_neg hactive] at hrun
    exact h.untold (by rw [hrun]) fun hnone => absurd hnone hactive

theorem Sound.leave (h : Sound timeout events moment) (hevent : events moment = .leave) :
    Sound timeout events (moment + 1) := by
  have hrun : run timeout events (moment + 1) = (run timeout events moment).leave := by
    rw [run_succ, hevent]
    rfl
  by_cases hlast : (run timeout events moment).active = 1
  · rw [Activity.leave, if_pos hlast] at hrun
    exact h.notified hrun
  · rw [Activity.leave, if_neg hlast] at hrun
    refine h.untold (by rw [hrun]) fun hnone => ?_
    rw [hrun, hnone]

theorem Sound.poll {first second third : Choice} (h : Sound timeout events moment)
    (hevent : events moment = .poll first second third)
    (hnotices : Notices timeout (run timeout events moment) (events moment)) :
    Sound timeout events (moment + 1) := by
  have hrun : run timeout events (moment + 1) =
      (run timeout events moment).poll timeout first second third := by
    rw [run_succ, hevent]
    rfl
  rw [hevent] at hnotices
  have hnow : (run timeout events moment).active = 0 →
      Quiet timeout events moment (run timeout events moment).clock := by
    intro hactive
    refine ⟨moment, Nat.le_refl _, rfl, fun between hfrom hto => ?_⟩
    rw [Nat.le_antisymm hto hfrom]
    exact hactive
  have hmeasured := poll_measured hnow h.sleeps hnotices
  rw [← hrun] at hmeasured
  refine ⟨fun since changed hidle => Or.inr ?_, fun instant hidle => ?_⟩
  · have hquiet := hmeasured.sleeps since changed hidle
    exact hquiet.succ (hmeasured.active.trans hquiet.active)
  · rcases hmeasured.resolves instant hidle with hbefore | ⟨rfl, since, hquiet, hdue⟩
    · exact h.resolved_succ hbefore
    · obtain ⟨start, -, rfl, hnone⟩ := hquiet
      refine ⟨clock_le_succ moment, fun earlier hlt hactive => Or.inl ?_⟩
      -- a request was in flight only before the timer was armed
      have hbefore : earlier < start := by
        by_contra hfrom
        rw [hnone earlier (Nat.le_of_not_lt hfrom) (Nat.le_of_lt_succ hlt)] at hactive
        exact Nat.lt_irrefl 0 hactive
      have hclock : (run timeout events (earlier + 1)).clock ≤ (run timeout events start).clock :=
        clock_mono hbefore
      omega

theorem run_sound (hnotices : ∀ moment, Notices timeout (run timeout events moment) (events moment))
    (moment : Nat) : Sound timeout events moment := by
  induction moment with
  | zero => exact ⟨fun _ _ h => IdleFor.noConfusion h, fun _ h => IdleFor.noConfusion h⟩
  | succ moment ih =>
      cases hevent : events moment with
      | tick elapsed =>
          have hrun : run timeout events (moment + 1) =
              { run timeout events moment with
                clock := (run timeout events moment).clock + elapsed } := by
            rw [run_succ, hevent]
            rfl
          exact ih.untold (by rw [hrun]) fun hnone => by rw [hrun, hnone]
      | enter => exact ih.enter hevent
      | leave => exact ih.leave hevent
      | poll first second third => exact ih.poll hevent (hnotices moment)

/-- **`idle_for` resolves only after a whole timeout without a request in flight**, in every
interleaving in which no poll prefers the timer to a notification. -/
theorem resolves_after_idle (timeout : Nat) (events : Nat → Event)
    (hnotices : ∀ moment, Notices timeout (run timeout events moment) (events moment))
    (moment instant : Nat) (hresolved : (run timeout events moment).idle = .resolved instant)
    (during : Nat) (hafter : instant < during + timeout) (hbefore : during < instant) :
    ¬ InFlightAt timeout events during := by
  rintro ⟨earlier, hactive, hfrom, hto⟩
  obtain ⟨hclock, hidle⟩ := (run_sound hnotices moment).resolved instant hresolved
  by_cases hlt : earlier < moment
  · rcases hidle earlier hlt hactive with hended | hlater
    · omega
    · omega
  · have hlater : (run timeout events moment).clock ≤ (run timeout events earlier).clock :=
      clock_mono (Nat.le_of_not_lt hlt)
    omega

/-! A request comes and goes between two polls. -/

def timerFirst : Choice := ⟨true, true⟩

def notifiedFirst : Choice := ⟨false, true⟩

def cameAndWent (choice : Choice) : List Event :=
  [.poll choice choice choice, .tick 800, .enter, .tick 100, .leave, .tick 100,
    .poll choice choice choice, .tick 1000, .poll choice choice choice]

def cameAndWentEvents (choice : Choice) (moment : Nat) : Event :=
  (cameAndWent choice).getD moment (.tick 0)

theorem cameAndWent_notices (moment : Nat) :
    Notices 1000 (run 1000 (cameAndWentEvents notifiedFirst) moment)
      (cameAndWentEvents notifiedFirst moment) := by
  rw [cameAndWentEvents, List.getD_eq_getElem?_getD]
  cases hevent : (cameAndWent notifiedFirst)[moment]? with
  | none => trivial
  | some event =>
      have hmem := List.mem_of_getElem? hevent
      rw [Option.getD_some]
      cases event with
      | poll first second third =>
          have hchoices : first = notifiedFirst ∧ second = notifiedFirst ∧ third = notifiedFirst := by
            simpa [cameAndWent] using hmem
          intro since _ _ _ _
          rw [hchoices.1]
          rfl
      | _ => trivial

/-- The notification restarts the timeout. -/
theorem cameAndWent_restarts :
    (run 1000 (cameAndWentEvents notifiedFirst) 9).idle = .resolved 2000 ∧
      ¬ InFlightAt 1000 (cameAndWentEvents notifiedFirst) 1500 :=
  ⟨rfl, resolves_after_idle 1000 _ cameAndWent_notices 9 2000 rfl 1500 (by decide) (by decide)⟩

/-- The timer and the notification are both ready at 1000, and the timer is polled first. -/
theorem cameAndWent_missed :
    (run 1000 (cameAndWentEvents timerFirst) 7).idle = .resolved 1000 ∧
      1000 < 850 + 1000 ∧ 850 < 1000 ∧ InFlightAt 1000 (cameAndWentEvents timerFirst) 850 :=
  ⟨rfl, by decide, by decide, 3, by decide, by decide, by decide⟩

end StructuredProxy.Serve.Activity
