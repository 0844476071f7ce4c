import StructuredProxy.Lib.Schedules

/-!
# When a connection is idle

`idle_for` counts the time without a request in flight. Between its polls requests come and go; all it
learns of them is the count and one stored notification. Its loop goes round inside a poll, at one
instant, until it waits or resolves.
-/

namespace StructuredProxy.Serve

open Lib

/-- A `notified()` future: not polled yet, in the queue of the waiters, or taken from it by a
notification. -/
inductive Notified where
  | init
  | queued
  | woken
deriving DecidableEq

def Notified.ready (permit : Bool) : Notified → Bool
  | .init => permit
  | .queued => false
  | .woken => true

def Notified.turnsLeft (permit : Bool) : Notified → Nat
  | .init => permit.toNat + 1
  | .queued => permit.toNat + 2
  | .woken => 3

theorem Notified.turnsLeft_le (permit : Bool) (changed : Notified) : changed.turnsLeft permit ≤ 3 := by
  cases permit <;> cases changed <;> decide

theorem Notified.turnsLeft_pos (permit : Bool) (changed : Notified) : 0 < changed.turnsLeft permit := by
  cases changed <;> exact Nat.succ_pos _

theorem Notified.turnsLeft_of_ready {permit : Bool} {changed : Notified}
    (h : changed.ready permit = true) :
    (permit && changed = .woken).toNat + 1 < changed.turnsLeft permit := by
  revert h
  cases permit <;> cases changed <;> decide

theorem Notified.turnsLeft_of_dropped {permit : Bool} {changed : Notified} (h : changed ≠ .init) :
    (permit || changed = .woken).toNat + 1 < changed.turnsLeft permit := by
  revert h
  cases permit <;> cases changed <;> decide

inductive IdleFor where
  | unpolled
  /-- In `select!`, with a timer that runs since an instant. -/
  | sleeping (since : Nat) (changed : Notified)
  | waiting (changed : Notified)
  | resolved (instant : Nat)
deriving DecidableEq

def IdleFor.wake : IdleFor → Option IdleFor
  | .sleeping since .queued => some (.sleeping since .woken)
  | .waiting .queued => some (.waiting .woken)
  | _ => none

/-- The requests in flight on one connection, the permit its `Notify` stores, and the clock. -/
structure Activity where
  clock : Nat
  active : Nat
  permit : Bool
  idle : IdleFor

namespace Activity

def new : Activity := ⟨0, 0, false, .unpolled⟩

/-- `notify_one`: without a waiter the permit is stored. -/
def notifyOne (activity : Activity) : Activity :=
  match activity.idle.wake with
  | some idle => { activity with idle }
  | none => { activity with permit := true }

def enter (activity : Activity) : Activity :=
  let entered := { activity with active := activity.active + 1 }
  if activity.active = 0 then entered.notifyOne else entered

/-- A guard drops; there is none when no request is in flight. -/
def leave (activity : Activity) : Activity :=
  let left := { activity with active := activity.active - 1 }
  if activity.active = 1 then left.notifyOne else left

/-- What a turn of the loop does not decide: which branch of `select!` is polled first, and whether a
timer that is due has fired yet. -/
structure Choice where
  sleepFirst : Bool
  fired : Bool

def measure (activity : Activity) : Activity :=
  { activity with
    idle := if activity.active = 0 then .sleeping activity.clock .init else .waiting .init }

variable (timeout : Nat)

/-- One turn of the loop after its head, and whether it goes round again. -/
def turn (choice : Choice) (activity : Activity) : Activity × Bool :=
  match activity.idle with
  | .sleeping since changed =>
      if choice.fired ∧ since + timeout ≤ activity.clock ∧
          (choice.sleepFirst ∨ changed.ready activity.permit = false) then
        -- the other future is dropped first, and a notification it had got is stored again
        let activity := { activity with permit := activity.permit || changed = .woken }
        if activity.active = 0 then ({ activity with idle := .resolved activity.clock }, false)
        else (activity, true)
      else if changed.ready activity.permit then
        ({ activity with permit := activity.permit && changed = .woken }, true)
      else ({ activity with idle := .sleeping since .queued }, false)
  | .waiting changed =>
      if changed.ready activity.permit then
        ({ activity with permit := activity.permit && changed = .woken }, true)
      else ({ activity with idle := .waiting .queued }, false)
  | _ => (activity, false)

def loop : List Choice → Activity → Activity
  | [], activity => activity
  | choice :: choices, activity =>
      let (activity, again) := turn timeout choice activity
      if again then loop choices activity.measure else activity

def poll (first second third : Choice) (activity : Activity) : Activity :=
  loop timeout [first, second, third]
    (if activity.idle = .unpolled then activity.measure else activity)

inductive Event where
  | tick (elapsed : Nat)
  | enter
  | leave
  | poll (first second third : Choice)

def happen (_ : Nat) (activity : Activity) : Event → Activity
  | .tick elapsed => { activity with clock := activity.clock + elapsed }
  | .enter => activity.enter
  | .leave => activity.leave
  | .poll first second third => activity.poll timeout first second third

def run (events : Nat → Event) : Nat → Activity := stateAt (happen timeout) new events

/-- Whether a request is in flight at an instant: from its start to its end, both included. -/
def InFlightAt (events : Nat → Event) (instant : Nat) : Prop :=
  ∃ moment, 0 < (run timeout events moment).active ∧ (run timeout events moment).clock ≤ instant ∧
    instant ≤ (run timeout events (moment + 1)).clock

variable {timeout : Nat} {activity : Activity} {choice : Choice}

/-! ### A poll ends -/

def settled (activity : Activity) : Bool :=
  match activity.idle with
  | .sleeping _ .init => false
  | .waiting .init => false
  | _ => true

def turnsLeft (activity : Activity) : Nat :=
  match activity.idle with
  | .sleeping _ changed => changed.turnsLeft activity.permit
  | .waiting changed => changed.turnsLeft activity.permit
  | _ => 1

theorem turnsLeft_measure (activity : Activity) :
    activity.measure.turnsLeft = activity.permit.toNat + 1 := by
  rw [measure, turnsLeft]
  by_cases hactive : activity.active = 0
  · rw [if_pos hactive]
    rfl
  · rw [if_neg hactive]
    rfl

theorem turnsLeft_pos (activity : Activity) : 0 < activity.turnsLeft := by
  unfold turnsLeft
  split
  · exact Notified.turnsLeft_pos _ _
  · exact Notified.turnsLeft_pos _ _
  · exact Nat.one_pos

theorem turnsLeft_le (activity : Activity) : activity.turnsLeft ≤ 3 := by
  unfold turnsLeft
  split
  · exact Notified.turnsLeft_le _ _
  · exact Notified.turnsLeft_le _ _
  · decide

/-- What a turn does: `idle_for` waits, resolves, or goes round. -/
inductive Turned (timeout : Nat) (choice : Choice) (activity : Activity) : Activity × Bool → Prop where
  | pends (since : Nat) (hidle : activity.idle = .sleeping since .init ∨
      activity.idle = .sleeping since .queued) :
      Turned timeout choice activity ({ activity with idle := .sleeping since .queued }, false)
  | waits (hidle : ∃ changed, activity.idle = .waiting changed) :
      Turned timeout choice activity ({ activity with idle := .waiting .queued }, false)
  | resolves (since : Nat) (changed : Notified) (permit : Bool)
      (hidle : activity.idle = .sleeping since changed) (hactive : activity.active = 0)
      (hdue : since + timeout ≤ activity.clock) (hfired : choice.fired = true)
      (hfirst : choice.sleepFirst = true ∨ changed.ready activity.permit = false) :
      Turned timeout choice activity
        ({ activity with permit, idle := .resolved activity.clock }, false)
  | rounds (permit : Bool)
      (hless : permit.toNat + 1 < activity.turnsLeft ∨
        ∃ since, activity.idle = .sleeping since .init ∧ activity.active ≠ 0) :
      Turned timeout choice activity ({ activity with permit }, true)
  | stands (hidle : activity.idle = .unpolled ∨ ∃ instant, activity.idle = .resolved instant) :
      Turned timeout choice activity (activity, false)

theorem turned (timeout : Nat) (choice : Choice) (activity : Activity) :
    Turned timeout choice activity (turn timeout choice activity) := by
  obtain ⟨clock, active, permit, idle⟩ := activity
  cases idle with
  | unpolled => exact .stands (Or.inl rfl)
  | resolved instant => exact .stands (Or.inr ⟨instant, rfl⟩)
  | waiting changed =>
      unfold turn
      dsimp only
      split
      · rename_i hready
        exact .rounds _ (Or.inl (Notified.turnsLeft_of_ready hready))
      · exact .waits ⟨changed, rfl⟩
  | sleeping since changed =>
      unfold turn
      dsimp only
      split
      · rename_i hsleep
        obtain ⟨hfired, hdue, hfirst⟩ := hsleep
        split
        · rename_i hactive
          exact .resolves since changed _ rfl hactive hdue hfired hfirst
        · rename_i hactive
          refine .rounds _ ?_
          by_cases hinit : changed = .init
          · exact Or.inr ⟨since, by rw [hinit], hactive⟩
          · exact Or.inl (Notified.turnsLeft_of_dropped hinit)
      · split
        · rename_i hready
          exact .rounds _ (Or.inl (Notified.turnsLeft_of_ready hready))
        · rename_i hready
          cases changed with
          | init => exact .pends since (Or.inl rfl)
          | queued => exact .pends since (Or.inr rfl)
          | woken => exact absurd rfl hready

/-- A timer that is still to be polled was armed with no request in flight. -/
def Armed (activity : Activity) : Prop :=
  ∀ since, activity.idle = .sleeping since .init → activity.active = 0

theorem armed_measure (activity : Activity) : activity.measure.Armed := by
  intro since hidle
  by_cases hactive : activity.active = 0
  · exact hactive
  · rw [measure, if_neg hactive] at hidle
    cases hidle

/-- With a turn for each that may be left, the loop comes to its end. -/
theorem loop_settled (choices : List Choice) : ∀ activity : Activity, activity.Armed →
    activity.turnsLeft ≤ choices.length → (loop timeout choices activity).settled = true := by
  induction choices with
  | nil =>
      intro activity _ hleft
      exact absurd (turnsLeft_pos activity) (Nat.not_lt.mpr hleft)
  | cons choice choices ih =>
      intro activity harmed hleft
      have hturned := turned timeout choice activity
      rw [loop]
      generalize turn timeout choice activity = result at hturned
      cases hturned with
      | pends since hidle => rfl
      | waits hidle => rfl
      | resolves since changed permit hidle hactive hdue hfired hfirst => rfl
      | rounds permit hless =>
          rcases hless with hless | ⟨since, hidle, hactive⟩
          · refine ih _ (armed_measure _) ?_
            rw [turnsLeft_measure]
            rw [List.length_cons] at hleft
            exact Nat.le_of_lt_succ (Nat.lt_of_lt_of_le hless hleft)
          · exact absurd (harmed since hidle) hactive
      | stands hidle =>
          rcases hidle with hidle | ⟨instant, hidle⟩
          · simp only [Bool.false_eq_true, ↓reduceIte, settled, hidle]
          · simp only [Bool.false_eq_true, ↓reduceIte, settled, hidle]

theorem poll_settled (first second third : Choice) (h : activity.settled = true) :
    (activity.poll timeout first second third).settled = true := by
  refine loop_settled _ _ ?_ (turnsLeft_le _)
  split
  · exact armed_measure _
  · intro since hidle
    rw [settled, hidle] at h
    cases h

theorem notifyOne_settled (h : activity.settled = true) : activity.notifyOne.settled = true := by
  rw [notifyOne]
  split
  · rename_i idle hwake
    unfold IdleFor.wake at hwake
    split at hwake
    · cases hwake
      rfl
    · cases hwake
      rfl
    · cases hwake
  · exact h

theorem run_settled (events : Nat → Event) (moment : Nat) :
    (run timeout events moment).settled = true := by
  induction moment with
  | zero => rfl
  | succ moment ih =>
      rw [run, stateAt, ← run]
      cases events moment with
      | tick elapsed => exact ih
      | enter =>
          rw [happen, enter]
          split
          · exact notifyOne_settled ih
          · exact ih
      | leave =>
          rw [happen, leave]
          split
          · exact notifyOne_settled ih
          · exact ih
      | poll first second third => exact poll_settled first second third ih

end Activity

end StructuredProxy.Serve
