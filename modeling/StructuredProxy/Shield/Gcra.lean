import StructuredProxy.Lib.Machine

/-!
# The rate limiter

GCRA keeps one instant for each key, its theoretical arrival time (TAT). A request conforms when it comes
no earlier than `tau` before the TAT, and moves the TAT on by one emission interval. Instants and
durations are nanoseconds.
-/

namespace StructuredProxy

open Lib

structure Profile where
  rate : Nat
  window : Nat
  burst : Nat

/-- A limiter, as `from_profile` builds it: the tolerance is one emission interval for each request of
the burst after the first, of which it counts `u32::MAX` at most. -/
structure Gcra where
  emissionInterval : Nat
  tau : Nat
  burst : Nat
  interval_pos : 0 < emissionInterval
  burst_pos : 0 < burst
  tau_eq : tau = emissionInterval * min (burst - 1) (2 ^ 32 - 1)

structure Verdict where
  allowed : Bool
  newTat : Nat
  remaining : Nat
  retryAfter : Nat
  resetAfter : Nat
deriving DecidableEq

/-- A duration of so many nanoseconds, at most `Duration::MAX`. -/
def durationFromNanos (nanos : Nat) : Nat :=
  if nanos / nanosPerSec < 2 ^ 64 then nanos else maxDuration

theorem durationFromNanos_pos {nanos : Nat} (h : 0 < nanos) : 0 < durationFromNanos nanos := by
  unfold durationFromNanos
  split
  · exact h
  · decide

/-- Floor division of two durations, at most `u64::MAX`. -/
def divFloor (a b : Nat) : Nat := min (a / max b 1) (2 ^ 64 - 1)

def secsCeil (d : Nat) : Nat := min ((d + (nanosPerSec - 1)) / nanosPerSec) (2 ^ 64 - 1)

namespace Gcra

/-- The limiter of a profile, none when its tolerance overflows. -/
def fromProfile (profile : Profile) : Option Gcra :=
  let rate := max profile.rate 1
  let burst := max profile.burst 1
  let windowNanos := max profile.window 1
  let emissionInterval := durationFromNanos (max (windowNanos / rate) 1)
  (duration (emissionInterval * min (burst - 1) (2 ^ 32 - 1))).attach.map fun ⟨tau, htau⟩ =>
    { emissionInterval, tau, burst
      interval_pos := durationFromNanos_pos (Nat.lt_of_lt_of_le Nat.one_pos (Nat.le_max_right _ _))
      burst_pos := Nat.lt_of_lt_of_le Nat.one_pos (Nat.le_max_right _ _)
      tau_eq := (duration_eq_some.mp htau).2.symm }

variable (g : Gcra) (overflow : Overflow)

def countAdmissible (tat latest : Nat) : Option Nat :=
  if tat ≤ latest then
    (addU64 overflow 1 (divFloor (latest - tat) g.emissionInterval)).map (min · g.burst)
  else some 0

/-- Judge a request at `now`, given the stored TAT; none when the arithmetic panics. -/
def check (stored : Option Nat) (now : Nat) : Option Verdict := do
  let tat := stored.getD now
  let latest ← duration (now + g.tau)
  let admissible ← g.countAdmissible overflow tat latest
  if admissible = 0 then
    some {
      allowed := false
      newTat := tat
      remaining := 0
      retryAfter := tat - g.tau - now
      resetAfter := tat - now }
  else
    let newTat ← duration (max tat now + g.emissionInterval)
    some {
      allowed := true
      newTat
      remaining := admissible - 1
      retryAfter := 0
      resetAfter := newTat - now }

/-! ### The verdict in exact arithmetic -/

section Exact

variable (tat now : Nat)

def rejection : Verdict := ⟨false, tat, 0, tat - g.tau - now, tat - now⟩

def admission (admissible : Nat) : Verdict :=
  ⟨true, max tat now + g.emissionInterval, admissible - 1, 0, max tat now + g.emissionInterval - now⟩

def admissible : Nat := min (1 + (now + g.tau - tat) / g.emissionInterval) g.burst

def verdictAt : Verdict :=
  if tat ≤ now + g.tau then g.admission tat now (g.admissible tat now) else g.rejection tat now

def Fits : Prop :=
  now + g.tau ≤ maxDuration ∧ (tat ≤ now + g.tau →
    1 + (now + g.tau - tat) / g.emissionInterval < 2 ^ 64 ∧
      max tat now + g.emissionInterval ≤ maxDuration)

end Exact

variable {g overflow} {stored : Option Nat} {tat now : Nat} {v : Verdict}

theorem tau_div_le (g : Gcra) : g.tau / g.emissionInterval < 2 ^ 32 := by
  rw [g.tau_eq, Nat.mul_div_cancel_left _ g.interval_pos]
  omega

theorem admissible_pos : 0 < g.admissible tat now :=
  Nat.lt_min.mpr ⟨Nat.lt_of_lt_of_le Nat.one_pos (Nat.le_add_right _ _), g.burst_pos⟩

theorem verdictAt_allowed : (g.verdictAt tat now).allowed = true ↔ tat ≤ now + g.tau := by
  unfold verdictAt
  split
  · rename_i hle
    simp [admission, hle]
  · rename_i hle
    simp [rejection, hle]

theorem check_of_fits (hfits : g.Fits (stored.getD now) now) :
    g.check overflow stored now = some (g.verdictAt (stored.getD now) now) := by
  obtain ⟨hlatest, hconforms⟩ := hfits
  unfold check verdictAt countAdmissible
  generalize stored.getD now = tat at hconforms ⊢
  simp only [duration, hlatest, if_true, Option.bind_eq_bind, Option.bind_some]
  split
  · rename_i hle
    obtain ⟨hcount, hnew⟩ := hconforms hle
    have hdiv : divFloor (now + g.tau - tat) g.emissionInterval =
        (now + g.tau - tat) / g.emissionInterval := by
      rw [divFloor, Nat.max_eq_left g.interval_pos, Nat.min_eq_left (by omega)]
    have hne : g.admissible tat now ≠ 0 := Nat.pos_iff_ne_zero.mp admissible_pos
    simp only [hdiv, addU64_of_lt overflow hcount, Option.map_some, Option.bind_some, hnew, if_true]
    exact if_neg hne
  · rfl

/-- What a check may return: a rejection that keeps the TAT, or an admission of a request that
conforms. -/
theorem check_cases (h : g.check overflow stored now = some v) :
    v = g.rejection (stored.getD now) now ∨
      stored.getD now ≤ now + g.tau ∧ ∃ admissible, v = g.admission (stored.getD now) now admissible := by
  unfold check at h
  generalize stored.getD now = tat at h ⊢
  obtain ⟨latest, hlatest, h⟩ := Option.bind_eq_some_iff.mp h
  obtain ⟨-, rfl⟩ := duration_eq_some.mp hlatest
  obtain ⟨admissible, hadmissible, h⟩ := Option.bind_eq_some_iff.mp h
  split at h
  · exact Or.inl (Option.some.inj h).symm
  · rename_i hne
    obtain ⟨newTat, hnew, h⟩ := Option.bind_eq_some_iff.mp h
    obtain ⟨-, rfl⟩ := duration_eq_some.mp hnew
    refine Or.inr ⟨?_, admissible, (Option.some.inj h).symm⟩
    unfold countAdmissible at hadmissible
    split at hadmissible
    · assumption
    · exact absurd (Option.some.inj hadmissible).symm hne

end Gcra

end StructuredProxy
