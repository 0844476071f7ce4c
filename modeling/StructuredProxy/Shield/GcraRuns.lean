import StructuredProxy.Shield.Gcra

/-!
# The limiter over a run of requests

The requests of one key, each judged against the TAT the earlier ones left. Every admission moves the TAT
on by at least an emission interval and conforms to a TAT no more than `tau` ahead, so the admissions in
an interval of time are bounded, and what a verdict reports is what later checks do.
-/

namespace StructuredProxy

open Lib

namespace Gcra

variable (g : Gcra) (overflow : Overflow)

def allows (stored : Option Nat) (now : Nat) : Bool := (g.check overflow stored now).any (·.allowed)

def store (stored : Option Nat) (now : Nat) : Option Nat :=
  match g.check overflow stored now with
  | some verdict => if verdict.allowed then some verdict.newTat else stored
  | none => stored

def admits : Option Nat → List Nat → List Nat
  | _, [] => []
  | stored, now :: nows =>
      if g.allows overflow stored now then now :: admits (g.store overflow stored now) nows
      else admits (g.store overflow stored now) nows

def after (stored : Option Nat) (nows : List Nat) : Option Nat := nows.foldl (g.store overflow) stored

variable {g overflow} {stored : Option Nat} {now : Nat}

theorem request_cases (g : Gcra) (overflow : Overflow) (stored : Option Nat) (now : Nat) :
    g.allows overflow stored now = false ∧ g.store overflow stored now = stored ∨
      g.allows overflow stored now = true ∧ stored.getD now ≤ now + g.tau ∧
        g.store overflow stored now = some (max (stored.getD now) now + g.emissionInterval) := by
  unfold allows store
  cases hcheck : g.check overflow stored now with
  | none => exact Or.inl ⟨rfl, rfl⟩
  | some v =>
      rcases check_cases hcheck with rfl | ⟨hconforms, admissible, rfl⟩
      · exact Or.inl ⟨rfl, rfl⟩
      · exact Or.inr ⟨rfl, hconforms, rfl⟩

def admitsWithin (g : Gcra) (overflow : Overflow) (a b : Nat) (stored : Option Nat) (nows : List Nat) :
    Nat :=
  ((g.admits overflow stored nows).filter fun now => a ≤ now && now ≤ b).length

/-- `m` admissions since `a` have moved the TAT on. -/
def Advanced (g : Gcra) (a m : Nat) (stored : Option Nat) : Prop :=
  m = 0 ∨ ∃ tat, stored = some tat ∧ a + m * g.emissionInterval ≤ tat

theorem admitsWithin_bound {a b : Nat} (hab : a ≤ b) {nows : List Nat} : ∀ {stored : Option Nat} {m : Nat},
    g.Advanced a m stored → g.admitsWithin overflow a b stored nows = 0 ∨
      (m + g.admitsWithin overflow a b stored nows - 1) * g.emissionInterval ≤ b - a + g.tau := by
  induction nows with
  | nil => intro stored m _; exact Or.inl rfl
  | cons now nows ih =>
      intro stored m hadvanced
      rcases request_cases g overflow stored now with
        ⟨hallows, hstore⟩ | ⟨hallows, hconforms, hstore⟩
      · have hadmits : g.admitsWithin overflow a b stored (now :: nows) =
            g.admitsWithin overflow a b stored nows := by
          simp only [admitsWithin, admits, hallows, Bool.false_eq_true, if_false, hstore]
        rw [hadmits]
        exact ih hadvanced
      · by_cases hwithin : a ≤ now ∧ now ≤ b
        · have hadmits : g.admitsWithin overflow a b stored (now :: nows) =
              g.admitsWithin overflow a b (g.store overflow stored now) nows + 1 := by
            simp only [admitsWithin, admits, hallows, if_true]
            rw [List.filter_cons_of_pos (by simpa using hwithin), List.length_cons]
          have hnext : g.Advanced a (m + 1) (g.store overflow stored now) := by
            refine Or.inr ⟨_, hstore, ?_⟩
            rcases hadvanced with rfl | ⟨tat, rfl, htat⟩
            · have hnow : now ≤ max (stored.getD now) now := Nat.le_max_right _ _
              rw [Nat.zero_add, Nat.one_mul]
              omega
            · have hold : tat ≤ max ((some tat).getD now) now := Nat.le_max_left _ _
              rw [Nat.add_mul, Nat.one_mul]
              omega
          have hfirst : m * g.emissionInterval ≤ b - a + g.tau := by
            rcases hadvanced with rfl | ⟨tat, rfl, htat⟩
            · rw [Nat.zero_mul]
              exact Nat.zero_le _
            · rw [Option.getD_some] at hconforms
              omega
          refine Or.inr ?_
          rw [hadmits]
          rcases ih hnext with hnone | hbound
          · rw [hnone]
            exact hfirst
          · have hsum : m + 1 + g.admitsWithin overflow a b (g.store overflow stored now) nows - 1 =
                m + (g.admitsWithin overflow a b (g.store overflow stored now) nows + 1) - 1 := by omega
            rw [hsum] at hbound
            exact hbound
        · have hadmits : g.admitsWithin overflow a b stored (now :: nows) =
              g.admitsWithin overflow a b (g.store overflow stored now) nows := by
            simp only [admitsWithin, admits, hallows, if_true]
            rw [List.filter_cons_of_neg (by simpa using hwithin)]
          rw [hadmits]
          refine ih ?_
          rcases hadvanced with rfl | ⟨tat, rfl, htat⟩
          · exact Or.inl rfl
          · refine Or.inr ⟨_, hstore, ?_⟩
            have hold : tat ≤ max ((some tat).getD now) now := Nat.le_max_left _ _
            omega

theorem tau_le (g : Gcra) : g.tau ≤ (g.burst - 1) * g.emissionInterval := by
  rw [g.tau_eq, Nat.mul_comm]
  exact Nat.mul_le_mul_right _ (Nat.min_le_left _ _)

theorem fromProfile_burst {profile : Profile} (h : fromProfile profile = some g) :
    g.burst = max profile.burst 1 := by
  obtain ⟨⟨tau, htau⟩, -, rfl⟩ := Option.map_eq_some_iff.mp h
  rfl

/-- **Every window is bounded.** In any interval a key is allowed no more requests than its burst and
one for each emission interval. -/
theorem admits_le_burst_add {profile : Profile} (h : fromProfile profile = some g) (stored : Option Nat)
    (nows : List Nat) (a b : Nat) :
    ((g.admits overflow stored nows).filter fun now => a ≤ now && now ≤ b).length ≤
      max profile.burst 1 + (b - a) / g.emissionInterval := by
  rw [← fromProfile_burst h]
  by_cases hab : a ≤ b
  · rcases @admitsWithin_bound g overflow a b hab nows stored 0 (Or.inl rfl) with hnone | hbound
    · exact Nat.le_trans (Nat.le_of_eq hnone) (Nat.zero_le _)
    · have htau := g.tau_le
      have hburst := g.burst_pos
      have hdiv : g.admitsWithin overflow a b stored nows - 1 - (g.burst - 1) ≤
          (b - a) / g.emissionInterval := by
        rw [Nat.le_div_iff_mul_le g.interval_pos, Nat.sub_mul]
        rw [Nat.zero_add] at hbound
        omega
      unfold admitsWithin at hdiv
      omega
  · have hempty : (g.admits overflow stored nows).filter (fun now => a ≤ now && now ≤ b) = [] := by
      rw [List.filter_eq_nil_iff]
      intro now _
      simp only [Bool.and_eq_true, decide_eq_true_eq]
      omega
    rw [hempty]
    exact Nat.zero_le _

def minuteProfile : Profile := { rate := 60, window := 60 * nanosPerSec, burst := 3 }

def minuteGcra : Gcra :=
  ⟨nanosPerSec, 2 * nanosPerSec, 3, by decide, by decide, by decide⟩

theorem fromProfile_minute : fromProfile minuteProfile = some minuteGcra := by rfl

theorem minute_admits_le : ((minuteGcra.admits .panics none
      [0, 0, 0, 0, nanosPerSec, nanosPerSec, 2 * nanosPerSec]).filter
        fun now => 0 ≤ now && now ≤ 2 * nanosPerSec).length ≤
    max minuteProfile.burst 1 + (2 * nanosPerSec - 0) / minuteGcra.emissionInterval :=
  admits_le_burst_add fromProfile_minute _ _ _ _

theorem allows_of_fits (hfits : g.Fits (stored.getD now) now) :
    g.allows overflow stored now = decide (stored.getD now ≤ now + g.tau) := by
  rw [allows, check_of_fits hfits, Option.any_some, Bool.eq_iff_iff, decide_eq_true_eq]
  exact verdictAt_allowed

section Instant

variable {tat : Nat}

theorem fits_of_room (hroom : now + g.tau + g.emissionInterval ≤ maxDuration)
    (hcount : 1 + (now + g.tau - tat) / g.emissionInterval < 2 ^ 64) : g.Fits tat now := by
  refine ⟨by omega, fun hconforms => ⟨hcount, ?_⟩⟩
  have hlatest : max tat now ≤ now + g.tau := Nat.max_le.mpr ⟨hconforms, Nat.le_add_right _ _⟩
  omega

theorem fits_of_le (hroom : now + g.tau + g.emissionInterval ≤ maxDuration) (hnow : now ≤ tat) :
    g.Fits tat now := by
  refine fits_of_room hroom ?_
  have hslack : (now + g.tau - tat) / g.emissionInterval ≤ g.tau / g.emissionInterval :=
    Nat.div_le_div_right (by omega)
  have htau := g.tau_div_le
  omega

/-- A TAT at or after `now` leaves room for one request for each emission interval it is ahead of the
latest one. -/
theorem length_admits_replicate (hroom : now + g.tau + g.emissionInterval ≤ maxDuration) (n : Nat) :
    ∀ {tat : Nat}, now ≤ tat → (g.admits overflow (some tat) (List.replicate n now)).length =
      min n ((now + g.tau + g.emissionInterval - tat) / g.emissionInterval) := by
  induction n with
  | zero => intro tat _; exact (Nat.zero_min _).symm
  | succ n ih =>
      intro tat hnow
      have hallows : g.allows overflow (some tat) now = decide (tat ≤ now + g.tau) :=
        allows_of_fits (fits_of_le hroom hnow)
      rw [List.replicate_succ, admits, hallows]
      rcases request_cases g overflow (some tat) now with ⟨hrefused, hstore⟩ | ⟨hallowed, hle, hstore⟩
      · have hlate : ¬tat ≤ now + g.tau := by
          rw [hallows, decide_eq_false_iff_not] at hrefused
          exact hrefused
        have hpos := g.interval_pos
        have hnone : (now + g.tau + g.emissionInterval - tat) / g.emissionInterval = 0 :=
          Nat.div_eq_of_lt (by omega)
        rw [decide_eq_false hlate, if_neg Bool.false_ne_true, hstore, ih hnow, hnone, Nat.min_zero,
          Nat.min_zero]
      · rw [Option.getD_some, Nat.max_eq_left hnow] at hstore
        rw [Option.getD_some] at hle
        have hnext : (now + g.tau + g.emissionInterval - tat) / g.emissionInterval =
            (now + g.tau + g.emissionInterval - (tat + g.emissionInterval)) / g.emissionInterval + 1 := by
          rw [← Nat.add_div_right _ g.interval_pos]
          congr 1
          omega
        rw [decide_eq_true hle, if_pos rfl, hstore, List.length_cons, ih (by omega), hnext]
        omega

theorem tau_of_burst (hburst : g.burst ≤ 2 ^ 32) : g.tau = g.emissionInterval * (g.burst - 1) := by
  rw [g.tau_eq, Nat.min_eq_left (by omega)]

theorem tau_div_eq (hburst : g.burst ≤ 2 ^ 32) : g.tau / g.emissionInterval = g.burst - 1 := by
  rw [tau_of_burst hburst, Nat.mul_div_cancel_left _ g.interval_pos]

theorem length_admits_after (hroom : now + g.tau + g.emissionInterval ≤ maxDuration) (n : Nat) :
    (g.admits overflow (some (max tat now + g.emissionInterval)) (List.replicate n now)).length =
      min n ((now + g.tau - max tat now) / g.emissionInterval) := by
  have hnow : now ≤ max tat now + g.emissionInterval :=
    Nat.le_trans (Nat.le_max_right _ _) (Nat.le_add_right _ _)
  rw [length_admits_replicate hroom n hnow, Nat.add_sub_add_right]

theorem length_admits_drained (hburst : g.burst ≤ 2 ^ 32)
    (hroom : now + g.tau + g.emissionInterval ≤ maxDuration)
    (hcount : 1 + (now + g.tau - stored.getD now) / g.emissionInterval < 2 ^ 64)
    (hdrained : ∀ tat ∈ stored, tat ≤ now) (n : Nat) :
    (g.admits overflow stored (List.replicate n now)).length = min n g.burst := by
  have htat : stored.getD now ≤ now := by
    cases stored with
    | none => exact Nat.le_refl now
    | some tat => exact hdrained tat rfl
  cases n with
  | zero => exact (Nat.zero_min _).symm
  | succ n =>
      have hallows : g.allows overflow stored now = true := by
        rw [allows_of_fits (fits_of_room hroom hcount)]
        exact decide_eq_true (by omega)
      rcases request_cases g overflow stored now with ⟨hrefused, -⟩ | ⟨-, -, hstore⟩
      · rw [hallows] at hrefused
        cases hrefused
      · have hleft : (now + g.tau - max (stored.getD now) now) / g.emissionInterval = g.burst - 1 := by
          rw [Nat.max_eq_right htat, Nat.add_sub_cancel_left, tau_div_eq hburst]
        have hpos := g.burst_pos
        rw [List.replicate_succ, admits, hallows, if_pos rfl, hstore, List.length_cons,
          length_admits_after hroom, hleft]
        omega

theorem remaining_eq (hburst : g.burst ≤ 2 ^ 32) (hconforms : tat ≤ now + g.tau) :
    g.admissible tat now - 1 = (now + g.tau - max tat now) / g.emissionInterval := by
  have htau := tau_div_eq hburst
  have hpos := g.burst_pos
  unfold admissible
  rcases Nat.le_total tat now with hle | hle
  · have hslack : g.tau / g.emissionInterval ≤ (now + g.tau - tat) / g.emissionInterval :=
      Nat.div_le_div_right (by omega)
    rw [Nat.max_eq_right hle, Nat.add_sub_cancel_left, Nat.min_eq_right (by omega)]
    exact htau.symm
  · have hslack : (now + g.tau - tat) / g.emissionInterval ≤ g.tau / g.emissionInterval :=
      Nat.div_le_div_right (by omega)
    rw [Nat.max_eq_left hle, Nat.min_eq_left (by omega), Nat.add_sub_cancel_left]

end Instant

/-! ### After a rejection -/

theorem admits_early {tat : Nat} (htat : tat ≤ maxDuration) {nows : List Nat}
    (hearly : ∀ now ∈ nows, now + g.tau < tat) :
    g.admits overflow (some tat) nows = [] ∧ g.after overflow (some tat) nows = some tat := by
  induction nows with
  | nil => exact ⟨rfl, rfl⟩
  | cons now nows ih =>
      rw [List.forall_mem_cons] at hearly
      have hfits : g.Fits ((some tat).getD now) now := by
        refine ⟨?_, fun hconforms => ?_⟩
        · have hlt := hearly.1
          omega
        · exact absurd hconforms (Nat.not_le_of_lt hearly.1)
      have hallows : g.allows overflow (some tat) now = false := by
        rw [allows_of_fits hfits, decide_eq_false_iff_not]
        exact Nat.not_le_of_lt hearly.1
      rcases request_cases g overflow (some tat) now with ⟨-, hstore⟩ | ⟨hallowed, -⟩
      · obtain ⟨hadmits, hafter⟩ := ih hearly.2
        refine ⟨?_, ?_⟩
        · rw [admits, hallows, if_neg Bool.false_ne_true, hstore, hadmits]
        · rw [after, List.foldl_cons, hstore]
          exact hafter
      · rw [hallows] at hallowed
        cases hallowed

theorem allows_on_time {tat : Nat} (htat : tat + nanosPerSec + g.emissionInterval ≤ maxDuration)
    (hon : tat ≤ now + g.tau) (htime : now + g.tau ≤ tat + nanosPerSec) :
    g.allows overflow (some tat) now = true := by
  have hcount : (now + g.tau - tat) / g.emissionInterval ≤ now + g.tau - tat := Nat.div_le_self _ _
  have hsecond : nanosPerSec < 2 ^ 32 := by decide
  have hfits : g.Fits ((some tat).getD now) now :=
    fits_of_room (by omega) (by rw [Option.getD_some]; omega)
  rw [allows_of_fits hfits]
  exact decide_eq_true hon

theorem le_secsCeil {d : Nat} (hd : d ≤ (2 ^ 64 - 1) * nanosPerSec) :
    d ≤ secsCeil d * nanosPerSec ∧ secsCeil d * nanosPerSec ≤ d + nanosPerSec := by
  have hpos : 0 < nanosPerSec := by decide
  have hceil : (d + (nanosPerSec - 1)) / nanosPerSec ≤ 2 ^ 64 - 1 := by
    rw [Nat.div_le_iff_le_mul_add_pred hpos]
    rw [Nat.mul_comm] at hd
    omega
  rw [secsCeil, Nat.min_eq_left hceil]
  have hdiv := Nat.div_add_mod (d + (nanosPerSec - 1)) nanosPerSec
  have hmod := Nat.mod_lt (d + (nanosPerSec - 1)) hpos
  rw [Nat.mul_comm] at hdiv
  omega

/-- **The reports are exact**: the burst of a drained key, the requests that remain after an admission,
and the wait after a rejection. -/
theorem reports_exact {profile : Profile} (h : fromProfile profile = some g)
    (hburst : profile.burst ≤ 2 ^ 32) (stored : Option Nat) (now : Nat)
    (hroom : now + g.tau + g.emissionInterval ≤ maxDuration)
    (hcount : 1 + (now + g.tau - stored.getD now) / g.emissionInterval < 2 ^ 64)
    (hstored : ∀ tat ∈ stored, tat + nanosPerSec + g.emissionInterval ≤ maxDuration) :
    ((∀ tat ∈ stored, tat ≤ now) → ∀ n,
        (g.admits overflow stored (List.replicate n now)).length = min n (max profile.burst 1)) ∧
      ∃ verdict, g.check overflow stored now = some verdict ∧
        (verdict.allowed = true → ∀ n,
          (g.admits overflow (some verdict.newTat) (List.replicate n now)).length =
            min n verdict.remaining) ∧
        (verdict.allowed = false →
          (∀ nows, (∀ later ∈ nows, later < now + verdict.retryAfter) →
            g.admits overflow stored nows = [] ∧ g.after overflow stored nows = stored) ∧
          g.allows overflow stored (now + verdict.retryAfter) = true ∧
          g.allows overflow stored (now + secsCeil verdict.retryAfter * nanosPerSec) = true) := by
  have hg : g.burst ≤ 2 ^ 32 := by
    rw [fromProfile_burst h]
    omega
  refine ⟨fun hdrained n => ?_, _, check_of_fits (fits_of_room hroom hcount), fun hallowed n => ?_,
    fun hrejected => ?_⟩
  · rw [length_admits_drained hg hroom hcount hdrained, fromProfile_burst h]
  · have hconforms := verdictAt_allowed.mp hallowed
    rw [verdictAt, if_pos hconforms]
    exact (length_admits_after hroom n).trans (by rw [← remaining_eq hg hconforms]; rfl)
  · have hearly : ¬stored.getD now ≤ now + g.tau := fun hconforms => by
      rw [verdictAt_allowed.mpr hconforms] at hrejected
      cases hrejected
    cases stored with
    | none => exact absurd (Nat.le_add_right _ _) hearly
    | some tat =>
        rw [Option.getD_some] at hearly
        have htat := hstored tat rfl
        have hretry : (g.verdictAt ((some tat).getD now) now).retryAfter = tat - g.tau - now := by
          rw [verdictAt, Option.getD_some, if_neg hearly]
          rfl
        rw [hretry]
        have hwait := @le_secsCeil (tat - g.tau - now) (by
          have hmax : maxDuration = (2 ^ 64 - 1) * nanosPerSec + (nanosPerSec - 1) := by decide
          have hsecond : 0 < nanosPerSec := by decide
          omega)
        refine ⟨fun nows hnows => ?_, ?_, ?_⟩
        · refine admits_early (by omega) fun later hlater => ?_
          have hlt := hnows later hlater
          omega
        · exact allows_on_time htat (by omega) (by omega)
        · exact allows_on_time htat (by omega) (by omega)

theorem minute_reports_exact :
    (∀ n, (minuteGcra.admits .panics none (List.replicate n 7)).length = min n 3) ∧
      ∃ verdict, minuteGcra.check .panics (some (9 * nanosPerSec)) 7 = some verdict ∧
        verdict.allowed = false ∧
        minuteGcra.allows .panics (some (9 * nanosPerSec)) (7 + verdict.retryAfter) = true := by
  have hnone := @reports_exact minuteGcra .panics minuteProfile fromProfile_minute (by decide) none 7
    (by decide) (by decide) (fun tat htat => by cases htat)
  obtain ⟨-, verdict, hverdict, -, hrejected⟩ := @reports_exact minuteGcra .panics minuteProfile
    fromProfile_minute (by decide) (some (9 * nanosPerSec)) 7 (by decide) (by decide)
    (fun tat htat => by obtain rfl := Option.some.inj htat; decide)
  refine ⟨hnone.1 (fun tat htat => by cases htat), verdict, hverdict, ?_, ?_⟩
  · obtain rfl : minuteGcra.rejection (9 * nanosPerSec) 7 = verdict := Option.some.inj hverdict
    rfl
  · refine (hrejected ?_).2.1
    obtain rfl : minuteGcra.rejection (9 * nanosPerSec) 7 = verdict := Option.some.inj hverdict
    rfl

end Gcra

end StructuredProxy
