import StructuredProxy.Lib.KeyMap
import StructuredProxy.Shield.Gcra
import StructuredProxy.Transcode.Text

/-!
# The store of the limiter

One TAT for each key. Keys whose TAT is past are evicted from time to time. An evicted key starts anew,
and the verdicts do not show it: a request sees the same slot whether the TAT is past or gone. Only the
count of requests that remain differs, where it is cut off or overflows.
-/

namespace StructuredProxy

open Lib

/-- A duration in nanoseconds, at most `u64::MAX`. -/
def durNanos (d : Nat) : Nat := min d (2 ^ 64 - 1)

abbrev Tats := KeyMap Text Nat

def Tats.check (overflow : Overflow) (tats : Tats) (key : Text) (g : Gcra) (now : Nat) :
    Option Verdict × Tats :=
  match g.check overflow (tats.get key) now with
  | none => (none, tats)
  | some verdict =>
      (some verdict, if verdict.allowed then tats.set key (durNanos verdict.newTat) else tats)

def Tats.evictDrained (tats : Tats) (now : Nat) : Tats := tats.retain fun _ tat => durNanos now < tat

structure GcraStore where
  tats : Tats
  lastSweepMs : Nat

namespace GcraStore

def sweepIntervalMs : Nat := 60000
def sweepHighWater : Nat := 200000
def hwSweepMinMs : Nat := 1000

def millis (now : Nat) : Nat := min (now / 1000000) (2 ^ 64 - 1)

/-- Whether a sweep is due, by the millisecond of the last one and how many keys are counted. -/
def dueAt (lastSweepMs now counted : Nat) : Bool :=
  let elapsed := millis now - lastSweepMs
  sweepIntervalMs ≤ elapsed || hwSweepMinMs ≤ elapsed && sweepHighWater < counted

def due (store : GcraStore) (now : Nat) : Bool := dueAt store.lastSweepMs now store.tats.size

def maybeSweep (store : GcraStore) (now : Nat) : GcraStore :=
  if store.due now then { tats := store.tats.evictDrained now, lastSweepMs := millis now } else store

def check (overflow : Overflow) (store : GcraStore) (key : Text) (g : Gcra) (now : Nat) :
    Option Verdict × GcraStore :=
  let swept := store.maybeSweep now
  let (verdict, tats) := swept.tats.check overflow key g now
  (verdict, { swept with tats })

end GcraStore

structure Check where
  sweeps : Bool
  key : Text
  g : Gcra
  now : Nat

section

variable (overflow : Overflow)

def Check.run (check : Check) (tats : Tats) : Option Verdict × Tats :=
  (if check.sweeps then tats.evictDrained check.now else tats).check overflow check.key check.g check.now

def verdicts : List Check → Tats → List (Option Verdict)
  | [], _ => []
  | check :: checks, tats => (check.run overflow tats).1 :: verdicts checks (check.run overflow tats).2

def unswept (checks : List Check) : List Check := checks.map fun check => { check with sweeps := false }

def GcraStore.verdicts : List Check → GcraStore → List (Option Verdict)
  | [], _ => []
  | check :: checks, store =>
      (store.check overflow check.key check.g check.now).1 ::
        GcraStore.verdicts checks (store.check overflow check.key check.g check.now).2

end

def Verdict.apartRemaining (verdict : Verdict) : Bool × Nat × Nat × Nat :=
  (verdict.allowed, verdict.newTat, verdict.retryAfter, verdict.resetAfter)

variable {overflow : Overflow}

def Gcra.CountFits (g : Gcra) (tat now : Nat) : Prop :=
  1 + (now + g.tau - tat) / g.emissionInterval < 2 ^ 64

/-- At every check the count of requests fits, from the TAT that is stored then. -/
def CountsFit (overflow : Overflow) : List Check → Tats → Prop
  | [], _ => True
  | check :: checks, tats =>
      (∀ tat ∈ tats.get check.key, check.g.CountFits tat check.now) ∧
        CountsFit overflow checks (check.run overflow tats).2

namespace Gcra

variable {g : Gcra} {now tat : Nat}

theorem countFits_self (g : Gcra) (now : Nat) : g.CountFits now now := by
  have htau := g.tau_div_le
  rw [CountFits, Nat.add_sub_cancel_left]
  omega

theorem countAdmissible_pos (hcount : g.CountFits tat now) (htat : tat ≤ now) :
    ∃ count, g.countAdmissible overflow tat (now + g.tau) = some count ∧ count ≠ 0 := by
  unfold CountFits at hcount
  have hdiv : divFloor (now + g.tau - tat) g.emissionInterval =
      (now + g.tau - tat) / g.emissionInterval := by
    rw [divFloor, Nat.max_eq_left g.interval_pos, Nat.min_eq_left (by omega)]
  refine ⟨g.admissible tat now, ?_, Nat.pos_iff_ne_zero.mp admissible_pos⟩
  rw [countAdmissible, if_pos (by omega), hdiv, addU64_of_lt overflow (by omega)]
  rfl

/-- A drained key is judged like an absent one. -/
theorem check_drained (hcount : g.CountFits tat now) (htat : tat ≤ now) :
    (g.check overflow (some tat) now).map Verdict.apartRemaining =
      (g.check overflow none now).map Verdict.apartRemaining := by
  obtain ⟨drained, hdrained, hdrainedPos⟩ := @countAdmissible_pos overflow g now tat hcount htat
  obtain ⟨absent, habsent, habsentPos⟩ := @countAdmissible_pos overflow g now now (countFits_self g now)
    (Nat.le_refl now)
  unfold check
  simp only [Option.getD_some, Option.getD_none, Nat.max_eq_right htat, Nat.max_self]
  cases hlatest : duration (now + g.tau) with
  | none => rfl
  | some latest =>
      obtain ⟨-, rfl⟩ := duration_eq_some.mp hlatest
      simp only [Option.bind_eq_bind, Option.bind_some, hdrained, habsent, if_neg hdrainedPos,
        if_neg habsentPos]
      cases duration (now + g.emissionInterval) with
      | none => rfl
      | some newTat => rfl

end Gcra

/-- The TATs of an evicting store against those of one that never evicts: what is missing is drained. -/
def Evicted (now : Nat) (tats all : Tats) : Prop :=
  ∀ key, tats.get key = all.get key ∨ tats.get key = none ∧ ∃ tat, all.get key = some tat ∧ tat ≤ now

namespace Evicted

variable {now later : Nat} {tats all : Tats}

theorem mono (h : Evicted now tats all) (hlater : now ≤ later) : Evicted later tats all := by
  intro key
  rcases h key with heq | ⟨hnone, tat, hsome, htat⟩
  · exact Or.inl heq
  · exact Or.inr ⟨hnone, tat, hsome, Nat.le_trans htat hlater⟩

theorem evictDrained (h : Evicted now tats all) : Evicted now (tats.evictDrained now) all := by
  intro key
  rw [Tats.evictDrained, KeyMap.get_retain]
  rcases h key with heq | ⟨hnone, hdrained⟩
  · rw [heq]
    cases hall : all.get key with
    | none => exact Or.inl rfl
    | some tat =>
        by_cases htat : durNanos now < tat
        · exact Or.inl (by simp [htat])
        · have hle : durNanos now ≤ now := Nat.min_le_left _ _
          exact Or.inr ⟨by simp [Nat.le_of_not_lt htat], tat, rfl, by omega⟩
  · exact Or.inr ⟨by rw [hnone]; rfl, hdrained⟩

theorem sweep (h : Evicted now tats all) (hlater : now ≤ later) (due : Prop) [Decidable due] :
    Evicted later (if due then tats.evictDrained later else tats) all := by
  split
  · exact (h.mono hlater).evictDrained
  · exact h.mono hlater

theorem set (h : Evicted now tats all) (key : Text) (tat : Nat) :
    Evicted now (tats.set key tat) (all.set key tat) := by
  intro other
  by_cases hkey : other = key
  · subst hkey
    exact Or.inl (by rw [KeyMap.get_set_self, KeyMap.get_set_self])
  · rw [KeyMap.get_set_of_ne hkey, KeyMap.get_set_of_ne hkey]
    exact h other

theorem check (h : Evicted now tats all) (key : Text) {g : Gcra}
    (hcount : ∀ tat ∈ all.get key, g.CountFits tat now) :
    (tats.check overflow key g now).1.map Verdict.apartRemaining =
        (all.check overflow key g now).1.map Verdict.apartRemaining ∧
      Evicted now (tats.check overflow key g now).2 (all.check overflow key g now).2 := by
  have hverdict : (g.check overflow (tats.get key) now).map Verdict.apartRemaining =
      (g.check overflow (all.get key) now).map Verdict.apartRemaining := by
    rcases h key with heq | ⟨hnone, tat, hsome, htat⟩
    · rw [heq]
    · rw [hnone, hsome]
      exact (Gcra.check_drained (hcount tat hsome) htat).symm
  unfold Tats.check
  cases hcheck : g.check overflow (tats.get key) now with
  | none =>
      rw [hcheck] at hverdict
      cases hall : g.check overflow (all.get key) now with
      | none => exact ⟨rfl, h⟩
      | some verdict => rw [hall] at hverdict; cases hverdict
  | some verdict =>
      rw [hcheck] at hverdict
      cases hall : g.check overflow (all.get key) now with
      | none => rw [hall] at hverdict; cases hverdict
      | some other =>
          rw [hall] at hverdict
          have hsame : verdict.apartRemaining = other.apartRemaining := Option.some.inj hverdict
          obtain ⟨hallowed, htimes⟩ := Prod.mk.inj hsame
          obtain ⟨hnewTat, -⟩ := Prod.mk.inj htimes
          refine ⟨hverdict, ?_⟩
          simp only [hallowed, hnewTat]
          split
          · exact h.set key _
          · exact h

end Evicted

/-- Runs of checks on stores alike have the same verdicts, apart from the requests that remain. -/
theorem verdicts_unswept {checks : List Check} : ∀ {tats all : Tats} {now : Nat},
    Evicted now tats all → (∀ check ∈ checks, now ≤ check.now) →
    checks.Pairwise (fun a b => a.now ≤ b.now) → CountsFit overflow (unswept checks) all →
    (verdicts overflow checks tats).map (·.map Verdict.apartRemaining) =
      (verdicts overflow (unswept checks) all).map (·.map Verdict.apartRemaining) := by
  induction checks with
  | nil => intro tats all now _ _ _ _; rfl
  | cons check checks ih =>
      intro tats all now hevicted hnow hsorted hcount
      rw [List.forall_mem_cons] at hnow
      rw [List.pairwise_cons] at hsorted
      have hstart := hevicted.sweep hnow.1 (check.sweeps = true)
      obtain ⟨hverdict, hnext⟩ := @Evicted.check overflow _ _ _ hstart check.key check.g hcount.1
      have hrest := ih hnext hsorted.1 hsorted.2 hcount.2
      rw [unswept, List.map_cons, verdicts, verdicts, List.map_cons, List.map_cons]
      exact congrArg₂ List.cons hverdict hrest

/-- **Eviction is invisible** where the count of requests fits in the store that never evicts: wherever a
run of checks sweeps, its verdicts are those of that store, apart from the requests that remain. -/
theorem eviction_invisible (tats : Tats) {checks : List Check}
    (hsorted : checks.Pairwise fun a b => a.now ≤ b.now)
    (hcount : CountsFit overflow (unswept checks) tats) :
    (verdicts overflow checks tats).map (·.map Verdict.apartRemaining) =
      (verdicts overflow (unswept checks) tats).map (·.map Verdict.apartRemaining) :=
  verdicts_unswept (fun _ => Or.inl rfl) (fun check _ => Nat.zero_le check.now) hsorted hcount

/-- The verdicts of the store, which sweeps when that is due, are those of one that never evicts. -/
theorem GcraStore.verdicts_unswept {checks : List Check} : ∀ {store : GcraStore} {all : Tats} {now : Nat},
    Evicted now store.tats all → (∀ check ∈ checks, now ≤ check.now) →
    checks.Pairwise (fun a b => a.now ≤ b.now) → CountsFit overflow (unswept checks) all →
    (store.verdicts overflow checks).map (·.map Verdict.apartRemaining) =
      (StructuredProxy.verdicts overflow (unswept checks) all).map (·.map Verdict.apartRemaining) := by
  induction checks with
  | nil => intro store all now _ _ _ _; rfl
  | cons check checks ih =>
      intro store all now hevicted hnow hsorted hcount
      rw [List.forall_mem_cons] at hnow
      rw [List.pairwise_cons] at hsorted
      have hstart : Evicted check.now (store.maybeSweep check.now).tats all := by
        rw [maybeSweep, apply_ite tats]
        exact hevicted.sweep hnow.1 _
      obtain ⟨hverdict, hnext⟩ := @Evicted.check overflow _ _ _ hstart check.key check.g hcount.1
      rw [unswept, List.map_cons, verdicts, StructuredProxy.verdicts, List.map_cons, List.map_cons]
      exact congrArg₂ List.cons hverdict (ih hnext hsorted.1 hsorted.2 hcount.2)

def denseGcra : Gcra := ⟨1, 2 ^ 32 - 1, 2 ^ 32, by decide, by decide, by decide⟩

def denseChecks (now : Nat) : List Check :=
  [⟨false, str "k", denseGcra, 0⟩, ⟨true, str "k", denseGcra, now⟩]

theorem dense_eviction_invisible :
    (verdicts .wraps (denseChecks nanosPerSec) KeyMap.empty).map (·.map Verdict.apartRemaining) =
      (verdicts .wraps (unswept (denseChecks nanosPerSec)) KeyMap.empty).map
        (·.map Verdict.apartRemaining) := by
  refine eviction_invisible KeyMap.empty ?_ ?_
  · simp [denseChecks]
  · refine ⟨fun tat htat => absurd htat (Option.not_mem_none tat), fun tat htat => ?_, trivial⟩
    obtain rfl : 1 = tat := Option.some.inj htat
    rw [Gcra.CountFits]
    decide

/-- Close to `2 ^ 64` nanoseconds the drained key's count overflows: it wraps to zero and the request is
rejected, where an evicted key allows it. -/
theorem eviction_decides_dense :
    (verdicts .wraps (denseChecks (2 ^ 64 - 2 ^ 20)) KeyMap.empty).map (·.map Verdict.apartRemaining) =
        [some (true, 1, 0, 1), some (true, 2 ^ 64 - 2 ^ 20 + 1, 0, 1)] ∧
      (verdicts .wraps (unswept (denseChecks (2 ^ 64 - 2 ^ 20))) KeyMap.empty).map
          (·.map Verdict.apartRemaining) =
        [some (true, 1, 0, 1), some (false, 1, 0, 0)] := by
  decide +kernel

end StructuredProxy
