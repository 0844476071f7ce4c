import Mathlib.Data.Nat.Basic

/-!
# Schedules without end

A schedule gives the event of every moment. The state of a moment is what the events before it made of
the start, and each event may leave facts behind. A finite interleaving is a schedule whose later
events do nothing.
-/

namespace StructuredProxy.Lib

variable {σ ε φ : Type*}

def stateAt (happen : Nat → σ → ε → σ) (start : σ) (events : Nat → ε) : Nat → σ
  | 0 => start
  | moment + 1 => happen moment (stateAt happen start events moment) (events moment)

/-- What the events before a moment left behind, the oldest first. -/
def factsAt (happen : Nat → σ → ε → σ) (fact : σ → ε → Option φ) (start : σ) (events : Nat → ε) :
    Nat → List φ
  | 0 => []
  | moment + 1 =>
      factsAt happen fact start events moment ++
        (fact (stateAt happen start events moment) (events moment)).toList

/-- **What is worked off ends.** While `holds` lasts its rank never rises, and again and again there is
a moment that lowers it. -/
theorem exists_ended {holds : Nat → Prop} {rank : Nat → Nat}
    (hkeeps : ∀ n, holds n → holds (n + 1) → rank (n + 1) ≤ rank n)
    (hlowers : ∀ n, holds n → ∃ m, n ≤ m ∧ (holds m → holds (m + 1) → rank (m + 1) < rank m))
    (n : Nat) (h : holds n) : ∃ m, n < m ∧ ¬ holds m := by
  by_contra hnever
  have hlasts : ∀ m, n ≤ m → holds m := by
    intro m hm
    rcases Nat.eq_or_lt_of_le hm with rfl | hlt
    · exact h
    · by_contra hnot
      exact hnever ⟨m, hlt, hnot⟩
  have hrank : ∀ m k, n ≤ m → rank (m + k) ≤ rank m := by
    intro m k hm
    induction k with
    | zero => exact Nat.le_refl _
    | succ k ih =>
        have hstep := hkeeps (m + k) (hlasts _ (by omega)) (hlasts _ (by omega))
        exact Nat.le_trans hstep ih
  have hbelow : ∀ bound m, n ≤ m → rank m < bound → False := by
    intro bound
    induction bound with
    | zero => exact fun m _ hlt => absurd hlt (Nat.not_lt_zero _)
    | succ bound ih =>
        intro m hm hlt
        obtain ⟨later, hlater, hlower⟩ := hlowers m (hlasts m hm)
        have hless := hlower (hlasts later (by omega)) (hlasts (later + 1) (by omega))
        have hle := hrank m (later - m) hm
        rw [Nat.add_sub_cancel' hlater] at hle
        exact ih (later + 1) (by omega) (by omega)
  exact hbelow (rank n + 1) n (Nat.le_refl n) (Nat.lt_succ_self _)

end StructuredProxy.Lib
