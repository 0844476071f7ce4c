import Mathlib.Algebra.BigOperators.Group.List.Basic
import Mathlib.Algebra.Ring.Nat

/-!
# Concurrent calls on shared state

A pool is a shared state and the calls in progress, each at its next atomic step. A step takes one
call on: it changes the shared state and leaves the call at a later step, or done. Any interleaving
is a list of such steps. The invariants here count: every call has a weight, and a step that keeps a
relation between the shared state and the total weight, whatever the other calls weigh, keeps it in
every interleaving.
-/

namespace StructuredProxy.Lib

structure Pool (σ γ : Type*) where
  shared : σ
  calls : List γ

namespace Pool

variable {σ γ : Type*}

/-- One more call, unless it returned before its first step. -/
def spawn (call : Option γ) (pool : Pool σ γ) : Pool σ γ :=
  { pool with calls := pool.calls ++ call.toList }

/-- The next step of the call at a position; nothing where no call is. -/
def advance (step : σ → γ → σ × Option γ) (index : Nat) (pool : Pool σ γ) : Pool σ γ :=
  match pool.calls[index]? with
  | none => pool
  | some call =>
      let (shared, next) := step pool.shared call
      { shared := shared
        calls := pool.calls.take index ++ next.toList ++ pool.calls.drop (index + 1) }

theorem calls_split {calls : List γ} {index : Nat} {call : γ} (h : calls[index]? = some call) :
    calls = calls.take index ++ call :: calls.drop (index + 1) := by
  obtain ⟨hlt, hget⟩ := List.getElem?_eq_some_iff.mp h
  rw [← hget, List.getElem_cons_drop, List.take_append_drop]

theorem mem_around {before after : List γ} {next : Option γ} {other : γ}
    (h : other ∈ before ++ next.toList ++ after) : other ∈ before ++ after ∨ other ∈ next := by
  rcases List.mem_append.mp h with h | h
  · rcases List.mem_append.mp h with h | h
    · exact Or.inl (List.mem_append_left _ h)
    · exact Or.inr (Option.mem_toList.mp h)
  · exact Or.inl (List.mem_append_right _ h)

theorem mem_of_mem_around {before after : List γ} {call other : γ} (h : other ∈ before ++ after) :
    other ∈ before ++ call :: after := by
  rcases List.mem_append.mp h with h | h
  · exact List.mem_append_left _ h
  · exact List.mem_append_right _ (List.mem_cons_of_mem _ h)

def weight (f : γ → Nat) (calls : List γ) : Nat := (calls.map f).sum

variable {f g : γ → Nat}

@[simp]
theorem weight_some (call : γ) : weight f (some call).toList = f call := by
  rw [weight, Option.toList_some, List.map_singleton, List.sum_singleton]

theorem weight_eq_zero {calls : List γ} (h : ∀ call ∈ calls, f call = 0) : weight f calls = 0 :=
  List.sum_eq_zero fun n hn => by
    obtain ⟨call, hcall, rfl⟩ := List.mem_map.mp hn
    exact h call hcall

theorem weight_append (calls more : List γ) :
    weight f (calls ++ more) = weight f calls + weight f more := by
  rw [weight, weight, weight, List.map_append, List.sum_append]

theorem weight_add (calls : List γ) :
    weight (fun call => f call + g call) calls = weight f calls + weight g calls := by
  induction calls with
  | nil => rfl
  | cons call calls ih =>
      simp only [weight, List.map_cons, List.sum_cons] at ih ⊢
      omega

theorem le_weight_of_mem {calls : List γ} {call : γ} (h : call ∈ calls) :
    f call ≤ weight f calls := by
  obtain ⟨before, after, rfl⟩ := List.append_of_mem h
  rw [weight_append, ← List.singleton_append, weight_append]
  simp only [weight, List.map_singleton, List.sum_singleton]
  omega

theorem countP_le_weight {p : γ → Bool} (h : ∀ call, p call = true → 1 ≤ f call) (calls : List γ) :
    calls.countP p ≤ weight f calls := by
  induction calls with
  | nil => exact Nat.le_refl _
  | cons call calls ih =>
      have hcons : weight f (call :: calls) = f call + weight f calls := rfl
      rw [List.countP_cons, hcons]
      split
      · rename_i hp
        have hcall := h call hp
        omega
      · omega

theorem weight_eq_countP {p : γ → Bool} {calls : List γ} (h : ∀ call ∈ calls, f call = (p call).toNat) :
    weight f calls = calls.countP p := by
  induction calls with
  | nil => rfl
  | cons call calls ih =>
      have hcons : weight f (call :: calls) = f call + weight f calls := rfl
      rw [hcons, h call List.mem_cons_self, ih fun other hother => h other (List.mem_cons_of_mem _ hother),
        List.countP_cons, Nat.add_comm]
      cases p call <;> rfl

/-- The weight of calls around some others. -/
theorem weight_around (before calls after : List γ) :
    weight f (before ++ calls ++ after) = weight f calls + weight f (before ++ after) := by
  rw [weight_append, weight_append, weight_append]
  omega

theorem weight_around_one (before after : List γ) (call : γ) :
    weight f (before ++ call :: after) = f call + weight f (before ++ after) := by
  rw [List.append_cons, weight_around]
  exact congrArg (· + _) (weight_some call)

theorem eq_zero_of_mem_others {before after : List γ} {call other : γ}
    (h : weight f (before ++ call :: after) ≤ 1) (hcall : f call = 1) (hother : other ∈ before ++ after) :
    f other = 0 := by
  have hle := @le_weight_of_mem _ f _ _ hother
  rw [weight_around_one] at h
  omega

theorem advance_of_none {step : σ → γ → σ × Option γ} {index : Nat} {pool : Pool σ γ}
    (h : pool.calls[index]? = none) : pool.advance step index = pool := by
  rw [advance, h]

theorem weight_advance {step : σ → γ → σ × Option γ} {index : Nat} {pool : Pool σ γ} {call : γ}
    (h : pool.calls[index]? = some call) :
    weight f (pool.advance step index).calls + f call =
      weight f pool.calls + weight f (step pool.shared call).2.toList := by
  have hbefore : weight f pool.calls =
      weight f (pool.calls.take index ++ call :: pool.calls.drop (index + 1)) := by rw [← calls_split h]
  rw [hbefore, weight_around_one, advance, h]
  simp only [weight_around]
  omega

/-! ### Invariants -/

theorem advance_elim {step : σ → γ → σ × Option γ} {inv : σ → List γ → Prop} {index : Nat}
    {pool : Pool σ γ} (h : inv pool.shared pool.calls)
    (hstep : ∀ before call after, pool.calls = before ++ call :: after →
      pool.calls[index]? = some call →
      inv (step pool.shared call).1 (before ++ (step pool.shared call).2.toList ++ after)) :
    inv (pool.advance step index).shared (pool.advance step index).calls := by
  rw [advance]
  cases hcall : pool.calls[index]? with
  | none => exact h
  | some call => exact hstep _ call _ (calls_split hcall) hcall

/-- **An invariant of each call is one of the pool**, when a step keeps it for the call it takes on and
for the others. -/
theorem advance_forall {step : σ → γ → σ × Option γ} {good : σ → Prop} {ok : σ → γ → Prop}
    (hstep : ∀ shared call, good shared → ok shared call →
      good (step shared call).1 ∧ (∀ next ∈ (step shared call).2, ok (step shared call).1 next) ∧
        ∀ other, ok shared other → ok (step shared call).1 other)
    (index : Nat) {pool : Pool σ γ} (h : good pool.shared ∧ ∀ call ∈ pool.calls, ok pool.shared call) :
    good (pool.advance step index).shared ∧
      ∀ call ∈ (pool.advance step index).calls, ok (pool.advance step index).shared call := by
  refine @advance_elim _ _ _ (fun shared calls => good shared ∧ ∀ call ∈ calls, ok shared call) _ _ h
    fun before call after hcalls hcall => ?_
  obtain ⟨hgood, hnext, hothers⟩ := hstep pool.shared call h.1 (h.2 call (List.mem_of_getElem? hcall))
  refine ⟨hgood, fun other hother => ?_⟩
  rcases mem_around hother with hother | hother
  · refine hothers other (h.2 other ?_)
    rw [hcalls]
    exact mem_of_mem_around hother
  · exact hnext other hother

/-- A counting invariant that a step keeps for calls in order, when it leaves them in order. -/
theorem advance_keeps_ordered {step : σ → γ → σ × Option γ} {holds : σ → Nat → Prop} {ok : γ → Prop}
    (hstep : ∀ shared call rest, ok call → holds shared (f call + rest) →
      holds (step shared call).1 (weight f (step shared call).2.toList + rest) ∧
        ∀ next ∈ (step shared call).2, ok next)
    (index : Nat) {pool : Pool σ γ}
    (h : holds pool.shared (weight f pool.calls) ∧ ∀ call ∈ pool.calls, ok call) :
    holds (pool.advance step index).shared (weight f (pool.advance step index).calls) ∧
      ∀ call ∈ (pool.advance step index).calls, ok call := by
  refine @advance_elim _ _ _ (fun shared calls => holds shared (weight f calls) ∧ ∀ call ∈ calls, ok call)
    _ _ h fun before call after hcalls hcall => ?_
  have hbefore := h.1
  rw [hcalls, weight_around_one] at hbefore
  obtain ⟨hholds, hnext⟩ := hstep pool.shared call _ (h.2 call (List.mem_of_getElem? hcall)) hbefore
  refine ⟨by rwa [weight_around], fun other hother => ?_⟩
  rcases mem_around hother with hother | hother
  · refine h.2 other ?_
    rw [hcalls]
    exact mem_of_mem_around hother
  · exact hnext other hother

/-- **A counting invariant of one step is one of the pool.** -/
theorem advance_keeps {step : σ → γ → σ × Option γ} {holds : σ → Nat → Prop}
    (hstep : ∀ shared call rest, holds shared (f call + rest) →
      holds (step shared call).1 (weight f (step shared call).2.toList + rest))
    (index : Nat) {pool : Pool σ γ} (h : holds pool.shared (weight f pool.calls)) :
    holds (pool.advance step index).shared (weight f (pool.advance step index).calls) :=
  (@advance_keeps_ordered _ _ _ _ _ (fun _ => True)
    (fun shared call rest _ hholds => ⟨hstep shared call rest hholds, fun _ _ => trivial⟩) index _
    ⟨h, fun _ _ => trivial⟩).1

end Pool

end StructuredProxy.Lib
