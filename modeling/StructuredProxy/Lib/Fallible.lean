import Mathlib.Logic.Basic

/-!
# Fallible steps

A step that may fail with an error. `Except.toOption` is its outcome without the text of the error.
-/

namespace StructuredProxy.Lib

theorem bind_eq_ok {ε α β : Type} {first : Except ε α} {next : α → Except ε β} {b : β} :
    (first >>= next) = .ok b ↔ ∃ a, first = .ok a ∧ next a = .ok b := by
  cases first with
  | error error =>
      constructor
      · intro h
        cases h
      · rintro ⟨a, h, -⟩
        cases h
  | ok a =>
      constructor
      · intro h
        exact ⟨a, rfl, h⟩
      · rintro ⟨a', h, hnext⟩
        cases h
        exact hnext

theorem map_eq_ok {ε α β : Type} {x : Except ε α} {f : α → β} {b : β}
    (h : x.map f = .ok b) : ∃ a, x = .ok a ∧ f a = b := by
  cases x with
  | error e => cases h
  | ok a => exact ⟨a, rfl, by cases h; rfl⟩

theorem toOption_map {ε α β : Type} (f : α → β) (result : Except ε α) :
    (result.map f).toOption = result.toOption.map f := by
  cases result <;> rfl

theorem toOption_bind {ε α β : Type} (first : Except ε α) (next : α → Except ε β) :
    (first >>= next).toOption = first.toOption.bind fun a => (next a).toOption := by
  cases first <;> rfl

/-! ### Folds that may stop -/

section Folds

variable {σ α : Type} {step : σ → α → Option σ} {inv : σ → Prop}

theorem foldlM_keeps (items : List α)
    (hstep : ∀ item ∈ items, ∀ s s', inv s → step s item = some s' → inv s') :
    ∀ {s s' : σ}, inv s → items.foldlM step s = some s' → inv s' := by
  induction items with
  | nil =>
      intro s s' h hfold
      obtain rfl := Option.some.inj hfold
      exact h
  | cons item items ih =>
      intro s s' h hfold
      rw [List.foldlM_cons] at hfold
      obtain ⟨middle, hfirst, hrest⟩ := Option.bind_eq_some_iff.mp hfold
      exact ih (fun other hother => hstep other (List.mem_cons_of_mem _ hother))
        (hstep item List.mem_cons_self s middle h hfirst) hrest

/-- What `ok` says of every item and the state it meets. -/
def throughout (step : σ → α → Option σ) (ok : σ → α → Bool) : List α → σ → Bool
  | [], _ => true
  | item :: items, s => ok s item && (step s item).all (throughout step ok items)

/-- A fold over the parts of its items is the fold over the parts. -/
theorem foldlM_flatMap {τ β : Type} {outer : τ → β → Option τ} {view : τ → σ} {parts : β → List α}
    (items : List β) (hstep : ∀ item ∈ items, ∀ t t', outer t item = some t' →
      (parts item).foldlM step (view t) = some (view t')) :
    ∀ {t t' : τ}, items.foldlM outer t = some t' →
      (items.flatMap parts).foldlM step (view t) = some (view t') := by
  induction items with
  | nil =>
      intro t t' h
      obtain rfl := Option.some.inj h
      rfl
  | cons item items ih =>
      intro t t' h
      rw [List.foldlM_cons] at h
      obtain ⟨middle, hfirst, hrest⟩ := Option.bind_eq_some_iff.mp h
      rw [List.flatMap_cons, List.foldlM_append, hstep item List.mem_cons_self t middle hfirst]
      exact ih (fun other hother => hstep other (List.mem_cons_of_mem _ hother)) hrest

/-- A fold ends when every step does and keeps what the next one needs. -/
theorem foldlM_total (items : List α)
    (hstep : ∀ item ∈ items, ∀ s, inv s → ∃ s', step s item = some s' ∧ inv s') :
    ∀ {s : σ}, inv s → ∃ s', items.foldlM step s = some s' ∧ inv s' := by
  induction items with
  | nil => exact fun {s} h => ⟨s, rfl, h⟩
  | cons item items ih =>
      intro s h
      obtain ⟨middle, hfirst, hmiddle⟩ := hstep item List.mem_cons_self s h
      obtain ⟨s', hrest, hs'⟩ := ih (fun other hother => hstep other (List.mem_cons_of_mem _ hother))
        hmiddle
      refine ⟨s', ?_, hs'⟩
      rw [List.foldlM_cons, hfirst]
      exact hrest

theorem isSome_bind {α β : Type} {first : Option α} {next : α → Option β} (hfirst : first.isSome = true)
    (hnext : ∀ a, (next a).isSome = true) : (first >>= next).isSome = true := by
  obtain ⟨a, rfl⟩ := Option.isSome_iff_exists.mp hfirst
  exact hnext a

theorem isSome_foldlM (items : List α) (hstep : ∀ item ∈ items, ∀ s, (step s item).isSome = true) (s : σ) :
    (items.foldlM step s).isSome = true := by
  have hnext : ∀ item ∈ items, ∀ s, True → ∃ s', step s item = some s' ∧ True := by
    intro item hitem s _
    obtain ⟨s', hs'⟩ := Option.isSome_iff_exists.mp (hstep item hitem s)
    exact ⟨s', hs', trivial⟩
  obtain ⟨s', hfold, -⟩ := foldlM_total items hnext trivial
  exact Option.isSome_iff_exists.mpr ⟨s', hfold⟩

theorem exists_of_mem_mapM {β : Type} {f : α → Option β} (items : List α) :
    ∀ {results : List β}, items.mapM f = some results →
      ∀ result ∈ results, ∃ item ∈ items, f item = some result := by
  induction items with
  | nil =>
      intro results h result hresult
      obtain rfl := Option.some.inj h
      exact absurd hresult List.not_mem_nil
  | cons item items ih =>
      intro results h result hresult
      rw [List.mapM_cons] at h
      obtain ⟨first, hfirst, h⟩ := Option.bind_eq_some_iff.mp h
      obtain ⟨rest, hrest, h⟩ := Option.bind_eq_some_iff.mp h
      obtain rfl := Option.some.inj h
      rcases List.mem_cons.mp hresult with rfl | hresult
      · exact ⟨item, List.mem_cons_self, hfirst⟩
      · obtain ⟨other, hother, heq⟩ := ih hrest result hresult
        exact ⟨other, List.mem_cons_of_mem _ hother, heq⟩

theorem isSome_mapM {β : Type} {f : α → Option β} (items : List α)
    (h : ∀ item ∈ items, (f item).isSome = true) : (items.mapM f).isSome = true := by
  induction items with
  | nil => rfl
  | cons item items ih =>
      obtain ⟨first, hfirst⟩ := Option.isSome_iff_exists.mp (h item List.mem_cons_self)
      obtain ⟨rest, hrest⟩ := Option.isSome_iff_exists.mp
        (ih fun other hother => h other (List.mem_cons_of_mem _ hother))
      rw [List.mapM_cons, hfirst, hrest]
      rfl

end Folds

end StructuredProxy.Lib
