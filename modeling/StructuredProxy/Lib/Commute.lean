import Mathlib.Data.List.Basic

/-!
# Runs of steps that may fail

Steps on a state that may fail, run one after the other. Steps that commute may change places, so two
orders of the same steps that agree on the pairs that do not commute have the same outcome, and what a
failed or overwritten first attempt of a step leaves behind does not matter to a run that does the step
again, when the steps in between give way to that one.
-/

namespace StructuredProxy.Lib

variable {ι σ : Type*}

def runSteps (step : ι → σ → Option σ) (l : List ι) (s : σ) : Option σ :=
  l.foldlM (fun s i => step i s) s

def Swaps (step : ι → σ → Option σ) (i j : ι) : Prop :=
  ∀ s, (step i s).bind (step j) = (step j s).bind (step i)

variable {step : ι → σ → Option σ} {i : ι} {s : σ}

@[simp]
theorem runSteps_nil : runSteps step [] s = some s := rfl

theorem runSteps_cons (l : List ι) : runSteps step (i :: l) s = (step i s).bind (runSteps step l) :=
  List.foldlM_cons

theorem runSteps_refused {l : List ι} (hrefused : ∃ i ∈ l, ∀ s, step i s = none) :
    ∀ s, runSteps step l s = none := by
  induction l with
  | nil => simp at hrefused
  | cons j l ih =>
      intro s
      rw [runSteps_cons]
      obtain ⟨i, hmem, hnone⟩ := hrefused
      rcases List.mem_cons.mp hmem with rfl | hmem
      · rw [hnone, Option.bind_none]
      · rw [funext (ih ⟨i, hmem, hnone⟩), Option.bind_fun_none]

theorem runSteps_filterMap {κ : Type*} {f : ι → Option κ} {step' : κ → σ → Option σ} {l : List ι}
    (hidle : ∀ i ∈ l, f i = none → ∀ s, step i s = some s)
    (hstep : ∀ i ∈ l, ∀ j, f i = some j → ∀ s, step i s = step' j s) :
    ∀ s, runSteps step l s = runSteps step' (l.filterMap f) s := by
  induction l with
  | nil => intro s; rfl
  | cons i l ih =>
      intro s
      have htail := ih (fun j hj => hidle j (List.mem_cons_of_mem _ hj))
        (fun j hj => hstep j (List.mem_cons_of_mem _ hj))
      rw [runSteps_cons]
      cases hi : f i with
      | none =>
          rw [hidle i List.mem_cons_self hi, Option.bind_some, List.filterMap_cons_none hi]
          exact htail s
      | some j =>
          rw [hstep i List.mem_cons_self j hi, List.filterMap_cons_some hi, runSteps_cons]
          congr 1
          funext s
          exact htail s

/-- A step that may change places with the ones before it may be run first. -/
theorem runSteps_move {l : List ι} (rest : List ι) (hswaps : ∀ j ∈ l, Swaps step j i) :
    ∀ s, runSteps step (l ++ i :: rest) s = runSteps step (i :: (l ++ rest)) s := by
  induction l with
  | nil => intro s; rfl
  | cons j l ih =>
      intro s
      have htail : runSteps step (l ++ i :: rest) = runSteps step (i :: (l ++ rest)) := by
        funext s
        exact ih (fun j hj => hswaps j (List.mem_cons_of_mem _ hj)) s
      calc runSteps step (j :: l ++ i :: rest) s
          = (step j s).bind (runSteps step (i :: (l ++ rest))) := by
            rw [List.cons_append, runSteps_cons, htail]
        _ = ((step j s).bind (step i)).bind (runSteps step (l ++ rest)) := by
            rw [Option.bind_assoc]
            rfl
        _ = ((step i s).bind (step j)).bind (runSteps step (l ++ rest)) := by
            rw [hswaps j List.mem_cons_self s]
        _ = runSteps step (i :: (j :: l ++ rest)) s := by
            rw [runSteps_cons, Option.bind_assoc]
            rfl

/-- A step gives way to a later one: what both do is what the later one does, and then something that
depends on nothing else. -/
def Yields (step : ι → σ → Option σ) (i j : ι) : Prop :=
  ∃ rest : σ → Option σ, ∀ s, (step i s).bind (step j) = (step j s).bind rest

theorem Swaps.yields {j : ι} (h : Swaps step i j) : Yields step i j := ⟨step i, h⟩

theorem runSteps_yields {l : List ι} (hyields : ∀ j ∈ l, Yields step j i) :
    ∃ rest : σ → Option σ, ∀ s, (runSteps step l s).bind (step i) = (step i s).bind rest := by
  induction l with
  | nil => exact ⟨some, fun s => by rw [runSteps_nil, Option.bind_some, Option.bind_fun_some]⟩
  | cons j l ih =>
      obtain ⟨rest, hrest⟩ := ih fun k hk => hyields k (List.mem_cons_of_mem _ hk)
      obtain ⟨given, hgiven⟩ := hyields j List.mem_cons_self
      refine ⟨fun s => (given s).bind rest, fun s => ?_⟩
      calc (runSteps step (j :: l) s).bind (step i)
          = (step j s).bind fun s => (runSteps step l s).bind (step i) := by
            rw [runSteps_cons, Option.bind_assoc]
        _ = ((step j s).bind (step i)).bind rest := by simp only [hrest, Option.bind_assoc]
        _ = (step i s).bind fun s => (given s).bind rest := by rw [hgiven, Option.bind_assoc]

/-- **Order does not matter.** Two lists of the same steps have the same outcome when the steps that are
in another order in the two may change places. -/
theorem runSteps_eq_of_pairwise {before before' : ι → ι → Prop} {l : List ι} : ∀ {l' : List ι},
    l.Perm l' → l.Nodup → l.Pairwise before → l'.Pairwise before' →
    (∀ i ∈ l, ∀ j ∈ l, before i j → before' j i → Swaps step j i) →
    ∀ s, runSteps step l s = runSteps step l' s := by
  induction l with
  | nil =>
      intro l' hperm _ _ _ _ s
      rw [List.nil_perm.mp hperm]
  | cons i l ih =>
      intro l' hperm hnodup hbefore hbefore' hswaps s
      obtain ⟨first, last, rfl⟩ := List.append_of_mem (hperm.mem_iff.mp List.mem_cons_self)
      have hrest : l.Perm (first ++ last) := (List.perm_cons i).mp (hperm.trans List.perm_middle)
      have hmove : ∀ j ∈ first, Swaps step j i := by
        intro j hj
        have hmem : j ∈ l := hrest.mem_iff.mpr (List.mem_append_left _ hj)
        exact hswaps i List.mem_cons_self j (List.mem_cons_of_mem _ hmem)
          ((List.pairwise_cons.mp hbefore).1 j hmem)
          ((List.pairwise_append.mp hbefore').2.2 j hj i List.mem_cons_self)
      have htail : (first ++ last).Pairwise before' :=
        hbefore'.sublist (List.Sublist.append_left (List.sublist_cons_self _ _) _)
      rw [runSteps_move last hmove s, runSteps_cons, runSteps_cons]
      congr 1
      funext s
      exact ih hrest (List.nodup_cons.mp hnodup).2 (List.pairwise_cons.mp hbefore).2 htail
        (fun j hj k hk => hswaps j (List.mem_cons_of_mem _ hj) k (List.mem_cons_of_mem _ hk)) s

/-- Two states have one outcome when a step that does the same on both is run, and no step before the
first such one keeps anything that step would not see. -/
theorem runSteps_absorbed {l : List ι} {absorbs : ι → Prop} {s' : σ} (hmem : ∃ j ∈ l, absorbs j)
    (hyields : l.Pairwise fun j k => ¬absorbs j → absorbs k → Yields step j k)
    (habsorb : ∀ j ∈ l, absorbs j → step j s' = step j s) :
    runSteps step l s' = runSteps step l s := by
  classical
  obtain ⟨first, hfirst⟩ : ∃ j, l.find? (fun j => decide (absorbs j)) = some j := by
    obtain ⟨j, hj, habsorbs⟩ := hmem
    exact Option.isSome_iff_exists.mp (List.find?_isSome.mpr ⟨j, hj, decide_eq_true habsorbs⟩)
  obtain ⟨habsorbs, before, after, rfl, hbefore⟩ := List.find?_eq_some_iff_append.mp hfirst
  have habsorbs : absorbs first := of_decide_eq_true habsorbs
  obtain ⟨rest, hrest⟩ := runSteps_yields fun j hj =>
    (List.pairwise_append.mp hyields).2.2 j hj first List.mem_cons_self (by simpa using hbefore j hj)
      habsorbs
  have hrun : ∀ s, runSteps step (before ++ first :: after) s =
      ((step first s).bind rest).bind (runSteps step after) := by
    intro s
    rw [runSteps, List.foldlM_append, ← hrest s, Option.bind_assoc]
    rfl
  rw [hrun, hrun, habsorb first (List.mem_append_right _ List.mem_cons_self) habsorbs]

/-- **Attempts do not matter.** A first round attempts some steps and runs the others, a second round
runs the attempted ones: the outcome is that of running each step once, when every step gives way to the
later ones it is not above. A step that is not above itself does nothing when it is attempted. -/
theorem runSteps_first_round {above : ι → ι → Prop} {attempt : ι → σ → σ} {second : List ι}
    [DecidablePred (· ∈ second)] (htrans : ∀ i j k, above j i → above k j → above k i)
    (hrefl : ∀ i, above i i ∨ ∀ s, attempt i s = s)
    (habsorb : ∀ i j, above j i → ∀ s, step j (attempt i s) = step j s)
    {first : List ι} : ∀ {s : σ}, (first.filter (· ∉ second) ++ second).Pairwise
      (fun j k => ¬above j k → Yields step j k) →
    (runSteps (fun i s => if i ∈ second then some (attempt i s) else step i s) first s).bind
        (runSteps step second) =
      runSteps step (first.filter (· ∉ second) ++ second) s := by
  induction first with
  | nil => intro s _; rfl
  | cons i first ih =>
      intro s hyields
      by_cases hi : i ∈ second
      · rw [List.filter_cons_of_neg (by simpa using hi)] at hyields ⊢
        rw [runSteps_cons, if_pos hi, Option.bind_some, ih hyields]
        rcases hrefl i with hself | hidle
        · refine @runSteps_absorbed _ _ _ _ _ (above · i) _ ⟨i, List.mem_append_right _ hi, hself⟩ ?_
            fun j _ hj => habsorb i j hj s
          exact hyields.imp fun h hj hk => h fun habove => hj (htrans _ _ _ hk habove)
        · rw [hidle]
      · rw [List.filter_cons_of_pos (by simpa using hi), List.cons_append] at hyields ⊢
        rw [runSteps_cons, if_neg hi, runSteps_cons, Option.bind_assoc]
        congr 1
        funext s
        exact ih (List.pairwise_cons.mp hyields).2

end StructuredProxy.Lib
