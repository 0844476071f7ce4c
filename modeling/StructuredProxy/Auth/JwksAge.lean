import StructuredProxy.Auth.Jwks
import Mathlib.Data.List.Induction
import Mathlib.Tactic.IntervalCases

/-!
# The age of the keys that answer

The time of the last refresh is noted before the fetch. Where a refresh that was noted is followed by
its set, a throttled lookup answers from a set fetched since; where the call is dropped in between, the
next ones are throttled and answer from the old set, whatever its age.
-/

namespace StructuredProxy.Auth.KeyCall

open Lib

variable {VerifyingKey : Type} {config : JwksConfig} {state state' : JwksState VerifyingKey}
  {call : KeyCall VerifyingKey}

def Timely (config : JwksConfig) (state : JwksState VerifyingKey) (call : KeyCall VerifyingKey) : Prop :=
  call.began ≤ state.clock ∧
    match call.stage with
    | .check t => state.lastRefresh = some t
    | .store set => ∃ f, set.fetched = some f ∧ call.began ≤ f ∧ f ≤ state.clock ∧
        (∀ g ∈ state.set.fetched, g ≤ f) ∧ ∀ t ∈ state.lastRefresh, t ≤ f
    | .answer => ∃ f, state.set.fetched = some f ∧ (call.began < f + config.maxAge ∨ call.began ≤ f)
    | _ => True

/-- The cache and the calls are in order: at most one call holds the slot, and with no refresh going on
the set is not older than the last one. -/
structure Orderly (config : JwksConfig) (state : JwksState VerifyingKey)
    (calls : List (KeyCall VerifyingKey)) : Prop where
  fetched_le : ∀ f ∈ state.set.fetched, f ≤ state.clock
  last_le : ∀ t ∈ state.lastRefresh, t ≤ state.clock
  holders : calls.countP holds = if state.held then 1 else 0
  settled : (∀ call ∈ calls, call.refreshes = false) →
    ∀ f ∈ state.set.fetched, ∀ t ∈ state.lastRefresh, t ≤ f
  calls : ∀ call ∈ calls, call.Timely config state

theorem holds_of_refreshes (h : call.refreshes = true) : call.holds = true := by
  unfold refreshes at h
  unfold holds
  cases hstage : call.stage with
  | fetch => rfl
  | store set => rfl
  | _ => simp [hstage] at h

theorem refreshes_of_holds (h : call.holds = false) : call.refreshes = false :=
  Bool.eq_false_iff.mpr fun hrefreshes => Bool.eq_false_iff.mp h (holds_of_refreshes hrefreshes)

theorem Timely.of_not_holds (h : call.Timely config state) (hholds : call.holds = false)
    (hclock : state.clock ≤ state'.clock)
    (hset : ∀ f ∈ state.set.fetched, ∃ g, state'.set.fetched = some g ∧ f ≤ g) :
    call.Timely config state' := by
  refine ⟨Nat.le_trans h.1 hclock, ?_⟩
  have hcall := h.2
  unfold holds at hholds
  cases hstage : call.stage with
  | answer =>
      rw [hstage] at hcall
      obtain ⟨f, hf, hage⟩ := hcall
      obtain ⟨g, hg, hle⟩ := hset f hf
      refine ⟨g, hg, ?_⟩
      rcases hage with hage | hage
      · exact Or.inl (by omega)
      · exact Or.inr (by omega)
  | lookUp => trivial
  | wait => trivial
  | check t => rw [hstage] at hholds; cases hholds
  | fetch => trivial
  | store set => rw [hstage] at hholds; cases hholds

theorem Timely.tick (h : call.Timely config state) (elapsed : Nat) :
    call.Timely config { state with clock := state.clock + elapsed } := by
  refine ⟨Nat.le_trans h.1 (Nat.le_add_right _ _), ?_⟩
  have hcall := h.2
  cases hstage : call.stage with
  | store set =>
      rw [hstage] at hcall
      obtain ⟨f, hf, hbegan, hle, hset⟩ := hcall
      exact ⟨f, hf, hbegan, Nat.le_trans hle (Nat.le_add_right _ _), hset⟩
  | _ =>
      rw [hstage] at hcall
      exact hcall

namespace Orderly

variable {before after : List (KeyCall VerifyingKey)}

theorem others_idle (h : Orderly config state (before ++ call :: after)) (hcall : call.holds = true) :
    state.held = true ∧ ∀ other ∈ before ++ after, other.holds = false := by
  have hcount := h.holders
  rw [List.countP_append, List.countP_cons, hcall, if_pos rfl] at hcount
  cases hheld : state.held with
  | false =>
      rw [hheld] at hcount
      simp at hcount
  | true =>
      rw [hheld, if_pos rfl] at hcount
      have hnone : (before ++ after).countP holds = 0 := by
        rw [List.countP_append]
        omega
      rw [List.countP_eq_zero] at hnone
      exact ⟨rfl, fun other hother => Bool.eq_false_iff.mpr (hnone other hother)⟩

theorem countP_around (next : Option (KeyCall VerifyingKey)) :
    (before ++ next.toList ++ after).countP holds =
      (before ++ after).countP holds + next.toList.countP holds := by
  simp only [List.countP_append]
  omega

theorem goOn (h : Orderly config state (before ++ call :: after)) {next : Option (KeyCall VerifyingKey)}
    (hholds : next.any holds = call.holds) (hrefreshes : next.any refreshes = call.refreshes)
    (hnext : ∀ other ∈ next, other.Timely config state) :
    Orderly config state (before ++ next.toList ++ after) where
  fetched_le := h.fetched_le
  last_le := h.last_le
  holders := by
    have hcount := h.holders
    rw [← hcount, countP_around, List.countP_append, List.countP_append, List.countP_cons, ← hholds]
    cases next with
    | none => simp
    | some next =>
        simp only [Option.toList_some, List.countP_singleton, Option.any_some]
        omega
  settled := by
    intro hidle
    refine h.settled fun other hother => ?_
    rcases List.mem_append.mp hother with hother | hother
    · exact hidle other (List.mem_append_left _ (List.mem_append_left _ hother))
    · rcases List.mem_cons.mp hother with rfl | hother
      · rw [← hrefreshes]
        cases next with
        | none => rfl
        | some next => exact hidle next (by simp)
      · exact hidle other (List.mem_append_right _ hother)
  calls := by
    intro other hother
    rcases Pool.mem_around hother with hother | hother
    · exact h.calls other (Pool.mem_of_mem_around hother)
    · exact hnext other hother

/-- A call that holds the slot, or takes it, goes on as the state changes: no other call holds it. -/
theorem change (h : Orderly config state (before ++ call :: after)) {next : KeyCall VerifyingKey}
    (hidle : ∀ other ∈ before ++ after, other.holds = false)
    (hclock : state.clock = state'.clock)
    (hset : ∀ f ∈ state.set.fetched, ∃ g, state'.set.fetched = some g ∧ f ≤ g)
    (hfetched : ∀ f ∈ state'.set.fetched, f ≤ state'.clock)
    (hlast : ∀ t ∈ state'.lastRefresh, t ≤ state'.clock)
    (hholds : next.holds = state'.held)
    (hsettled : next.refreshes = false → ∀ f ∈ state'.set.fetched, ∀ t ∈ state'.lastRefresh, t ≤ f)
    (hnext : next.Timely config state') :
    Orderly config state' (before ++ (some next).toList ++ after) where
  fetched_le := hfetched
  last_le := hlast
  holders := by
    have hnone : (before ++ after).countP holds = 0 :=
      List.countP_eq_zero.mpr fun other hother => Bool.eq_false_iff.mp (hidle other hother)
    rw [countP_around, hnone, Nat.zero_add, Option.toList_some, List.countP_singleton, hholds]
  settled := fun hnone => hsettled (hnone next (by simp))
  calls := by
    intro other hother
    rcases Pool.mem_around hother with hother | hother
    · exact (h.calls other (Pool.mem_of_mem_around hother)).of_not_holds (hidle other hother)
        (Nat.le_of_eq hclock) hset
    · rw [← Option.mem_some.mp hother]
      exact hnext

end Orderly

section Steps

variable {before after : List (KeyCall VerifyingKey)}

theorem fetched_self (f : Nat) (hf : f ∈ state.set.fetched) :
    ∃ g, state.set.fetched = some g ∧ f ≤ g := ⟨f, hf, Nat.le_refl f⟩

theorem wait_orderly (h : Orderly config state (before ++ call :: after)) (hstage : call.stage = .wait) :
    Orderly config (step config state call).1
      (before ++ (step config state call).2.toList ++ after) := by
  have hcall := h.calls call (by simp)
  cases hheld : state.held with
  | true =>
      have hstep : step config state call = (state, some call) := by simp [step, hstage, hheld]
      rw [hstep]
      exact h.goOn rfl rfl fun other hother => Option.mem_some.mp hother ▸ hcall
  | false =>
      have hnone : ∀ other ∈ before ++ call :: after, other.holds = false := by
        have hholders := h.holders
        rw [hheld] at hholders
        exact fun other hother =>
          Bool.eq_false_iff.mpr (List.countP_eq_zero.mp hholders other hother)
      have hidle : ∀ other ∈ before ++ after, other.holds = false := fun other hother =>
        hnone other (Pool.mem_of_mem_around hother)
      have hsettled := h.settled fun other hother => refreshes_of_holds (hnone other hother)
      cases hlast : state.lastRefresh with
      | some t =>
          have hstep : step config state call =
              ({ state with held := true }, some (call.goTo (.check t))) := by
            simp [step, hstage, hheld, hlast]
          rw [hstep]
          exact h.change hidle rfl fetched_self h.fetched_le h.last_le rfl (fun _ => hsettled)
            ⟨hcall.1, hlast⟩
      | none =>
          have hstep : step config state call =
              ({ state with held := true, lastRefresh := some state.clock },
                some (call.goTo .fetch)) := by
            simp [step, hstage, hheld, hlast]
          rw [hstep]
          refine h.change hidle rfl fetched_self h.fetched_le ?_ rfl (fun hnot => by cases hnot)
            ⟨hcall.1, trivial⟩
          intro t ht
          exact Nat.le_of_eq (Option.mem_some.mp ht).symm

theorem check_orderly (hages : config.minRefreshInterval ≤ config.maxAge)
    (h : Orderly config state (before ++ call :: after)) {t : Nat} (hstage : call.stage = .check t) :
    Orderly config (step config state call).1
      (before ++ (step config state call).2.toList ++ after) := by
  obtain ⟨hbegan, hlast⟩ := h.calls call (by simp)
  rw [hstage] at hlast
  have hholds : call.holds = true := by rw [holds, hstage]
  obtain ⟨hheld, hidle⟩ := h.others_idle hholds
  have hrefreshes : ∀ other ∈ before ++ call :: after, other.refreshes = false := by
    intro other hother
    rcases List.mem_append.mp hother with hother | hother
    · exact refreshes_of_holds (hidle other (List.mem_append_left _ hother))
    · rcases List.mem_cons.mp hother with rfl | hother
      · rw [refreshes, hstage]
      · exact refreshes_of_holds (hidle other (List.mem_append_right _ hother))
  have hsettled := h.settled hrefreshes
  unfold step
  rw [hstage]
  dsimp only
  split
  · rename_i hthrottled
    rw [Bool.and_eq_true, decide_eq_true_eq] at hthrottled
    obtain ⟨f, hf⟩ := Option.isSome_iff_exists.mp hthrottled.1
    have hle := hsettled f hf t hlast
    refine h.change hidle rfl fetched_self h.fetched_le h.last_le rfl (fun _ => hsettled)
      ⟨hbegan, f, hf, Or.inl ?_⟩
    have hclock := hthrottled.2
    change call.began < f + config.maxAge
    omega
  · refine h.change hidle rfl fetched_self h.fetched_le ?_ hheld.symm (fun hnot => by cases hnot)
      ⟨hbegan, trivial⟩
    intro stamp hstamp
    exact Nat.le_of_eq (Option.mem_some.mp hstamp).symm

theorem store_orderly (h : Orderly config state (before ++ call :: after))
    {set : KeySet VerifyingKey} (hstage : call.stage = .store set) :
    Orderly config (step config state call).1
      (before ++ (step config state call).2.toList ++ after) := by
  obtain ⟨hbegan, hstore⟩ := h.calls call (by simp)
  rw [hstage] at hstore
  obtain ⟨f, hf, hsince, hle, hlater, hlast⟩ := hstore
  obtain ⟨-, hidle⟩ := h.others_idle (by rw [holds, hstage])
  unfold step
  rw [hstage]
  refine h.change hidle rfl (fun g hg => ⟨f, hf, hlater g hg⟩) ?_ h.last_le rfl ?_
    ⟨hbegan, f, hf, Or.inr hsince⟩
  · intro g hg
    obtain rfl := Option.some.inj (hf.symm.trans hg)
    exact hle
  · intro _ g hg t ht
    obtain rfl := Option.some.inj (hf.symm.trans hg)
    exact hlast t ht

theorem step_orderly (hages : config.minRefreshInterval ≤ config.maxAge)
    (h : Orderly config state (before ++ call :: after)) :
    Orderly config (step config state call).1
      (before ++ (step config state call).2.toList ++ after) := by
  have hcall := h.calls call (by simp)
  cases hstage : call.stage with
  | lookUp =>
      unfold step
      rw [hstage]
      dsimp only
      have hbusy : call.holds = false ∧ call.refreshes = false := by
        rw [holds, refreshes, hstage]
        exact ⟨rfl, rfl⟩
      split
      · exact h.goOn hbusy.1.symm hbusy.2.symm fun _ hother => absurd hother (Option.not_mem_none _)
      · refine h.goOn hbusy.1.symm hbusy.2.symm fun other hother => ?_
        rw [← Option.mem_some.mp hother]
        exact ⟨hcall.1, trivial⟩
  | wait => exact wait_orderly h hstage
  | check t => exact check_orderly hages h hstage
  | fetch =>
      unfold step
      rw [hstage]
      exact h.goOn rfl rfl fun other hother => Option.mem_some.mp hother ▸ hcall
  | store set => exact store_orderly h hstage
  | answer =>
      unfold step
      rw [hstage]
      refine h.goOn ?_ ?_ fun _ hother => absurd hother (Option.not_mem_none _)
      · rw [holds, hstage]
        rfl
      · rw [refreshes, hstage]
        rfl

theorem fetched_orderly (keys : KeyMap Text VerifyingKey)
    (h : Orderly config state (before ++ call :: after)) :
    Orderly config (fetched keys state call).1
      (before ++ (fetched keys state call).2.toList ++ after) := by
  have hcall := h.calls call (by simp)
  unfold fetched
  split
  · rename_i hstage
    refine h.goOn ?_ ?_ fun other hother => ?_
    · rw [holds, hstage]
      rfl
    · rw [refreshes, hstage]
      rfl
    · rw [← Option.mem_some.mp hother]
      exact ⟨hcall.1, state.clock, rfl, hcall.1, Nat.le_refl _, h.fetched_le, h.last_le⟩
  · exact h.goOn rfl rfl fun other hother => Option.mem_some.mp hother ▸ hcall

theorem drop_orderly (h : Orderly config state (before ++ call :: after))
    (hdrop : call.refreshes = true → state.set.fetched = none) :
    Orderly config (drop state call).1 (before ++ (drop state call).2.toList ++ after) where
  fetched_le := h.fetched_le
  last_le := h.last_le
  holders := by
    have hcount := h.holders
    rw [List.countP_append, List.countP_cons] at hcount
    rw [drop, Orderly.countP_around, List.countP_append]
    cases hholds : call.holds with
    | false => simpa [hholds] using hcount
    | true =>
        rw [(h.others_idle hholds).1, hholds] at hcount
        simp only [if_true] at hcount
        simp only [Bool.not_true, Bool.and_false, Option.toList_none, List.countP_nil,
          Bool.false_eq_true, if_false]
        omega
  settled := by
    intro hidle f hf
    refine h.settled (fun other hother => ?_) f hf
    rcases List.mem_append.mp hother with hother | hother
    · exact hidle other (List.mem_append_left _ (List.mem_append_left _ hother))
    · rcases List.mem_cons.mp hother with rfl | hother
      · refine Bool.eq_false_iff.mpr fun hrefreshes => ?_
        exact Option.not_mem_none f (hdrop hrefreshes ▸ hf)
      · exact hidle other (List.mem_append_right _ hother)
  calls := by
    intro other hother
    rcases Pool.mem_around hother with hother | hother
    · have hother' := h.calls other (Pool.mem_of_mem_around hother)
      exact ⟨hother'.1, hother'.2⟩
    · exact absurd hother (Option.not_mem_none _)

end Steps

/-! ### Whole schedules -/

theorem Orderly.tick {calls : List (KeyCall VerifyingKey)} (h : Orderly config state calls)
    (elapsed : Nat) : Orderly config { state with clock := state.clock + elapsed } calls where
  fetched_le := fun f hf => Nat.le_trans (h.fetched_le f hf) (Nat.le_add_right _ _)
  last_le := fun t ht => Nat.le_trans (h.last_le t ht) (Nat.le_add_right _ _)
  holders := h.holders
  settled := h.settled
  calls := fun call hcall => (h.calls call hcall).tick elapsed

theorem Orderly.keyFor {calls : List (KeyCall VerifyingKey)} (h : Orderly config state calls)
    (kid : Text) : Orderly config state (calls ++ [⟨kid, state.clock, .lookUp⟩]) where
  fetched_le := h.fetched_le
  last_le := h.last_le
  holders := by
    rw [List.countP_append, h.holders]
    rfl
  settled := fun hidle => h.settled fun call hcall => hidle call (List.mem_append_left _ hcall)
  calls := by
    intro call hcall
    rcases List.mem_append.mp hcall with hcall | hcall
    · exact h.calls call hcall
    · rw [List.mem_singleton.mp hcall]
      exact ⟨Nat.le_refl _, trivial⟩

/-- No fetch fails, and once a set was loaded no call is dropped between noting its refresh and storing
the new set. -/
def Permitted (pool : Pool (JwksState VerifyingKey) (KeyCall VerifyingKey)) :
    Event VerifyingKey → Prop
  | .failed _ => False
  | .drop index =>
      ∀ call, pool.calls[index]? = some call → call.refreshes = true →
        pool.shared.set.fetched = none
  | _ => True

theorem happen_orderly (hages : config.minRefreshInterval ≤ config.maxAge)
    {pool : Pool (JwksState VerifyingKey) (KeyCall VerifyingKey)}
    (h : Orderly config pool.shared pool.calls) {event : Event VerifyingKey}
    (hevent : Permitted pool event) :
    Orderly config (happen config pool event).shared (happen config pool event).calls := by
  cases event with
  | tick elapsed => exact h.tick elapsed
  | keyFor kid => exact h.keyFor kid
  | step index =>
      exact Pool.advance_elim h fun _ _ _ hcalls _ => step_orderly hages (hcalls ▸ h)
  | fetched index keys =>
      exact Pool.advance_elim h fun _ _ _ hcalls _ => fetched_orderly keys (hcalls ▸ h)
  | failed index => exact hevent.elim
  | drop index =>
      exact Pool.advance_elim h fun _ call _ hcalls hcall =>
        drop_orderly (hcalls ▸ h) (hevent call hcall)

theorem run_orderly (hages : config.minRefreshInterval ≤ config.maxAge)
    (schedule : Schedule VerifyingKey)
    (hschedule : ∀ before event after, schedule = before ++ event :: after →
      Permitted (run config before) event) :
    Orderly config (run config schedule).shared (run config schedule).calls := by
  induction schedule using List.reverseRecOn with
  | nil =>
      refine ⟨?_, ?_, rfl, ?_, ?_⟩
      · exact fun f hf => absurd hf (Option.not_mem_none f)
      · exact fun t ht => absurd ht (Option.not_mem_none t)
      · exact fun _ f hf => absurd hf (Option.not_mem_none f)
      · exact fun call hcall => absurd hcall List.not_mem_nil
  | append_singleton before event ih =>
      have hrun : run config (before ++ [event]) = happen config (run config before) event := by
        rw [run, List.foldl_append]
        rfl
      rw [hrun]
      refine happen_orderly hages (ih fun first one rest hsplit => ?_) (hschedule before event [] rfl)
      exact hschedule first one (rest ++ [event]) (by rw [hsplit, List.append_assoc, List.cons_append])

/-- **A key comes from a set within its age, or fetched since the call began**, in every interleaving in
which no fetch fails and no refresh of a loaded set is dropped. -/
theorem answers_within_age (hages : config.minRefreshInterval ≤ config.maxAge)
    (schedule : Schedule VerifyingKey)
    (hschedule : ∀ before event after, schedule = before ++ event :: after →
      Permitted (run config before) event)
    (call : KeyCall VerifyingKey) (hcall : call ∈ (run config schedule).calls) (key : VerifyingKey)
    (hkey : answered config (run config schedule).shared call = some key) :
    ∃ f, (run config schedule).shared.set.fetched = some f ∧
      (run config schedule).shared.set.keys.get call.kid = some key ∧
      (call.began < f + config.maxAge ∨ call.began ≤ f) := by
  have hordered := run_orderly hages schedule hschedule
  generalize run config schedule = pool at hcall hkey hordered
  obtain ⟨hbegan, hstage⟩ := hordered.calls call hcall
  unfold answered at hkey
  split at hkey
  · rename_i hlookUp
    split at hkey
    · rename_i hfresh
      rw [fresh] at hfresh
      cases hf : pool.shared.set.fetched with
      | none =>
          rw [hf] at hfresh
          cases hfresh
      | some f =>
          rw [hf, Option.any_some, decide_eq_true_eq] at hfresh
          exact ⟨f, rfl, hkey, Or.inl (by omega)⟩
    · cases hkey
  · rename_i hanswer
    rw [hanswer] at hstage
    obtain ⟨f, hf, hage⟩ := hstage
    exact ⟨f, hf, hkey, hage⟩
  · cases hkey

/-! A set is loaded and reaches its age. -/

def sampleConfig : JwksConfig where
  maxAge := 300
  minRefreshInterval := 60

def sampleKeys : KeyMap Text Nat := KeyMap.empty.set (str "kid-1") 7

def loadedAndAged : Schedule Nat :=
  [.keyFor (str "kid-1"), .step 0, .step 0, .fetched 0 sampleKeys, .step 0, .step 0, .tick 300]

def refetched : Schedule Nat :=
  loadedAndAged ++ [.keyFor (str "kid-1"), .step 0, .step 0, .step 0, .keyFor (str "kid-1"), .step 1,
    .drop 1, .fetched 0 sampleKeys, .step 0]

theorem refetched_permitted (before : Schedule Nat) (event : Event Nat) (after : Schedule Nat)
    (hsplit : refetched = before ++ event :: after) : Permitted (run sampleConfig before) event := by
  have hbefore : before = refetched.take before.length := by rw [hsplit, List.take_left]
  have hevent : refetched[before.length]? = some event := by
    rw [hsplit, List.getElem?_append_right (Nat.le_refl _), Nat.sub_self, List.getElem?_cons_zero]
  cases event with
  | failed index =>
      have hmem : Event.failed index ∈ refetched := List.mem_of_getElem? hevent
      simp [refetched, loadedAndAged] at hmem
  | drop index =>
      have hlt : before.length < 16 := (List.getElem?_eq_some_iff.mp hevent).1
      rw [hbefore]
      generalize before.length = n at hevent hlt
      -- only the thirteenth event drops a call: the one that waits
      interval_cases n <;> cases hevent
      intro call hcall
      obtain rfl := Option.some.inj hcall
      intro hrefreshes
      cases hrefreshes
  | _ => trivial

theorem refetched_answers_within_age :
    sampleConfig.minRefreshInterval ≤ sampleConfig.maxAge ∧
      ∃ f, (run sampleConfig refetched).shared.set.fetched = some f ∧
        (300 < f + sampleConfig.maxAge ∨ 300 ≤ f) := by
  have hages : sampleConfig.minRefreshInterval ≤ sampleConfig.maxAge := by decide
  obtain ⟨f, hf, -, hage⟩ := answers_within_age hages refetched refetched_permitted
    ⟨str "kid-1", 300, .answer⟩ List.mem_cons_self 7 rfl
  exact ⟨hages, f, hf, hage⟩

def refreshDropped : Schedule Nat :=
  loadedAndAged ++ [.keyFor (str "kid-1"), .step 0, .step 0, .step 0, .drop 0,
    .keyFor (str "kid-1"), .step 0, .step 0, .step 0]

/-- A key is answered to a lookup that began at time 300, from a set that was fetched at time 0. -/
theorem refreshDropped_answers_aged :
    sampleConfig.minRefreshInterval ≤ sampleConfig.maxAge ∧
      (∀ index, Event.failed index ∉ refreshDropped) ∧
      ∃ call ∈ (run sampleConfig refreshDropped).calls, ∃ f,
        answered sampleConfig (run sampleConfig refreshDropped).shared call = some 7 ∧
        (run sampleConfig refreshDropped).shared.set.fetched = some f ∧
        f + sampleConfig.maxAge ≤ call.began ∧ f < call.began := by
  refine ⟨by decide, fun index hmem => ?_, ⟨str "kid-1", 300, .answer⟩, List.mem_cons_self, 0, rfl,
    rfl, by decide, by decide⟩
  simp [refreshDropped, loadedAndAged] at hmem

end StructuredProxy.Auth.KeyCall
