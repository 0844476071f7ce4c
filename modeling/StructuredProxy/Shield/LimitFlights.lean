import StructuredProxy.Shield.LimitService

/-!
# Fetches of limits in flight

A key is marked exactly while one call in progress holds its mark, and the slots in use are those of the
tasks in progress. A call that holds a mark works off a bounded number of steps and then removes it.
-/

namespace StructuredProxy.LimitService

open Lib

def Stage.marked : Stage → Bool
  | .acquire _ => true
  | .giveUp _ => true
  | .fetch => true
  | .fail _ => true
  | .count _ _ _ _ => true
  | .insert _ _ _ => true
  | .unmark => true
  | _ => false

def Stage.slots : Stage → Nat
  | .fetch => 1
  | .fail _ => 1
  | .count _ _ _ _ => 1
  | .insert _ _ _ => 1
  | .unmark => 1
  | .release => 1
  | _ => 0

def Stage.untilUnmarked (config : Config) : Stage → Nat
  | .acquire _ => config.shards + 6
  | .fetch => config.shards + 5
  | .fail _ => config.shards + 4
  | .count _ _ shard _ => config.shards - shard + 3
  | .insert _ _ _ => 2
  | .unmark => 1
  | .giveUp _ => 1
  | _ => 0

def Stage.waits : Stage → Bool
  | .fetch => true
  | _ => false

def Call.marks (key : Text) (call : Call) : Nat := if call.key = key then call.stage.marked.toNat else 0

def Call.untilUnmarked (config : Config) (key : Text) (call : Call) : Nat :=
  if call.key = key then call.stage.untilUnmarked config else 0

def Call.slots (call : Call) : Nat := call.stage.slots

variable {config : Config} {service after : LimitService} {call : Call} {next : Option Call}

theorem Stage.untilUnmarked_eq_zero {stage : Stage} (h : stage.marked = false) :
    stage.untilUnmarked config = 0 := by
  cases stage <;> first | rfl | cases h

theorem Stage.untilUnmarked_pos {stage : Stage} (h : stage.marked = true) :
    0 < stage.untilUnmarked config := by
  cases stage <;> first | exact Nat.succ_pos _ | cases h

inductive Marking (config : Config) (service : LimitService) (call : Call) (worked : Prop)
    (after : LimitService) (next : Option Call) : Prop where
  | stays (hmarks : after.inflight = service.inflight) (hcall : call.stage.marked = false)
      (hnext : ∀ one ∈ next, one.stage.marked = false)
  | works (one : Call) (hmarks : after.inflight = service.inflight)
      (hcall : call.stage.marked = true) (hnext : next = some one) (hkey : one.key = call.key)
      (hone : one.stage.marked = true)
      (hle : one.stage.untilUnmarked config ≤ call.stage.untilUnmarked config)
      (hlt : worked → one.stage.untilUnmarked config < call.stage.untilUnmarked config)
  | marks (one : Call) (hvacant : service.inflight.get call.key = none)
      (hmarks : after.inflight = service.inflight.set call.key ())
      (hcall : call.stage.marked = false) (hnext : next = some one) (hkey : one.key = call.key)
      (hone : one.stage.marked = true)
  | unmarks (hmarks : after.inflight = service.inflight.erase call.key)
      (hcall : call.stage.marked = true) (hnext : ∀ one ∈ next, one.stage.marked = false)

theorem Sweep.step_keeps (sweep : Sweep) :
    (sweep.step config service).1.inflight = service.inflight ∧
      (sweep.step config service).1.fetchSlots = service.fetchSlots := by
  fun_cases Sweep.step config service sweep <;> exact ⟨rfl, rfl⟩

theorem Sweep.visit_keeps (key : Text) (sweep : Sweep) :
    (sweep.visit config service key).1.inflight = service.inflight ∧
      (sweep.visit config service key).1.fetchSlots = service.fetchSlots := by
  fun_cases Sweep.visit config service key sweep with
  | case1 unvisited =>
      dsimp only
      split
      · exact ⟨rfl, rfl⟩
      · exact ⟨rfl, rfl⟩
  | case2 sweep hother => exact ⟨rfl, rfl⟩

theorem Call.afterSweep_stage {swept : Swept} {one : Call} (h : one ∈ call.afterSweep swept) :
    one.stage = .read ∨ ∃ sweep, one.stage = .sweep sweep := by
  cases swept with
  | goesOn sweep =>
      obtain rfl := Option.some.inj h
      exact Or.inr ⟨sweep, rfl⟩
  | done =>
      obtain rfl := Option.some.inj h
      exact Or.inl rfl
  | panicked => cases h

theorem Call.afterSweep_unmarked (swept : Swept) :
    ∀ one ∈ call.afterSweep swept, one.stage.marked = false := by
  intro one hone
  rcases afterSweep_stage hone with hstage | ⟨sweep, hstage⟩
  · rw [hstage]
    rfl
  · rw [hstage]
    rfl

theorem Marking.goesOn {worked : Prop} {stage : Stage} (hmarks : after.inflight = service.inflight)
    (hmarked : stage.marked = call.stage.marked)
    (hlt : call.stage.marked = true →
      stage.untilUnmarked config < call.stage.untilUnmarked config) :
    Marking config service call worked after (some (call.goTo stage)) := by
  cases hcall : call.stage.marked with
  | false =>
      refine .stays hmarks hcall fun one hone => ?_
      obtain rfl := Option.some.inj hone
      exact hmarked.trans hcall
  | true =>
      exact .works _ hmarks hcall rfl rfl (hmarked.trans hcall) (Nat.le_of_lt (hlt hcall))
        fun _ => hlt hcall

theorem Marking.idle {worked : Prop} (hidle : worked → call.stage.marked = false) :
    Marking config service call worked service (some call) := by
  cases hcall : call.stage.marked with
  | false =>
      refine .stays rfl hcall fun one hone => ?_
      obtain rfl := Option.some.inj hone
      exact hcall
  | true =>
      refine .works call rfl hcall rfl rfl hcall (Nat.le_refl _) fun h => ?_
      rw [hidle h] at hcall
      cases hcall

theorem step_marking : Marking config service call (call.stage.waits = false)
    (call.step config service).1 (call.step config service).2 := by
  obtain ⟨key, began, stage⟩ := call
  cases stage with
  | sweep sweep => exact .stays (Sweep.step_keeps sweep).1 rfl (Call.afterSweep_unmarked _)
  | read =>
      unfold Call.step
      dsimp only
      split
      · exact .goesOn rfl rfl fun h => absurd h Bool.false_ne_true
      · exact .goesOn rfl rfl fun h => absurd h Bool.false_ne_true
  | judge cached =>
      unfold Call.step
      dsimp only
      split
      · exact .stays rfl rfl fun _ h => absurd h (Option.not_mem_none _)
      · exact .goesOn rfl rfl fun h => absurd h Bool.false_ne_true
  | mark answer =>
      unfold Call.step
      dsimp only
      split
      · exact .stays rfl rfl fun _ h => absurd h (Option.not_mem_none _)
      · rename_i hvacant
        exact .marks _ (by simpa using hvacant) rfl rfl rfl rfl rfl
  | acquire answer =>
      unfold Call.step
      dsimp only
      split
      · exact .goesOn rfl rfl fun _ => Nat.lt_succ_self _
      · refine .goesOn rfl rfl fun _ => ?_
        simp only [Stage.untilUnmarked]
        omega
  | giveUp answer => exact .unmarks rfl rfl fun _ h => absurd h (Option.not_mem_none _)
  | fetch => exact .idle fun h => absurd h.symm Bool.false_ne_true
  | fail now =>
      unfold Call.step
      dsimp only
      split
      · refine .goesOn rfl rfl fun _ => ?_
        simp only [Stage.untilUnmarked]
        omega
      · exact .goesOn rfl rfl fun _ => Nat.lt_succ_self _
  | count succeeded cached shard counted =>
      unfold Call.step
      dsimp only
      split
      · refine .goesOn rfl rfl fun _ => ?_
        simp only [Stage.untilUnmarked]
        omega
      · refine .goesOn rfl rfl fun _ => ?_
        simp only [Stage.untilUnmarked]
        omega
  | insert succeeded cached overCap =>
      have hmarks : (service.insertCapped key cached overCap).inflight = service.inflight := by
        rw [insertCapped]
        split
        · rfl
        · rfl
      exact .goesOn hmarks rfl fun _ => Nat.lt_succ_self _
  | unmark =>
      refine .unmarks rfl rfl fun one hone => ?_
      obtain rfl := Option.some.inj hone
      rfl
  | release => exact .stays rfl rfl fun _ h => absurd h (Option.not_mem_none _)

theorem visit_marking (key : Text) : Marking config service call False
    (call.visit config service key).1 (call.visit config service key).2 := by
  unfold Call.visit
  split
  · rename_i sweep hstage
    refine .stays (Sweep.visit_keeps key sweep).1 (by rw [hstage]; rfl) fun one hone => ?_
    obtain rfl := Option.some.inj hone
    rfl
  · exact .idle False.elim

theorem fetched_marking (reply : Reply) : Marking config service call (call.stage.waits = true)
    (call.fetched config service reply).1 (call.fetched config service reply).2 := by
  unfold Call.fetched
  split
  · rename_i hstage
    split
    · refine .goesOn rfl (by rw [hstage]; rfl) fun _ => ?_
      rw [hstage]
      simp only [Stage.untilUnmarked]
      omega
    · refine .goesOn rfl (by rw [hstage]; rfl) fun _ => ?_
      rw [hstage]
      exact Nat.lt_succ_self _
  · rename_i hother
    refine .idle fun hwaits => ?_
    cases hstage : call.stage with
    | fetch => exact absurd hstage hother
    | _ =>
        rw [hstage] at hwaits
        cases hwaits

def Accounted (key : Text) (service : LimitService) (held : Nat) : Prop :=
  held = (service.inflight.get key).isSome.toNat

variable {worked : Prop} {key : Text}

theorem Call.marks_of_ne (h : call.key ≠ key) : call.marks key = 0 := if_neg h

theorem Call.marks_of_unmarked (h : call.stage.marked = false) : call.marks key = 0 := by
  rw [marks, h, Bool.toNat_false, ite_self]

theorem Call.marks_of_marked (h : call.stage.marked = true) : call.marks call.key = 1 := by
  rw [marks, if_pos rfl, h, Bool.toNat_true]

theorem weight_marks_of_unmarked (h : ∀ one ∈ next, one.stage.marked = false) :
    Pool.weight (Call.marks key) next.toList = 0 :=
  Pool.weight_eq_zero fun one hone => Call.marks_of_unmarked (h one (Option.mem_toList.mp hone))

theorem Marking.accounted (h : Marking config service call worked after next) (rest : Nat)
    (hheld : Accounted key service (call.marks key + rest)) :
    Accounted key after (Pool.weight (Call.marks key) next.toList + rest) := by
  rw [Accounted] at hheld ⊢
  cases h with
  | stays hmarks hcall hnext =>
      rw [hmarks, weight_marks_of_unmarked hnext, ← hheld, Call.marks_of_unmarked hcall]
  | works one hmarks hcall hnext hkey hone =>
      rw [hmarks, hnext, Pool.weight_some, ← hheld, Call.marks, Call.marks, hkey, hone, hcall]
  | marks one hvacant hmarks hcall hnext hkey hone =>
      rw [Call.marks_of_unmarked hcall] at hheld
      rw [hmarks, hnext, Pool.weight_some]
      by_cases hsame : call.key = key
      · subst hsame
        rw [hvacant] at hheld
        rw [KeyMap.get_set_self, ← hkey, Call.marks_of_marked hone, Nat.add_comm 1, ← Nat.zero_add rest,
          hheld]
        rfl
      · rw [KeyMap.get_set_of_ne (Ne.symm hsame), ← hheld, Call.marks_of_ne (hkey ▸ hsame)]
  | unmarks hmarks hcall hnext =>
      rw [hmarks, weight_marks_of_unmarked hnext]
      by_cases hsame : call.key = key
      · subst hsame
        rw [Call.marks_of_marked hcall] at hheld
        have hone := Bool.toNat_le (service.inflight.get call.key).isSome
        rw [KeyMap.get_erase_self, Option.isSome_none, Bool.toNat_false]
        omega
      · rw [KeyMap.get_erase_of_ne (Ne.symm hsame), ← hheld, Call.marks_of_ne hsame]

variable {pool : Pool LimitService Call}

theorem happen_accounted (moment : Nat) (event : Event)
    (h : Accounted key pool.shared (Pool.weight (Call.marks key) pool.calls)) :
    Accounted key (happen config moment pool event).shared
      (Pool.weight (Call.marks key) (happen config moment pool event).calls) := by
  cases event with
  | tick elapsed => exact h
  | resolve began =>
      rw [happen, Pool.spawn, Pool.weight_append, Pool.weight_some, Call.marks_of_unmarked rfl]
      exact h
  | step index =>
      exact Pool.advance_keeps (fun _ _ rest hheld => step_marking.accounted rest hheld) index h
  | visit index visited =>
      exact Pool.advance_keeps (fun _ _ rest hheld => (visit_marking visited).accounted rest hheld)
        index h
  | fetched index reply =>
      exact Pool.advance_keeps (fun _ _ rest hheld => (fetched_marking reply).accounted rest hheld)
        index h

variable (events : Nat → Event)

theorem run_accounted (key : Text) (moment : Nat) :
    Accounted key (run config events moment).shared
      (Pool.weight (Call.marks key) (run config events moment).calls) := by
  induction moment with
  | zero => rfl
  | succ moment ih => exact happen_accounted moment (events moment) ih

def Slotted (service : LimitService) (held : Nat) : Prop :=
  service.fetchSlots + held = maxConcurrentFetches

theorem weight_slots_afterSweep (swept : Swept) :
    Pool.weight Call.slots (call.afterSweep swept).toList = 0 := by
  refine Pool.weight_eq_zero fun one hone => ?_
  rcases Call.afterSweep_stage (Option.mem_toList.mp hone) with hstage | ⟨sweep, hstage⟩
  · rw [Call.slots, hstage]
    rfl
  · rw [Call.slots, hstage]
    rfl

theorem step_slots : (call.step config service).1.fetchSlots +
    Pool.weight Call.slots (call.step config service).2.toList =
      service.fetchSlots + call.slots := by
  obtain ⟨key, began, stage⟩ := call
  cases stage with
  | sweep sweep =>
      rw [Call.step, weight_slots_afterSweep, (Sweep.step_keeps sweep).2]
      rfl
  | read =>
      unfold Call.step
      dsimp only
      split
      · rfl
      · rfl
  | judge cached =>
      unfold Call.step
      dsimp only
      split
      · rfl
      · rfl
  | mark answer =>
      unfold Call.step
      dsimp only
      split
      · rfl
      · rfl
  | acquire answer =>
      unfold Call.step
      dsimp only
      split
      · rename_i hfree
        exact Nat.sub_add_cancel hfree
      · rfl
  | fail now =>
      unfold Call.step
      dsimp only
      split
      · rfl
      · rfl
  | count succeeded cached shard counted =>
      unfold Call.step
      dsimp only
      split
      · rfl
      · rfl
  | insert succeeded cached overCap =>
      have hslots : (service.insertCapped key cached overCap).fetchSlots = service.fetchSlots := by
        rw [insertCapped]
        split
        · rfl
        · rfl
      rw [Call.step, hslots]
      rfl
  | _ => rfl

theorem visit_slots (key : Text) : (call.visit config service key).1.fetchSlots +
    Pool.weight Call.slots (call.visit config service key).2.toList =
      service.fetchSlots + call.slots := by
  unfold Call.visit
  split
  · rename_i sweep hstage
    rw [Pool.weight_some, (Sweep.visit_keeps key sweep).2, Call.slots, Call.slots, hstage]
    rfl
  · rw [Pool.weight_some]

theorem fetched_slots (reply : Reply) : (call.fetched config service reply).1.fetchSlots +
    Pool.weight Call.slots (call.fetched config service reply).2.toList =
      service.fetchSlots + call.slots := by
  unfold Call.fetched
  split
  · rename_i hstage
    split
    · rw [Pool.weight_some, Call.slots, Call.slots, hstage]
      rfl
    · rw [Pool.weight_some, Call.slots, Call.slots, hstage]
      rfl
  · rw [Pool.weight_some]

theorem happen_slotted (moment : Nat) (event : Event)
    (h : Slotted pool.shared (Pool.weight Call.slots pool.calls)) :
    Slotted (happen config moment pool event).shared
      (Pool.weight Call.slots (happen config moment pool event).calls) := by
  have hmoves : ∀ step : LimitService → Call → LimitService × Option Call,
      (∀ service call, (step service call).1.fetchSlots +
        Pool.weight Call.slots (step service call).2.toList = service.fetchSlots + call.slots) →
      ∀ service call rest, Slotted service (call.slots + rest) →
        Slotted (step service call).1 (Pool.weight Call.slots (step service call).2.toList + rest) := by
    intro step hstep service call rest hheld
    have hslots := hstep service call
    rw [Slotted] at hheld ⊢
    omega
  cases event with
  | tick elapsed => exact h
  | resolve began =>
      rw [happen, Pool.spawn, Pool.weight_append]
      exact h
  | step index => exact Pool.advance_keeps (hmoves _ fun _ _ => step_slots) index h
  | visit index visited => exact Pool.advance_keeps (hmoves _ fun _ _ => visit_slots visited) index h
  | fetched index reply => exact Pool.advance_keeps (hmoves _ fun _ _ => fetched_slots reply) index h

theorem run_slotted (moment : Nat) :
    Slotted (run config events moment).shared
      (Pool.weight Call.slots (run config events moment).calls) := by
  induction moment with
  | zero => rfl
  | succ moment ih => exact happen_slotted moment (events moment) ih

def Stage.inFlight (stage : Stage) : Bool := stage.marked && stage.slots == 1

def Call.fetches (key : Text) (call : Call) : Bool := call.stage.inFlight && call.key = key

theorem countP_fetches_le (key : Text) (moment : Nat) :
    (run config events moment).calls.countP (Call.fetches key) ≤ 1 := by
  have hmarks : ∀ call : Call, call.fetches key = true → 1 ≤ call.marks key := by
    intro call hcall
    rw [Call.fetches, Stage.inFlight, Bool.and_eq_true, Bool.and_eq_true, decide_eq_true_eq] at hcall
    obtain ⟨⟨hmarked, -⟩, rfl⟩ := hcall
    exact Nat.le_of_eq (Call.marks_of_marked hmarked).symm
  calc
    _ ≤ Pool.weight (Call.marks key) (run config events moment).calls :=
      Pool.countP_le_weight hmarks _
    _ = _ := run_accounted events key moment
    _ ≤ 1 := Bool.toNat_le _

theorem countP_slots_le (moment : Nat) :
    (run config events moment).calls.countP (fun call => call.stage.slots == 1) ≤
      maxConcurrentFetches := by
  have hslots := @run_slotted config events moment
  have hcount : (run config events moment).calls.countP (fun call => call.stage.slots == 1) ≤
      Pool.weight Call.slots (run config events moment).calls := by
    refine Pool.countP_le_weight (fun call hcall => ?_) _
    exact Nat.le_of_eq (beq_iff_eq.mp hcall).symm
  rw [Slotted] at hslots
  omega

/-! ### Every mark is removed again -/

def TakesOn (pool : Pool LimitService Call) (key : Text) : Event → Prop
  | .step index => ∃ call, pool.calls[index]? = some call ∧ call.key = key ∧
      call.stage.marked = true ∧ call.stage.waits = false
  | .fetched index _ => ∃ call, pool.calls[index]? = some call ∧ call.key = key ∧
      call.stage.marked = true ∧ call.stage.waits = true
  | _ => False

/-- No call that holds a mark is left where it is for ever, and every fetch of one ends. -/
def Fair (config : Config) (events : Nat → Event) : Prop :=
  ∀ moment key, ((run config events moment).shared.inflight.get key).isSome = true →
    ∃ later, moment ≤ later ∧ TakesOn (run config events later) key (events later)

theorem Call.untilUnmarked_of_unmarked (h : call.stage.marked = false) :
    call.untilUnmarked config key = 0 := by
  rw [untilUnmarked, Stage.untilUnmarked_eq_zero h, ite_self]

theorem Marking.untilUnmarked_le (h : Marking config service call worked after next)
    (hmarked : (service.inflight.get key).isSome = true) :
    Pool.weight (Call.untilUnmarked config key) next.toList ≤ call.untilUnmarked config key := by
  have hzero : (∀ one ∈ next, one.stage.marked = false) →
      Pool.weight (Call.untilUnmarked config key) next.toList ≤ call.untilUnmarked config key := by
    intro hnext
    rw [Pool.weight_eq_zero fun one hone =>
      Call.untilUnmarked_of_unmarked (hnext one (Option.mem_toList.mp hone))]
    exact Nat.zero_le _
  cases h with
  | stays hmarks hcall hnext => exact hzero hnext
  | works one hmarks hcall hnext hkey hone hle =>
      rw [hnext, Pool.weight_some, Call.untilUnmarked, Call.untilUnmarked, hkey]
      split
      · exact hle
      · exact Nat.le_refl _
  | marks one hvacant hmarks hcall hnext hkey hone =>
      have hother : one.key ≠ key := by
        rintro rfl
        rw [hkey, hvacant] at hmarked
        cases hmarked
      rw [hnext, Pool.weight_some, Call.untilUnmarked, if_neg hother]
      exact Nat.zero_le _
  | unmarks hmarks hcall hnext => exact hzero hnext

theorem Marking.untilUnmarked_lt (h : Marking config service call worked after next)
    (hworked : worked) (hcall : call.stage.marked = true) :
    Pool.weight (Call.untilUnmarked config call.key) next.toList <
      call.untilUnmarked config call.key := by
  have hpos : 0 < call.untilUnmarked config call.key := by
    rw [Call.untilUnmarked, if_pos rfl]
    exact Stage.untilUnmarked_pos hcall
  cases h with
  | stays hmarks hunmarked hnext => rw [hunmarked] at hcall; cases hcall
  | works one hmarks hcall hnext hkey hone hle hlt =>
      rw [hnext, Pool.weight_some, Call.untilUnmarked, Call.untilUnmarked, if_pos hkey, if_pos rfl]
      exact hlt hworked
  | marks one hvacant hmarks hunmarked hnext hkey hone => rw [hunmarked] at hcall; cases hcall
  | unmarks hmarks hcall hnext =>
      rw [Pool.weight_eq_zero fun one hone =>
        Call.untilUnmarked_of_unmarked (hnext one (Option.mem_toList.mp hone))]
      exact hpos

section

variable {step : LimitService → Call → LimitService × Option Call} {worked : Call → Prop}

theorem advance_untilUnmarked_le
    (hstep : ∀ service call, Marking config service call (worked call) (step service call).1
      (step service call).2)
    (index : Nat) (hmarked : (pool.shared.inflight.get key).isSome = true) :
    Pool.weight (Call.untilUnmarked config key) (pool.advance step index).calls ≤
      Pool.weight (Call.untilUnmarked config key) pool.calls := by
  cases hcall : pool.calls[index]? with
  | none => rw [Pool.advance_of_none hcall]
  | some call =>
      have hweight := @Pool.weight_advance _ _ (Call.untilUnmarked config key) step _ _ _ hcall
      have hle := (hstep pool.shared call).untilUnmarked_le hmarked
      omega

theorem advance_untilUnmarked_lt
    (hstep : ∀ service call, Marking config service call (worked call) (step service call).1
      (step service call).2)
    {index : Nat} {call : Call} (hcall : pool.calls[index]? = some call)
    (hmarked : call.stage.marked = true) (hworked : worked call) :
    Pool.weight (Call.untilUnmarked config call.key) (pool.advance step index).calls <
      Pool.weight (Call.untilUnmarked config call.key) pool.calls := by
  have hweight := @Pool.weight_advance _ _ (Call.untilUnmarked config call.key) step _ _ _ hcall
  have hlt := (hstep pool.shared call).untilUnmarked_lt hworked hmarked
  omega

end

theorem happen_untilUnmarked_le (moment : Nat) (event : Event)
    (hmarked : (pool.shared.inflight.get key).isSome = true) :
    Pool.weight (Call.untilUnmarked config key) (happen config moment pool event).calls ≤
      Pool.weight (Call.untilUnmarked config key) pool.calls := by
  cases event with
  | tick elapsed => exact Nat.le_refl _
  | resolve began =>
      rw [happen, Pool.spawn, Pool.weight_append, Pool.weight_some, Call.untilUnmarked_of_unmarked rfl]
      exact Nat.le_refl _
  | step index => exact advance_untilUnmarked_le (fun _ _ => step_marking) index hmarked
  | visit index visited => exact advance_untilUnmarked_le (fun _ _ => visit_marking visited) index hmarked
  | fetched index reply => exact advance_untilUnmarked_le (fun _ _ => fetched_marking reply) index hmarked

theorem happen_untilUnmarked_lt (moment : Nat) {event : Event} (h : TakesOn pool key event) :
    Pool.weight (Call.untilUnmarked config key) (happen config moment pool event).calls <
      Pool.weight (Call.untilUnmarked config key) pool.calls := by
  cases event with
  | tick elapsed => exact h.elim
  | resolve began => exact h.elim
  | step index =>
      obtain ⟨call, hcall, rfl, hmarked, hwaits⟩ := h
      exact advance_untilUnmarked_lt (fun _ _ => step_marking) hcall hmarked hwaits
  | visit index visited => exact h.elim
  | fetched index reply =>
      obtain ⟨call, hcall, rfl, hmarked, hwaits⟩ := h
      exact advance_untilUnmarked_lt (fun _ _ => fetched_marking reply) hcall hmarked hwaits

/-- In a fair schedule no key stays marked. -/
theorem exists_unmarked {events : Nat → Event} (hfair : Fair config events) {key : Text}
    {moment : Nat} (hmarked : ((run config events moment).shared.inflight.get key).isSome = true) :
    ∃ later, moment < later ∧ (run config events later).shared.inflight.get key = none := by
  let marked : Nat → Prop := fun n => ((run config events n).shared.inflight.get key).isSome = true
  let rank : Nat → Nat := fun n =>
    Pool.weight (Call.untilUnmarked config key) (run config events n).calls
  have hkeeps : ∀ n, marked n → marked (n + 1) → rank (n + 1) ≤ rank n := fun n hn _ =>
    happen_untilUnmarked_le n (events n) hn
  have hlowers : ∀ n, marked n → ∃ m, n ≤ m ∧ (marked m → marked (m + 1) → rank (m + 1) < rank m) := by
    intro n hn
    obtain ⟨m, hm, htakes⟩ := hfair n key hn
    exact ⟨m, hm, fun _ _ => happen_untilUnmarked_lt m htakes⟩
  obtain ⟨later, hlater, hunmarked⟩ := exists_ended hkeeps hlowers moment hmarked
  exact ⟨later, hlater, Option.not_isSome_iff_eq_none.mp hunmarked⟩

end StructuredProxy.LimitService
