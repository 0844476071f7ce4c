import StructuredProxy.Shield.LimitFlights
import Mathlib.Tactic.IntervalCases

/-!
# What the limit service answers

The profile of every key in the cache is the result of its latest successful fetch, or none where that
result was refused or evicted. A failed fetch fills an entry only where none is, and none can come in
between: the mark of the key is its own.
-/

namespace StructuredProxy.LimitService

open Lib

inductive Fact where
  /-- The service replied to the fetch of the key, and the reply says this. -/
  | replied (key : Text) (result : Option CompiledProfile)
  /-- The fetch of the key is complete: what its reply said is in the cache from now on. -/
  | filled (key : Text)
  /-- The fetch of the key is complete, but the cache has no entry of it and is at its capacity. -/
  | refused (key : Text)
  | evicted (key : Text)

/-- What the facts so far say of a key: its last reply, and the result the cache should hold. -/
structure Standing where
  replied : Option CompiledProfile
  kept : Option CompiledProfile

def Fact.apply (key : Text) (last : Standing) : Fact → Standing
  | .replied own result => if own = key then { last with replied := result } else last
  | .filled own => if own = key then { last with kept := last.replied } else last
  | .refused own => if own = key then { last with kept := none } else last
  | .evicted own => if own = key then { last with kept := none } else last

def standing (facts : List Fact) (key : Text) : Standing := facts.foldl (Fact.apply key) ⟨none, none⟩

/-- The result of the latest successful fetch of a key that is complete; none where the entry was never
filled or was evicted. -/
def latest (facts : List Fact) (key : Text) : Option CompiledProfile := (standing facts key).kept

variable (config : Config)

def Sweep.evicts : Sweep → Option Text
  | .remove (key :: _) => some key
  | _ => none

def evicted (service : LimitService) (key : Text) : Option Fact :=
  if (service.cache.get key).isSome then some (.evicted key) else none

def stored (service : LimitService) (key : Text) (overCap : Bool) : Fact :=
  if (service.cache.get key).isNone && overCap then .refused key else .filled key

def Call.fact (service : LimitService) (call : Call) : Option Fact :=
  match call.stage with
  | .sweep sweep => sweep.evicts.bind service.evicted
  | .insert true _ overCap => some (service.stored call.key overCap)
  | _ => none

def Call.visitFact (key : Text) (service : LimitService) (call : Call) : Option Fact :=
  match call.stage with
  | .sweep (.retain _) =>
      if (service.cache.get key).any (service.idle config) then some (.evicted key) else none
  | _ => none

/-- What the reply itself says, whatever the task makes of it. -/
def Call.fetchedFact (reply : Reply) (call : Call) : Option Fact :=
  match call.stage, LimitService.fetch config.profiles reply with
  | .fetch, .ok result => some (.replied call.key result)
  | _, _ => none

def fact (pool : Pool LimitService Call) : Event → Option Fact
  | .step index => pool.calls[index]?.bind (Call.fact pool.shared)
  | .visit index key => pool.calls[index]?.bind (Call.visitFact config key pool.shared)
  | .fetched index reply => pool.calls[index]?.bind (Call.fetchedFact config reply)
  | _ => none

def history (events : Nat → Event) : Nat → List Fact :=
  factsAt (happen config) (fact config) ⟨new, []⟩ events

def profileOf (service : LimitService) (key : Text) : Option CompiledProfile :=
  (service.cache.get key).bind Cached.profile

def Stage.answer : Stage → Option (Option CompiledProfile)
  | .judge cached => some cached.profile
  | .mark answer => some answer
  | .acquire answer => some answer
  | .giveUp answer => some answer
  | _ => none

def Stage.negative : Stage → Option Cached
  | .count false cached _ _ => some cached
  | .insert false cached _ => some cached
  | _ => none

def Stage.positive : Stage → Option Cached
  | .count true cached _ _ => some cached
  | .insert true cached _ => some cached
  | _ => none

variable {config} {service after : LimitService} {call : Call} {next : Option Call}
  {replied : Text → Option CompiledProfile}

/-! ### What a step does to the cache -/

theorem profileOf_set (service : LimitService) (stored key : Text) (cached : Cached) :
    profileOf { service with cache := service.cache.set stored cached } key =
      if stored = key then cached.profile else service.profileOf key := by
  rw [profileOf]
  split
  · rename_i hsame
    subst hsame
    rw [KeyMap.get_set_self]
    rfl
  · rename_i hother
    rw [KeyMap.get_set_of_ne (Ne.symm hother)]
    rfl

/-- An entry in the place of one with the same profile changes no profile. -/
theorem profileOf_set_same {service : LimitService} {stored : Text} {cached : Cached}
    (h : cached.profile = service.profileOf stored) (key : Text) :
    profileOf { service with cache := service.cache.set stored cached } key = service.profileOf key := by
  rw [profileOf_set]
  split
  · rename_i hsame
    rw [← hsame, h]
  · rfl

theorem profileOf_evict (service : LimitService) (evicted key : Text) :
    (service.evict evicted).profileOf key = if evicted = key then none else service.profileOf key := by
  rw [profileOf, evict]
  split
  · rename_i hsame
    subst hsame
    rw [KeyMap.get_erase_self]
    rfl
  · rename_i hother
    rw [KeyMap.get_erase_of_ne (Ne.symm hother)]
    rfl

def Standing.given (last : Standing) (key : Text) (shown : Option Fact) : Standing :=
  shown.toList.foldl (Fact.apply key) last

/-- The key whose mark the call holds that causes the fact. -/
def Fact.marked : Fact → Option Text
  | .replied key _ => some key
  | .filled key => some key
  | _ => none

/-- A failed fetch stores no limit and replaces none, and a successful one stores what its reply said. -/
structure Call.Harmless (replied : Text → Option CompiledProfile) (service : LimitService)
    (call : Call) : Prop where
  negative : ∀ cached ∈ call.stage.negative,
    cached.profile = none ∧ service.profileOf call.key = none
  positive : ∀ cached ∈ call.stage.positive, cached.profile = replied call.key

theorem Call.Harmless.of_none (hnegative : call.stage.negative = none)
    (hpositive : call.stage.positive = none) : call.Harmless replied service where
  negative := fun cached hcached => by
    rw [hnegative] at hcached
    cases hcached
  positive := fun cached hcached => by
    rw [hpositive] at hcached
    cases hcached

theorem Call.Harmless.of_eq (h : call.Harmless replied service)
    (hprofiles : ∀ key, after.profileOf key = service.profileOf key) : call.Harmless replied after where
  negative := fun cached hcached => by
    rw [hprofiles]
    exact h.negative cached hcached
  positive := h.positive

/-- A step shows what it does to the cached limits, and only a call that holds the mark of a key reads a
reply for it or fills its entry. -/
structure Caching (replied : Text → Option CompiledProfile) (service : LimitService) (call : Call)
    (shown : Option Fact) (after : LimitService) (next : Option Call) : Prop where
  profiles : ∀ key, after.profileOf key =
    (Standing.given ⟨replied key, service.profileOf key⟩ key shown).kept
  fills : ∀ key, shown.bind Fact.marked = some key → call.key = key ∧ call.stage.marked = true
  goesOn : ∀ one ∈ next, one.key = call.key ∧ one.began = call.began
  answers : ∀ one ∈ next, ∀ answer ∈ one.stage.answer,
    answer ∈ call.stage.answer ∨ answer = service.profileOf call.key
  harmless : ∀ one ∈ next, one.Harmless
    (fun key => (Standing.given ⟨replied key, service.profileOf key⟩ key shown).replied) after

theorem Caching.of_goTo {stage : Stage} (hprofiles : ∀ key, after.profileOf key = service.profileOf key)
    (hanswer : ∀ answer ∈ stage.answer,
      answer ∈ call.stage.answer ∨ answer = service.profileOf call.key)
    (hharmless : (call.goTo stage).Harmless replied service) :
    Caching replied service call none after (some (call.goTo stage)) where
  profiles := hprofiles
  fills := fun _ h => absurd h.symm (Option.some_ne_none _)
  goesOn := fun one hone => by
    obtain rfl := Option.some.inj hone
    exact ⟨rfl, rfl⟩
  answers := fun one hone => by
    obtain rfl := Option.some.inj hone
    exact hanswer
  harmless := fun one hone => by
    obtain rfl := Option.some.inj hone
    exact hharmless.of_eq hprofiles

theorem Caching.of_answer {stage : Stage} {answer : Option CompiledProfile}
    (hprofiles : ∀ key, after.profileOf key = service.profileOf key)
    (hanswer : stage.answer = some answer) (hnegative : stage.negative = none)
    (hpositive : stage.positive = none)
    (hfrom : answer ∈ call.stage.answer ∨ answer = service.profileOf call.key) :
    Caching replied service call none after (some (call.goTo stage)) := by
  refine .of_goTo hprofiles (fun other hother => ?_) (.of_none hnegative hpositive)
  rw [hanswer] at hother
  obtain rfl := Option.some.inj hother
  exact hfrom

theorem Caching.of_silent {stage : Stage}
    (hprofiles : ∀ key, after.profileOf key = service.profileOf key)
    (hanswer : stage.answer = none) (hharmless : (call.goTo stage).Harmless replied service) :
    Caching replied service call none after (some (call.goTo stage)) := by
  refine .of_goTo hprofiles (fun other hother => ?_) hharmless
  rw [hanswer] at hother
  cases hother

theorem Caching.of_ended (hprofiles : ∀ key, after.profileOf key = service.profileOf key) :
    Caching replied service call none after none where
  profiles := hprofiles
  fills := fun _ h => absurd h.symm (Option.some_ne_none _)
  goesOn := fun one hone => absurd hone (Option.not_mem_none one)
  answers := fun one hone => absurd hone (Option.not_mem_none one)
  harmless := fun one hone => absurd hone (Option.not_mem_none one)

theorem Call.afterSweep_silent {swept : Swept} {one : Call} (h : one ∈ call.afterSweep swept) :
    one.stage.answer = none ∧ one.stage.negative = none ∧ one.stage.positive = none := by
  rcases Call.afterSweep_stage h with hstage | ⟨sweep, hstage⟩
  · rw [hstage]
    exact ⟨rfl, rfl, rfl⟩
  · rw [hstage]
    exact ⟨rfl, rfl, rfl⟩

theorem Caching.of_sweep {swept : Swept} {shown : Option Fact}
    (hprofiles : ∀ key, after.profileOf key =
      (Standing.given ⟨replied key, service.profileOf key⟩ key shown).kept)
    (hfills : shown.bind Fact.marked = none) :
    Caching replied service call shown after (call.afterSweep swept) where
  profiles := hprofiles
  fills := fun key h => by
    rw [hfills] at h
    cases h
  goesOn := fun one hone => by
    cases swept with
    | panicked => cases hone
    | _ =>
        obtain rfl := Option.some.inj hone
        exact ⟨rfl, rfl⟩
  answers := fun one hone answer hanswer => by
    rw [(Call.afterSweep_silent hone).1] at hanswer
    cases hanswer
  harmless := fun one hone =>
    .of_none (Call.afterSweep_silent hone).2.1 (Call.afterSweep_silent hone).2.2

theorem profileOf_evict_shown (last : Option CompiledProfile) (key other : Text) :
    (service.evict key).profileOf other =
      (Standing.given ⟨last, service.profileOf other⟩ other (service.evicted key)).kept := by
  rw [profileOf_evict, evicted, Standing.given]
  by_cases hsome : (service.cache.get key).isSome = true
  · rw [if_pos hsome, Option.toList_some, List.foldl_cons, List.foldl_nil, Fact.apply]
    split <;> rfl
  · rw [if_neg hsome, Option.toList_none, List.foldl_nil]
    split
    · rename_i hsame
      rw [Option.not_isSome_iff_eq_none] at hsome
      rw [← hsame, profileOf, hsome]
      rfl
    · rfl

theorem evicted_unmarked (key : Text) : (service.evicted key).bind Fact.marked = none := by
  rw [evicted]
  split <;> rfl

theorem Sweep.step_cache (sweep : Sweep) :
    (sweep.step config service).1.cache =
      (sweep.evicts.elim service service.evict).cache := by
  fun_cases Sweep.step config service sweep <;> rfl

theorem sweep_caching {key : Text} {began : Nat} (sweep : Sweep) :
    Caching replied service ⟨key, began, .sweep sweep⟩ (sweep.evicts.bind service.evicted)
      (sweep.step config service).1
      (Call.afterSweep ⟨key, began, .sweep sweep⟩ (sweep.step config service).2) := by
  have hcache : ∀ other, (sweep.step config service).1.profileOf other =
      (sweep.evicts.elim service service.evict).profileOf other := by
    intro other
    rw [profileOf, Sweep.step_cache]
    rfl
  cases hevicts : sweep.evicts with
  | none =>
      rw [hevicts] at hcache
      exact .of_sweep hcache rfl
  | some gone =>
      rw [hevicts] at hcache
      exact .of_sweep (fun other => (hcache other).trans (profileOf_evict_shown _ gone other))
        (evicted_unmarked gone)

theorem insertCapped_vacant {key : Text} {cached : Cached} {overCap : Bool}
    (hcached : cached.profile = none) (hnone : service.profileOf key = none) (other : Text) :
    (service.insertCapped key cached overCap).profileOf other = service.profileOf other := by
  rw [insertCapped]
  split
  · rfl
  · exact profileOf_set_same (hcached.trans hnone.symm) _

theorem insertCapped_shown {key : Text} {cached : Cached} {overCap : Bool}
    (hcached : cached.profile = replied key) (other : Text) :
    (service.insertCapped key cached overCap).profileOf other =
      (Standing.given ⟨replied other, service.profileOf other⟩ other
        (some (service.stored key overCap))).kept := by
  rw [insertCapped, stored, Standing.given, Option.toList_some, List.foldl_cons, List.foldl_nil]
  by_cases hrefused : ((service.cache.get key).isNone && overCap) = true
  · rw [if_pos hrefused, if_pos hrefused, Fact.apply]
    split
    · rename_i hsame
      rw [Bool.and_eq_true, Option.isNone_iff_eq_none] at hrefused
      rw [← hsame, profileOf, hrefused.1]
      rfl
    · rfl
  · rw [if_neg hrefused, if_neg hrefused, profileOf_set, Fact.apply]
    split
    · rename_i hsame
      rw [hcached, hsame]
    · rfl

theorem stored_marked {key other : Text} {overCap : Bool}
    (h : (service.stored key overCap).marked = some other) : key = other := by
  rw [stored] at h
  split at h
  · cases h
  · exact Option.some.inj h

theorem insert_caching {key : Text} {began : Nat} {cached : Cached} {overCap : Bool}
    (hcached : cached.profile = replied key) :
    Caching replied service ⟨key, began, .insert true cached overCap⟩ (some (service.stored key overCap))
      (service.insertCapped key cached overCap) (some ⟨key, began, .unmark⟩) where
  profiles := insertCapped_shown hcached
  fills := fun _ h => ⟨stored_marked h, rfl⟩
  goesOn := by
    intro one hone
    obtain rfl := Option.some.inj hone
    exact ⟨rfl, rfl⟩
  answers := by
    intro one hone answer hanswer
    obtain rfl := Option.some.inj hone
    cases hanswer
  harmless := by
    intro one hone
    obtain rfl := Option.some.inj hone
    exact .of_none rfl rfl

theorem step_caching (hharmless : call.Harmless replied service) :
    Caching replied service call (call.fact service) (call.step config service).1
      (call.step config service).2 := by
  obtain ⟨key, began, stage⟩ := call
  cases stage with
  | sweep sweep => exact sweep_caching sweep
  | read =>
      unfold Call.step
      dsimp only
      split
      · rename_i hnone
        refine .of_answer (fun _ => rfl) rfl rfl rfl (Or.inr ?_)
        rw [profileOf, hnone]
        rfl
      · rename_i cached hcached
        have hprofile : cached.profile = service.profileOf key := by
          rw [profileOf, hcached]
          rfl
        exact .of_answer (profileOf_set_same hprofile) rfl rfl rfl (Or.inr hprofile)
  | judge cached =>
      unfold Call.step
      dsimp only
      split
      · exact .of_ended fun _ => rfl
      · exact .of_answer (fun _ => rfl) rfl rfl rfl (Or.inl rfl)
  | mark answer =>
      unfold Call.step
      dsimp only
      split
      · exact .of_ended fun _ => rfl
      · exact .of_answer (fun _ => rfl) rfl rfl rfl (Or.inl rfl)
  | acquire answer =>
      unfold Call.step
      dsimp only
      split
      · exact .of_silent (fun _ => rfl) rfl (.of_none rfl rfl)
      · exact .of_answer (fun _ => rfl) rfl rfl rfl (Or.inl rfl)
  | giveUp answer => exact .of_ended fun _ => rfl
  | fetch => exact .of_silent (fun _ => rfl) rfl (.of_none rfl rfl)
  | fail now =>
      unfold Call.step
      dsimp only
      split
      · rename_i cached hcached
        refine .of_silent (profileOf_set_same ?_) rfl (.of_none rfl rfl)
        rw [profileOf, hcached]
        rfl
      · rename_i hnone
        refine .of_silent (fun _ => rfl) rfl ⟨fun cached h => ?_, fun _ h => ?_⟩
        · obtain rfl := Option.some.inj h
          exact ⟨rfl, congrArg (Option.bind · Cached.profile) hnone⟩
        · cases h
  | count succeeded cached shard counted =>
      unfold Call.step
      dsimp only
      cases succeeded <;> split <;>
        exact .of_silent (fun _ => rfl) rfl ⟨hharmless.negative, hharmless.positive⟩
  | insert succeeded cached overCap =>
      cases succeeded with
      | true => exact insert_caching (hharmless.positive cached rfl)
      | false =>
          obtain ⟨hcached, hnone⟩ := hharmless.negative cached rfl
          exact .of_silent (fun other => insertCapped_vacant hcached hnone other) rfl (.of_none rfl rfl)
  | unmark => exact .of_silent (fun _ => rfl) rfl (.of_none rfl rfl)
  | release => exact .of_ended fun _ => rfl

theorem Caching.idle (hharmless : call.Harmless replied service) :
    Caching replied service call none service (some call) :=
  .of_goTo (fun _ => rfl) (fun _ h => Or.inl h) hharmless

/-- A task that reads a reply with a result goes on to store just that result. -/
theorem replied_caching {key : Text} {began : Nat} (result : Option CompiledProfile) :
    Caching replied service ⟨key, began, .fetch⟩ (some (.replied key result)) service
      (some ⟨key, began, .count true ⟨result, service.clock, service.clock⟩ 0 0⟩) where
  profiles := fun other => by
    rw [Standing.given, Option.toList_some, List.foldl_cons, List.foldl_nil, Fact.apply]
    split <;> rfl
  fills := fun _ h => ⟨Option.some.inj h, rfl⟩
  goesOn := fun one hone => by
    obtain rfl := Option.some.inj hone
    exact ⟨rfl, rfl⟩
  answers := fun one hone answer hanswer => by
    obtain rfl := Option.some.inj hone
    cases hanswer
  harmless := fun one hone => by
    obtain rfl := Option.some.inj hone
    refine ⟨fun cached hcached => ?_, fun cached hcached => ?_⟩
    · cases hcached
    · obtain rfl := Option.some.inj hcached
      rw [Standing.given, Option.toList_some, List.foldl_cons, List.foldl_nil, Fact.apply, if_pos rfl]

theorem fetched_caching (reply : Reply) (hharmless : call.Harmless replied service) :
    Caching replied service call (call.fetchedFact config reply) (call.fetched config service reply).1
      (call.fetched config service reply).2 := by
  obtain ⟨key, began, stage⟩ := call
  cases stage with
  | fetch =>
      unfold Call.fetched Call.fetchedFact
      cases LimitService.fetch config.profiles reply with
      | ok result => exact replied_caching result
      | error _ => exact .of_silent (fun _ => rfl) rfl (.of_none rfl rfl)
  | _ => exact .idle hharmless

theorem visit_caching (key : Text) (hharmless : call.Harmless replied service) :
    Caching replied service call (call.visitFact config key service) (call.visit config service key).1
      (call.visit config service key).2 := by
  obtain ⟨own, began, stage⟩ := call
  cases stage with
  | sweep sweep =>
      cases sweep with
      | retain unvisited =>
          have hgoes : (Call.visit config service key ⟨own, began, .sweep (.retain unvisited)⟩).2 =
              Call.afterSweep ⟨own, began, .sweep (.retain unvisited)⟩
                (.goesOn (.retain (unvisited.filter (· ≠ key)))) := rfl
          rw [hgoes]
          refine .of_sweep (fun other => ?_) ?_
          · simp only [Call.visit, Sweep.visit, Call.visitFact]
            split
            · rw [profileOf_evict, Standing.given, Option.toList_some, List.foldl_cons, List.foldl_nil,
                Fact.apply]
              split <;> rfl
            · rfl
          · simp only [Call.visitFact]
            split <;> rfl
      | _ => exact .idle hharmless
  | _ => exact .idle hharmless

/-! ### Whole schedules -/

/-- What holds at every moment: the cache shows the latest results, what a fetch is about to store is
what its reply said, no failed fetch is about to replace a result, and every answer was the latest result
at a moment since its call began. -/
structure Sound (past : Nat → List Fact) (moment : Nat) (service : LimitService)
    (calls : List Call) : Prop where
  profiles : ∀ key, service.profileOf key = latest (past moment) key
  harmless : ∀ call ∈ calls, call.Harmless (fun key => (standing (past moment) key).replied) service
  began : ∀ call ∈ calls, call.began ≤ moment
  answers : ∀ call ∈ calls, ∀ answer ∈ call.stage.answer, ∃ read, call.began ≤ read ∧ read ≤ moment ∧
    answer = latest (past read) call.key

theorem standing_append (facts : List Fact) (shown : Option Fact) (key : Text) :
    standing (facts ++ shown.toList) key = (standing facts key).given key shown :=
  List.foldl_append

/-- Only a fact of a call that holds the mark of a key changes its last reply or gives it a limit. -/
theorem given_unmarked {last : Standing} {shown : Option Fact} {key : Text}
    (h : shown.bind Fact.marked ≠ some key) :
    (last.given key shown).replied = last.replied ∧
      (last.kept = none → (last.given key shown).kept = none) := by
  cases shown with
  | none => exact ⟨rfl, id⟩
  | some fact =>
      rw [Standing.given, Option.toList_some, List.foldl_cons, List.foldl_nil]
      cases fact with
      | replied own result =>
          rw [Fact.apply, if_neg fun hsame => h (congrArg some hsame)]
          exact ⟨rfl, id⟩
      | filled own =>
          rw [Fact.apply, if_neg fun hsame => h (congrArg some hsame)]
          exact ⟨rfl, id⟩
      | refused own =>
          rw [Fact.apply]
          split
          · exact ⟨rfl, fun _ => rfl⟩
          · exact ⟨rfl, id⟩
      | evicted own =>
          rw [Fact.apply]
          split
          · exact ⟨rfl, fun _ => rfl⟩
          · exact ⟨rfl, id⟩

theorem Call.Harmless.of_marked {stands : Text → Option CompiledProfile}
    (h : call.Harmless replied service)
    (hmarked : call.stage.marked = true → stands call.key = replied call.key ∧
      (service.profileOf call.key = none → after.profileOf call.key = none)) :
    call.Harmless stands after := by
  obtain ⟨key, began, stage⟩ := call
  cases stage with
  | count | insert =>
      obtain ⟨hstands, hkept⟩ := hmarked rfl
      refine ⟨fun cached hcached => ?_, fun cached hcached => ?_⟩
      · exact (h.negative cached hcached).imp_right hkept
      · exact (h.positive cached hcached).trans hstands.symm
  | _ => exact .of_none rfl rfl

namespace Sound

variable {past : Nat → List Fact} {moment : Nat} {calls before rest : List Call}

theorem stays (h : Sound past moment service calls)
    (hhistory : past (moment + 1) = past moment)
    (hprofiles : ∀ key, after.profileOf key = service.profileOf key) :
    Sound past (moment + 1) after calls where
  profiles := fun key => by rw [hhistory, hprofiles, h.profiles]
  harmless := fun call hcall => by
    rw [hhistory]
    exact (h.harmless call hcall).of_eq hprofiles
  began := fun call hcall => Nat.le_succ_of_le (h.began call hcall)
  answers := fun call hcall answer hanswer => by
    obtain ⟨read, hbegan, hread, hlatest⟩ := h.answers call hcall answer hanswer
    exact ⟨read, hbegan, Nat.le_succ_of_le hread, hlatest⟩

theorem begins (h : Sound past moment service calls)
    (hhistory : past (moment + 1) = past moment) (key : Text) (sweep : Sweep) :
    Sound past (moment + 1) service (calls ++ [⟨key, moment, .sweep sweep⟩]) := by
  have hstays := @stays service service past moment calls h hhistory fun _ => rfl
  refine ⟨hstays.profiles, fun call hcall => ?_, fun call hcall => ?_, fun call hcall => ?_⟩
  · rcases List.mem_append.mp hcall with hcall | hcall
    · exact hstays.harmless call hcall
    · rw [List.mem_singleton.mp hcall]
      exact .of_none rfl rfl
  · rcases List.mem_append.mp hcall with hcall | hcall
    · exact hstays.began call hcall
    · rw [List.mem_singleton.mp hcall]
      exact Nat.le_succ _
  · rcases List.mem_append.mp hcall with hcall | hcall
    · exact hstays.answers call hcall
    · rw [List.mem_singleton.mp hcall]
      exact fun _ h => absurd h (Option.not_mem_none _)

theorem goesOn {shown : Option Fact} (h : Sound past moment service (before ++ call :: rest))
    (haccounted : ∀ key, Accounted key service (Pool.weight (Call.marks key) (before ++ call :: rest)))
    (hhistory : past (moment + 1) = past moment ++ shown.toList)
    (hstep : Caching (fun key => (standing (past moment) key).replied) service call shown after next) :
    Sound past (moment + 1) after (before ++ next.toList ++ rest) := by
  have hcall : call ∈ before ++ call :: rest := List.mem_append_right _ List.mem_cons_self
  have hstanding : ∀ key, standing (past (moment + 1)) key = Standing.given
      ⟨(standing (past moment) key).replied, service.profileOf key⟩ key shown := by
    intro key
    rw [hhistory, standing_append, h.profiles]
    rfl
  -- the entry of a marked key is filled by the call that holds the mark, and by no other
  have hunmarked : ∀ one ∈ before ++ rest, one.stage.marked = true →
      shown.bind Fact.marked ≠ some one.key := by
    intro one hone hmarked hshown
    obtain ⟨hkey, hheld⟩ := hstep.fills one.key hshown
    have hle : Pool.weight (Call.marks call.key) (before ++ call :: rest) ≤ 1 := by
      rw [haccounted call.key]
      exact Bool.toNat_le _
    have hzero := Pool.eq_zero_of_mem_others hle (Call.marks_of_marked hheld) hone
    rw [hkey, Call.marks_of_marked hmarked] at hzero
    cases hzero
  refine ⟨fun key => ?_, fun one hone => ?_, fun one hone => ?_, fun one hone => ?_⟩
  · rw [hstep.profiles, latest, hstanding]
  · rcases Pool.mem_around hone with hone | hone
    · refine (h.harmless one (Pool.mem_of_mem_around hone)).of_marked fun hmarked => ?_
      rw [hstanding, hstep.profiles]
      exact given_unmarked (hunmarked one hone hmarked)
    · simp only [hstanding]
      exact hstep.harmless one hone
  · rcases Pool.mem_around hone with hone | hone
    · exact Nat.le_succ_of_le (h.began one (Pool.mem_of_mem_around hone))
    · rw [(hstep.goesOn one hone).2]
      exact Nat.le_succ_of_le (h.began call hcall)
  · intro answer hanswer
    rcases Pool.mem_around hone with hone | hone
    · obtain ⟨read, hbegan, hread, hlatest⟩ := h.answers one (Pool.mem_of_mem_around hone) answer hanswer
      exact ⟨read, hbegan, Nat.le_succ_of_le hread, hlatest⟩
    · obtain ⟨hkey, hbegan⟩ := hstep.goesOn one hone
      rw [hkey, hbegan]
      rcases hstep.answers one hone answer hanswer with hold | hread
      · obtain ⟨read, hbegan, hread, hlatest⟩ := h.answers call hcall answer hold
        exact ⟨read, hbegan, Nat.le_succ_of_le hread, hlatest⟩
      · exact ⟨moment, h.began call hcall, Nat.le_succ _, hread.trans (h.profiles _)⟩

end Sound

variable {pool : Pool LimitService Call} {past : Nat → List Fact} {moment : Nat}

theorem advance_sound {step : LimitService → Call → LimitService × Option Call}
    {shown : LimitService → Call → Option Fact}
    (hstep : ∀ replied service call, call.Harmless replied service →
      Caching replied service call (shown service call) (step service call).1 (step service call).2)
    (index : Nat) (h : Sound past moment pool.shared pool.calls)
    (haccounted : ∀ key, Accounted key pool.shared (Pool.weight (Call.marks key) pool.calls))
    (hhistory : past (moment + 1) =
      past moment ++ (pool.calls[index]?.bind (shown pool.shared)).toList) :
    Sound past (moment + 1) (pool.advance step index).shared (pool.advance step index).calls := by
  cases hcall : pool.calls[index]? with
  | none =>
      rw [hcall] at hhistory
      rw [Pool.advance_of_none hcall]
      exact h.stays (hhistory.trans (List.append_nil _)) fun _ => rfl
  | some call =>
      rw [hcall] at hhistory
      have hmem : call ∈ pool.calls := List.mem_of_getElem? hcall
      rw [Pool.advance, hcall]
      have hcaching := hstep _ pool.shared call (h.harmless call hmem)
      rw [Pool.calls_split hcall] at h haccounted
      exact h.goesOn haccounted hhistory hcaching

theorem run_sound (events : Nat → Event) (moment : Nat) :
    Sound (history config events) moment (run config events moment).shared
      (run config events moment).calls := by
  induction moment with
  | zero =>
      have hnone : ∀ call, call ∉ (run config events 0).calls := fun _ => List.not_mem_nil
      exact ⟨fun _ => rfl, fun call h => absurd h (hnone call), fun call h => absurd h (hnone call),
        fun call h => absurd h (hnone call)⟩
  | succ moment ih =>
      have haccounted := fun key => @run_accounted config events key moment
      have hrun : run config events (moment + 1) =
          happen config moment (run config events moment) (events moment) := rfl
      have hhistory : history config events (moment + 1) =
          history config events moment ++
            (fact config (run config events moment) (events moment)).toList := rfl
      rw [hrun]
      generalize run config events moment = pool at ih haccounted hhistory ⊢
      cases hevent : events moment with
      | tick elapsed =>
          rw [hevent] at hhistory
          exact ih.stays (hhistory.trans (List.append_nil _)) fun _ => rfl
      | resolve key =>
          rw [hevent] at hhistory
          exact ih.begins (hhistory.trans (List.append_nil _)) key _
      | step index =>
          rw [hevent] at hhistory
          exact advance_sound (fun _ _ _ => step_caching) index ih haccounted hhistory
      | visit index key =>
          rw [hevent] at hhistory
          exact advance_sound (fun _ _ _ => visit_caching key) index ih haccounted hhistory
      | fetched index reply =>
          rw [hevent] at hhistory
          exact advance_sound (fun _ _ _ => fetched_caching reply) index ih haccounted hhistory

theorem Call.answer_of_returns {answer : Option CompiledProfile}
    (h : call.returns config service = some answer) : call.stage.answer = some answer := by
  unfold Call.returns at h
  split at h
  · rename_i cached hstage
    split at h
    · rw [hstage]
      exact h
    · cases h
  · rename_i hstage
    split at h
    · rw [hstage]
      exact h
    · cases h
  · rename_i hstage
    split at h
    · rw [hstage]
      exact h
    · cases h
  · rename_i hstage
    rw [hstage]
    exact h
  · cases h

def Stage.failed : Stage → Bool
  | .fail _ => true
  | .count false _ _ _ => true
  | .insert false _ _ => true
  | _ => false

theorem Call.fact_of_failed (h : call.stage.failed = true) : call.fact service = none := by
  rw [Call.fact]
  split
  · rename_i sweep hstage
    rw [hstage] at h
    cases h
  · rename_i hstage
    rw [hstage] at h
    cases h
  · rfl

def sampleConfig : Config where
  ttl := 60 * nanosPerSec
  profiles := .empty
  shards := 1
  shardOf := fun _ => 0
  overflow := .panics

def firstFetch : List Event :=
  [.resolve (str "tenant"), .step 0, .step 0, .step 0, .step 0,
    .fetched 0 (.answered 200 (some ⟨none, some 120, some 10⟩)), .step 0, .step 0, .step 0, .step 0,
    .step 0]

def firstFetchEvents (moment : Nat) : Event := firstFetch.getD moment (.tick 0)

theorem firstFetch_ended (moment : Nat) :
    run sampleConfig firstFetchEvents (11 + moment) = run sampleConfig firstFetchEvents 11 := by
  induction moment with
  | zero => rfl
  | succ moment ih =>
      have hevent : firstFetchEvents (11 + moment) = .tick 0 := by
        have hover : firstFetch.length ≤ 11 + moment := Nat.le_add_right _ _
        rw [firstFetchEvents, List.getD_eq_getElem?_getD, List.getElem?_eq_none hover]
        rfl
      have hrun : run sampleConfig firstFetchEvents (11 + (moment + 1)) =
          happen sampleConfig (11 + moment) (run sampleConfig firstFetchEvents (11 + moment))
            (firstFetchEvents (11 + moment)) := rfl
      rw [hrun, hevent, ih]
      rfl

theorem firstFetch_fair : Fair sampleConfig firstFetchEvents := by
  intro moment key hmarked
  have hkey : ((KeyMap.empty.set (str "tenant") ()).get key).isSome = true → str "tenant" = key := by
    intro hsome
    by_contra hother
    rw [KeyMap.get_set_of_ne (Ne.symm hother)] at hsome
    cases hsome
  refine ⟨moment, Nat.le_refl _, ?_⟩
  by_cases hmoment : moment < 11
  · interval_cases moment
    · cases hmarked
    · cases hmarked
    · cases hmarked
    · cases hmarked
    · exact ⟨_, rfl, hkey hmarked, rfl, rfl⟩
    · exact ⟨_, rfl, hkey hmarked, rfl, rfl⟩
    · exact ⟨_, rfl, hkey hmarked, rfl, rfl⟩
    · exact ⟨_, rfl, hkey hmarked, rfl, rfl⟩
    · exact ⟨_, rfl, hkey hmarked, rfl, rfl⟩
    · exact ⟨_, rfl, hkey hmarked, rfl, rfl⟩
    · cases hmarked
  · obtain ⟨more, rfl⟩ := Nat.exists_eq_add_of_le (Nat.le_of_not_lt hmoment)
    rw [firstFetch_ended] at hmarked
    cases hmarked

end StructuredProxy.LimitService
