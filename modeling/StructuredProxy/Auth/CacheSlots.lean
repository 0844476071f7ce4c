import StructuredProxy.Auth.Cache

/-!
# Every slot of the claims cache is accounted for

At every point of every interleaving the counter is the number of entries, the slots reserved and not
yet stored, and the slots of removed or replaced entries not yet returned.
-/

namespace StructuredProxy.Auth.ClaimsCache

open Lib

def Call.reserved : Call → Nat
  | .store _ _ => 1
  | _ => 0

def Call.owed : Call → Nat
  | .returnRemoved => 1
  | .sweep _ _ _ _ freed => freed
  | .returnFreed _ _ freed => freed
  | .returnReplaced => 1
  | _ => 0

def Call.returning : Call → Nat
  | .returnRemoved => 1
  | .returnFreed _ _ freed => freed
  | .returnReplaced => 1
  | _ => 0

def Call.slots (call : Call) : Nat := call.reserved + call.owed

theorem Call.returning_le_owed (call : Call) : call.returning ≤ call.owed := by
  cases call <;> simp [returning, owed]

def Balanced (config : CacheConfig) (cache : ClaimsCache) (held : Nat) : Prop :=
  cache.taken = cache.entries.size + held ∧ cache.taken ≤ config.maxEntries

variable {config : CacheConfig} {numbers : JsonNumbers} {cache : ClaimsCache} {held : Nat}

theorem Balanced.erase {key : TokenKey} {entry : Entry} (h : Balanced config cache held)
    (hentry : cache.entries.get key = some entry) :
    Balanced config { cache with entries := cache.entries.erase key } (held + 1) := by
  have hsize := KeyMap.size_erase_of_some hentry
  refine ⟨?_, h.2⟩
  have htaken := h.1
  simp only
  omega

theorem Balanced.giveBack {slots : Nat} (h : Balanced config cache (slots + held)) :
    Balanced config (cache.giveBack slots) held := by
  obtain ⟨htaken, hlimit⟩ := h
  have hfits := config.fits
  have hsub : wrappingSub cache.taken slots = cache.taken - slots :=
    wrappingSub_of_le (by omega) (by omega)
  constructor
  · rw [ClaimsCache.giveBack, hsub]
    simp only
    omega
  · rw [ClaimsCache.giveBack, hsub]
    simp only
    omega

theorem Balanced.tryReserve {reserved : ClaimsCache} (h : Balanced config cache held)
    (hreserved : cache.tryReserve config = some reserved) :
    Balanced config reserved (held + 1) := by
  rw [ClaimsCache.tryReserve] at hreserved
  by_cases hlimit : cache.taken < config.maxEntries
  · rw [if_pos hlimit] at hreserved
    cases hreserved
    have htaken := h.1
    constructor <;> simp only <;> omega
  · rw [if_neg hlimit] at hreserved
    cases hreserved

theorem Balanced.store (h : Balanced config cache (1 + held)) (key : TokenKey) (entry : Entry) :
    Balanced config { cache with entries := cache.entries.set key entry }
      ((if (cache.entries.get key).isSome then 1 else 0) + held) := by
  obtain ⟨htaken, hlimit⟩ := h
  refine ⟨?_, hlimit⟩
  simp only [KeyMap.size_set]
  cases hold : cache.entries.get key with
  | none =>
      have hsize := KeyMap.size_erase_of_none hold
      simp only [Option.isSome_none, Bool.false_eq_true, ↓reduceIte]
      omega
  | some old =>
      have hsize := KeyMap.size_erase_of_some hold
      simp only [Option.isSome_some, ↓reduceIte]
      omega

def heldBy (next : Option Call) : Nat := Pool.weight Call.slots next.toList

@[simp]
theorem heldBy_none : heldBy none = 0 := rfl

@[simp]
theorem heldBy_some (call : Call) : heldBy (some call) = call.reserved + call.owed := by
  simp [heldBy, Pool.weight, Call.slots]

theorem reserve_balanced (h : Balanced config cache held) (key : TokenKey) (entry : Entry)
    (failed : Option Call) (hfailed : heldBy failed = 0) :
    let result := match cache.tryReserve config with
      | some cache => (cache, some (Call.store key entry))
      | none => (cache, failed)
    Balanced config result.1 (heldBy result.2 + held) := by
  cases hreserved : cache.tryReserve config with
  | none =>
      simp only [hfailed, Nat.zero_add]
      exact h
  | some reserved =>
      have hnext := h.tryReserve hreserved
      rw [Nat.add_comm] at hnext
      simpa [Call.reserved, Call.owed] using hnext

/-- One step keeps the account, whatever the other calls hold. -/
theorem step_balanced (cache : ClaimsCache) (call : Call) (rest : Nat)
    (h : Balanced config cache (call.slots + rest)) :
    Balanced config (step config cache call).1 (heldBy (step config cache call).2 + rest) := by
  rw [Call.slots] at h
  cases call with
  | lookUp key now =>
      rw [step]
      split
      · exact h
      · split
        · exact h
        · rw [heldBy_some]
          exact h
  | removeDead key now =>
      rw [step]
      split
      · exact h
      · rename_i entry hentry
        split
        · exact h
        · have hnext := h.erase hentry
          rw [Nat.add_comm] at hnext
          rw [heldBy_some]
          simpa [Call.reserved, Call.owed] using hnext
  | returnRemoved =>
      simp only [Call.reserved, Call.owed, Nat.zero_add] at h
      simpa [step] using h.giveBack
  | reserve key entry now =>
      simp only [Call.reserved, Call.owed, Nat.zero_add] at h
      exact reserve_balanced h key entry (some (.claimSweep key entry now)) rfl
  | claimSweep key entry now =>
      rw [step]
      split
      · rw [heldBy_some]
        exact h
      · exact h
  | sweep key entry now unvisited freed =>
      rw [step]
      split
      · rw [heldBy_some]
        exact h
      · rw [heldBy_some]
        exact h
  | returnFreed key entry freed =>
      simp only [Call.reserved, Call.owed, Nat.zero_add] at h
      simpa [step, Call.reserved, Call.owed] using h.giveBack
  | retry key entry =>
      simp only [Call.reserved, Call.owed, Nat.zero_add] at h
      exact reserve_balanced h key entry none rfl
  | store key entry =>
      simp only [Call.reserved, Call.owed, Nat.add_zero] at h
      have hnext := h.store key entry
      rw [step]
      split
      · rename_i hreplaced
        rw [if_pos hreplaced] at hnext
        rw [heldBy_some]
        exact hnext
      · rename_i hreplaced
        rw [if_neg hreplaced] at hnext
        exact hnext
  | returnReplaced =>
      simp only [Call.reserved, Call.owed, Nat.zero_add] at h
      simpa [step] using h.giveBack

theorem visit_balanced (key : TokenKey) (cache : ClaimsCache) (call : Call) (rest : Nat)
    (h : Balanced config cache (call.slots + rest)) :
    Balanced config (visit key cache call).1 (heldBy (visit key cache call).2 + rest) := by
  rw [Call.slots] at h
  cases call with
  | sweep own entry now unvisited freed =>
      rw [visit]
      split
      · rw [heldBy_some]
        exact h
      · rename_i found hfound
        split
        · rw [heldBy_some]
          exact h
        · have hnext := h.erase hfound
          rw [heldBy_some]
          simp only [Call.reserved, Call.owed, Nat.zero_add] at hnext ⊢
          rwa [Nat.add_right_comm] at hnext
  | _ =>
      rw [visit, heldBy_some]
      · exact h
      · simp

theorem happen_balanced {pool : Pool ClaimsCache Call} (event : Event)
    (h : Balanced config pool.shared (Pool.weight Call.slots pool.calls)) :
    Balanced config (happen config numbers pool event).shared
      (Pool.weight Call.slots (happen config numbers pool event).calls) := by
  cases event with
  | get key now =>
      simp only [happen, Pool.spawn, Pool.weight_append]
      exact h
  | insert key claims now =>
      have hbegins : heldBy (insertCall config numbers key claims now) = 0 := by
        rw [insertCall]
        split
        · rfl
        · split <;> rfl
      simp only [happen, Pool.spawn, Pool.weight_append]
      rw [heldBy] at hbegins
      rw [hbegins]
      exact h
  | step index => exact Pool.advance_keeps step_balanced index h
  | visit index key => exact Pool.advance_keeps (visit_balanced key) index h

theorem run_balanced (events : List Event) :
    Balanced config (run config numbers events).shared
      (Pool.weight Call.slots (run config numbers events).calls) := by
  have hstart : Balanced config new (Pool.weight Call.slots []) := ⟨rfl, Nat.zero_le _⟩
  refine foldl_keeps (fun pool : Pool ClaimsCache Call =>
    Balanced config pool.shared (Pool.weight Call.slots pool.calls)) ?_ hstart
  exact fun event _ pool h => happen_balanced event h

/-- **Every slot is accounted for at every point of every interleaving.** So the map never holds more
than `maxEntries`, no return takes the counter below zero, and with no call in progress the counter is
the number of entries. -/
theorem taken_accounts_for_slots (config : CacheConfig) (numbers : JsonNumbers)
    (events : List Event) :
    let pool := run config numbers events
    pool.shared.taken = pool.shared.entries.size + Pool.weight Call.reserved pool.calls +
        Pool.weight Call.owed pool.calls ∧
      pool.shared.entries.size ≤ config.maxEntries ∧
      (∀ call ∈ pool.calls, call.returning ≤ pool.shared.taken) ∧
      (pool.calls = [] → pool.shared.taken = pool.shared.entries.size) := by
  intro pool
  obtain ⟨htaken, hlimit⟩ : Balanced config pool.shared (Pool.weight Call.slots pool.calls) :=
    run_balanced events
  have hslots : Pool.weight Call.slots pool.calls =
      Pool.weight Call.reserved pool.calls + Pool.weight Call.owed pool.calls :=
    Pool.weight_add pool.calls
  refine ⟨by omega, by omega, fun call hcall => ?_, fun hidle => ?_⟩
  · calc
      call.returning ≤ call.owed := call.returning_le_owed
      _ ≤ Pool.weight Call.owed pool.calls := Pool.le_weight_of_mem hcall
      _ ≤ pool.shared.taken := by omega
  · rw [hidle] at htaken
    exact htaken

end StructuredProxy.Auth.ClaimsCache
