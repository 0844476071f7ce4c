import StructuredProxy.Lib.Calls
import StructuredProxy.Lib.KeyMap
import StructuredProxy.Lib.Schedules
import StructuredProxy.Shield.Gcra
import StructuredProxy.Transcode.Text

/-!
# The limit service

`resolve` answers from a cache and never waits: a missing or stale entry starts a background fetch,
unless one of that key is under way or all slots are in use. The cache and the marks of the fetches
under way are maps in shards, each behind a lock of its own. A call is modelled at its atomic steps, from
the sweep it may begin with to the end of the fetch task it may leave behind. Instants are nanoseconds
since the service was built.
-/

namespace StructuredProxy

open Lib

structure CompiledProfile where
  gcra : Gcra
  limit : Nat
  window : Nat

structure Cached where
  profile : Option CompiledProfile
  fetched : Nat
  lastAccess : Nat

structure LimitService where
  clock : Nat
  cache : KeyMap Text Cached
  inflight : KeyMap Text Unit
  fetchSlots : Nat
  lastSweepMs : Nat

namespace LimitService

def sweepIntervalMs : Nat := 60000
def maxCacheEntries : Nat := 100000
def maxConcurrentFetches : Nat := 32

def new : LimitService := ⟨0, .empty, .empty, maxConcurrentFetches, 0⟩

def perMinute : Nat := 60 * nanosPerSec

theorem fromProfile_perMinute (rate burst : Nat) :
    (Gcra.fromProfile ⟨rate, perMinute, burst⟩).isSome := by
  have hinterval : max (max perMinute 1 / max rate 1) 1 ≤ perMinute :=
    Nat.max_le.mpr ⟨Nat.div_le_self _ _, by decide⟩
  have hwhole : durationFromNanos (max (max perMinute 1 / max rate 1) 1) =
      max (max perMinute 1 / max rate 1) 1 := by
    refine if_pos (Nat.lt_of_le_of_lt (Nat.div_le_div_right hinterval) ?_)
    decide
  have htau : max (max perMinute 1 / max rate 1) 1 * min (max burst 1 - 1) (2 ^ 32 - 1) ≤
      maxDuration :=
    calc
      _ ≤ perMinute * (2 ^ 32 - 1) := Nat.mul_le_mul hinterval (Nat.min_le_right _ _)
      _ ≤ maxDuration := by decide
  unfold Gcra.fromProfile
  simp only [hwhole, Option.isSome_map, Option.isSome_attach, duration, if_pos htau,
    Option.isSome_some]

def profileFromNumbers (rpm burst : Nat) : Option CompiledProfile :=
  if rpm = 0 then none
  else
    some {
      gcra := (Gcra.fromProfile ⟨rpm, perMinute, max burst 1⟩).get (fromProfile_perMinute _ _)
      limit := rpm
      window := perMinute }

structure LimitResponse where
  tier : Option Text
  ratePerMin : Option Nat
  burst : Option Nat

/-- A tier that is not configured falls through to the numbers. -/
def mapResponse (profiles : KeyMap Text CompiledProfile) (body : LimitResponse) :
    Option CompiledProfile :=
  match body.tier.bind profiles.get with
  | some profile => some profile
  | none => body.ratePerMin.bind fun rpm => profileFromNumbers rpm (body.burst.getD rpm)

/-- How a request to the service ends: without a response, or with a status and the body, if it
parses. -/
inductive Reply where
  | failed
  | answered (status : Nat) (body : Option LimitResponse)

/-- The limit of a reply, where 404 says that there is none; an error when the lookup failed. -/
def fetch (profiles : KeyMap Text CompiledProfile) : Reply → Except Unit (Option CompiledProfile)
  | .failed => .error ()
  | .answered status body =>
      if 200 ≤ status ∧ status < 300 then
        match body with
        | none => .error ()
        | some body => .ok (mapResponse profiles body)
      else if status = 404 then .ok none
      else .error ()

structure Config where
  ttl : Nat
  profiles : KeyMap Text CompiledProfile
  shards : Nat
  shardOf : Text → Nat
  overflow : Overflow

/-- An idle entry is kept for a few refresh cycles, at least 5 minutes. -/
def Config.evictAfter (config : Config) : Nat := max (config.ttl * 4) (300 * nanosPerSec)

inductive Sweep where
  | load (nowMs : Nat)
  | claim (nowMs last : Nat)
  /-- The idle entries are dropped; these keys are still to be visited. -/
  | retain (unvisited : List Text)
  | measure (shard counted : Nat)
  | collect (shard : Nat) (ages : List (Text × Nat))
  /-- The entries are counted again for how many are too many. -/
  | excess (ages : List (Text × Nat)) (shard counted : Nat)
  | remove (keys : List Text)

inductive Swept where
  | goesOn (sweep : Sweep)
  | done
  | panicked

variable (config : Config) (service : LimitService)

def shard (index : Nat) : List (Text × Cached) :=
  service.cache.entries.filter fun entry => config.shardOf entry.1 = index

def evict (key : Text) : LimitService := { service with cache := service.cache.erase key }

def idle (cached : Cached) : Bool := config.evictAfter ≤ service.clock - cached.lastAccess

def oldest (ages : List (Text × Nat)) (count : Nat) : List Text :=
  ((ages.mergeSort fun a b => a.2 ≤ b.2).take count).map Prod.fst

def Sweep.step : Sweep → LimitService × Swept
  | .load nowMs =>
      if nowMs - service.lastSweepMs < sweepIntervalMs then (service, .done)
      else (service, .goesOn (.claim nowMs service.lastSweepMs))
  | .claim nowMs last =>
      if service.lastSweepMs = last then
        ({ service with lastSweepMs := nowMs }, .goesOn (.retain service.cache.keys))
      else (service, .done)
  | .retain unvisited =>
      (service, .goesOn (if unvisited.isEmpty then .measure 0 0 else .retain unvisited))
  | .measure shard counted =>
      if shard < config.shards then
        (service, .goesOn (.measure (shard + 1) (counted + (service.shard config shard).length)))
      else if maxCacheEntries < counted then (service, .goesOn (.collect 0 []))
      else (service, .done)
  | .collect shard ages =>
      if shard < config.shards then
        let more := (service.shard config shard).map fun entry => (entry.1, entry.2.lastAccess)
        (service, .goesOn (.collect (shard + 1) (ages ++ more)))
      else (service, .goesOn (.excess ages 0 0))
  | .excess ages shard counted =>
      if shard < config.shards then
        (service, .goesOn (.excess ages (shard + 1) (counted + (service.shard config shard).length)))
      else
        -- another sweep may have removed entries since the first count
        match subU64 config.overflow counted maxCacheEntries with
        | none => (service, .panicked)
        | some count => (service, .goesOn (.remove (oldest ages count)))
  | .remove [] => (service, .done)
  | .remove (key :: keys) => (service.evict key, .goesOn (.remove keys))

/-- A sweep visits the entry of one key, which is dropped when it is idle. The order is that of the map,
and an entry stored meanwhile may be visited too. -/
def Sweep.visit (key : Text) : Sweep → LimitService × Sweep
  | .retain unvisited =>
      (if (service.cache.get key).any (service.idle config) then service.evict key else service,
        .retain (unvisited.filter (· ≠ key)))
  | sweep => (service, sweep)

/-! ### Calls -/

/-- The points at which a call can be interrupted, and what it holds there. -/
inductive Stage where
  | sweep (sweep : Sweep)
  | read
  | judge (cached : Cached)
  /-- `trigger_refresh`; `resolve` will return the answer. -/
  | mark (answer : Option CompiledProfile)
  | acquire (answer : Option CompiledProfile)
  | giveUp (answer : Option CompiledProfile)
  /-- `resolve` has returned; the task waits for the service. -/
  | fetch
  | fail (now : Nat)
  /-- `insert_capped` counts the entries, shard by shard. -/
  | count (succeeded : Bool) (cached : Cached) (shard counted : Nat)
  | insert (succeeded : Bool) (cached : Cached) (overCap : Bool)
  | unmark
  | release

structure Call where
  key : Text
  began : Nat
  stage : Stage

def Call.goTo (call : Call) (stage : Stage) : Call := { call with stage }

def Call.afterSweep (call : Call) : Swept → Option Call
  | .goesOn sweep => some (call.goTo (.sweep sweep))
  | .done => some (call.goTo .read)
  | .panicked => none

/-- An occupied entry is replaced; a vacant one is filled unless the cache is at its capacity. -/
def insertCapped (key : Text) (cached : Cached) (overCap : Bool) : LimitService :=
  if (service.cache.get key).isNone && overCap then service
  else { service with cache := service.cache.set key cached }

def Call.step (call : Call) : LimitService × Option Call :=
  match call.stage with
  | .sweep sweep =>
      let (service, swept) := sweep.step config service
      (service, call.afterSweep swept)
  | .read =>
      match service.cache.get call.key with
      | none => (service, some (call.goTo (.mark none)))
      | some cached =>
          let cached := { cached with lastAccess := service.clock }
          ({ service with cache := service.cache.set call.key cached },
            some (call.goTo (.judge cached)))
  | .judge cached =>
      if service.clock - cached.fetched < config.ttl then (service, none)
      else (service, some (call.goTo (.mark cached.profile)))
  | .mark answer =>
      if (service.inflight.get call.key).isSome then (service, none)
      else
        ({ service with inflight := service.inflight.set call.key () },
          some (call.goTo (.acquire answer)))
  | .acquire answer =>
      if 0 < service.fetchSlots then
        ({ service with fetchSlots := service.fetchSlots - 1 }, some (call.goTo .fetch))
      else (service, some (call.goTo (.giveUp answer)))
  | .giveUp _ => ({ service with inflight := service.inflight.erase call.key }, none)
  | .fetch => (service, some call)
  | .fail now =>
      match service.cache.get call.key with
      | some cached =>
          ({ service with cache := service.cache.set call.key { cached with fetched := now } },
            some (call.goTo .unmark))
      | none => (service, some (call.goTo (.count false ⟨none, now, now⟩ 0 0)))
  | .count succeeded cached shard counted =>
      if shard < config.shards then
        let counted := counted + (service.shard config shard).length
        (service, some (call.goTo (.count succeeded cached (shard + 1) counted)))
      else (service, some (call.goTo (.insert succeeded cached (maxCacheEntries ≤ counted))))
  | .insert _ cached overCap =>
      (service.insertCapped call.key cached overCap, some (call.goTo .unmark))
  | .unmark =>
      ({ service with inflight := service.inflight.erase call.key }, some (call.goTo .release))
  | .release => ({ service with fetchSlots := service.fetchSlots + 1 }, none)

def Call.returns (call : Call) : Option (Option CompiledProfile) :=
  match call.stage with
  | .judge cached => if service.clock - cached.fetched < config.ttl then some cached.profile else none
  | .mark answer => if (service.inflight.get call.key).isSome then some answer else none
  | .acquire answer => if 0 < service.fetchSlots then some answer else none
  | .giveUp answer => some answer
  | _ => none

def Call.visit (key : Text) (call : Call) : LimitService × Option Call :=
  match call.stage with
  | .sweep sweep =>
      let (service, sweep) := sweep.visit config service key
      (service, some (call.goTo (.sweep sweep)))
  | _ => (service, some call)

/-- The service replies to the fetch of a task, which reads the clock. -/
def Call.fetched (reply : Reply) (call : Call) : LimitService × Option Call :=
  match call.stage with
  | .fetch =>
      match LimitService.fetch config.profiles reply with
      | .ok resolved =>
          let cached := ⟨resolved, service.clock, service.clock⟩
          (service, some (call.goTo (.count true cached 0 0)))
      | .error _ => (service, some (call.goTo (.fail service.clock)))
  | _ => (service, some call)

inductive Event where
  | tick (elapsed : Nat)
  | resolve (key : Text)
  | step (index : Nat)
  | visit (index : Nat) (key : Text)
  | fetched (index : Nat) (reply : Reply)

def millis : Nat := min (service.clock / 1000000) (2 ^ 64 - 1)

def happen (moment : Nat) (pool : Pool LimitService Call) : Event → Pool LimitService Call
  | .tick elapsed => { pool with shared := { pool.shared with clock := pool.shared.clock + elapsed } }
  | .resolve key => pool.spawn (some ⟨key, moment, .sweep (.load pool.shared.millis)⟩)
  | .step index => pool.advance (Call.step config) index
  | .visit index key => pool.advance (fun service => Call.visit config service key) index
  | .fetched index reply => pool.advance (fun service => Call.fetched config service reply) index

def run (events : Nat → Event) : Nat → Pool LimitService Call :=
  stateAt (happen config) ⟨new, []⟩ events

end LimitService

end StructuredProxy
