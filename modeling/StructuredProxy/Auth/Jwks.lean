import StructuredProxy.Lib.Calls
import StructuredProxy.Lib.KeyMap
import StructuredProxy.Transcode.Text

/-!
# The cache of signing keys

`key_for` answers from a key set fetched within `max_age`, and otherwise takes the refresh slot, fetches
the set again unless the last attempt was less than `min_refresh_interval` ago, and answers from the set
then in place. A call is at one of its await points, on a clock that moves between steps; it may be
dropped there, which releases the slot if the call holds it.
-/

namespace StructuredProxy.Auth

open Lib

/-- The keys of a successful fetch by key id, and when they were fetched; no keys before the first
one. -/
structure KeySet (VerifyingKey : Type) where
  keys : KeyMap Text VerifyingKey
  fetched : Option Nat
  loaded : fetched = none → keys = .empty

namespace KeySet

variable {VerifyingKey : Type}

def default : KeySet VerifyingKey := ⟨.empty, none, fun _ => rfl⟩

def fetchedAt (keys : KeyMap Text VerifyingKey) (now : Nat) : KeySet VerifyingKey :=
  ⟨keys, some now, fun h => absurd h (Option.some_ne_none now)⟩

end KeySet

structure JwksConfig where
  maxAge : Nat
  minRefreshInterval : Nat

structure JwksState (VerifyingKey : Type) where
  clock : Nat
  set : KeySet VerifyingKey
  lastRefresh : Option Nat
  held : Bool

inductive KeyStage (VerifyingKey : Type) where
  | lookUp
  | wait
  /-- The slot is held; whether a set is loaded is still to be read. -/
  | check (lastRefresh : Nat)
  | fetch
  | store (set : KeySet VerifyingKey)
  | answer

structure KeyCall (VerifyingKey : Type) where
  kid : Text
  began : Nat
  stage : KeyStage VerifyingKey

namespace KeyCall

variable {VerifyingKey : Type}

def goTo (call : KeyCall VerifyingKey) (stage : KeyStage VerifyingKey) : KeyCall VerifyingKey :=
  { call with stage }

def holds (call : KeyCall VerifyingKey) : Bool :=
  match call.stage with
  | .check _ => true
  | .fetch => true
  | .store _ => true
  | _ => false

def refreshes (call : KeyCall VerifyingKey) : Bool :=
  match call.stage with
  | .fetch => true
  | .store _ => true
  | _ => false

variable (config : JwksConfig)

def fresh (state : JwksState VerifyingKey) : Bool :=
  state.set.fetched.any fun t => state.clock - t < config.maxAge

def answered (state : JwksState VerifyingKey) (call : KeyCall VerifyingKey) : Option VerifyingKey :=
  match call.stage with
  | .lookUp => if fresh config state then state.set.keys.get call.kid else none
  | .answer => state.set.keys.get call.kid
  | _ => none

def step (state : JwksState VerifyingKey) (call : KeyCall VerifyingKey) :
    JwksState VerifyingKey × Option (KeyCall VerifyingKey) :=
  match call.stage with
  | .lookUp =>
      (state, if (answered config state call).isSome then none else some (call.goTo .wait))
  | .wait =>
      if state.held then (state, some call)
      else
        match state.lastRefresh with
        | some t => ({ state with held := true }, some (call.goTo (.check t)))
        | none =>
            ({ state with held := true, lastRefresh := some state.clock }, some (call.goTo .fetch))
  | .check t =>
      if state.set.fetched.isSome && state.clock - t < config.minRefreshInterval then
        -- throttled
        ({ state with held := false }, some (call.goTo .answer))
      else ({ state with lastRefresh := some state.clock }, some (call.goTo .fetch))
  | .fetch => (state, some call)
  | .store set => ({ state with set, held := false }, some (call.goTo .answer))
  | .answer => (state, none)

/-- The endpoint answers; the moment is read before the set is stored. -/
def fetched (keys : KeyMap Text VerifyingKey) (state : JwksState VerifyingKey)
    (call : KeyCall VerifyingKey) : JwksState VerifyingKey × Option (KeyCall VerifyingKey) :=
  match call.stage with
  | .fetch => (state, some (call.goTo (.store (.fetchedAt keys state.clock))))
  | _ => (state, some call)

def failed (state : JwksState VerifyingKey) (call : KeyCall VerifyingKey) :
    JwksState VerifyingKey × Option (KeyCall VerifyingKey) :=
  match call.stage with
  | .fetch => ({ state with held := false }, some (call.goTo .answer))
  | _ => (state, some call)

def drop (state : JwksState VerifyingKey) (call : KeyCall VerifyingKey) :
    JwksState VerifyingKey × Option (KeyCall VerifyingKey) :=
  ({ state with held := state.held && !call.holds }, none)

/-! ### Schedules -/

inductive Event (VerifyingKey : Type) where
  | tick (elapsed : Nat)
  | keyFor (kid : Text)
  | step (index : Nat)
  | fetched (index : Nat) (keys : KeyMap Text VerifyingKey)
  | failed (index : Nat)
  | drop (index : Nat)

abbrev Schedule (VerifyingKey : Type) := List (Event VerifyingKey)

def happen (pool : Pool (JwksState VerifyingKey) (KeyCall VerifyingKey)) :
    Event VerifyingKey → Pool (JwksState VerifyingKey) (KeyCall VerifyingKey)
  | .tick elapsed => { pool with shared := { pool.shared with clock := pool.shared.clock + elapsed } }
  | .keyFor kid => pool.spawn (some ⟨kid, pool.shared.clock, .lookUp⟩)
  | .step index => pool.advance (step config) index
  | .fetched index keys => pool.advance (fetched keys) index
  | .failed index => pool.advance failed index
  | .drop index => pool.advance drop index

def run (schedule : Schedule VerifyingKey) : Pool (JwksState VerifyingKey) (KeyCall VerifyingKey) :=
  schedule.foldl (happen config) ⟨⟨0, .default, none, false⟩, []⟩

end KeyCall

end StructuredProxy.Auth
