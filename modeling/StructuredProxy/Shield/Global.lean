import StructuredProxy.Lib.KeyMap
import StructuredProxy.Lib.Machine
import StructuredProxy.Transcode.Text
import Mathlib.Algebra.Order.Floor.Ring
import Mathlib.Data.Rat.Floor

/-!
# The fleet-wide counters

An instance counts the requests it admits for a key, publishes the counts to a shared store from time to
time and reads back what the whole fleet has consumed in the current epoch of the key's window and the
one before. A request is gated on the cached estimate and the counts not yet published. Wall-clock times
(`now`) and instants of the monotonic clock (`instant`) are nanoseconds. Counters are numbers: no count
of a key is more than the admits recorded, so none overflows before `2 ^ 64` of them.
-/

namespace StructuredProxy

open Lib

def asSecs (d : Nat) : Nat := d / nanosPerSec

def windowSecs (window : Nat) : Nat := max (asSecs window) 1

def epochAt (now window : Nat) : Nat := asSecs now / windowSecs window

def elapsedInWindow (now window : Nat) : Nat :=
  asSecs now % windowSecs window * nanosPerSec + now % nanosPerSec

/-- Rounding to a binary64: monotone, and exact for integers up to `2 ^ 53`. -/
structure Rounding where
  round : Rat → Rat
  mono : ∀ a b, a ≤ b → round a ≤ round b
  exact : ∀ n : Nat, n ≤ 2 ^ 53 → round n = n

namespace Rounding

variable (r : Rounding)

def asSecsF64 (d : Nat) : Rat :=
  r.round (r.round (asSecs d) + r.round (r.round (d % nanosPerSec : Nat) / r.round nanosPerSec))

def minPositive : Rat := 1 / 2 ^ 1022

/-- The count of the current epoch and the part of the previous one that the window still covers. -/
def slidingEstimate (cur prev elapsed window : Nat) : Rat :=
  let w := max (r.asSecsF64 window) minPositive
  let frac := min (max (r.round (r.asSecsF64 elapsed / w)) 0) 1
  r.round (r.round cur + r.round (r.round prev * r.round (1 - frac)))

/-- The estimate rounded up, as a `u64`. -/
def estimate (cur prev elapsed window : Nat) : Nat :=
  min (max ⌈r.slidingEstimate cur prev elapsed window⌉ 0).toNat (2 ^ 64 - 1)

end Rounding

structure KeyState where
  epoch : Nat
  windowSecs : Nat
  /-- Admits of the current epoch not yet claimed for a push. -/
  localCount : Nat
  /-- Unclaimed admits owed to `carryoverEpoch`. -/
  carryover : Nat
  carryoverEpoch : Nat
  remoteEstimate : Nat
  estimateAt : Nat
  lastSeen : Nat
  seenSinceTick : Bool
deriving DecidableEq

namespace KeyState

def new (epoch windowSecs instant : Nat) : KeyState :=
  { epoch, windowSecs, localCount := 0, carryover := 0, carryoverEpoch := 0, remoteEstimate := 0,
    estimateAt := instant, lastSeen := instant, seenSinceTick := true }

/-- Move to an epoch; unclaimed admits become owed to the epoch left. -/
def rollTo (epoch : Nat) (s : KeyState) : KeyState :=
  if s.epoch ≠ epoch then
    if 0 < s.localCount then
      { s with
        -- Admits still owed to an earlier epoch give way to those of the epoch left.
        carryover :=
          if 0 < s.carryover && s.carryoverEpoch ≠ s.epoch then s.localCount
          else s.carryover + s.localCount
        carryoverEpoch := s.epoch
        epoch
        localCount := 0 }
    else { s with epoch, localCount := 0 }
  else s

end KeyState

/-- A claimed count, to be pushed to the counter of its epoch. -/
structure PushPlan where
  key : Text
  pushEpoch : Nat
  readEpoch : Nat
  window : Nat
  delta : Nat
  isCarryover : Bool
deriving DecidableEq

namespace KeyState

def active (s : KeyState) : Bool := 0 < s.localCount || 0 < s.carryover || s.seenSinceTick

def plans (key : Text) (now : Nat) (s : KeyState) : List PushPlan :=
  let window := s.windowSecs * nanosPerSec
  let readEpoch := epochAt now window
  ⟨key, s.epoch, readEpoch, window, s.localCount, false⟩ ::
    if 0 < s.carryover then [⟨key, s.carryoverEpoch, readEpoch, window, s.carryover, true⟩] else []

def claim (key : Text) (now : Nat) (s : KeyState) : List PushPlan × KeyState :=
  if s.active then
    (s.plans key now, { s with seenSinceTick := false, localCount := 0, carryover := 0 })
  else ([], { s with seenSinceTick := false })

end KeyState

/-! ### The counters -/

structure GlobalCounters where
  interval : Nat
  states : KeyMap Text KeyState

namespace GlobalCounters

def keyTtl : Nat := 600 * nanosPerSec
def maxKeys : Nat := 500000

variable (c : GlobalCounters)

/-- The state of a key at `now`, made or reset for the window when need be; none for a new key when the
map is full. -/
def stateFor (key : Text) (window now instant : Nat) : Option KeyState :=
  let epoch := epochAt now window
  let found :=
    match c.states.get key with
    | some s => some s
    | none =>
        if maxKeys ≤ c.states.size then none
        else some (KeyState.new epoch (StructuredProxy.windowSecs window) instant)
  found.map fun s =>
    let s :=
      if s.windowSecs ≠ StructuredProxy.windowSecs window then
        KeyState.new epoch (StructuredProxy.windowSecs window) instant
      else s
    { s.rollTo epoch with lastSeen := instant, seenSinceTick := true }

def setState (key : Text) (s : KeyState) : GlobalCounters := { c with states := c.states.set key s }

def staleAfter : Nat := max (c.interval * 4) (2 * nanosPerSec)

def fleetRemaining (key : Text) (budget window now instant : Nat) : Nat × GlobalCounters :=
  match c.stateFor key window now instant with
  | none => (budget, c)
  | some s =>
      let remote := if instant - s.estimateAt < c.staleAfter then s.remoteEstimate else 0
      (budget - (remote + s.localCount + s.carryover), c.setState key s)

def record (key : Text) (window now instant : Nat) : GlobalCounters :=
  match c.stateFor key window now instant with
  | none => c
  | some s => c.setState key { s with localCount := s.localCount + 1 }

def claimKey (key : Text) (now : Nat) : List PushPlan × GlobalCounters :=
  match c.states.get key with
  | none => ([], c)
  | some s => ((s.claim key now).1, c.setState key (s.claim key now).2)

/-- Claim the counts of the keys tracked at the start, one after the other. -/
def claimPlans (now : Nat) : List PushPlan × GlobalCounters :=
  c.states.keys.foldl (fun (plans, c) key => (plans ++ (c.claimKey key now).1, (c.claimKey key now).2))
    ([], c)

/-- Refresh the estimate of a plan's key from the counts read for it, unless the key has moved to another
window or a later epoch. -/
def applyEstimate (r : Rounding) (now instant : Nat) (plan : PushPlan) (read : Nat × Nat) :
    GlobalCounters :=
  if plan.isCarryover then c
  else
    match c.states.get plan.key with
    | none => c
    | some s =>
        if s.windowSecs ≠ asSecs plan.window || plan.readEpoch < s.epoch then c
        else
          c.setState plan.key { s with
            remoteEstimate := r.estimate read.1 read.2 (elapsedInWindow now plan.window) plan.window
            estimateAt := instant }

def applyEstimates (r : Rounding) (now instant : Nat) (plans : List PushPlan) (reads : List (Nat × Nat)) :
    GlobalCounters :=
  (plans.zip reads).foldl (fun c entry => c.applyEstimate r now instant entry.1 entry.2) c

/-- Whether a key's state outlives a sweep: it has unpublished admits or was seen not long ago. -/
def keeps (instant : Nat) (s : KeyState) : Bool :=
  0 < s.localCount || 0 < s.carryover ||
    instant - s.lastSeen < max keyTtl (min (s.windowSecs * 2) (2 ^ 64 - 1) * nanosPerSec)

def evictStale (instant : Nat) : GlobalCounters :=
  { c with states := c.states.retain fun _ s => keeps instant s }

end GlobalCounters

def epochKey (key : Text) (epoch : Nat) : Text := str "sp:rl:" ++ key ++ [colon] ++ decimal epoch

abbrev Shared := Text → Nat

/-- `INCRBY` of every claimed count. -/
def pushDeltas (plans : List PushPlan) (shared : Shared) : Shared :=
  (plans.filter fun plan => 0 < plan.delta).foldl (fun shared plan =>
    Function.update shared (epochKey plan.key plan.pushEpoch)
      (shared (epochKey plan.key plan.pushEpoch) + plan.delta)) shared

/-- `MGET` of the current and the previous epoch of every plan. -/
def readEpochs (plans : List PushPlan) (shared : Shared) : List (Nat × Nat) :=
  plans.map fun plan =>
    (shared (epochKey plan.key plan.readEpoch), shared (epochKey plan.key (plan.readEpoch - 1)))

end StructuredProxy
