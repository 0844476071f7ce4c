import StructuredProxy.Lib.Calls
import StructuredProxy.Lib.KeyMap
import StructuredProxy.Lib.Machine
import StructuredProxy.Request.Json
import Mathlib.Data.Rat.Floor

/-!
# The cache of verified claims

Entries sit in a concurrent map, and a counter of taken slots bounds it: an insert takes a slot before
it stores, and whoever removes or replaces an entry gives its slot back afterwards. A call of `get` or
`insert` is modelled at its atomic steps, one constructor for each point it can be interrupted at.
-/

namespace StructuredProxy.Auth

open Lib

/-- SHA-256 of a token. -/
abbrev TokenKey := BitVec 256

/-- A moment on the wall clock and on the cache's own, in whole seconds. -/
structure Now where
  unix : Nat
  mono : Nat
  deriving DecidableEq

structure Entry where
  claims : Json
  /-- The token's `exp`: not used from this second on. -/
  exp : Nat
  /-- The `mono` second from which the entry is too old to use. -/
  deadline : Nat

def Entry.live (entry : Entry) (now : Now) : Bool :=
  now.unix < entry.exp && now.mono < entry.deadline

/-- How a JSON number reads as an integer and as a finite float. -/
structure JsonNumbers where
  asU64 : Text → Option Nat
  asF64 : Text → Option ℚ

/-- A numeric date as whole seconds, rounded down; none when absent, negative or not a number. -/
def numericDate (numbers : JsonNumbers) (claims : Json) (name : Text) : Option Nat :=
  match claims with
  | .object entries =>
      match entries.lookup name with
      | some (.number token) =>
          match numbers.asU64 token with
          | some secs => some secs
          | none =>
              (numbers.asF64 token).bind fun secs =>
                if 0 ≤ secs ∧ secs < 2 ^ 64 then some ⌊secs⌋.toNat else none
      | _ => none
  | _ => none

structure CacheConfig where
  maxEntries : Nat
  maxTtlSecs : Nat
  fits : maxEntries < 2 ^ 64

structure ClaimsCache where
  entries : KeyMap TokenKey Entry
  taken : Nat
  nextSweep : Nat

namespace ClaimsCache

def new : ClaimsCache := ⟨.empty, 0, 0⟩

inductive Call where
  | lookUp (key : TokenKey) (now : Now)
  /-- `get` found an entry no longer live and let go of it. -/
  | removeDead (key : TokenKey) (now : Now)
  /-- `get` removed the entry and still holds its slot. -/
  | returnRemoved
  | reserve (key : TokenKey) (entry : Entry) (now : Now)
  | claimSweep (key : TokenKey) (entry : Entry) (now : Now)
  /-- A sweep: the entries it has still to visit, and how many it removed. -/
  | sweep (key : TokenKey) (entry : Entry) (now : Now) (unvisited : List TokenKey) (freed : Nat)
  /-- The sweep is through and still holds the slots it freed. -/
  | returnFreed (key : TokenKey) (entry : Entry) (freed : Nat)
  | retry (key : TokenKey) (entry : Entry)
  | store (key : TokenKey) (entry : Entry)
  /-- The store replaced an entry, whose slot is still held. -/
  | returnReplaced

/-- `insert` up to its first shared access: none when nothing is to be stored. -/
def insertCall (config : CacheConfig) (numbers : JsonNumbers) (key : TokenKey) (claims : Json)
    (now : Now) : Option Call :=
  match numericDate numbers claims (str "exp") with
  | none => none
  | some exp =>
      if exp ≤ now.unix || (numericDate numbers claims (str "nbf")).any (now.unix < ·) then none
      else
        -- the sum saturates
        let deadline := min (now.mono + config.maxTtlSecs) (2 ^ 64 - 1)
        some (.reserve key ⟨claims, exp, deadline⟩ now)

/-- One slot more, unless all are taken. -/
def tryReserve (config : CacheConfig) (cache : ClaimsCache) : Option ClaimsCache :=
  if cache.taken < config.maxEntries then some { cache with taken := cache.taken + 1 } else none

def giveBack (slots : Nat) (cache : ClaimsCache) : ClaimsCache :=
  { cache with taken := wrappingSub cache.taken slots }

/-- The next step of a call other than a visit of its sweep; a sweep goes on once every entry it found
was visited. -/
def step (config : CacheConfig) (cache : ClaimsCache) : Call → ClaimsCache × Option Call
  | .lookUp key now =>
      match cache.entries.get key with
      | none => (cache, none)
      | some entry => if entry.live now then (cache, none) else (cache, some (.removeDead key now))
  | .removeDead key now =>
      match cache.entries.get key with
      | none => (cache, none)
      | some entry =>
          if entry.live now then (cache, none)
          else ({ cache with entries := cache.entries.erase key }, some .returnRemoved)
  | .returnRemoved => (cache.giveBack 1, none)
  | .reserve key entry now =>
      match cache.tryReserve config with
      | some cache => (cache, some (.store key entry))
      | none => (cache, some (.claimSweep key entry now))
  | .claimSweep key entry now =>
      if cache.nextSweep ≤ now.mono then
        ({ cache with nextSweep := now.mono + 1 },
          some (.sweep key entry now cache.entries.keys 0))
      else (cache, none)
  | .sweep key entry now unvisited freed =>
      if unvisited.isEmpty then (cache, some (.returnFreed key entry freed))
      else (cache, some (.sweep key entry now unvisited freed))
  | .returnFreed key entry freed => (cache.giveBack freed, some (.retry key entry))
  | .retry key entry =>
      match cache.tryReserve config with
      | some cache => (cache, some (.store key entry))
      | none => (cache, none)
  | .store key entry =>
      let replaced := (cache.entries.get key).isSome
      ({ cache with entries := cache.entries.set key entry },
        if replaced then some .returnReplaced else none)
  | .returnReplaced => (cache.giveBack 1, none)

def answer (cache : ClaimsCache) : Call → Option Json
  | .lookUp key now => ((cache.entries.get key).filter (Entry.live · now)).map Entry.claims
  | _ => none

/-- A sweep visits the entry of one key: it is removed when it is not live. The order is that of the
map, and an entry stored meanwhile may be visited too. -/
def visit (key : TokenKey) (cache : ClaimsCache) : Call → ClaimsCache × Option Call
  | .sweep own entry now unvisited freed =>
      let unvisited := unvisited.filter (· ≠ key)
      match cache.entries.get key with
      | none => (cache, some (.sweep own entry now unvisited freed))
      | some found =>
          if found.live now then (cache, some (.sweep own entry now unvisited freed))
          else
            ({ cache with entries := cache.entries.erase key },
              some (.sweep own entry now unvisited (freed + 1)))
  | call => (cache, some call)

/-! ### Interleavings -/

inductive Event where
  | get (key : TokenKey) (now : Now)
  | insert (key : TokenKey) (claims : Json) (now : Now)
  | step (index : Nat)
  | visit (index : Nat) (key : TokenKey)

variable (config : CacheConfig) (numbers : JsonNumbers)

def happen (pool : Pool ClaimsCache Call) : Event → Pool ClaimsCache Call
  | .get key now => pool.spawn (some (.lookUp key now))
  | .insert key claims now => pool.spawn (insertCall config numbers key claims now)
  | .step index => pool.advance (step config) index
  | .visit index key => pool.advance (fun cache => visit key cache) index

def run (events : List Event) : Pool ClaimsCache Call :=
  events.foldl (happen config numbers) ⟨new, []⟩

end ClaimsCache

end StructuredProxy.Auth
