import StructuredProxy.Auth.Cache

/-!
# Verifying a token

`Auth::verify` with the built-in verifier: the moment is read once, the cache is asked for the token's
key, and claims the verifier then returns are stored under that moment. Calls interleave at the atomic
steps of the cache and while they wait for the verifier, where they may also be dropped.
-/

namespace StructuredProxy.Auth

open Lib

structure VerifierConfig extends CacheConfig where
  maxTokenBytes : Nat

structure Acceptance where
  token : Text
  now : Now
  claims : Json

inductive Stage where
  | get (call : ClaimsCache.Call)
  | verify
  | insert (call : ClaimsCache.Call)
  /-- Waiting for the verifier, with a token too long for the cache. -/
  | uncached

structure VerifyCall where
  token : Text
  now : Now
  stage : Stage

/-- What concurrent calls share, and what the verifier returned so far to those that use the cache. -/
structure VerifyState where
  cache : ClaimsCache
  accepted : List Acceptance

namespace VerifyCall

variable (config : VerifierConfig) (numbers : JsonNumbers) (tokenKey : Text → TokenKey)

def start (token : Text) (now : Now) : VerifyCall where
  token := token
  now := now
  stage := if token.length ≤ config.maxTokenBytes then .get (.lookUp (tokenKey token) now) else .uncached

def answered (state : VerifyState) (call : VerifyCall) : Option Json :=
  match call.stage with
  | .get inner => ClaimsCache.answer state.cache inner
  | _ => none

def step (state : VerifyState) (call : VerifyCall) : VerifyState × Option VerifyCall :=
  match call.stage with
  | .get inner =>
      let next := ClaimsCache.step config.toCacheConfig state.cache inner
      ({ state with cache := next.1 },
        match next.2 with
        | some inner => some { call with stage := .get inner }
        | none =>
            if (call.answered state).isSome then none else some { call with stage := .verify })
  | .insert inner =>
      let next := ClaimsCache.step config.toCacheConfig state.cache inner
      ({ state with cache := next.1 }, next.2.map fun inner => { call with stage := .insert inner })
  | .verify => (state, some call)
  | .uncached => (state, some call)

def visit (key : TokenKey) (state : VerifyState) (call : VerifyCall) :
    VerifyState × Option VerifyCall :=
  match call.stage with
  | .insert inner =>
      let next := ClaimsCache.visit key state.cache inner
      ({ state with cache := next.1 }, next.2.map fun inner => { call with stage := .insert inner })
  | _ => (state, some call)

def verified (claims : Option Json) (state : VerifyState) (call : VerifyCall) :
    VerifyState × Option VerifyCall :=
  match call.stage, claims with
  | .verify, some claims =>
      ({ state with accepted := state.accepted ++ [⟨call.token, call.now, claims⟩] },
        (ClaimsCache.insertCall config.toCacheConfig numbers (tokenKey call.token) claims
          call.now).map fun inner => { call with stage := .insert inner })
  | .verify, none => (state, none)
  | .uncached, _ => (state, none)
  | _, _ => (state, some call)

def drop (state : VerifyState) (call : VerifyCall) : VerifyState × Option VerifyCall :=
  match call.stage with
  | .verify => (state, none)
  | .uncached => (state, none)
  | _ => (state, some call)

inductive Event where
  | verify (token : Text) (now : Now)
  | step (index : Nat)
  | visit (index : Nat) (key : TokenKey)
  | verified (index : Nat) (claims : Option Json)
  | drop (index : Nat)

def happen (pool : Pool VerifyState VerifyCall) : Event → Pool VerifyState VerifyCall
  | .verify token now => pool.spawn (some (start config tokenKey token now))
  | .step index => pool.advance (step config) index
  | .visit index key => pool.advance (visit key) index
  | .verified index claims => pool.advance (verified config numbers tokenKey claims) index
  | .drop index => pool.advance drop index

def run (events : List Event) : Pool VerifyState VerifyCall :=
  events.foldl (happen config numbers tokenKey) ⟨⟨.new, []⟩, []⟩

def tokensOf (events : List Event) : List Text :=
  events.filterMap fun event =>
    match event with
    | .verify token _ => some token
    | _ => none

end VerifyCall

end StructuredProxy.Auth
