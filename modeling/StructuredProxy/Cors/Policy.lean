import StructuredProxy.Response.Upstream

/-!
# Cross-origin requests

A preflight is answered by the policy alone. Any other request goes to the inner service, and the policy
writes its headers over those of the response. For a list of origins it writes
`Access-Control-Allow-Origin` only where it allows the origin: where it does not, a header of that name
in the inner response stays, beside the policy's own grant of credentials.
-/

namespace StructuredProxy.Cors

open Lib

abbrev Headers := HeaderMap Text Text

def origin : Text := str "origin"
def vary : Text := str "vary"
def requestMethod : Text := str "access-control-request-method"
def requestHeaders : Text := str "access-control-request-headers"
def allowOriginName : Text := str "access-control-allow-origin"
def allowMethods : Text := str "access-control-allow-methods"
def allowHeaders : Text := str "access-control-allow-headers"
def allowCredentials : Text := str "access-control-allow-credentials"
def exposeHeaders : Text := str "access-control-expose-headers"
def maxAgeName : Text := str "access-control-max-age"

def wildcard : Text := str "*"
def trueValue : Text := str "true"
def varyRequest : Text :=
  str "origin, access-control-request-method, access-control-request-headers"
def varyRequestHeaders : Text := str "access-control-request-headers"

def get (name : Text) (headers : Headers) : Option Text := (headers.getAll name).head?

structure Policy where
  origins : Option (List Text)
  exposed : Option Text
  maxAge : Option Text

def Policy.any (maxAge : Option Nat) : Policy where
  origins := none
  exposed := none
  maxAge := maxAge.map decimal

def Policy.listed (origins exposed : List Text) (maxAge : Option Nat) : Policy where
  origins := some origins
  exposed := if exposed.isEmpty then none else some ((str ",").intercalate exposed)
  maxAge := maxAge.map decimal

def insertSome (name : Text) (value : Option Text) (headers : Headers) : Headers :=
  value.elim headers fun value => headers.insert name value

namespace Policy

variable (policy : Policy)

def allowOrigin (origin : Option Text) : Option Text :=
  match policy.origins with
  | none => some wildcard
  | some listed => origin.filter fun origin => listed.contains origin

def preflight (headers : Headers) : Headers :=
  let answer :=
    match policy.origins with
    | none =>
        let answer := HeaderMap.empty.insert allowMethods wildcard
        match get requestHeaders headers with
        | some requested =>
            (answer.insert allowHeaders requested).insert vary varyRequestHeaders
        | none => answer.insert allowHeaders wildcard
    | some _ =>
        let answer := (HeaderMap.empty.insert allowCredentials trueValue).insert vary varyRequest
        let answer := insertSome allowMethods (get requestMethod headers) answer
        insertSome allowHeaders (get requestHeaders headers) answer
  let answer := insertSome maxAgeName policy.maxAge answer
  insertSome allowOriginName (policy.allowOrigin (get origin headers)) answer

def answer (headers : Headers) (allowOrigin : Option Text) : Headers :=
  match policy.origins with
  | none => (headers.insert exposeHeaders wildcard).insert allowOriginName wildcard
  | some _ =>
      let headers := (headers.append vary varyRequest).insert allowCredentials trueValue
      insertSome exposeHeaders policy.exposed (insertSome allowOriginName allowOrigin headers)

end Policy

structure Request where
  method : Text
  headers : Headers

/-- An `OPTIONS` request with both headers of a preflight. -/
def Request.isPreflight (request : Request) : Bool :=
  request.method = str "OPTIONS" && request.headers.containsKey origin &&
    request.headers.containsKey requestMethod

/-- The headers sent for a request to which the inner service would respond with `inner`. -/
def call (policy : Policy) (request : Request) (inner : Headers) : Headers :=
  if request.isPreflight then policy.preflight request.headers
  else policy.answer inner (policy.allowOrigin (get origin request.headers))

/-! ### The allowed origin -/

theorem getAll_insertSome_self (name : Text) (value : Option Text) (headers : Headers) :
    (insertSome name value headers).getAll name = value.elim (headers.getAll name) ([·]) := by
  cases value with
  | none => rfl
  | some value => exact HeaderMap.getAll_insert_self

theorem getAll_insertSome_of_ne {name other : Text} (hne : other ≠ name) (value : Option Text)
    (headers : Headers) : (insertSome name value headers).getAll other = headers.getAll other := by
  cases value with
  | none => rfl
  | some value => exact HeaderMap.getAll_insert_of_ne hne

variable {origins exposed : List Text} {maxAge : Option Nat}

theorem allowOrigin_listed (value : Option Text) :
    (Policy.listed origins exposed maxAge).allowOrigin value =
      value.filter fun origin => origins.contains origin := rfl

theorem getAll_preflight (headers : Headers) :
    ((Policy.listed origins exposed maxAge).preflight headers).getAll allowOriginName =
      ((get origin headers).filter fun origin => origins.contains origin).toList := by
  have hage : allowOriginName ≠ maxAgeName := by decide +kernel
  have hheaders : allowOriginName ≠ allowHeaders := by decide +kernel
  have hmethods : allowOriginName ≠ allowMethods := by decide +kernel
  have hvary : allowOriginName ≠ vary := by decide +kernel
  have hcredentials : allowOriginName ≠ allowCredentials := by decide +kernel
  unfold Policy.preflight
  dsimp only
  rw [getAll_insertSome_self, allowOrigin_listed, getAll_insertSome_of_ne hage]
  dsimp only [Policy.listed]
  rw [getAll_insertSome_of_ne hheaders, getAll_insertSome_of_ne hmethods,
    HeaderMap.getAll_insert_of_ne hvary, HeaderMap.getAll_insert_of_ne hcredentials]
  cases (get origin headers).filter fun origin => origins.contains origin with
  | none => rfl
  | some origin => rfl

/-- On any other response, the policy's origin or, without one, what was there. -/
theorem getAll_answer (inner : Headers) (allowed : Option Text) :
    ((Policy.listed origins exposed maxAge).answer inner allowed).getAll allowOriginName =
      allowed.elim (inner.getAll allowOriginName) ([·]) := by
  have hexpose : allowOriginName ≠ exposeHeaders := by decide +kernel
  have hvary : allowOriginName ≠ vary := by decide +kernel
  have hcredentials : allowOriginName ≠ allowCredentials := by decide +kernel
  unfold Policy.answer
  dsimp only [Policy.listed]
  rw [getAll_insertSome_of_ne hexpose, getAll_insertSome_self, HeaderMap.getAll_insert_of_ne hcredentials,
    HeaderMap.getAll_append_of_ne hvary]

def listedOrigin (origins : List Text) (request : Request) : Option Text :=
  (get origin request.headers).filter fun origin => origins.contains origin

/-- **Only listed origins are allowed, each by itself**, exactly when the inner service says nothing
about an origin the policy does not allow. -/
theorem call_allowOrigin_iff {request : Request} {inner : Headers} :
    (call (Policy.listed origins exposed maxAge) request inner).getAll allowOriginName =
        (listedOrigin origins request).toList ↔
      request.isPreflight = true ∨ (listedOrigin origins request).isSome = true ∨
        inner.getAll allowOriginName = [] := by
  unfold call
  split
  · next hpreflight =>
      rw [getAll_preflight, hpreflight]
      exact iff_of_true rfl (Or.inl rfl)
  · next hordinary =>
      rw [getAll_answer, allowOrigin_listed, ← listedOrigin]
      cases listedOrigin origins request with
      | none => simp [hordinary]
      | some origin => simp

def listedPolicy : Policy := Policy.listed [str "https://a.example"] [] none

def foreignRequest : Request where
  method := str "GET"
  headers := ⟨[(origin, str "https://b.example")]⟩

/-- The response headers of an upstream that names the origin it got in its metadata. -/
def reflecting : Headers :=
  (({} : Response.UpstreamHeaders).absorb [(some allowOriginName, str "https://b.example")] []).headers

/-- The origin that is not listed is allowed, with credentials. -/
theorem foreign_origin_allowed :
    listedOrigin [str "https://a.example"] foreignRequest = none ∧
      (call listedPolicy foreignRequest reflecting).getAll allowOriginName =
        [str "https://b.example"] ∧
      (call listedPolicy foreignRequest reflecting).getAll allowCredentials = [trueValue] := by
  decide +kernel

end StructuredProxy.Cors
