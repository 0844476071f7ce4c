import StructuredProxy.ClientAddress.Resolver
import StructuredProxy.Request.Json

/-!
# The guards that set headers

Three guards write headers onto a request they let through: the JWT guard from verified claims,
ext_authz from an allowed check, and the embedder's decider. Each has a routine of its own. The guards
run in that order; the rate limits between the first two touch no header.
-/

namespace StructuredProxy.Auth

open Lib Addressing

abbrev Headers := HeaderMap Text Text

/-- What the HTTP library takes as a header's name, in lower case, and value. -/
structure HeaderForms where
  name : Text → Option Text
  value : Text → Option Text

inductive Rejection where
  | unauthenticated (message : Text)
  | forbidden (message : Text)
  | denied
  | redirected
  | unavailable
  deriving DecidableEq

/-- What a guard let through: the request's headers before it, those its answer sets, and the
request's headers after it. -/
structure Passed where
  before : Headers
  sets : Headers
  after : Headers
  deriving DecidableEq

structure Policy where
  requireAuth : Bool
  requiredRoles : List Text

/-- The JWT guard: `claimsHeaders` maps claims onto headers, in the order the map yields them. -/
structure JwtAuth where
  verify : Text → Option Json
  claimsHeaders : List (Text × Text)
  rolesClaim : Text
  matchRule : Text → Text → Option Policy

abbrev NumberText := Text → Text

def Json.get (key : Text) : Json → Option Json
  | .object entries => entries.lookup key
  | _ => none

def claimAt (claims : Json) (path : Text) : Option Json :=
  (path.splitOn dot).foldlM (fun current segment => Json.get segment current) claims

def extractRoles (claims : Json) (rolesClaim : Text) : List Text :=
  match claimAt claims rolesClaim with
  | some (.array items) =>
      items.filterMap fun item =>
        match item with
        | .string role => some role
        | _ => none
  | _ => []

/-- Arrays, objects and null are no single header value. -/
def renderClaim (numberText : NumberText) : Json → Option Text
  | .string s => some s
  | .number token => some (numberText token)
  | .bool b => some (str (if b then "true" else "false"))
  | _ => none

def injectClaimHeader (forms : HeaderForms) (numberText : NumberText) (claims : Json)
    (headers : Headers) (mapped : Text × Text) : Headers :=
  match (claimAt claims mapped.1).bind (renderClaim numberText) with
  | none => headers
  | some rendered =>
      match forms.name mapped.2, forms.value rendered with
      | some name, some value => headers.insert name value
      | _, _ => headers

def injectClaimHeaders (forms : HeaderForms) (numberText : NumberText) (headers : Headers)
    (claims : Json) (mapping : List (Text × Text)) : Headers :=
  mapping.foldl (injectClaimHeader forms numberText claims) headers

def stripClaimHeaders (forms : HeaderForms) (headers : Headers) (mapping : List (Text × Text)) :
    Headers :=
  mapping.foldl (fun headers mapped =>
    match forms.name mapped.2 with
    | some name => headers.remove name
    | none => headers) headers

def toStr (value : Text) : Option Text :=
  if value.all (fun byte => (32 ≤ byte && byte < 127) || byte = 9) then some value else none

def bearerToken (headers : Headers) : Option Text :=
  ((headers.getAll (str "authorization")).head?.bind toStr).bind fun value =>
    let token :=
      if (str "Bearer ").isPrefixOf value || (str "bearer ").isPrefixOf value then
        some (trimWhitespace (value.drop 7))
      else none
    token.filter fun token => !token.isEmpty

inductive AuthDecision where
  | allow (claimHeaders : Headers) (claims : Option Json)
  | unauthenticated (message : Text)
  | forbidden (message : Text)

namespace JwtAuth

variable (auth : JwtAuth) (forms : HeaderForms) (numberText : NumberText)

def refuses (claims : Option Json) (path method : Text) : Option AuthDecision :=
  match auth.matchRule path method with
  | none => none
  | some policy =>
      if policy.requireAuth && claims.isNone then
        some (.unauthenticated (str "authentication required"))
      else if policy.requiredRoles.isEmpty then none
      else
        match claims with
        | none => some (.unauthenticated (str "authentication required"))
        | some claims =>
            if policy.requiredRoles.all fun role => (extractRoles claims auth.rolesClaim).contains role
            then none
            else some (.forbidden (str "insufficient role"))

def decideClaims (claims : Option Json) (path method : Text) : AuthDecision :=
  match auth.refuses claims path method with
  | some refusal => refusal
  | none =>
      match claims with
      | none => .allow .empty none
      | some claims =>
          .allow (injectClaimHeaders forms numberText .empty claims auth.claimsHeaders) (some claims)

def decide (headers : Headers) (path method : Text) : AuthDecision :=
  match bearerToken headers with
  | none => auth.decideClaims forms numberText none path method
  | some token =>
      match auth.verify token with
      | none => .unauthenticated (str "invalid or expired token")
      | some claims => auth.decideClaims forms numberText (some claims) path method

/-- Client copies of the claim headers are dropped, then verified claims set them. -/
def middleware (path method : Text) (headers : Headers) : Except Rejection Passed :=
  let stripped := stripClaimHeaders forms headers auth.claimsHeaders
  match auth.decide forms numberText stripped path method with
  | .unauthenticated message => .error (.unauthenticated message)
  | .forbidden message => .error (.forbidden message)
  | .allow claimHeaders _ => .ok ⟨headers, claimHeaders, claimHeaders.insertAll stripped⟩

end JwtAuth

inductive CheckHttpResponse where
  | ok (headers : List (Option (Text × Text)))
  | denied
  | error

structure CheckResponse where
  status : Option Int
  httpResponse : Option CheckHttpResponse

/-- The ext_authz guard: `check` is the server's answer to the request's attributes, none when the
call failed. -/
structure Authz where
  check : Headers → Option CheckResponse
  failureModeAllow : Bool

def headerKv (forms : HeaderForms) (option : Option (Text × Text)) : Option (Text × Text) :=
  option.bind fun header =>
    (forms.name header.1).bind fun name => (forms.value header.2).map fun value => (name, value)

/-- The headers of an allowed check, none when it denies. -/
def evaluate (forms : HeaderForms) (response : CheckResponse) : Option (List (Text × Text)) :=
  if response.status = some 0 then
    match response.httpResponse with
    | some (.ok headers) => some (headers.filterMap (headerKv forms))
    | _ => some []
  else none

/-- A header the client-address forwarding writes: a guard may not set it. -/
def leavesAlone (reserved : List Text) (name : Text) : Bool := owns name || reserved.contains name

def applyHeaders (reserved : List Text) (headers : Headers) (sets : List (Text × Text)) : Headers :=
  sets.foldl (fun headers set =>
    if leavesAlone reserved set.1 then headers else headers.append set.1 set.2) headers

def Authz.middleware (authz : Authz) (forms : HeaderForms) (reserved : List Text)
    (headers : Headers) : Except Rejection Passed :=
  match authz.check headers with
  | some response =>
      match evaluate forms response with
      | some sets => .ok ⟨headers, ⟨sets⟩, applyHeaders reserved headers sets⟩
      | none => .error .denied
  | none => if authz.failureModeAllow then .ok ⟨headers, .empty, headers⟩ else .error .unavailable

inductive Decision where
  | allow (injectHeaders : Headers)
  | deny
  | redirect

def stripThenInsertOne (reserved : List Text) (inject headers : Headers) (name : Text) : Headers :=
  if leavesAlone reserved name then headers
  else
    (inject.getAll name).foldl (fun headers value => headers.append name value) (headers.remove name)

def stripThenInsert (reserved : List Text) (headers inject : Headers) : Headers :=
  inject.keys.foldl (stripThenInsertOne reserved inject) headers

def authDeciderGate (decider : Headers → Decision) (reserved : List Text) (headers : Headers) :
    Except Rejection Passed :=
  match decider headers with
  | .allow inject => .ok ⟨headers, inject, stripThenInsert reserved headers inject⟩
  | .deny => .error .denied
  | .redirect => .error .redirected

/-! ### In pipeline order -/

/-- The guards of a class of requests, and the headers the client-address forwarding writes beyond
the fixed ones. -/
structure Guards where
  auth : Option JwtAuth
  authz : Option Authz
  decider : Option (Headers → Decision)
  reserved : List Text

structure Passage where
  auth : Option Passed
  authz : Option Passed
  decider : Option Passed
  deriving DecidableEq

def runGuard (guard : Option (Headers → Except Rejection Passed)) (headers : Headers) :
    Except Rejection (Option Passed × Headers) :=
  match guard with
  | none => .ok (none, headers)
  | some guard => (guard headers).map fun passed => (some passed, passed.after)

namespace Guards

variable (guards : Guards) (forms : HeaderForms) (numberText : NumberText)

def run (path method : Text) (headers : Headers) : Except Rejection (Passage × Headers) := do
  let (auth, headers) ←
    runGuard (guards.auth.map fun auth => auth.middleware forms numberText path method) headers
  let (authz, headers) ←
    runGuard (guards.authz.map fun authz => authz.middleware forms guards.reserved) headers
  let (decider, headers) ←
    runGuard (guards.decider.map fun decider => authDeciderGate decider guards.reserved) headers
  return (⟨auth, authz, decider⟩, headers)

end Guards

end StructuredProxy.Auth
