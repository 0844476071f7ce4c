import StructuredProxy.Guard.Scope
import StructuredProxy.Shield.Report

/-!
# The guards decided as a request arrives

One layer runs a required client address, maintenance mode, the concurrency limit and the rate limits
keyed before auth, in that order. The first to turn the request away answers it; one that lets it
through may leave something the response owes: the slot it holds until its body ends, the budget it
reports. A slot taken by a request that a later guard turns away is free again at once.
-/

namespace StructuredProxy.Guard

open Lib Addressing Shield

/-- The state the guards share: the free slots of the concurrency limit, and that of the other guards. -/
structure Shared (σ : Type) where
  free : Nat
  other : σ

variable {σ : Type}

abbrev Service (σ : Type) := Request → Shared σ → Response × Shared σ

structure Maintenance where
  exempt : List Text
  message : Text

/-- `prefix/**` exempts `prefix` and what lies below it, any other pattern itself alone. -/
def exemptsBy (path pattern : Text) : Bool :=
  match Metadata.stripEnding (str "/**") pattern with
  | some stem => stem.isPrefixOf path && (path.drop stem.length).head?.all (· = slash)
  | none => path = pattern

def Maintenance.exempts (maintenance : Maintenance) (path : Text) : Bool :=
  maintenance.exempt.any (exemptsBy path)

def Shared.take (shared : Shared σ) : Option (Shared σ) :=
  if shared.free = 0 then none else some { shared with free := shared.free - 1 }

def Shared.release (shared : Shared σ) : Shared σ := { shared with free := shared.free + 1 }

def full : Response :=
  (reject .unavailable (str "too many requests in flight")).insertHeader retryAfter (str "1")

/-- Whether a rule is decided before auth runs, or needs validated claims. -/
inductive Phase where
  | preAuth
  | postAuth
  deriving DecidableEq

inductive Decision where
  | pass
  | reject (response : Response)
  | report (report : Report)

structure Limits (σ : Type) where
  enforces : Phase → Bool
  decide : Phase → Request → σ → Decision × σ

def Limits.decideIn (limits : Limits σ) (phase : Phase) (request : Request) (shared : Shared σ) :
    Decision × Shared σ :=
  let (decision, other) := limits.decide phase request shared.other
  (decision, { shared with other })

def invalidText : InvalidForwarding → Text
  | .malformed => str "malformed"
  | .tooManyHops => str "beyond too many trusted hops"
  | .repeated => str "repeated"
  | .conflicting => str "in conflict with itself"

def Request.resolution (request : Request) : Resolution :=
  (request.client.map (·.resolution)).getD .unavailable

def unresolvedClient (request : Request) : Option Response :=
  match request.resolution with
  | .peer _ | .forwarded _ => none
  | .invalid reason =>
      some (reject .invalidArgument
        (str "the client address a trusted proxy forwarded is " ++ invalidText reason))
  | .unavailable =>
      some (reject .internal (str "no connection information to resolve the client address from"))

/-! ### The gate -/

/-- The guards of one class of traffic decided as a request arrives, each with its scope. -/
structure Gate (σ : Type) where
  requireClient : Option Scope
  maintenance : Option (Maintenance × Scope)
  concurrency : Option Scope
  shield : Option (Limits σ × Scope)

/-- What the response of an admitted request owes the guards. -/
structure Admitted where
  slot : Bool := false
  report : Option Report := none

inductive Admission where
  | admitted (admitted : Admitted)
  | refused (response : Response)

def Admitted.dropped (admitted : Admitted) (shared : Shared σ) : Shared σ :=
  if admitted.slot then shared.release else shared

def Admitted.settle (admitted : Admitted) (response : Response) : Response :=
  let response :=
    match admitted.report with
    | some report => report.apply response
    | none => response
  if admitted.slot then { response with body := .held response.body } else response

namespace Gate

variable (gate : Gate σ)

def refusesClient (request : Request) : Option Response :=
  match gate.requireClient with
  | some scope => if scope.applies request then unresolvedClient request else none
  | none => none

def refusesMaintenance (request : Request) : Option Response :=
  match gate.maintenance with
  | some (maintenance, scope) =>
      if scope.applies request && !maintenance.exempts request.path then
        some ((reject .unavailable maintenance.message).insertHeader retryAfter (str "300"))
      else none
  | none => none

def counts (request : Request) : Bool := gate.concurrency.any fun scope => scope.applies request

def admitLimits (request : Request) (admitted : Admitted) (shared : Shared σ) :
    Admission × Shared σ :=
  match gate.shield with
  | some (limits, scope) =>
      if scope.applies request then
        match limits.decideIn .preAuth request shared with
        | (.pass, shared) => (.admitted admitted, shared)
        | (.reject response, shared) => (.refused response, admitted.dropped shared)
        | (.report report, shared) => (.admitted { admitted with report := some report }, shared)
      else (.admitted admitted, shared)
  | none => (.admitted admitted, shared)

def admitCounted (request : Request) (shared : Shared σ) : Admission × Shared σ :=
  if gate.counts request then
    match shared.take with
    | some shared => gate.admitLimits request { slot := true } shared
    | none => (.refused full, shared)
  else gate.admitLimits request {} shared

def refusedOr (refusal : Option Response) (shared : Shared σ) (next : Admission × Shared σ) :
    Admission × Shared σ :=
  match refusal with
  | some response => (.refused response, shared)
  | none => next

/-- `Gate::admit`: the answer of the first guard that turns the request away, or what the response owes
the ones that let it through. -/
def admission (request : Request) (shared : Shared σ) : Admission × Shared σ :=
  refusedOr (gate.refusesClient request) shared
    (refusedOr (gate.refusesMaintenance request) shared (gate.admitCounted request shared))

def call (inner : Service σ) : Service σ := fun request shared =>
  match gate.admission request shared with
  | (.admitted admitted, shared) =>
      let (response, shared) := inner request shared
      (admitted.settle response, shared)
  | (.refused response, shared) => (response, shared)

end Gate

end StructuredProxy.Guard
