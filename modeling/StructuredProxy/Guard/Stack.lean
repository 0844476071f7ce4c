import StructuredProxy.Guard.Gate

/-!
# The guard stack

The guards of a class of traffic are put around its service from the inside out, each only where its
scope covers the class and, where the scope is narrowed, only on the requests it selects; the ones
decided on arrival are one layer. What comes out is the pipeline: the guards a request engages, in a
fixed order, each asked only once the ones before it let the request through.
-/

namespace StructuredProxy.Guard

open Lib Shield

variable {σ : Type}

/-- What a guard behind the gate makes of a request: its own answer, or the headers and the claims the
request goes on with and the budget its response reports. It changes neither method nor path. -/
inductive Outcome where
  | answer (response : Response)
  | pass (headers : Headers) (claims : Option Json) (report : Option Report)

abbrev Middleware (σ : Type) := Request → σ → Outcome × σ

def Response.reporting (report : Option Report) (response : Response) : Response :=
  match report with
  | some report => report.apply response
  | none => response

def layer (middleware : Middleware σ) (inner : Service σ) : Service σ := fun request shared =>
  match middleware request shared.other with
  | (.answer response, other) => (response, { shared with other })
  | (.pass headers claims report, other) =>
      let (response, shared) := inner { request with headers, claims } { shared with other }
      (response.reporting report, shared)

def postAuthMiddleware (limits : Limits σ) : Middleware σ := fun request other =>
  match limits.decide .postAuth request other with
  | (.pass, other) => (.pass request.headers request.claims none, other)
  | (.reject response, other) => (.answer response, other)
  | (.report report, other) => (.pass request.headers request.claims (some report), other)

def scopedLayer (scope : Scope) (middleware : Middleware σ) (inner : Service σ) : Service σ :=
  fun request shared =>
    if scope.matchesRequest request then layer middleware inner request shared
    else inner request shared

def wrap (cls : Class) (guard : Option (Middleware σ × Scope)) (target : Service σ) : Service σ :=
  match guard with
  | none => target
  | some (middleware, scope) =>
      if !scope.covers cls then target
      else if scope.narrows then scopedLayer scope middleware target
      else layer middleware target

structure Guards (σ : Type) where
  requireClient : Option Scope
  maintenance : Option (Maintenance × Scope)
  concurrency : Option Scope
  shield : Option (Limits σ × Scope)
  auth : Option (Middleware σ × Scope)
  authz : Option (Middleware σ × Scope)
  decider : Option (Middleware σ × Scope)

namespace Guards

variable (guards : Guards σ) (cls : Class)

def gate : Gate σ where
  requireClient := guards.requireClient.filter (·.covers cls)
  maintenance := guards.maintenance.filter fun guard => guard.2.covers cls
  concurrency := guards.concurrency.filter (·.covers cls)
  shield := guards.shield.filter fun guard => guard.2.covers cls && guard.1.enforces .preAuth

/-- `Gate::layer`: none when no guard of the gate covers the class. -/
def gateLayer : Option (Gate σ) :=
  let gate := guards.gate cls
  let empty := gate.requireClient.isNone && gate.maintenance.isNone && gate.concurrency.isNone &&
    gate.shield.isNone
  if empty then none else some gate

def postAuth : Option (Middleware σ × Scope) :=
  (guards.shield.filter fun guard => guard.1.enforces .postAuth).map fun guard =>
    (postAuthMiddleware guard.1, guard.2)

/-- `guard_stack!`, built inside out: the first layer added runs last. -/
def stack (target : Service σ) : Service σ :=
  let target :=
    if cls.authenticates then wrap cls guards.authz (wrap cls guards.decider target) else target
  let target :=
    if cls.authenticates then wrap cls guards.auth (wrap cls guards.postAuth target) else target
  (guards.gateLayer cls).elim target fun gate => gate.call target

def cover : Bool :=
  guards.requireClient.any (·.covers cls) || guards.maintenance.any (·.2.covers cls) ||
    guards.concurrency.any (·.covers cls) || guards.shield.any (·.2.covers cls) ||
    (cls.authenticates && (guards.auth.any (·.2.covers cls) || guards.authz.any (·.2.covers cls) ||
      guards.decider.any (·.2.covers cls)))

/-- A service of the class behind its guards; the stack is built only where a guard covers the class. -/
def service (target : Service σ) : Service σ :=
  if guards.cover cls then guards.stack cls target else target

end Guards

inductive Kind where
  | clientAddress
  | maintenance
  | concurrency
  | limitsBeforeAuth
  | jwt
  | limitsAfterAuth
  | extAuthz
  | decider
  deriving DecidableEq

def Kind.arrives : Kind → Bool
  | .clientAddress | .maintenance | .concurrency | .limitsBeforeAuth => true
  | .jwt | .limitsAfterAuth | .extAuthz | .decider => false

def Kind.arrivals : List Kind := [.clientAddress, .maintenance, .concurrency, .limitsBeforeAuth]

def Kind.behind : List Kind := [.jwt, .limitsAfterAuth, .extAuthz, .decider]

namespace Guards

variable (guards : Guards σ) (cls : Class)

/-- The scope of a guard that is configured; for the rate limits, when a rule runs in the phase. -/
def scopeOf : Kind → Option Scope
  | .clientAddress => guards.requireClient
  | .maintenance => guards.maintenance.map (·.2)
  | .concurrency => guards.concurrency
  | .limitsBeforeAuth => (guards.shield.filter (·.1.enforces .preAuth)).map (·.2)
  | .jwt => guards.auth.map (·.2)
  | .limitsAfterAuth => (guards.shield.filter (·.1.enforces .postAuth)).map (·.2)
  | .extAuthz => guards.authz.map (·.2)
  | .decider => guards.decider.map (·.2)

def engages (request : Request) (kind : Kind) : Bool :=
  (kind.arrives || cls.authenticates) &&
    (guards.scopeOf kind).any fun scope => scope.covers cls && scope.applies request

def judge (kind : Kind) (request : Request) (admitted : Admitted) (shared : Shared σ) :
    Admission × Shared σ :=
  match kind with
  | .clientAddress =>
      match unresolvedClient request with
      | some response => (.refused response, shared)
      | none => (.admitted admitted, shared)
  | .maintenance =>
      match guards.maintenance with
      | some (maintenance, _) =>
          if maintenance.exempts request.path then (.admitted admitted, shared)
          else
            (.refused ((reject .unavailable maintenance.message).insertHeader retryAfter (str "300")),
              shared)
      | none => (.admitted admitted, shared)
  | .concurrency =>
      match shared.take with
      | some shared => (.admitted { admitted with slot := true }, shared)
      | none => (.refused full, shared)
  | .limitsBeforeAuth =>
      match guards.shield with
      | some (limits, _) =>
          match limits.decideIn .preAuth request shared with
          | (.pass, shared) => (.admitted admitted, shared)
          | (.reject response, shared) => (.refused response, shared)
          | (.report report, shared) => (.admitted { admitted with report := some report }, shared)
      | none => (.admitted admitted, shared)
  | _ => (.admitted admitted, shared)

/-- The guards on arrival in turn, until one refuses; what the request took is then given back. -/
def arrive : List Kind → Request → Admitted → Shared σ → Admission × Shared σ
  | [], _, admitted, shared => (.admitted admitted, shared)
  | kind :: rest, request, admitted, shared =>
      match guards.judge kind request admitted shared with
      | (.refused response, shared) => (.refused response, admitted.dropped shared)
      | (.admitted admitted, shared) => arrive rest request admitted shared

def middlewareOf : Kind → Option (Middleware σ)
  | .jwt => guards.auth.map (·.1)
  | .limitsAfterAuth => guards.shield.map (postAuthMiddleware ·.1)
  | .extAuthz => guards.authz.map (·.1)
  | .decider => guards.decider.map (·.1)
  | _ => none

def around : List Kind → Service σ → Service σ
  | [], target => target
  | kind :: rest, target =>
      match guards.middlewareOf kind with
      | some middleware => layer middleware (around rest target)
      | none => around rest target

def pipeline (target : Service σ) : Service σ := fun request shared =>
  match guards.arrive (Kind.arrivals.filter (guards.engages cls request)) request {} shared with
  | (.refused response, shared) => (response, shared)
  | (.admitted admitted, shared) =>
      let (response, shared) :=
        guards.around (Kind.behind.filter (guards.engages cls request)) target request shared
      (admitted.settle response, shared)

end Guards

/-! ### The stack is the pipeline -/

theorem wrap_some (cls : Class) (middleware : Middleware σ) (scope : Scope) (target : Service σ)
    (request : Request) (shared : Shared σ) :
    wrap cls (some (middleware, scope)) target request shared =
      if scope.covers cls && scope.applies request then layer middleware target request shared
      else target request shared := by
  cases hcovers : scope.covers cls
  · simp [wrap, hcovers]
  · cases hnarrows : scope.narrows
    · simp [wrap, hcovers, hnarrows, Scope.applies]
    · simp [wrap, hcovers, hnarrows, Scope.applies, scopedLayer]

namespace Guards

variable (guards : Guards σ) (cls : Class)

def guardOf : Kind → Option (Middleware σ × Scope)
  | .jwt => guards.auth
  | .limitsAfterAuth => guards.postAuth
  | .extAuthz => guards.authz
  | .decider => guards.decider
  | _ => none

theorem guardOf_eq_none {kind : Kind} (hbehind : kind.arrives = false)
    (h : guards.guardOf kind = none) : guards.scopeOf kind = none := by
  cases kind <;> first | exact absurd hbehind (by decide) | simp_all [guardOf, scopeOf, postAuth]

theorem guardOf_eq_some {kind : Kind} {middleware : Middleware σ} {scope : Scope}
    (h : guards.guardOf kind = some (middleware, scope)) :
    guards.scopeOf kind = some scope ∧ guards.middlewareOf kind = some middleware := by
  cases kind with
  | jwt => simp_all [guardOf, scopeOf, middlewareOf]
  | extAuthz => simp_all [guardOf, scopeOf, middlewareOf]
  | decider => simp_all [guardOf, scopeOf, middlewareOf]
  | limitsAfterAuth =>
      obtain ⟨found, hfound, heq⟩ := Option.map_eq_some_iff.mp h
      obtain ⟨hshield, -⟩ := Option.filter_eq_some_iff.mp hfound
      cases heq
      exact ⟨by rw [scopeOf, hfound]; rfl, by rw [middlewareOf, hshield]; rfl⟩
  | _ => cases h

/-- One guard behind the gate around the rest: it judges the requests that engage it. -/
theorem wrap_engages (kind : Kind) (hbehind : kind.arrives = false) (hauth : cls.authenticates = true)
    (kinds : List Kind) (target inner : Service σ) {request passed : Request} {shared : Shared σ}
    (htarget : passed.method = request.method ∧ passed.path = request.path)
    (hinner : ∀ passed : Request, passed.method = request.method ∧ passed.path = request.path →
      ∀ shared, inner passed shared =
        guards.around (kinds.filter (guards.engages cls request)) target passed shared) :
    wrap cls (guards.guardOf kind) inner passed shared =
      guards.around ((kind :: kinds).filter (guards.engages cls request)) target passed shared := by
  have happlies : ∀ scope : Scope, scope.applies passed = scope.applies request := by
    intro scope
    rw [Scope.applies, Scope.applies, Scope.matchesRequest, Scope.matchesRequest, htarget.1, htarget.2]
  cases hguard : guards.guardOf kind with
  | none =>
      have hidle : guards.engages cls request kind = false := by
        rw [engages, guards.guardOf_eq_none hbehind hguard]
        simp
      rw [List.filter_cons_of_neg (by simp [hidle])]
      exact hinner passed htarget shared
  | some guard =>
      obtain ⟨middleware, scope⟩ := guard
      obtain ⟨hscope, hmiddleware⟩ := guards.guardOf_eq_some hguard
      have hengages : guards.engages cls request kind = (scope.covers cls && scope.applies request) := by
        simp [engages, hscope, hauth]
      rw [wrap_some, happlies]
      by_cases hmine : (scope.covers cls && scope.applies request) = true
      · rw [if_pos hmine, List.filter_cons_of_pos (by rw [hengages, hmine]), around, hmiddleware]
        simp only [layer]
        split
        · rfl
        · next headers claims report other _ => rw [hinner { passed with headers, claims } htarget]
      · rw [if_neg hmine, List.filter_cons_of_neg (by rw [hengages]; exact hmine)]
        exact hinner passed htarget shared

theorem behind_eq_around (target : Service σ) {request passed : Request} {shared : Shared σ}
    (htarget : passed.method = request.method ∧ passed.path = request.path)
    (hauth : cls.authenticates = true) :
    wrap cls guards.auth (wrap cls guards.postAuth (wrap cls guards.authz
        (wrap cls guards.decider target))) passed shared =
      guards.around (Kind.behind.filter (guards.engages cls request)) target passed shared := by
  refine guards.wrap_engages cls .jwt rfl hauth [.limitsAfterAuth, .extAuthz, .decider] target _
    htarget fun passed htarget shared => ?_
  refine guards.wrap_engages cls .limitsAfterAuth rfl hauth [.extAuthz, .decider] target _
    htarget fun passed htarget shared => ?_
  refine guards.wrap_engages cls .extAuthz rfl hauth [.decider] target _
    htarget fun passed htarget shared => ?_
  exact guards.wrap_engages cls .decider rfl hauth [] target _ htarget fun _ _ _ => rfl

theorem around_of_not_authenticates (hauth : cls.authenticates = false) (request : Request)
    (target : Service σ) :
    guards.around (Kind.behind.filter (guards.engages cls request)) target = target := by
  have hnone : Kind.behind.filter (guards.engages cls request) = [] := by
    refine List.filter_eq_nil_iff.mpr fun kind hkind => ?_
    have hbehind : kind.arrives = false := by
      revert hkind
      cases kind <;> decide
    simp [engages, hbehind, hauth]
  rw [hnone, around]

/-! ### The gate -/

theorem arrive_filter_cons (request : Request) (kind : Kind) (kinds : List Kind) (admitted : Admitted)
    (shared : Shared σ) :
    guards.arrive ((kind :: kinds).filter (guards.engages cls request)) request admitted shared =
      if guards.engages cls request kind then
        guards.arrive (kind :: kinds.filter (guards.engages cls request)) request admitted shared
      else guards.arrive (kinds.filter (guards.engages cls request)) request admitted shared := by
  by_cases h : guards.engages cls request kind = true
  · rw [List.filter_cons_of_pos h, if_pos h]
  · rw [List.filter_cons_of_neg h, if_neg h]

theorem gate_refusesClient (request : Request) :
    (guards.gate cls).refusesClient request =
      if guards.engages cls request .clientAddress then unresolvedClient request else none := by
  cases hguard : guards.requireClient with
  | none => simp [Gate.refusesClient, gate, engages, scopeOf, hguard]
  | some scope =>
      cases hcovers : scope.covers cls <;>
        simp [Gate.refusesClient, gate, engages, scopeOf, hguard, hcovers, Option.filter, Kind.arrives]

theorem gate_refusesMaintenance (request : Request) :
    (guards.gate cls).refusesMaintenance request =
      if guards.engages cls request .maintenance then
        guards.maintenance.bind fun guard =>
          if guard.1.exempts request.path then none
          else some ((reject .unavailable guard.1.message).insertHeader retryAfter (str "300"))
      else none := by
  cases hguard : guards.maintenance with
  | none => simp [Gate.refusesMaintenance, gate, engages, scopeOf, hguard]
  | some guard =>
      obtain ⟨maintenance, scope⟩ := guard
      cases hcovers : scope.covers cls
      · simp [Gate.refusesMaintenance, gate, engages, scopeOf, hguard, hcovers, Option.filter]
      · cases happlies : scope.applies request <;> cases hexempt : maintenance.exempts request.path <;>
          simp [Gate.refusesMaintenance, gate, engages, scopeOf, hguard, hcovers, happlies, hexempt,
            Option.filter, Kind.arrives]

theorem gate_counts (request : Request) :
    (guards.gate cls).counts request = guards.engages cls request .concurrency := by
  cases hguard : guards.concurrency with
  | none => simp [Gate.counts, gate, engages, scopeOf, hguard]
  | some scope =>
      cases hcovers : scope.covers cls <;>
        simp [Gate.counts, gate, engages, scopeOf, hguard, hcovers, Option.filter, Kind.arrives]

theorem gate_admitLimits (request : Request) (admitted : Admitted) (shared : Shared σ) :
    (guards.gate cls).admitLimits request admitted shared =
      guards.arrive ([Kind.limitsBeforeAuth].filter (guards.engages cls request)) request admitted
        shared := by
  rw [arrive_filter_cons]
  cases hguard : guards.shield with
  | none => simp [Gate.admitLimits, gate, engages, scopeOf, hguard, arrive]
  | some guard =>
      obtain ⟨limits, scope⟩ := guard
      have hengages : guards.engages cls request .limitsBeforeAuth =
          (scope.covers cls && limits.enforces .preAuth && scope.applies request) := by
        cases henforces : limits.enforces .preAuth <;>
          simp [engages, scopeOf, hguard, henforces, Option.filter, Kind.arrives]
      rw [hengages]
      cases hcovers : scope.covers cls && limits.enforces .preAuth
      · simp [Gate.admitLimits, gate, hguard, hcovers, Option.filter, arrive]
      · cases happlies : scope.applies request
        · simp [Gate.admitLimits, gate, hguard, hcovers, happlies, Option.filter, arrive]
        · simp only [Gate.admitLimits, gate, hguard, hcovers, happlies, Option.filter, arrive, judge,
            Bool.and_self, if_true]
          cases hdecide : limits.decideIn .preAuth request shared with
          | mk decision shared => cases decision <;> rfl

theorem gate_admitCounted (request : Request) (shared : Shared σ) :
    (guards.gate cls).admitCounted request shared =
      guards.arrive ([Kind.concurrency, .limitsBeforeAuth].filter (guards.engages cls request)) request {}
        shared := by
  rw [Gate.admitCounted, gate_counts, arrive_filter_cons]
  by_cases hengages : guards.engages cls request .concurrency = true
  · rw [if_pos hengages, if_pos hengages, arrive, judge]
    cases shared.take with
    | none => rfl
    | some shared => exact guards.gate_admitLimits cls request _ shared
  · rw [if_neg hengages, if_neg hengages, gate_admitLimits]

theorem refusedOr_maintenance (request : Request) (shared : Shared σ) :
    Gate.refusedOr ((guards.gate cls).refusesMaintenance request) shared
        (guards.arrive ([Kind.concurrency, .limitsBeforeAuth].filter (guards.engages cls request))
          request {} shared) =
      guards.arrive ([Kind.maintenance, .concurrency, .limitsBeforeAuth].filter
        (guards.engages cls request)) request {} shared := by
  rw [gate_refusesMaintenance, arrive_filter_cons guards cls request .maintenance]
  by_cases hengages : guards.engages cls request .maintenance = true
  · rw [if_pos hengages, if_pos hengages, arrive, judge]
    cases guards.maintenance with
    | none => rfl
    | some guard =>
        cases hexempt : guard.1.exempts request.path <;>
          simp [hexempt, Admitted.dropped, Gate.refusedOr]
  · rw [if_neg hengages, if_neg hengages, Gate.refusedOr]

theorem gate_admit (request : Request) (shared : Shared σ) :
    (guards.gate cls).admission request shared =
      guards.arrive (Kind.arrivals.filter (guards.engages cls request)) request {} shared := by
  rw [Gate.admission, gate_admitCounted, refusedOr_maintenance, gate_refusesClient, Kind.arrivals,
    arrive_filter_cons guards cls request .clientAddress]
  by_cases hengages : guards.engages cls request .clientAddress = true
  · rw [if_pos hengages, if_pos hengages, arrive, judge]
    cases unresolvedClient request <;> rfl
  · rw [if_neg hengages, if_neg hengages, Gate.refusedOr]

/-- A gate without guards is left out: it lets everything through and owes nothing. -/
theorem gateLayer_elim (target : Service σ) :
    ((guards.gateLayer cls).elim target fun gate => gate.call target) =
      (guards.gate cls).call target := by
  unfold gateLayer
  dsimp only
  split
  · rename_i hempty
    simp only [Bool.and_eq_true, Option.isNone_iff_eq_none] at hempty
    obtain ⟨⟨⟨hclient, hmaintenance⟩, hconcurrency⟩, hshield⟩ := hempty
    funext request shared
    simp [Gate.call, Gate.admission, Gate.refusedOr, Gate.refusesClient, Gate.refusesMaintenance,
      Gate.admitCounted, Gate.counts, Gate.admitLimits, hclient, hmaintenance, hconcurrency, hshield,
      Admitted.settle]
  · rfl

theorem stack_eq_pipeline (target : Service σ) :
    guards.stack cls target = guards.pipeline cls target := by
  funext request shared
  rw [stack, gateLayer_elim, Gate.call, gate_admit, pipeline]
  cases guards.arrive (Kind.arrivals.filter (guards.engages cls request)) request {} shared with
  | mk admission shared =>
      cases admission with
      | refused response => rfl
      | admitted admitted =>
          cases hauth : cls.authenticates
          · rw [guards.around_of_not_authenticates cls hauth]
            rfl
          · have hbehind : wrap cls guards.auth (wrap cls guards.postAuth (wrap cls guards.authz
                (wrap cls guards.decider target))) request shared = _ :=
              guards.behind_eq_around cls target ⟨rfl, rfl⟩ hauth
            dsimp only
            rw [if_pos rfl, if_pos rfl, hbehind]

/-- A guard that judges a request of a class covers the class. -/
theorem cover_of_engages {request : Request} {kind : Kind} (h : guards.engages cls request kind = true) :
    guards.cover cls = true := by
  rw [engages, Bool.and_eq_true, Option.any_eq_true] at h
  obtain ⟨hclass, scope, hscope, hcovers⟩ := h
  rw [Bool.and_eq_true] at hcovers
  have hguard : ∀ {α : Type} {guard : Option (α × Scope)}, guard.map (·.2) = some scope →
      guard.any (·.2.covers cls) = true := by
    intro α guard hguard
    obtain ⟨found, rfl, rfl⟩ := Option.map_eq_some_iff.mp hguard
    exact hcovers.1
  have hshield : ∀ {phase}, (guards.shield.filter (·.1.enforces phase)).map (·.2) = some scope →
      guards.shield.any (·.2.covers cls) = true := by
    intro phase hshield
    obtain ⟨found, hfound, rfl⟩ := Option.map_eq_some_iff.mp hshield
    rw [(Option.filter_eq_some_iff.mp hfound).1]
    exact hcovers.1
  cases kind with
  | clientAddress => simp [cover, show guards.requireClient = some scope from hscope, hcovers.1]
  | maintenance => simp [cover, hguard hscope]
  | concurrency => simp [cover, show guards.concurrency = some scope from hscope, hcovers.1]
  | limitsBeforeAuth => simp [cover, hshield hscope]
  | jwt => simp [cover, hguard hscope, show cls.authenticates = true from hclass]
  | limitsAfterAuth => simp [cover, hshield hscope]
  | extAuthz => simp [cover, hguard hscope, show cls.authenticates = true from hclass]
  | decider => simp [cover, hguard hscope, show cls.authenticates = true from hclass]

theorem pipeline_of_not_cover (target : Service σ) (h : guards.cover cls = false) :
    guards.pipeline cls target = target := by
  funext request shared
  have hidle : ∀ kinds : List Kind, kinds.filter (guards.engages cls request) = [] := by
    refine fun kinds => List.filter_eq_nil_iff.mpr fun kind _ hengages => ?_
    rw [guards.cover_of_engages cls hengages] at h
    cases h
  rw [pipeline, hidle, hidle]
  rfl

/-- **A service behind its guards is the pipeline.** Whatever guards are configured with whatever
scopes, and whether or not the stack is left out, a request of a class is judged by the guards it
engages, in the fixed order: on arrival a required client address, maintenance, the concurrency limit
and the limits before auth, then the JWT guard, the limits after auth, ext_authz and the decider around
the service. -/
theorem service_eq_pipeline (target : Service σ) :
    guards.service cls target = guards.pipeline cls target := by
  rw [service]
  split
  · exact guards.stack_eq_pipeline cls target
  · rename_i hcover
    exact (guards.pipeline_of_not_cover cls target (Bool.not_eq_true _ ▸ hcover)).symm

end Guards

end StructuredProxy.Guard
