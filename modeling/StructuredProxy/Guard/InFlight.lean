import StructuredProxy.Guard.Stack
import StructuredProxy.Lib.Calls

/-!
# Requests in flight

A slot of the concurrency limit is taken as a request passes the gate and held until its response body
ends, fails or is dropped, or until the request is turned away or given up before it is answered. Any
number of requests of every class of traffic do so at once, each at its own step. In every interleaving
the free slots and the requests in flight that the limit counts make up the configured number: no slot
is lost and none is given back twice.
-/

namespace StructuredProxy.Guard

open Lib

variable {σ : Type}

/-- Where a request is: before the gate; between the slot and the rate limits; with the service; its
response body on the way out. -/
inductive Stage where
  | arriving
  | deciding
  | waiting
  | responding (ended : Bool)
  deriving DecidableEq

def Admission.onward : Admission → Option Admitted
  | .admitted owed => some owed
  | .refused _ => none

def Stage.inFlight : Stage → Bool
  | .arriving | .responding true => false
  | .deciding | .waiting | .responding false => true

/-- A request and whether it holds a slot: in the gate's local, with what its response owes, or in its
response body. -/
structure Flight where
  cls : Class
  request : Request
  stage : Stage
  slot : Bool

inductive Frame where
  | data
  | last
  | failed
  deriving DecidableEq

def Frame.ends : Frame → Bool
  | .data => false
  | .last | .failed => true

def Flight.letGo (flight : Flight) (shared : Shared σ) : Shared σ :=
  if flight.slot then shared.release else shared

namespace Guards

variable (guards : Guards σ)

def enter (shared : Shared σ) (flight : Flight) : Shared σ × Option Flight :=
  let gate := guards.gate flight.cls
  match flight.stage with
  | .arriving =>
      if (gate.refusesClient flight.request).isSome ||
          (gate.refusesMaintenance flight.request).isSome then
        (shared, none)
      else if gate.counts flight.request then
        match shared.take with
        | some shared => (shared, some { flight with stage := .deciding, slot := true })
        | none => (shared, none)
      else (shared, some { flight with stage := .deciding })
  | _ => (shared, some flight)

def charge (shared : Shared σ) (flight : Flight) : Shared σ × Option Flight :=
  match flight.stage with
  | .deciding =>
      match (guards.gate flight.cls).admitLimits flight.request { slot := flight.slot } shared with
      | (.admitted _, shared) => (shared, some { flight with stage := .waiting })
      | (.refused _, shared) => (shared, none)
  | _ => (shared, some flight)

end Guards

namespace Flight

/-- The service answers, and the slot moves into the response body. -/
def answer (shared : Shared σ) (flight : Flight) : Shared σ × Option Flight :=
  match flight.stage with
  | .waiting => (shared, some { flight with stage := .responding false })
  | _ => (shared, some flight)

/-- The response body is polled; one that ended lets go of its slot. -/
def poll (frame : Frame) (shared : Shared σ) (flight : Flight) : Shared σ × Option Flight :=
  match flight.stage with
  | .responding _ =>
      if frame.ends then
        (flight.letGo shared, some { flight with stage := .responding true, slot := false })
      else (shared, some flight)
  | _ => (shared, some flight)

def drop (shared : Shared σ) (flight : Flight) : Shared σ × Option Flight :=
  (flight.letGo shared, none)

end Flight

inductive FlightEvent (σ : Type) where
  | arrive (cls : Class) (request : Request)
  | enter (index : Nat)
  | charge (index : Nat)
  | answer (index : Nat)
  | poll (index : Nat) (frame : Frame)
  | drop (index : Nat)
  | elsewhere (other : σ)

abbrev Flights (σ : Type) := Pool (Shared σ) Flight

namespace Guards

variable (guards : Guards σ)

def happen (flights : Flights σ) : FlightEvent σ → Flights σ
  | .arrive cls request => flights.spawn (some ⟨cls, request, .arriving, false⟩)
  | .enter index => flights.advance guards.enter index
  | .charge index => flights.advance guards.charge index
  | .answer index => flights.advance Flight.answer index
  | .poll index frame => flights.advance (Flight.poll frame) index
  | .drop index => flights.advance Flight.drop index
  | .elsewhere other => { flights with shared := { flights.shared with other } }

def flights (maxInFlight : Nat) (other : σ) (events : List (FlightEvent σ)) : Flights σ :=
  events.foldl guards.happen ⟨⟨maxInFlight, other⟩, []⟩

def inFlight (flight : Flight) : Bool :=
  guards.engages flight.cls flight.request .concurrency && flight.stage.inFlight

/-- What the rate limits leave of a request: its slot where they let it through, nothing of it where they
do not, with the slot free again. -/
theorem admitLimits_cases (gate : Gate σ) (request : Request) (admitted : Admitted) (shared : Shared σ) :
    (∃ owed other, gate.admitLimits request admitted shared = (.admitted owed, { shared with other }) ∧
        owed.slot = admitted.slot) ∨
      ∃ response other, gate.admitLimits request admitted shared =
        (.refused response, admitted.dropped { shared with other }) := by
  rw [Gate.admitLimits]
  cases gate.shield with
  | none => exact Or.inl ⟨admitted, shared.other, rfl, rfl⟩
  | some guard =>
      dsimp only
      split
      · rw [Limits.decideIn]
        cases hdecide : guard.1.decide .preAuth request shared.other with
        | mk decision other =>
            cases decision with
            | pass => exact Or.inl ⟨admitted, other, rfl, rfl⟩
            | reject response => exact Or.inr ⟨response, other, rfl⟩
            | report report => exact Or.inl ⟨_, other, rfl, rfl⟩
      · exact Or.inl ⟨admitted, shared.other, rfl, rfl⟩

theorem charge_of_deciding {shared : Shared σ} {flight : Flight} (hstage : flight.stage = .deciding) :
    let admission :=
      (guards.gate flight.cls).admitLimits flight.request { slot := flight.slot } shared
    guards.charge shared flight =
      (admission.2,
        admission.1.onward.map fun owed => { flight with stage := .waiting, slot := owed.slot }) := by
  dsimp only
  rw [charge, hstage]
  obtain ⟨owed, other, hadmitted, hslot⟩ | ⟨response, other, hrefused⟩ :=
    admitLimits_cases (guards.gate flight.cls) flight.request { slot := flight.slot } shared
  · rw [hadmitted, Admission.onward, Option.map_some, hslot]
  · rw [hrefused, Admission.onward, Option.map_none]

/-- Passing the gate undisturbed is what `Gate::admit` does in one go: the request goes on exactly when it
is admitted, with the slot it then owes. -/
theorem admission_eq_steps (cls : Class) (request : Request) (shared : Shared σ) :
    let entered := guards.enter shared ⟨cls, request, .arriving, false⟩
    let admission := (guards.gate cls).admission request shared
    entered.2.elim (entered.1, none) (guards.charge entered.1) =
      (admission.2, admission.1.onward.map fun owed => ⟨cls, request, .waiting, owed.slot⟩) := by
  dsimp only
  rw [enter, Gate.admission]
  dsimp only
  cases (guards.gate cls).refusesClient request with
  | some response => rfl
  | none =>
      cases (guards.gate cls).refusesMaintenance request with
      | some response => rfl
      | none =>
          simp only [Gate.refusedOr, Gate.admitCounted, Option.isSome_none, Bool.or_self,
            Bool.false_eq_true, if_false]
          cases (guards.gate cls).counts request with
          | false => exact @charge_of_deciding _ guards shared ⟨cls, request, .deciding, false⟩ rfl
          | true =>
              cases shared.take with
              | none => rfl
              | some shared =>
                  exact @charge_of_deciding _ guards shared ⟨cls, request, .deciding, true⟩ rfl

/-! ### Slots -/

def slots (flight : Flight) : Nat := flight.slot.toNat

/-- A request holds a slot exactly while the limit counts it in flight. -/
def Owns (flight : Flight) : Prop := flight.slot = guards.inFlight flight

/-- What one request's step may do: a slot it gives up is free, one it takes was, and it goes on owning
what it should. -/
def Balances (shared : Shared σ) (flight : Flight) (after : Shared σ × Option Flight) : Prop :=
  after.1.free + Pool.weight slots after.2.toList = shared.free + slots flight ∧
    ∀ next ∈ after.2, guards.Owns next

variable {guards} {shared : Shared σ} {flight : Flight}

theorem letGo_free : (flight.letGo shared).free = shared.free + slots flight := by
  rw [Flight.letGo, slots]
  cases flight.slot <;> rfl

theorem take_eq_none_iff : shared.take = none ↔ shared.free = 0 := by
  rw [Shared.take]
  split <;> simp_all

theorem free_of_take {taken : Shared σ} (h : shared.take = some taken) :
    taken.free + 1 = shared.free := by
  rw [Shared.take] at h
  split at h
  · cases h
  · cases h
    dsimp only
    omega

theorem balances_some {next : Flight} {after : Shared σ} (hfree : after.free = shared.free)
    (hslot : next.slot = flight.slot) (howns : guards.Owns next) :
    guards.Balances shared flight (after, some next) := by
  refine ⟨?_, fun other hother => ?_⟩
  · rw [Pool.weight_some, slots, slots, hslot, hfree]
  · cases hother
    exact howns

theorem balances_none {after : Shared σ} (hfree : after.free = shared.free + slots flight) :
    guards.Balances shared flight (after, none) :=
  ⟨hfree, fun _ hother => absurd hother (Option.not_mem_none _)⟩

theorem slot_of_arriving (howns : guards.Owns flight) (hstage : flight.stage = .arriving) :
    flight.slot = false := by
  rw [howns, inFlight, hstage, Stage.inFlight, Bool.and_false]

theorem balances_enter (howns : guards.Owns flight) :
    guards.Balances shared flight (guards.enter shared flight) := by
  rw [enter]
  split
  · rename_i hstage
    have hslot := slot_of_arriving howns hstage
    have hslots : slots flight = 0 := by rw [slots, hslot]; rfl
    split
    · exact balances_none (by rw [hslots]; rfl)
    · split
      · rename_i hcounts
        cases htake : shared.take with
        | none => exact balances_none (by rw [hslots]; rfl)
        | some taken =>
            refine ⟨?_, fun next hnext => ?_⟩
            · rw [Pool.weight_some, hslots]
              exact free_of_take htake
            · cases hnext
              rw [gate_counts] at hcounts
              rw [Owns, inFlight, hcounts]
              rfl
      · rename_i hcounts
        refine balances_some rfl rfl ?_
        rw [gate_counts, Bool.not_eq_true] at hcounts
        rw [Owns, inFlight, hslot, hcounts]
        rfl
  · exact balances_some rfl rfl howns

theorem owns_of_inFlight {stage : Stage} (howns : guards.Owns flight)
    (hbefore : flight.stage.inFlight = true) (hafter : stage.inFlight = true) :
    guards.Owns { flight with stage } := by
  rw [Owns, inFlight, hbefore] at howns
  rw [Owns, inFlight, hafter]
  exact howns

theorem balances_charge (howns : guards.Owns flight) :
    guards.Balances shared flight (guards.charge shared flight) := by
  rw [charge]
  split
  · rename_i hstage
    obtain ⟨owed, other, hadmitted, hslot⟩ | ⟨response, other, hrefused⟩ :=
      admitLimits_cases (guards.gate flight.cls) flight.request { slot := flight.slot } shared
    · rw [hadmitted]
      exact balances_some rfl rfl (owns_of_inFlight howns (by rw [hstage]; rfl) rfl)
    · rw [hrefused]
      exact balances_none (@letGo_free _ { shared with other } flight)
  · exact balances_some rfl rfl howns

theorem balances_answer (howns : guards.Owns flight) :
    guards.Balances shared flight (flight.answer shared) := by
  rw [Flight.answer]
  split
  · rename_i hstage
    exact balances_some rfl rfl (owns_of_inFlight howns (by rw [hstage]; rfl) rfl)
  · exact balances_some rfl rfl howns

theorem balances_poll (frame : Frame) (howns : guards.Owns flight) :
    guards.Balances shared flight (flight.poll frame shared) := by
  rw [Flight.poll]
  split
  · split
    · -- the body ended: its slot, if it still has one, is free, and there is none to give back later
      refine ⟨letGo_free, fun next hnext => ?_⟩
      cases hnext
      rw [Owns, inFlight, Stage.inFlight, Bool.and_false]
    · exact balances_some rfl rfl howns
  · exact balances_some rfl rfl howns

/-- Every slot is free or held by a request that should hold it. -/
def Accounted (guards : Guards σ) (maxInFlight : Nat) (flights : Flights σ) : Prop :=
  flights.shared.free + Pool.weight slots flights.calls = maxInFlight ∧
    ∀ flight ∈ flights.calls, guards.Owns flight

theorem accounted_advance {maxInFlight : Nat} {flights : Flights σ}
    {step : Shared σ → Flight → Shared σ × Option Flight}
    (hstep : ∀ shared flight, guards.Owns flight → guards.Balances shared flight (step shared flight))
    (index : Nat) (h : guards.Accounted maxInFlight flights) :
    guards.Accounted maxInFlight (flights.advance step index) := by
  refine @Pool.advance_keeps_ordered _ _ slots step
    (fun shared held => shared.free + held = maxInFlight) guards.Owns
    (fun shared flight rest howns hheld => ?_) index flights h
  obtain ⟨hbalance, hnext⟩ := hstep shared flight howns
  exact ⟨by omega, hnext⟩

theorem accounted_happen {maxInFlight : Nat} {flights : Flights σ} (event : FlightEvent σ)
    (h : guards.Accounted maxInFlight flights) :
    guards.Accounted maxInFlight (guards.happen flights event) := by
  cases event with
  | arrive cls request =>
      refine ⟨?_, fun flight hflight => ?_⟩
      · rw [happen, Pool.spawn, Pool.weight_append, Pool.weight_some, ← h.1]
        rfl
      · rcases List.mem_append.mp hflight with hflight | hflight
        · exact h.2 flight hflight
        · cases List.mem_singleton.mp hflight
          rw [Owns, inFlight, Stage.inFlight, Bool.and_false]
  | enter index => exact accounted_advance (fun _ _ => balances_enter) index h
  | charge index => exact accounted_advance (fun _ _ => balances_charge) index h
  | answer index => exact accounted_advance (fun _ _ => balances_answer) index h
  | poll index frame => exact accounted_advance (fun _ _ => balances_poll frame) index h
  | drop index => exact accounted_advance (fun _ _ _ => balances_none letGo_free) index h
  | elsewhere other => exact h

theorem accounted_flights (guards : Guards σ) (maxInFlight : Nat) (other : σ)
    (events : List (FlightEvent σ)) :
    guards.Accounted maxInFlight (guards.flights maxInFlight other events) := by
  refine List.foldlRecOn events guards.happen ⟨rfl, fun _ h => absurd h List.not_mem_nil⟩ ?_
  exact fun flights h event _ => accounted_happen event h

/-- **Slots are neither lost nor given back twice**, whatever the requests, the limits' decisions and the
order of their steps: the free ones and the requests in flight that the limit counts are the configured
number, so a request finds no slot exactly when that many are in flight. -/
theorem free_slots_add_inFlight (guards : Guards σ) (maxInFlight : Nat) (other : σ)
    (events : List (FlightEvent σ)) :
    let flights := guards.flights maxInFlight other events
    flights.shared.free + flights.calls.countP guards.inFlight = maxInFlight ∧
      (flights.shared.take = none ↔ flights.calls.countP guards.inFlight = maxInFlight) := by
  dsimp only
  obtain ⟨hfree, howns⟩ := accounted_flights guards maxInFlight other events
  have hslots : ∀ flight ∈ (guards.flights maxInFlight other events).calls,
      slots flight = (guards.inFlight flight).toNat := fun flight hflight =>
    congrArg Bool.toNat (howns flight hflight)
  rw [Pool.weight_eq_countP hslots] at hfree
  refine ⟨hfree, ?_⟩
  rw [take_eq_none_iff]
  omega

end Guards

end StructuredProxy.Guard
