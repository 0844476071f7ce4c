import StructuredProxy.Shield.Global
import StructuredProxy.Shield.GcraRuns
import StructuredProxy.Shield.GcraStore
import StructuredProxy.Shield.Rule

/-!
# Charging requests

A request that a rule matches is charged to the limit that its claims, the limit service, the rule or the
default resolve to: first against the fleet's budget, which is only read, then in the local store, and
an admission is recorded for the fleet. Requests do so concurrently. A check reads the clock, sweeps the
store key by key if that is due, and then updates its own key, each in a step of its own. The requests
admitted to a key under a limit stay within its burst and its rate over every interval of time, by the
instants their checks read, unless a sweep that read a later instant drops the key between a check's
reading and its update.
-/

namespace StructuredProxy

namespace Shield

open Lib Guard
open Addressing hiding Request
open Metadata hiding Headers

deriving instance DecidableEq for Gcra

/-! ### The limit of a request -/

/-- `Number::as_u64`, of a number as JSON writes it. -/
def numberU64 (token : Text) : Option Nat := if token.all isDigit then parseU64 token else none

def claimU64 (claims : Json) (path : Text) : Option Nat :=
  match Auth.claimAt claims path with
  | some (.number token) => numberU64 token
  | some (.string text) => parseU64 (strTrim text)
  | _ => none

structure JwtLimits where
  tierClaim : Text
  rpmClaim : Text
  burstClaim : Text

def JwtLimits.resolve (limits : JwtLimits) (numberText : Auth.NumberText) (claims : Json)
    (profiles : KeyMap Text CompiledProfile) : Option CompiledProfile :=
  match (claimStr numberText claims limits.tierClaim).bind profiles.get with
  | some profile => some profile
  | none =>
      (claimU64 claims limits.rpmClaim).bind fun rpm =>
        LimitService.profileFromNumbers rpm ((claimU64 claims limits.burstClaim).getD rpm)

end Shield

open Lib Guard Shield
open Addressing hiding Request

structure Shield where
  rules : List CompiledRule
  profiles : KeyMap Text CompiledProfile
  defaultProfile : Option CompiledProfile
  jwtLimits : Option JwtLimits
  sha : Sha256
  forms : AddressText
  numberText : Auth.NumberText
  overflow : Overflow

namespace Shield

variable (shield : Shield)

def matchRule (path : Text) (phase : Phase) : Option CompiledRule :=
  shield.rules.find? fun rule => rule.phase = phase && rule.matcher path

def staticProfile (rule : CompiledRule) : Option CompiledProfile :=
  (rule.profile.bind shield.profiles.get).or shield.defaultProfile

/-- By claims, then by the limit service (what it answers now for an identity), then by the rule. -/
def resolveLimit (rule : CompiledRule) (claims : Option Json) (identity : Text)
    (service : Option (Text → Option CompiledProfile)) : Option CompiledProfile :=
  let fromClaims := shield.jwtLimits.bind fun limits =>
    claims.bind fun claims => limits.resolve shield.numberText claims shield.profiles
  match fromClaims with
  | some profile => some profile
  | none =>
      match service.bind fun answer => answer identity with
      | some profile => some profile
      | none => shield.staticProfile rule

def fleetBackoff (window : Nat) : Nat := max (window / 10) nanosPerSec

/-- The tighter of the local and the fleet's budget, and the verdict whose reset goes with it. -/
def reconciledHeaders (verdict : Verdict) (fleetRemaining : Option Nat) (window : Nat) : Nat × Verdict :=
  match fleetRemaining with
  | none => (verdict.remaining, verdict)
  | some remaining =>
      let fleet := remaining - 1
      if fleet ≤ verdict.remaining then
        let backoff := fleetBackoff window
        (fleet, { verdict with
          resetAfter := max verdict.resetAfter backoff
          retryAfter := max verdict.retryAfter backoff })
      else (verdict.remaining, verdict)

def globalReject (limit window : Nat) : Response :=
  let backoff := fleetBackoff window
  tooManyRequests limit 0
    { allowed := false, newTat := 0, remaining := 0, retryAfter := backoff, resetAfter := backoff }

def reportOf (limit remaining : Nat) (verdict : Verdict) : Report where
  limit := limit % 2 ^ 64
  remaining := remaining % 2 ^ 64
  verdict := verdict
  limit_lt := Nat.mod_lt _ (by decide)
  remaining_lt := Nat.mod_lt _ (by decide)

/-! ### One request -/

structure Charge where
  key : Text
  profile : CompiledProfile

/-- How the limits end for a request; a report goes with what was charged, and when. -/
inductive Outcome where
  | passed
  | panicked
  | refused (response : Response)
  | reported (report : Report) (charge : Charge) (now : Nat)

structure Books where
  store : GcraStore
  global : Option GlobalCounters
  clock : Nat

/-- What is left of a check that has read the clock: to sweep the store, if that is due and no other
check claims it, and then to update its key. -/
inductive CheckStep where
  | load
  | claim (last : Nat)
  /-- Drained keys are dropped one by one; these are still to be visited. -/
  | retain (unvisited : List Text)
  | update

inductive ChargeStage where
  | arriving
  | gating (charge : Charge)
  | reading (charge : Charge) (fleet : Option Nat)
  | checking (charge : Charge) (fleet : Option Nat) (now : Nat) (left : CheckStep)
  | recording (charge : Charge) (fleet : Option Nat) (verdict : Verdict) (now : Nat)
  | answered (outcome : Outcome)

structure Charging where
  phase : Phase
  peer : Option SocketAddr
  request : Request
  stage : ChargeStage

namespace Charging

def goTo (call : Charging) (stage : ChargeStage) : Option Charging := some { call with stage }

def resolve (shield : Shield) (service : Option (Text → Option CompiledProfile)) (books : Books)
    (call : Charging) : Books × Option Charging :=
  match call.stage with
  | .arriving =>
      match shield.matchRule call.request.path call.phase with
      | none => (books, call.goTo (.answered .passed))
      | some rule =>
          match rule.keyFor shield.forms shield.numberText call.peer call.request shield.sha with
          | none => (books, call.goTo (.answered .panicked))
          | some key =>
              match shield.resolveLimit rule call.request.claims key.identity service with
              | none => (books, call.goTo (.answered .passed))
              | some profile => (books, call.goTo (.gating ⟨key.store, profile⟩))
  | _ => (books, some call)

def gate (now instant : Nat) (books : Books) (call : Charging) : Books × Option Charging :=
  match call.stage with
  | .gating charge =>
      match books.global with
      | none => (books, call.goTo (.reading charge none))
      | some global =>
          let (remaining, global) :=
            global.fleetRemaining charge.key charge.profile.limit charge.profile.window now instant
          let books := { books with global := some global }
          if remaining = 0 then
            (books,
              call.goTo (.answered (.refused (globalReject charge.profile.limit charge.profile.window))))
          else (books, call.goTo (.reading charge (some remaining)))
  | _ => (books, some call)

def readClock (books : Books) (call : Charging) : Books × Option Charging :=
  match call.stage with
  | .reading charge fleet => (books, call.goTo (.checking charge fleet books.clock .load))
  | _ => (books, some call)

/-- The keys are counted shard by shard; `counted` is what that came to. -/
def load (counted : Nat) (books : Books) (call : Charging) : Books × Option Charging :=
  match call.stage with
  | .checking charge fleet now .load =>
      let last := books.store.lastSweepMs
      let left := if GcraStore.dueAt last now counted then .claim last else .update
      (books, call.goTo (.checking charge fleet now left))
  | _ => (books, some call)

/-- A sweep visits one key. The order is that of the map, and a key stored meanwhile may be visited. -/
def visit (key : Text) (books : Books) (call : Charging) : Books × Option Charging :=
  match call.stage with
  | .checking charge fleet now (.retain unvisited) =>
      let tats :=
        if (books.store.tats.get key).any (· ≤ durNanos now) then books.store.tats.erase key
        else books.store.tats
      ({ books with store := { books.store with tats } },
        call.goTo (.checking charge fleet now (.retain (unvisited.filter (· ≠ key)))))
  | _ => (books, some call)

def check (overflow : Overflow) (books : Books) (call : Charging) : Books × Option Charging :=
  match call.stage with
  | .checking charge fleet now (.claim last) =>
      if books.store.lastSweepMs = last then
        ({ books with store := { books.store with lastSweepMs := GcraStore.millis now } },
          call.goTo (.checking charge fleet now (.retain books.store.tats.keys)))
      else (books, call.goTo (.checking charge fleet now .update))
  | .checking charge fleet now (.retain []) => (books, call.goTo (.checking charge fleet now .update))
  | .checking charge fleet now .update =>
      let (verdict, tats) := books.store.tats.check overflow charge.key charge.profile.gcra now
      let after := { books with store := { books.store with tats } }
      match verdict with
      | none => (after, call.goTo (.answered .panicked))
      | some verdict =>
          if verdict.allowed then (after, call.goTo (.recording charge fleet verdict now))
          else
            (after,
              call.goTo (.answered (.refused
                (tooManyRequests charge.profile.limit verdict.remaining verdict))))
  | _ => (books, some call)

/-- The admission is recorded where the fleet's budget was asked. -/
def record (now instant : Nat) (books : Books) (call : Charging) : Books × Option Charging :=
  match call.stage with
  | .recording charge fleet verdict admitted =>
      let global :=
        if fleet.isSome then
          books.global.map fun global => global.record charge.key charge.profile.window now instant
        else books.global
      let (reported, header) := reconciledHeaders verdict fleet charge.profile.window
      ({ books with global },
        call.goTo (.answered (.reported (reportOf charge.profile.limit reported header) charge admitted)))
  | _ => (books, some call)

end Charging

inductive ChargeEvent where
  | arrive (phase : Phase) (peer : Option SocketAddr) (request : Request)
  | resolve (index : Nat) (service : Option (Text → Option CompiledProfile))
  | gate (index now instant : Nat)
  | readClock (index : Nat)
  | load (index counted : Nat)
  | visit (index : Nat) (key : Text)
  | check (index : Nat)
  | record (index now instant : Nat)
  | reconcile (global : Option GlobalCounters)
  | tick (elapsed : Nat)

abbrev ChargePool := Pool Books Charging

def happen (pool : ChargePool) : ChargeEvent → ChargePool
  | .arrive phase peer request => pool.spawn (some ⟨phase, peer, request, .arriving⟩)
  | .resolve index service => pool.advance (Charging.resolve shield service) index
  | .gate index now instant => pool.advance (Charging.gate now instant) index
  | .readClock index => pool.advance Charging.readClock index
  | .load index counted => pool.advance (Charging.load counted) index
  | .visit index key => pool.advance (Charging.visit key) index
  | .check index => pool.advance (Charging.check shield.overflow) index
  | .record index now instant => pool.advance (Charging.record now instant) index
  | .reconcile global => { pool with shared := { pool.shared with global } }
  | .tick elapsed => { pool with shared := { pool.shared with clock := pool.shared.clock + elapsed } }

def run (global : Option GlobalCounters) (events : List ChargeEvent) : ChargePool :=
  events.foldl shield.happen ⟨⟨⟨.empty, 0⟩, global, 0⟩, []⟩

/-! ### What a key has spent -/

/-- After `n` admissions under `g` between `a` and `b`: they fit the burst and the interval, and the TAT,
or the instant `now` where there is none, is that far on. -/
def Tally (g : Gcra) (a b n : Nat) (stored : Option Nat) (now : Nat) : Prop :=
  n = 0 ∨ (n - 1) * g.emissionInterval ≤ b - a + g.tau ∧ a + n * g.emissionInterval ≤ stored.getD now

namespace Tally

variable {g limiter : Gcra} {a b n now : Nat} {stored : Option Nat}

theorem later (h : Tally g a b n stored now) {later : Nat} (hle : now ≤ later) :
    Tally g a b n stored later := by
  rcases h with hzero | ⟨hspent, hreach⟩
  · exact Or.inl hzero
  · refine Or.inr ⟨hspent, hreach.trans ?_⟩
    cases stored with
    | none => exact hle
    | some tat => exact Nat.le_refl tat

theorem dropped {tat : Nat} (h : Tally g a b n (some tat) now) {later : Nat} (hle : tat ≤ later) :
    Tally g a b n none later := by
  rcases h with hzero | ⟨hspent, hreach⟩
  · exact Or.inl hzero
  · exact Or.inr ⟨hspent, hreach.trans hle⟩

theorem mul_pred_add {m T : Nat} (h : 0 < m) : (m - 1) * T + T = m * T := by
  rw [← Nat.succ_mul, Nat.succ_eq_add_one, Nat.sub_add_cancel h]

/-- An admission moves the TAT on, whichever limiter it is under. -/
theorem moved (hab : a ≤ b) (hroom : b + g.tau + g.emissionInterval < 2 ^ 64)
    (h : Tally g a b n stored now) (limiter : Gcra) (later : Nat) :
    Tally g a b n (some (durNanos (max (stored.getD now) now + limiter.emissionInterval))) later := by
  rcases h with hzero | ⟨hspent, hreach⟩
  · exact Or.inl hzero
  · by_cases hn : n = 0
    · exact Or.inl hn
    · refine Or.inr ⟨hspent, ?_⟩
      have hpred := @mul_pred_add n g.emissionInterval (Nat.pos_of_ne_zero hn)
      rw [Option.getD_some, durNanos]
      refine Nat.le_min.mpr ⟨?_, ?_⟩
      · have hmax : stored.getD now ≤ max (stored.getD now) now := Nat.le_max_left _ _
        omega
      · omega

theorem admitted (hroom : b + g.tau + g.emissionInterval < 2 ^ 64) (h : Tally g a b n stored now)
    (hfrom : a ≤ now) (hto : now ≤ b) (hconforms : stored.getD now ≤ now + g.tau) (later : Nat) :
    Tally g a b (n + 1) (some (durNanos (max (stored.getD now) now + g.emissionInterval))) later := by
  have hspent : n * g.emissionInterval ≤ b - a + g.tau ∧
      a + n * g.emissionInterval ≤ max (stored.getD now) now := by
    have hmax : stored.getD now ≤ max (stored.getD now) now := Nat.le_max_left _ _
    have hnow : now ≤ max (stored.getD now) now := Nat.le_max_right _ _
    rcases h with rfl | ⟨-, hreach⟩
    · omega
    · omega
  refine Or.inr ⟨by rw [Nat.add_sub_cancel]; exact hspent.1, ?_⟩
  rw [Option.getD_some, durNanos, Nat.add_mul, Nat.one_mul]
  refine Nat.le_min.mpr ⟨?_, ?_⟩
  · omega
  · omega

theorem bound (h : Tally g a b n stored now) :
    n ≤ g.burst + (b - a) / g.emissionInterval := by
  have htau := g.tau_le
  have hburst := g.burst_pos
  rcases h with rfl | ⟨hspent, -⟩
  · exact Nat.zero_le _
  · have hdiv : n - 1 - (g.burst - 1) ≤ (b - a) / g.emissionInterval := by
      rw [Nat.le_div_iff_mul_le g.interval_pos, Nat.sub_mul]
      omega
    omega

end Tally

section Window

variable (key : Text) (g : Gcra) (a b : Nat)

def Charge.within (charge : Charge) (now : Nat) : Bool :=
  charge.key = key && charge.profile.gcra = g && a ≤ now && now ≤ b

def Charging.admittedWithin (call : Charging) : Bool :=
  match call.stage with
  | .recording charge _ _ now => charge.within key g a b now
  | .answered (.reported _ charge now) => charge.within key g a b now
  | _ => false

def Charging.reportedWithin (call : Charging) : Bool :=
  match call.stage with
  | .answered (.reported _ charge now) => charge.within key g a b now
  | _ => false

def Charging.weight (call : Charging) : Nat := (call.admittedWithin key g a b).toNat

/-- The instant that a check of the key in progress has read. -/
def Charging.readingOf (call : Charging) : Option Nat :=
  match call.stage with
  | .checking charge _ now _ => if charge.key = key then some now else none
  | _ => none

/-- The instant that a sweep has read which drops the key if it visits it now. -/
def Charging.drops (books : Books) (call : Charging) : Option Nat :=
  match call.stage with
  | .checking _ _ now (.retain _) =>
      if (books.store.tats.get key).any (· ≤ durNanos now) then some now else none
  | _ => none

/-- The instants by which the key is judged next: the clock, and what checks in progress have read. -/
def Books.Pending (books : Books) (calls : List Charging) (now : Nat) : Prop :=
  now = books.clock ∨ ∃ call ∈ calls, now ∈ call.readingOf key

/-- What holds in every interleaving: no reading is ahead of the clock, and the tally of the key is
right for whichever check comes next. -/
structure Books.Holds (books : Books) (calls : List Charging) : Prop where
  past : ∀ call ∈ calls, ∀ charge fleet now left, call.stage = .checking charge fleet now left →
    now ≤ books.clock
  tally : ∀ now, books.Pending key calls now →
    Tally g a b (Pool.weight (Charging.weight key g a b) calls) (books.store.tats.get key) now

variable {key g a b} {books after : Books} {call next : Charging} {before rest : List Charging}

def ChargeStage.isCheck : ChargeStage → Bool
  | .checking _ _ _ _ => true
  | _ => false

/-- The instant a call keeps, or reads off the clock. -/
def Charging.Reads (books : Books) (call next : Charging) : Prop :=
  ∀ charge fleet now left, next.stage = .checking charge fleet now left → now = books.clock ∨
    ∃ fleet left, call.stage = .checking charge fleet now left

theorem readingOf_eq_some {now : Nat} (h : call.readingOf key = some now) :
    ∃ charge fleet left, call.stage = .checking charge fleet now left ∧ charge.key = key := by
  rw [Charging.readingOf] at h
  split at h
  · rename_i charge fleet now left hstage
    split at h
    · rename_i hkey
      cases h
      exact ⟨charge, fleet, left, hstage, hkey⟩
    · cases h
  · cases h

theorem readingOf_checking {charge : Charge} {fleet : Option Nat} {now : Nat} {left : CheckStep}
    (hstage : call.stage = .checking charge fleet now left) : call.readingOf charge.key = some now := by
  rw [Charging.readingOf, hstage]
  exact if_pos rfl

theorem Books.Holds.goesOn (h : books.Holds key g a b (before ++ call :: rest))
    (hclock : after.clock = books.clock) (hreads : call.Reads books next)
    (htally : ∀ others, (∀ now, books.Pending key (before ++ call :: rest) now →
        Tally g a b (call.weight key g a b + others) (books.store.tats.get key) now) →
      ∀ now, books.Pending key (before ++ call :: rest) now →
        Tally g a b (next.weight key g a b + others) (after.store.tats.get key) now) :
    after.Holds key g a b (before ++ (some next).toList ++ rest) := by
  have hcall : call ∈ before ++ call :: rest := List.mem_append_right _ List.mem_cons_self
  have hbefore := h.tally
  rw [Pool.weight_around_one] at hbefore
  refine ⟨fun one hone charge fleet now left hstage => ?_, fun now hnow => ?_⟩
  · rw [hclock]
    rcases Pool.mem_around hone with hone | hone
    · exact h.past one (Pool.mem_of_mem_around hone) charge fleet now left hstage
    · obtain rfl := Option.some.inj hone
      rcases hreads charge fleet now left hstage with rfl | ⟨fleet, left, hstage⟩
      · exact Nat.le_refl _
      · exact h.past call hcall charge fleet now left hstage
  · rw [Pool.weight_around, Pool.weight_some]
    refine htally _ hbefore now ?_
    rcases hnow with rfl | ⟨one, hone, hread⟩
    · exact Or.inl hclock
    · rcases Pool.mem_around hone with hone | hone
      · exact Or.inr ⟨one, Pool.mem_of_mem_around hone, hread⟩
      · obtain rfl := Option.some.inj hone
        obtain ⟨charge, fleet, left, hstage, rfl⟩ := readingOf_eq_some hread
        rcases hreads charge fleet now left hstage with rfl | ⟨fleet, left, hstage⟩
        · exact Or.inl rfl
        · exact Or.inr ⟨call, hcall, readingOf_checking hstage⟩

theorem Books.Holds.quiet (h : books.Holds key g a b (before ++ call :: rest))
    (hclock : after.clock = books.clock)
    (hstore : after.store.tats.get key = books.store.tats.get key)
    (hweight : next.weight key g a b = call.weight key g a b) (hreads : call.Reads books next) :
    after.Holds key g a b (before ++ (some next).toList ++ rest) := by
  refine h.goesOn hclock hreads fun others htally now hnow => ?_
  rw [hstore, hweight]
  exact htally now hnow

theorem Charging.Reads.of_idle {stage : ChargeStage} (h : stage.isCheck = false) :
    call.Reads books { call with stage } := by
  intro charge fleet now left hstage
  cases hstage
  cases h

theorem Charging.Reads.refl : call.Reads books call := fun _ fleet _ left hstage =>
  Or.inr ⟨fleet, left, hstage⟩

theorem Charging.Reads.of_checking {charge : Charge} {fleet : Option Nat} {now : Nat}
    {left after : CheckStep} (hstage : call.stage = .checking charge fleet now left) :
    call.Reads books { call with stage := .checking charge fleet now after } := by
  intro charge fleet now left hnext
  cases hnext
  exact Or.inr ⟨_, _, hstage⟩

theorem weight_of_stage {stage : ChargeStage} (hstage : call.stage = stage) :
    call.weight key g a b = ({ call with stage } : Charging).weight key g a b := by
  rw [← hstage]

/-- What a step of a request must do, whatever the others are at. -/
def Keeps (key : Text) (g : Gcra) (a b : Nat) (books : Books) (call : Charging)
    (after : Books × Option Charging) : Prop :=
  ∀ before rest, books.Holds key g a b (before ++ call :: rest) →
    after.1.Holds key g a b (before ++ after.2.toList ++ rest)

theorem keeps_quiet (hclock : after.clock = books.clock) (hstore : after.store.tats = books.store.tats)
    (hweight : next.weight key g a b = call.weight key g a b) (hreads : call.Reads books next) :
    Keeps key g a b books call (after, some next) := fun _ _ h =>
  h.quiet hclock (by rw [hstore]) hweight hreads

theorem keeps_self : Keeps key g a b books call (books, some call) := keeps_quiet rfl rfl rfl .refl

theorem keeps_resolve (shield : Shield) (service : Option (Text → Option CompiledProfile)) :
    Keeps key g a b books call (call.resolve shield service books) := by
  rw [Charging.resolve]
  cases hstage : call.stage with
  | arriving =>
      have hzero : call.weight key g a b = 0 := (weight_of_stage hstage).trans rfl
      dsimp only
      split
      · exact keeps_quiet rfl rfl hzero.symm (.of_idle rfl)
      · split
        · exact keeps_quiet rfl rfl hzero.symm (.of_idle rfl)
        · split
          · exact keeps_quiet rfl rfl hzero.symm (.of_idle rfl)
          · exact keeps_quiet rfl rfl hzero.symm (.of_idle rfl)
  | _ => exact keeps_self

theorem keeps_gate (now instant : Nat) : Keeps key g a b books call (call.gate now instant books) := by
  rw [Charging.gate]
  cases hstage : call.stage with
  | gating charge =>
      have hzero : call.weight key g a b = 0 := (weight_of_stage hstage).trans rfl
      dsimp only
      split
      · exact keeps_quiet rfl rfl hzero.symm (.of_idle rfl)
      · split
        · exact keeps_quiet rfl rfl hzero.symm (.of_idle rfl)
        · exact keeps_quiet rfl rfl hzero.symm (.of_idle rfl)
  | _ => exact keeps_self

theorem keeps_readClock : Keeps key g a b books call (call.readClock books) := by
  rw [Charging.readClock]
  cases hstage : call.stage with
  | reading charge fleet =>
      refine keeps_quiet rfl rfl (weight_of_stage hstage).symm fun _ _ _ _ hnext => ?_
      cases hnext
      exact Or.inl rfl
  | _ => exact keeps_self

theorem keeps_load (counted : Nat) : Keeps key g a b books call (call.load counted books) := by
  rw [Charging.load]
  split
  · rename_i hstage
    exact keeps_quiet rfl rfl (weight_of_stage hstage).symm (.of_checking hstage)
  · exact keeps_self

theorem keeps_record (now instant : Nat) :
    Keeps key g a b books call (call.record now instant books) := by
  rw [Charging.record]
  cases hstage : call.stage with
  | recording charge fleet verdict admitted =>
      exact keeps_quiet rfl rfl (weight_of_stage hstage).symm (.of_idle rfl)
  | _ => exact keeps_self

/-- A sweep may drop the key where no check in progress has read an earlier instant. -/
theorem holds_visit (visited : Text) (h : books.Holds key g a b (before ++ call :: rest))
    (hprompt : visited = key → ∀ now ∈ call.drops key books, ∀ one ∈ before ++ call :: rest,
      ∀ read ∈ one.readingOf key, now ≤ read) :
    (call.visit visited books).1.Holds key g a b
      (before ++ (call.visit visited books).2.toList ++ rest) := by
  rw [Charging.visit]
  split
  · rename_i charge fleet now unvisited hstage
    dsimp only
    split
    · rename_i hdrained
      by_cases hkey : visited = key
      · subst hkey
        have hdrops : call.drops visited books = some now := by
          rw [Charging.drops, hstage]
          exact if_pos hdrained
        refine h.goesOn rfl (.of_checking hstage) fun others htally read hread => ?_
        have hnow : now ≤ read := by
          rcases hread with rfl | ⟨one, hone, hread⟩
          · exact h.past call (List.mem_append_right _ List.mem_cons_self) _ _ _ _ hstage
          · exact hprompt rfl now hdrops one hone read hread
        obtain ⟨tat, htat, hpast⟩ := (Option.any_eq_true _ _).mp hdrained
        have hreach := htally read hread
        rw [htat, weight_of_stage hstage] at hreach
        rw [KeyMap.get_erase_self]
        have hnanos : durNanos now ≤ now := Nat.min_le_left _ _
        exact hreach.dropped ((of_decide_eq_true hpast).trans (hnanos.trans hnow))
      · exact h.quiet rfl (KeyMap.get_erase_of_ne (Ne.symm hkey)) (weight_of_stage hstage).symm
          (.of_checking hstage)
    · exact h.quiet rfl rfl (weight_of_stage hstage).symm (.of_checking hstage)
  · exact keeps_self _ _ h

theorem tats_check_cases (overflow : Overflow) (tats : Tats) (key : Text) (limiter : Gcra) (now : Nat) :
    (∀ verdict ∈ (tats.check overflow key limiter now).1, verdict.allowed = false) ∧
        (tats.check overflow key limiter now).2 = tats ∨
      ∃ verdict, (tats.check overflow key limiter now).1 = some verdict ∧ verdict.allowed = true ∧
        (tats.get key).getD now ≤ now + limiter.tau ∧
        (tats.check overflow key limiter now).2 =
          tats.set key (durNanos (max ((tats.get key).getD now) now + limiter.emissionInterval)) := by
  rw [Tats.check]
  cases hcheck : limiter.check overflow (tats.get key) now with
  | none => exact Or.inl ⟨fun _ h => absurd h (Option.not_mem_none _), rfl⟩
  | some verdict =>
      rcases Gcra.check_cases hcheck with rfl | ⟨hconforms, admissible, rfl⟩
      · refine Or.inl ⟨fun _ h => ?_, rfl⟩
        cases h
        rfl
      · exact Or.inr ⟨_, rfl, rfl, hconforms, rfl⟩

/-- The tally of a key after an admission, whichever limiter it is under. -/
theorem tally_admitted (hab : a ≤ b) (hroom : b + g.tau + g.emissionInterval < 2 ^ 64) {charge : Charge}
    (hkey : charge.key = key) {now n later : Nat} {tats : Tats} (h : Tally g a b n (tats.get key) now)
    (hconforms : (tats.get charge.key).getD now ≤ now + charge.profile.gcra.tau) :
    Tally g a b ((charge.within key g a b now).toNat + n) ((tats.set charge.key (durNanos
      (max ((tats.get charge.key).getD now) now + charge.profile.gcra.emissionInterval))).get key)
      later := by
  subst hkey
  rw [KeyMap.get_set_self]
  cases hwithin : charge.within charge.key g a b now with
  | true =>
      simp only [Charge.within, Bool.and_eq_true, decide_eq_true_eq] at hwithin
      obtain ⟨⟨⟨-, rfl⟩, hfrom⟩, hto⟩ := hwithin
      rw [Bool.toNat_true, Nat.add_comm]
      exact h.admitted hroom hfrom hto hconforms _
  | false =>
      rw [Bool.toNat_false, Nat.zero_add]
      exact h.moved hab hroom _ _

theorem keeps_check (hab : a ≤ b) (hroom : b + g.tau + g.emissionInterval < 2 ^ 64)
    (overflow : Overflow) : Keeps key g a b books call (call.check overflow books) := by
  rw [Charging.check]
  split
  · rename_i hstage
    split
    · exact keeps_quiet rfl rfl (weight_of_stage hstage).symm (.of_checking hstage)
    · exact keeps_quiet rfl rfl (weight_of_stage hstage).symm (.of_checking hstage)
  · rename_i hstage
    exact keeps_quiet rfl rfl (weight_of_stage hstage).symm (.of_checking hstage)
  · rename_i charge fleet now hstage
    have hzero : call.weight key g a b = 0 := (weight_of_stage hstage).trans rfl
    obtain ⟨hrefused, htats⟩ | ⟨verdict, hverdict, hallowed, hconforms, htats⟩ :=
      tats_check_cases overflow books.store.tats charge.key charge.profile.gcra now
    · -- refused, or the check panicked: the store is as it was
      dsimp only
      cases hverdict : (books.store.tats.check overflow charge.key charge.profile.gcra now).1 with
      | none => exact keeps_quiet rfl htats hzero.symm (.of_idle rfl)
      | some verdict =>
          dsimp only
          rw [hrefused verdict hverdict, if_neg Bool.false_ne_true]
          exact keeps_quiet rfl htats hzero.symm (.of_idle rfl)
    · dsimp only
      rw [hverdict]
      dsimp only
      rw [if_pos hallowed]
      intro before rest h
      refine h.goesOn rfl (.of_idle rfl) fun others htally read hread => ?_
      rw [hzero, Nat.zero_add] at htally
      rw [htats]
      by_cases hkey : charge.key = key
      · have hown : books.Pending key (before ++ call :: rest) now :=
          Or.inr ⟨call, List.mem_append_right _ List.mem_cons_self, hkey ▸ readingOf_checking hstage⟩
        exact tally_admitted hab hroom hkey (htally now hown) hconforms
      · have hwithin : charge.within key g a b now = false := by simp [Charge.within, hkey]
        rw [KeyMap.get_set_of_ne (Ne.symm hkey)]
        change Tally g a b ((charge.within key g a b now).toNat + others) _ read
        rw [hwithin, Bool.toNat_false, Nat.zero_add]
        exact htally read hread
  · exact keeps_self

theorem holds_advance {pool : ChargePool} {step : Books → Charging → Books × Option Charging}
    (hstep : ∀ books call, Keeps key g a b books call (step books call)) (index : Nat)
    (h : pool.shared.Holds key g a b pool.calls) :
    (pool.advance step index).shared.Holds key g a b (pool.advance step index).calls := by
  refine @Pool.advance_elim _ _ _ (Books.Holds key g a b) _ _ h
    fun before call rest hcalls _ => ?_
  rw [hcalls] at h
  exact hstep pool.shared call before rest h

end Window

section Runs

variable (shield : Shield) (global : Option GlobalCounters) {key : Text} {g : Gcra} {a b : Nat}

/-- No sweep that read a later instant drops the key between a check's reading and its update. -/
def Prompt (key : Text) (events : List ChargeEvent) : Prop :=
  ∀ before index after, events = before ++ .visit index key :: after →
    ∀ sweeper, (shield.run global before).calls[index]? = some sweeper →
      ∀ now ∈ sweeper.drops key (shield.run global before).shared,
        ∀ call ∈ (shield.run global before).calls, ∀ read ∈ call.readingOf key, now ≤ read

theorem Prompt.init {events : List ChargeEvent} {event : ChargeEvent}
    (h : Prompt shield global key (events ++ [event])) : Prompt shield global key events := by
  intro before index after heq
  refine h before index (after ++ [event]) ?_
  rw [heq, List.append_assoc]
  rfl

theorem holds_happen (hab : a ≤ b) (hroom : b + g.tau + g.emissionInterval < 2 ^ 64)
    {pool : ChargePool} {event : ChargeEvent} (h : pool.shared.Holds key g a b pool.calls)
    (hprompt : ∀ index sweeper, event = .visit index key → pool.calls[index]? = some sweeper →
      ∀ now ∈ sweeper.drops key pool.shared, ∀ call ∈ pool.calls, ∀ read ∈ call.readingOf key,
        now ≤ read) :
    (shield.happen pool event).shared.Holds key g a b (shield.happen pool event).calls := by
  cases event with
  | arrive phase peer request =>
      refine ⟨fun call hcall charge fleet now left hstage => ?_, fun now hnow => ?_⟩
      · rcases List.mem_append.mp hcall with hcall | hcall
        · exact h.past call hcall charge fleet now left hstage
        · rw [List.mem_singleton.mp hcall] at hstage
          cases hstage
      · rw [happen, Pool.spawn, Pool.weight_append, Pool.weight_some]
        refine h.tally now ?_
        rcases hnow with rfl | ⟨call, hcall, hread⟩
        · exact Or.inl rfl
        · rcases List.mem_append.mp hcall with hcall | hcall
          · exact Or.inr ⟨call, hcall, hread⟩
          · rw [List.mem_singleton.mp hcall] at hread
            cases hread
  | resolve index service =>
      exact holds_advance (fun _ _ => keeps_resolve shield service) index h
  | gate index now instant => exact holds_advance (fun _ _ => keeps_gate now instant) index h
  | readClock index => exact holds_advance (fun _ _ => keeps_readClock) index h
  | load index counted => exact holds_advance (fun _ _ => keeps_load counted) index h
  | visit index visited =>
      refine @Pool.advance_elim _ _ _ (Books.Holds key g a b) _ _ h
        fun before call rest hcalls hcall => ?_
      have hvisit : visited = key → ∀ now ∈ call.drops key pool.shared, ∀ one ∈ pool.calls,
          ∀ read ∈ one.readingOf key, now ≤ read := by
        rintro rfl
        exact hprompt index call rfl hcall
      rw [hcalls] at h hvisit
      exact holds_visit visited h hvisit
  | check index => exact holds_advance (fun _ _ => keeps_check hab hroom shield.overflow) index h
  | record index now instant => exact holds_advance (fun _ _ => keeps_record now instant) index h
  | reconcile global => exact ⟨h.past, h.tally⟩
  | tick elapsed =>
      have hclock : pool.shared.clock ≤ pool.shared.clock + elapsed := Nat.le_add_right _ _
      refine ⟨fun call hcall charge fleet now left hstage => ?_, fun now hnow => ?_⟩
      · exact (h.past call hcall charge fleet now left hstage).trans hclock
      · rcases hnow with rfl | hread
        · exact (h.tally _ (Or.inl rfl)).later hclock
        · exact h.tally now (Or.inr hread)

theorem holds_run (hab : a ≤ b) (hroom : b + g.tau + g.emissionInterval < 2 ^ 64)
    (events : List ChargeEvent) (hprompt : Prompt shield global key events) :
    (shield.run global events).shared.Holds key g a b (shield.run global events).calls := by
  induction events using List.reverseRecOn with
  | nil => exact ⟨fun call hcall => absurd hcall List.not_mem_nil, fun now _ => Or.inl rfl⟩
  | append_singleton events event ih =>
      have hrun : shield.run global (events ++ [event]) =
          shield.happen (shield.run global events) event := by
        rw [run, List.foldl_append]
        rfl
      rw [hrun]
      refine holds_happen shield hab hroom (ih hprompt.init) fun index sweeper hevent hsweeper => ?_
      refine hprompt events index [] ?_ sweeper hsweeper
      rw [hevent]

end Runs

section Window

variable {key : Text} {g : Gcra} {a b : Nat}

theorem admitted_of_reported (call : Charging) (h : call.reportedWithin key g a b = true) :
    1 ≤ call.weight key g a b := by
  rw [Charging.reportedWithin] at h
  rw [Charging.weight, Charging.admittedWithin]
  split at h
  · rename_i hstage
    rw [hstage]
    dsimp only
    rw [h]
    exact Nat.le_refl _
  · cases h

theorem le_of_reported (call : Charging) (h : call.reportedWithin key g a b = true) : a ≤ b := by
  rw [Charging.reportedWithin] at h
  split at h
  · simp only [Charge.within, Bool.and_eq_true, decide_eq_true_eq] at h
    exact h.1.2.trans h.2
  · cases h

end Window

/-- **The limits hold end to end.** However requests of all rules and phases interleave, whatever tier
each resolves to, whatever the fleet's counters say and whenever the store is swept: the requests that
were let through charged to one key under one limiter, by checks that read the clock between any two
instants, are no more than its burst and one for each emission interval between them. -/
theorem reported_le_burst_add (shield : Shield) (global : Option GlobalCounters)
    (events : List ChargeEvent) (key : Text) (g : Gcra) (a b : Nat)
    (hroom : b + g.tau + g.emissionInterval < 2 ^ 64) (hprompt : Prompt shield global key events) :
    (shield.run global events).calls.countP (Charging.reportedWithin key g a b) ≤
      g.burst + (b - a) / g.emissionInterval := by
  by_cases hab : a ≤ b
  · have htally := (holds_run shield global hab hroom events hprompt).tally _ (Or.inl rfl)
    exact (Pool.countP_le_weight admitted_of_reported _).trans htally.bound
  · have hnone : ∀ call ∈ (shield.run global events).calls, ¬ call.reportedWithin key g a b = true :=
      fun call _ hreported => hab (le_of_reported call hreported)
    rw [List.countP_eq_zero.mpr hnone]
    exact Nat.zero_le _

def apiKeyShield : Shield where
  rules := [apiKeyRule]
  profiles := .empty
  defaultProfile := some ⟨Gcra.minuteGcra, 60, 60 * nanosPerSec⟩
  jwtLimits := none
  sha := padded
  forms := shownAddress
  numberText := id
  overflow := .panics

def untilLoad (index counted : Nat) : List ChargeEvent :=
  [.arrive .preAuth none keyedRequest, .resolve index none, .gate index 0 0, .readClock index,
    .load index counted]

def oneRequest (index : Nat) : List ChargeEvent :=
  untilLoad index index ++ [.check index, .record index 0 0]

def fourRequests : List ChargeEvent := oneRequest 0 ++ oneRequest 1 ++ oneRequest 2 ++ oneRequest 3

def apiKey : Text := ((apiKeyRule.keyFor shownAddress id none keyedRequest padded).map (·.store)).getD []

/-- Of four requests at once, three are let through: no more than the burst. -/
theorem fourRequests_within_burst :
    (apiKeyShield.run none fourRequests).calls.countP
        (Charging.reportedWithin apiKey Gcra.minuteGcra 0 0) = 3 ∧
      (apiKeyShield.run none fourRequests).calls.countP
        (Charging.reportedWithin apiKey Gcra.minuteGcra 0 0) ≤
          Gcra.minuteGcra.burst + (0 - 0) / Gcra.minuteGcra.emissionInterval := by
  refine ⟨by decide +kernel, reported_le_burst_add _ _ _ _ _ _ _ (by decide) ?_⟩
  -- no sweep is due
  intro before index after heq
  have hmem : ChargeEvent.visit index apiKey ∈ fourRequests := by
    rw [heq]
    exact List.mem_append_right _ List.mem_cons_self
  simp [fourRequests, oneRequest, untilLoad] at hmem

/-! A limit of one request a second. The second request reads the clock at 0.9 s and stalls, a sweep of
the third drops the key at 1 s, and the second is let through, 0.9 s after the first. -/

def singleGcra : Gcra := ⟨nanosPerSec, 0, 1, Nat.succ_pos _, Nat.one_pos, rfl⟩

def singleShield : Shield :=
  { apiKeyShield with defaultProfile := some ⟨singleGcra, 60, 60 * nanosPerSec⟩ }

def stalledCheck : List ChargeEvent :=
  untilLoad 0 0 ++ [.check 0, .record 0 0 0, .tick 900000000] ++ untilLoad 1 0 ++ [.tick 100000000] ++
    untilLoad 2 200001 ++ [.check 2, .visit 2 apiKey, .check 1, .record 1 0 0]

example : (singleShield.run none stalledCheck).calls.countP
    (Charging.reportedWithin apiKey singleGcra 0 900000000) = 2 := by decide +kernel

end Shield

end StructuredProxy
