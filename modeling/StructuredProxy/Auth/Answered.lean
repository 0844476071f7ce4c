import StructuredProxy.Auth.Verify

/-!
# What the cache answers was verified

Every entry of the cache, and every entry a call is about to store, is backed by an acceptance: claims
the verifier returned for a token of that key, within the bounds `insert` checks at the moment the call
had read. A sweep or a removal only takes entries away.
-/

namespace StructuredProxy.Auth

open Lib

namespace ClaimsCache

def Call.carries : Call → Option (TokenKey × Entry)
  | .reserve key entry _ => some (key, entry)
  | .claimSweep key entry _ => some (key, entry)
  | .sweep key entry _ _ _ => some (key, entry)
  | .returnFreed key entry _ => some (key, entry)
  | .retry key entry => some (key, entry)
  | .store key entry => some (key, entry)
  | _ => none

def Call.looks : Call → Option (TokenKey × Now)
  | .lookUp key now => some (key, now)
  | .removeDead key now => some (key, now)
  | _ => none

def Call.Continues (call next : Call) : Prop :=
  (∀ pair ∈ next.carries, pair ∈ call.carries) ∧ ∀ pair ∈ next.looks, pair ∈ call.looks

theorem Call.Continues.of_eq {call next : Call} (hcarries : next.carries = call.carries)
    (hlooks : next.looks = none ∨ next.looks = call.looks) : call.Continues next := by
  refine ⟨fun pair hpair => hcarries ▸ hpair, fun pair hpair => ?_⟩
  rcases hlooks with hlooks | hlooks
  · rw [hlooks] at hpair
    cases hpair
  · exact hlooks ▸ hpair

theorem step_continues (config : CacheConfig) (cache : ClaimsCache) (call : Call) :
    ∀ next ∈ (step config cache call).2, call.Continues next := by
  intro next hnext
  cases call with
  | lookUp key now =>
      rw [step] at hnext
      split at hnext
      · cases hnext
      · split at hnext
        · cases hnext
        · cases hnext
          exact .of_eq rfl (Or.inr rfl)
  | removeDead key now =>
      rw [step] at hnext
      split at hnext
      · cases hnext
      · split at hnext
        · cases hnext
        · cases hnext
          exact .of_eq rfl (Or.inl rfl)
  | returnRemoved => simp only [step, Option.not_mem_none] at hnext
  | reserve key entry now =>
      rw [step] at hnext
      split at hnext <;> cases hnext <;> exact .of_eq rfl (Or.inl rfl)
  | claimSweep key entry now =>
      rw [step] at hnext
      split at hnext <;> cases hnext
      exact .of_eq rfl (Or.inl rfl)
  | sweep key entry now unvisited freed =>
      rw [step] at hnext
      split at hnext <;> cases hnext <;> exact .of_eq rfl (Or.inl rfl)
  | returnFreed key entry freed =>
      simp only [step, Option.mem_some_iff] at hnext
      subst hnext
      exact .of_eq rfl (Or.inl rfl)
  | retry key entry =>
      rw [step] at hnext
      split at hnext <;> cases hnext
      exact .of_eq rfl (Or.inl rfl)
  | store key entry =>
      rw [step] at hnext
      dsimp only at hnext
      split at hnext <;> cases hnext
      constructor <;> intro pair hpair <;> cases hpair
  | returnReplaced => simp only [step, Option.not_mem_none] at hnext

theorem visit_continues (key : TokenKey) (cache : ClaimsCache) (call : Call) :
    ∀ next ∈ (visit key cache call).2, call.Continues next := by
  intro next hnext
  unfold visit at hnext
  split at hnext
  · dsimp only at hnext
    split at hnext
    · cases hnext
      exact .of_eq rfl (Or.inl rfl)
    · split at hnext <;> cases hnext <;> exact .of_eq rfl (Or.inl rfl)
  · cases hnext
    exact .of_eq rfl (Or.inr rfl)

theorem get_of_get_erase {entries : KeyMap TokenKey Entry} {removed key : TokenKey} {entry : Entry}
    (h : (entries.erase removed).get key = some entry) : entries.get key = some entry := by
  by_cases hkey : key = removed
  · rw [hkey, KeyMap.get_erase_self] at h
    cases h
  · rwa [KeyMap.get_erase_of_ne hkey] at h

theorem entries_tryReserve {config : CacheConfig} {cache reserved : ClaimsCache}
    (h : cache.tryReserve config = some reserved) : reserved.entries = cache.entries := by
  rw [tryReserve] at h
  split at h
  · cases h
    rfl
  · cases h

theorem entries_giveBack (slots : Nat) (cache : ClaimsCache) :
    (cache.giveBack slots).entries = cache.entries := by
  rw [giveBack]

theorem step_adds (config : CacheConfig) (cache : ClaimsCache) (call : Call) {key : TokenKey}
    {entry : Entry} (h : (step config cache call).1.entries.get key = some entry) :
    cache.entries.get key = some entry ∨ (key, entry) ∈ call.carries := by
  cases call with
  | removeDead own now =>
      rw [step] at h
      split at h
      · exact Or.inl h
      · split at h
        · exact Or.inl h
        · exact Or.inl (get_of_get_erase h)
  | store own stored =>
      simp only [step] at h
      by_cases hkey : key = own
      · rw [hkey, KeyMap.get_set_self] at h
        cases h
        exact Or.inr (by rw [hkey]; rfl)
      · rw [KeyMap.get_set_of_ne hkey] at h
        exact Or.inl h
  | lookUp own now =>
      rw [step] at h
      split at h
      · exact Or.inl h
      · split at h <;> exact Or.inl h
  | reserve own stored now =>
      rw [step] at h
      split at h
      · rename_i reserved hreserved
        rw [entries_tryReserve hreserved] at h
        exact Or.inl h
      · exact Or.inl h
  | claimSweep own stored now =>
      rw [step] at h
      split at h <;> exact Or.inl h
  | sweep own stored now unvisited freed =>
      rw [step] at h
      split at h <;> exact Or.inl h
  | retry own stored =>
      rw [step] at h
      split at h
      · rename_i reserved hreserved
        rw [entries_tryReserve hreserved] at h
        exact Or.inl h
      · exact Or.inl h
  | returnRemoved =>
      simp only [step, entries_giveBack] at h
      exact Or.inl h
  | returnFreed own stored freed =>
      simp only [step, entries_giveBack] at h
      exact Or.inl h
  | returnReplaced =>
      simp only [step, entries_giveBack] at h
      exact Or.inl h

theorem visit_adds (visited : TokenKey) (cache : ClaimsCache) (call : Call) {key : TokenKey}
    {entry : Entry} (h : (visit visited cache call).1.entries.get key = some entry) :
    cache.entries.get key = some entry := by
  unfold visit at h
  split at h
  · dsimp only at h
    split at h
    · exact h
    · split at h
      · exact h
      · exact get_of_get_erase h
  · exact h

end ClaimsCache

/-- The claims of an acceptance may be answered until `exp`, the moment it read being within the
bounds. -/
structure Acceptance.Backs (config : VerifierConfig) (numbers : JsonNumbers) (acceptance : Acceptance)
    (entry : Entry) : Prop where
  claims : entry.claims = acceptance.claims
  admitted : acceptance.token.length ≤ config.maxTokenBytes
  exp : numericDate numbers acceptance.claims (str "exp") = some entry.exp
  unexpired : acceptance.now.unix < entry.exp
  valid : ∀ nbf ∈ numericDate numbers acceptance.claims (str "nbf"), nbf ≤ acceptance.now.unix
  deadline : entry.deadline ≤ acceptance.now.mono + config.maxTtlSecs

theorem Acceptance.backs_of_insertCall {config : VerifierConfig} {numbers : JsonNumbers}
    (acceptance : Acceptance) (hadmitted : acceptance.token.length ≤ config.maxTokenBytes)
    {key : TokenKey} {call : ClaimsCache.Call}
    (h : ClaimsCache.insertCall config.toCacheConfig numbers key acceptance.claims acceptance.now =
      some call) :
    ∃ entry, call.carries = some (key, entry) ∧ acceptance.Backs config numbers entry := by
  rw [ClaimsCache.insertCall] at h
  cases hexp : numericDate numbers acceptance.claims (str "exp") with
  | none =>
      rw [hexp] at h
      cases h
  | some exp =>
      rw [hexp] at h
      dsimp only at h
      split at h
      · cases h
      · rename_i hbounds
        rw [Bool.or_eq_true, not_or, decide_eq_true_eq, Nat.not_le] at hbounds
        obtain rfl := Option.some.inj h
        refine ⟨_, rfl, rfl, hadmitted, hexp, hbounds.1, fun nbf hnbf => ?_, Nat.min_le_left _ _⟩
        refine Nat.not_lt.mp fun hlt => hbounds.2 ?_
        rw [Option.mem_def.mp hnbf, Option.any_some, decide_eq_true_eq]
        exact hlt

namespace VerifyCall

variable (config : VerifierConfig) (numbers : JsonNumbers) (tokenKey : Text → TokenKey)

def Backed (accepted : List Acceptance) (key : TokenKey) (entry : Entry) : Prop :=
  ∃ acceptance ∈ accepted, tokenKey acceptance.token = key ∧ acceptance.Backs config numbers entry

theorem Backed.mono {accepted more : List Acceptance} {key : TokenKey} {entry : Entry}
    (h : Backed config numbers tokenKey accepted key entry) :
    Backed config numbers tokenKey (accepted ++ more) key entry := by
  obtain ⟨acceptance, hmem, hacceptance⟩ := h
  exact ⟨acceptance, List.mem_append_left _ hmem, hacceptance⟩

def Sound (tokens : List Text) (state : VerifyState) : Prop :=
  (∀ key entry, state.cache.entries.get key = some entry →
      Backed config numbers tokenKey state.accepted key entry) ∧
    ∀ acceptance ∈ state.accepted, acceptance.token ∈ tokens

def Proper (tokens : List Text) (state : VerifyState) (call : VerifyCall) : Prop :=
  call.token ∈ tokens ∧
    match call.stage with
    | .get inner => call.token.length ≤ config.maxTokenBytes ∧ inner.carries = none ∧
        ∀ pair ∈ inner.looks, pair = (tokenKey call.token, call.now)
    | .verify => call.token.length ≤ config.maxTokenBytes
    | .insert inner => ∀ pair ∈ inner.carries,
        Backed config numbers tokenKey state.accepted pair.1 pair.2
    | .uncached => True

variable {config numbers tokenKey} {tokens : List Text}

theorem Proper.mono {state state' : VerifyState} {call : VerifyCall} {more : List Acceptance}
    (haccepted : state'.accepted = state.accepted ++ more)
    (h : Proper config numbers tokenKey tokens state call) :
    Proper config numbers tokenKey tokens state' call := by
  refine ⟨h.1, ?_⟩
  have hstage := h.2
  cases hcall : call.stage with
  | insert inner =>
      rw [hcall] at hstage
      intro pair hpair
      rw [haccepted]
      exact (hstage pair hpair).mono
  | _ =>
      rw [hcall] at hstage
      exact hstage

theorem Proper.congr {state state' : VerifyState} {call : VerifyCall}
    (haccepted : state'.accepted = state.accepted)
    (h : Proper config numbers tokenKey tokens state call) :
    Proper config numbers tokenKey tokens state' call :=
  h.mono (haccepted.trans (List.append_nil _).symm)

theorem Sound.cache_step {state : VerifyState} (h : Sound config numbers tokenKey tokens state)
    {inner : ClaimsCache.Call}
    (hcarries : ∀ pair ∈ inner.carries, Backed config numbers tokenKey state.accepted pair.1 pair.2) :
    Sound config numbers tokenKey tokens
      { state with cache := (ClaimsCache.step config.toCacheConfig state.cache inner).1 } := by
  refine ⟨fun key entry hentry => ?_, h.2⟩
  rcases ClaimsCache.step_adds _ _ _ hentry with hold | hnew
  · exact h.1 key entry hold
  · exact hcarries _ hnew

def Keeps (config : VerifierConfig) (numbers : JsonNumbers) (tokenKey : Text → TokenKey)
    (tokens : List Text) (transition : VerifyState → VerifyCall → VerifyState × Option VerifyCall) :
    Prop :=
  ∀ state call, Sound config numbers tokenKey tokens state →
    Proper config numbers tokenKey tokens state call →
    Sound config numbers tokenKey tokens (transition state call).1 ∧
      (∀ next ∈ (transition state call).2,
        Proper config numbers tokenKey tokens (transition state call).1 next) ∧
      ∀ other, Proper config numbers tokenKey tokens state other →
        Proper config numbers tokenKey tokens (transition state call).1 other

theorem step_keeps : Keeps config numbers tokenKey tokens (step config) := by
  intro state call hsound hproper
  obtain ⟨htoken, hstage⟩ := hproper
  unfold step
  cases hcall : call.stage with
  | get inner =>
      rw [hcall] at hstage
      obtain ⟨hadmitted, hcarries, hlooks⟩ := hstage
      have hnone : ∀ pair, pair ∉ inner.carries := Option.eq_none_iff_forall_not_mem.mp hcarries
      refine ⟨hsound.cache_step fun pair hpair => absurd hpair (hnone pair), fun next hnext => ?_,
        fun other hother => hother.congr rfl⟩
      dsimp only at hnext
      split at hnext
      · rename_i following hfollowing
        obtain rfl := Option.mem_some.mp hnext
        obtain ⟨hcarries', hlooks'⟩ := ClaimsCache.step_continues _ _ _ following hfollowing
        refine ⟨htoken, hadmitted, ?_, fun pair hpair => hlooks pair (hlooks' pair hpair)⟩
        exact Option.eq_none_iff_forall_not_mem.mpr fun pair hpair => hnone pair (hcarries' pair hpair)
      · split at hnext
        · cases hnext
        · obtain rfl := Option.mem_some.mp hnext
          exact ⟨htoken, hadmitted⟩
  | insert inner =>
      rw [hcall] at hstage
      refine ⟨hsound.cache_step hstage, fun next hnext => ?_, fun other hother => hother.congr rfl⟩
      obtain ⟨following, hfollowing, rfl⟩ := Option.map_eq_some_iff.mp hnext
      obtain ⟨hcarries, -⟩ := ClaimsCache.step_continues _ _ _ following hfollowing
      exact ⟨htoken, fun pair hpair => hstage pair (hcarries pair hpair)⟩
  | verify =>
      rw [hcall] at hstage
      refine ⟨hsound, fun next hnext => ?_, fun other hother => hother⟩
      obtain rfl := Option.mem_some.mp hnext
      exact ⟨htoken, by rw [hcall]; exact hstage⟩
  | uncached =>
      refine ⟨hsound, fun next hnext => ?_, fun other hother => hother⟩
      obtain rfl := Option.mem_some.mp hnext
      exact ⟨htoken, by rw [hcall]; exact trivial⟩

theorem visit_keeps (key : TokenKey) : Keeps config numbers tokenKey tokens (visit key) := by
  intro state call hsound hproper
  unfold visit
  split
  · rename_i inner hcall
    have hstage := hproper.2
    rw [hcall] at hstage
    have hsound' : Sound config numbers tokenKey tokens
        { state with cache := (ClaimsCache.visit key state.cache inner).1 } :=
      ⟨fun other entry hentry => hsound.1 other entry (ClaimsCache.visit_adds key _ _ hentry), hsound.2⟩
    refine ⟨hsound', fun next hnext => ?_, fun other hother => hother.congr rfl⟩
    obtain ⟨following, hfollowing, rfl⟩ := Option.map_eq_some_iff.mp hnext
    obtain ⟨hcarries, -⟩ := ClaimsCache.visit_continues _ _ _ following hfollowing
    exact ⟨hproper.1, fun pair hpair => hstage pair (hcarries pair hpair)⟩
  · refine ⟨hsound, fun next hnext => ?_, fun other hother => hother⟩
    obtain rfl := Option.mem_some.mp hnext
    exact hproper

theorem verified_keeps (claims : Option Json) :
    Keeps config numbers tokenKey tokens (verified config numbers tokenKey claims) := by
  intro state call hsound hproper
  have hends : Sound config numbers tokenKey tokens state ∧
      (∀ next ∈ (none : Option VerifyCall), Proper config numbers tokenKey tokens state next) ∧
      ∀ other, Proper config numbers tokenKey tokens state other →
        Proper config numbers tokenKey tokens state other :=
    ⟨hsound, fun _ hnext => absurd hnext (Option.not_mem_none _), fun _ hother => hother⟩
  have hwaits : Sound config numbers tokenKey tokens state ∧
      (∀ next ∈ some call, Proper config numbers tokenKey tokens state next) ∧
      ∀ other, Proper config numbers tokenKey tokens state other →
        Proper config numbers tokenKey tokens state other :=
    ⟨hsound, fun _ hnext => Option.mem_some.mp hnext ▸ hproper, fun _ hother => hother⟩
  unfold verified
  cases hcall : call.stage with
  | get inner => exact hwaits
  | insert inner => exact hwaits
  | uncached => exact hends
  | verify =>
      cases claims with
      | none => exact hends
      | some claims =>
          have hadmitted := hproper.2
          rw [hcall] at hadmitted
          refine ⟨⟨fun key entry hentry => (hsound.1 key entry hentry).mono, fun acceptance hmem => ?_⟩,
            fun next hnext => ?_, fun other hother => hother.mono rfl⟩
          · rcases List.mem_append.mp hmem with hmem | hmem
            · exact hsound.2 acceptance hmem
            · rw [List.mem_singleton.mp hmem]
              exact hproper.1
          · obtain ⟨inner, hinner, rfl⟩ := Option.map_eq_some_iff.mp hnext
            obtain ⟨entry, hcarries, hbacks⟩ :=
              Acceptance.backs_of_insertCall ⟨call.token, call.now, claims⟩ hadmitted hinner
            refine ⟨hproper.1, fun pair hpair => ?_⟩
            rw [hcarries] at hpair
            obtain rfl := Option.mem_some.mp hpair
            exact ⟨_, List.mem_append_right _ List.mem_cons_self, rfl, hbacks⟩

theorem drop_keeps : Keeps config numbers tokenKey tokens drop := by
  intro state call hsound hproper
  unfold drop
  split
  · exact ⟨hsound, fun _ hnext => absurd hnext (Option.not_mem_none _), fun _ hother => hother⟩
  · exact ⟨hsound, fun _ hnext => absurd hnext (Option.not_mem_none _), fun _ hother => hother⟩
  · refine ⟨hsound, fun next hnext => ?_, fun other hother => hother⟩
    obtain rfl := Option.mem_some.mp hnext
    exact hproper

theorem proper_start {state : VerifyState} {token : Text} (htoken : token ∈ tokens) (now : Now) :
    Proper config numbers tokenKey tokens state (start config tokenKey token now) := by
  refine ⟨htoken, ?_⟩
  unfold start
  by_cases hadmitted : token.length ≤ config.maxTokenBytes
  · simp only [if_pos hadmitted]
    refine ⟨hadmitted, rfl, fun pair hpair => ?_⟩
    exact (Option.mem_some.mp hpair).symm
  · simp only [if_neg hadmitted]

theorem run_keeps (events : List Event) :
    Sound config numbers tokenKey (tokensOf events) (run config numbers tokenKey events).shared ∧
      ∀ call ∈ (run config numbers tokenKey events).calls,
        Proper config numbers tokenKey (tokensOf events)
          (run config numbers tokenKey events).shared call := by
  refine foldl_keeps (fun pool : Pool VerifyState VerifyCall =>
    Sound config numbers tokenKey (tokensOf events) pool.shared ∧
      ∀ call ∈ pool.calls, Proper config numbers tokenKey (tokensOf events) pool.shared call) ?_ ?_
  · intro event hevent pool h
    cases event with
    | verify token now =>
        have htoken : token ∈ tokensOf events := List.mem_filterMap.mpr ⟨_, hevent, rfl⟩
        refine ⟨h.1, fun call hcall => ?_⟩
        rcases List.mem_append.mp hcall with hcall | hcall
        · exact h.2 call hcall
        · rw [List.mem_singleton.mp hcall]
          exact proper_start htoken now
    | step index => exact Pool.advance_forall step_keeps index h
    | visit index key => exact Pool.advance_forall (visit_keeps key) index h
    | verified index claims => exact Pool.advance_forall (verified_keeps claims) index h
    | drop index => exact Pool.advance_forall drop_keeps index h
  · refine ⟨⟨fun key entry hentry => ?_, fun _ hmem => absurd hmem List.not_mem_nil⟩,
      fun _ hcall => absurd hcall List.not_mem_nil⟩
    cases hentry

/-- **What the cache answers was verified.** At every point of every interleaving, claims a call is
about to answer from the cache are claims the verifier returned for the same token, still within `exp`
and the maximum age, to a call that read a moment at which they were valid. -/
theorem answered_was_verified (config : VerifierConfig) (numbers : JsonNumbers)
    (tokenKey : Text → TokenKey) (events : List Event)
    (hsha : ∀ token ∈ tokensOf events, ∀ other ∈ tokensOf events,
      tokenKey token = tokenKey other → token = other) :
    ∀ call ∈ (run config numbers tokenKey events).calls, ∀ claims,
      call.answered (run config numbers tokenKey events).shared = some claims →
      call.token.length ≤ config.maxTokenBytes ∧
      ∃ acceptance ∈ (run config numbers tokenKey events).shared.accepted,
        acceptance.token = call.token ∧ acceptance.claims = claims ∧
        ∃ exp, numericDate numbers claims (str "exp") = some exp ∧
          acceptance.now.unix < exp ∧
          (∀ nbf, numericDate numbers claims (str "nbf") = some nbf → nbf ≤ acceptance.now.unix) ∧
          call.now.unix < exp ∧ call.now.mono < acceptance.now.mono + config.maxTtlSecs := by
  intro call hcall claims hanswered
  obtain ⟨⟨hbacked, haccepted⟩, hcalls⟩ := @run_keeps config numbers tokenKey events
  obtain ⟨htoken, hstage⟩ := hcalls call hcall
  unfold answered at hanswered
  cases hget : call.stage with
  | get inner =>
      rw [hget] at hanswered hstage
      obtain ⟨hadmitted, -, hlooks⟩ := hstage
      cases inner with
      | lookUp key now =>
          obtain ⟨rfl, rfl⟩ := Prod.mk.inj (hlooks _ rfl)
          obtain ⟨entry, hentry, rfl⟩ := Option.map_eq_some_iff.mp hanswered
          obtain ⟨hentry, hlive⟩ := Option.filter_eq_some_iff.mp hentry
          obtain ⟨acceptance, hmem, hkey, hbacks⟩ := hbacked _ entry hentry
          rw [Entry.live, Bool.and_eq_true, decide_eq_true_eq, decide_eq_true_eq] at hlive
          refine ⟨hadmitted, acceptance, hmem, hsha _ (haccepted acceptance hmem) _ htoken hkey,
            hbacks.claims.symm, entry.exp, ?_, hbacks.unexpired, ?_, hlive.1,
            Nat.lt_of_lt_of_le hlive.2 hbacks.deadline⟩
          · rw [hbacks.claims]
            exact hbacks.exp
          · rw [hbacks.claims]
            exact hbacks.valid
      | _ => cases hanswered
  | _ =>
      rw [hget] at hanswered
      cases hanswered

/-! The same token twice: the second call is answered from the cache. -/

def sampleConfig : VerifierConfig where
  maxEntries := 4
  maxTtlSecs := 60
  fits := by decide
  maxTokenBytes := 8

def sampleNumbers : JsonNumbers where
  asU64 token := some (token.foldl (fun n byte => 10 * n + (byte.toNat - 48)) 0)
  asF64 _ := none

def sampleKey (token : Text) : TokenKey :=
  BitVec.ofNat 256 (token.foldl (fun n byte => 256 * n + byte.toNat) 0)

def sampleClaims : Json := .object [(str "exp", .number (str "100"))]

def sampleEvents : List Event :=
  [.verify (str "token") ⟨10, 0⟩, .step 0, .verified 0 (some sampleClaims), .step 0, .step 0,
    .verify (str "token") ⟨20, 5⟩]

theorem sample_answered_was_verified :
    ∃ acceptance ∈ (run sampleConfig sampleNumbers sampleKey sampleEvents).shared.accepted,
      acceptance.token = str "token" ∧ acceptance.claims = sampleClaims ∧
        5 < acceptance.now.mono + 60 := by
  have hcall : start sampleConfig sampleKey (str "token") ⟨20, 5⟩ ∈
      (run sampleConfig sampleNumbers sampleKey sampleEvents).calls := List.mem_cons_self
  have htokens : tokensOf sampleEvents = [str "token", str "token"] := rfl
  have hsha : ∀ token ∈ tokensOf sampleEvents, ∀ other ∈ tokensOf sampleEvents,
      sampleKey token = sampleKey other → token = other := by
    rw [htokens]
    intro token htoken other hother _
    simp only [List.mem_cons, List.not_mem_nil, or_false, or_self] at htoken hother
    rw [htoken, hother]
  obtain ⟨-, acceptance, hmem, htoken, hclaims, -, -, -, -, -, hage⟩ :=
    answered_was_verified sampleConfig sampleNumbers sampleKey sampleEvents hsha _ hcall sampleClaims rfl
  exact ⟨acceptance, hmem, htoken, hclaims, hage⟩

end VerifyCall

end StructuredProxy.Auth
