import StructuredProxy.Auth.Guards
import StructuredProxy.Guard.Gate
import StructuredProxy.Lib.Fallible
import StructuredProxy.Lib.Lists
import StructuredProxy.Metadata.Forward
import StructuredProxy.Shield.LimitService

/-!
# Rules and the keys they charge

A rule names whom it limits: a client address, a header's value, a verified claim. What is charged is a
key made of the rule's fingerprint, which hashes its pattern, its key and its profile, the source of the
value, and a hash of the value. A source that has no value falls back to the client address, so leaving
a header out, or a token, shares the budget of the address.
-/

namespace StructuredProxy.Shield

open Lib Guard
open Addressing hiding Request
open Metadata hiding Headers

structure Sha256 where
  digest : Text → Text
  length : ∀ input, (digest input).length = 32

def hexDigits : Text := str "0123456789abcdef"

def hexPair (byte : UInt8) : Text :=
  [hexDigits.getD (byte >>> 4).toNat 0, hexDigits.getD (byte &&& 15).toNat 0]

def shortHash (sha : Sha256) (input : Text) : Text := ((sha.digest input).take 16).flatMap hexPair

theorem length_shortHash (sha : Sha256) (input : Text) : (shortHash sha input).length = 32 := by
  have hlength : ∀ bytes : Text, (bytes.flatMap hexPair).length = bytes.length * 2 := by
    intro bytes
    induction bytes with
    | nil => rfl
    | cons byte bytes ih =>
        rw [List.flatMap_cons, List.length_append, ih, List.length_cons, Nat.add_mul, Nat.add_comm]
        rfl
  rw [shortHash, hlength, List.length_take, sha.length]
  rfl

/-- How the glob library compiles a pattern, what `HeaderName::from_bytes` makes of a name, and how a text
is quoted in a message. -/
structure Globs where
  glob : Text → Except Text (Text → Bool)
  headerName : Text → Option Text
  quote : Text → Text

inductive KeySource where
  | ip
  | header (name : Text)
  | jwtClaim (claim : Text)
  deriving DecidableEq

structure CompiledRule where
  matcher : Text → Bool
  key : KeySource
  profile : Option Text
  phase : Phase
  fingerprint : Text

structure RateRuleConfig where
  pattern : Text
  key : KeySource
  profile : Option Text

def unitSeparator : UInt8 := 31

def keyRepr : KeySource → Text
  | .ip => str "ip"
  | .header name => str "hdr:" ++ name
  | .jwtClaim claim => str "jwt:" ++ claim

def ruleShape (pattern : Text) (key : KeySource) (profile : Option Text) : Text :=
  pattern ++ [unitSeparator] ++ keyRepr key ++ [unitSeparator] ++ profile.getD []

def compileKey (globs : Globs) (pattern : Text) : KeySource → Except Text KeySource
  | .header name =>
      match globs.headerName name with
      | some name => .ok (.header name)
      | none =>
          .error (str "rule " ++ globs.quote pattern ++ str " has invalid header name " ++
            globs.quote name)
  | key => .ok key

def phaseOf : KeySource → Phase
  | .jwtClaim _ => .postAuth
  | .ip | .header _ => .preAuth

def pathGlob (globs : Globs) (pattern : Text) : Except Text (Text → Bool) :=
  (globs.glob pattern).mapError fun e =>
    str "invalid glob pattern " ++ globs.quote pattern ++ str ": " ++ e

def compileRule (globs : Globs) (sha : Sha256) (profiles : KeyMap Text CompiledProfile)
    (config : RateRuleConfig) : Except Text CompiledRule :=
  if config.pattern.head? ≠ some slash then
    .error (str "rule pattern " ++ globs.quote config.pattern ++
      str " must start with '/' (matched against the request path)")
  else
    match config.profile.filter fun name => (profiles.get name).isNone with
    | some name =>
        .error (str "rule " ++ globs.quote config.pattern ++ str " references unknown profile " ++
          globs.quote name)
    | none => do
        let key ← compileKey globs config.pattern config.key
        let matcher ← pathGlob globs config.pattern
        .ok {
          matcher
          key
          profile := config.profile
          phase := phaseOf key
          fingerprint := shortHash sha (ruleShape config.pattern key config.profile) }

def compileRules (globs : Globs) (sha : Sha256) (profiles : KeyMap Text CompiledProfile)
    (configs : List RateRuleConfig) : Except Text (List CompiledRule) :=
  configs.mapM (compileRule globs sha profiles)

/-! ### Keys -/

def storeKeyCapacity : Nat := 72

/-- One more part in the buffer of a key; none where it overflows. -/
def appendPart (key part : Text) : Option Text :=
  if key.length + part.length ≤ storeKeyCapacity then some (key ++ part) else none

/-- `StoreKey::new`. -/
def storeKey (fingerprint tag hash : Text) : Option Text :=
  [fingerprint, [colon], tag, [colon], hash].foldlM appendPart []

def headerStr (headers : Headers) (name : Text) : Option Text :=
  (((headers.getAll name).head?.bind toStr).map trimWhitespace).filter fun value => !value.isEmpty

def claimStr (numberText : Auth.NumberText) (claims : Json) (path : Text) : Option Text :=
  (Auth.claimAt claims path).bind (Auth.renderClaim numberText)

/-- The identity a client address keys a limit by: the address, or one bucket per reason that none
resolved. -/
def addressIdentity (forms : AddressText) (client : ClientAddress) : Text :=
  match client.resolution with
  | .peer ip | .forwarded ip => forms.display ip
  | .invalid _ => str "invalid"
  | .unavailable => str "unknown"

inductive Source where
  | ip
  | hdr
  | jwt
  deriving DecidableEq

def Source.tag : Source → Text
  | .ip => str "ip"
  | .hdr => str "hdr"
  | .jwt => str "jwt"

structure Keyed where
  source : Source
  identity : Text
  deriving DecidableEq

section Keys

variable (forms : AddressText) (numberText : Auth.NumberText)

def keyedBy (key : KeySource) (client : ClientAddress) (headers : Headers) (claims : Option Json) :
    Keyed :=
  match key with
  | .ip => ⟨.ip, addressIdentity forms client⟩
  | .header name =>
      match headerStr headers name with
      | some value => ⟨.hdr, value⟩
      | none => ⟨.ip, addressIdentity forms client⟩
  | .jwtClaim claim =>
      match claims.bind fun claims => claimStr numberText claims claim with
      | some value => ⟨.jwt, value⟩
      | none => ⟨.ip, addressIdentity forms client⟩

/-- Whom a request is charged to: the value of its header or claim; its address where the header is
missing, unreadable or blank, or no verified claim has a value. -/
inductive ChargedTo (client : ClientAddress) (headers : Headers) (claims : Option Json) :
    KeySource → Keyed → Prop
  | address : ChargedTo client headers claims .ip ⟨.ip, addressIdentity forms client⟩
  | header {name raw value : Text} (hraw : (headers.getAll name).head? = some raw)
      (hvalue : toStr raw = some value) (hset : trimWhitespace value ≠ []) :
      ChargedTo client headers claims (.header name) ⟨.hdr, trimWhitespace value⟩
  | headerless {name : Text} (hnone : ∀ raw value, (headers.getAll name).head? = some raw →
      toStr raw = some value → trimWhitespace value = []) :
      ChargedTo client headers claims (.header name) ⟨.ip, addressIdentity forms client⟩
  | claim {path value : Text} {verified : Json} (hverified : claims = some verified)
      (hvalue : claimStr numberText verified path = some value) :
      ChargedTo client headers claims (.jwtClaim path) ⟨.jwt, value⟩
  | claimless {path : Text} (hnone : ∀ verified, claims = some verified →
      claimStr numberText verified path = none) :
      ChargedTo client headers claims (.jwtClaim path) ⟨.ip, addressIdentity forms client⟩

structure RuleKey where
  store : Text
  identity : Text

/-- None where the key does not fit its buffer. -/
def ruleKey (sha : Sha256) (fingerprint : Text) (key : KeySource) (client : ClientAddress)
    (headers : Headers) (claims : Option Json) : Option RuleKey :=
  let keyed := keyedBy forms numberText key client headers claims
  (storeKey fingerprint keyed.source.tag (shortHash sha keyed.identity)).map fun store =>
    ⟨store, keyed.identity⟩

/-- `ClientAddress::from_peer`. -/
def fromPeer (peer : Option SocketAddr) : ClientAddress :=
  ClientAddress.new forms peer (peer.elim .unavailable fun peer => .peer peer.ip.toCanonical)

/-- The address the proxy resolved; without one, the peer's own. -/
def clientOf (peer : Option SocketAddr) (request : Request) : ClientAddress :=
  request.client.getD (fromPeer forms peer)

namespace CompiledRule

variable (rule : CompiledRule) (peer : Option SocketAddr) (request : Request)

def keyed : Keyed :=
  keyedBy forms numberText rule.key (clientOf forms peer request) request.headers request.claims

def keyFor (sha : Sha256) : Option RuleKey :=
  ruleKey forms numberText sha rule.fingerprint rule.key (clientOf forms peer request)
    request.headers request.claims

end CompiledRule

end Keys

/-! ### What a key tells apart -/

theorem headerStr_eq_some {headers : Headers} {name value : Text}
    (h : headerStr headers name = some value) :
    ∃ raw text, (headers.getAll name).head? = some raw ∧ toStr raw = some text ∧
      value = trimWhitespace text ∧ trimWhitespace text ≠ [] := by
  obtain ⟨hmap, hset⟩ := Option.filter_eq_some_iff.mp h
  obtain ⟨text, hbind, rfl⟩ := Option.map_eq_some_iff.mp hmap
  obtain ⟨raw, hraw, htext⟩ := Option.bind_eq_some_iff.mp hbind
  exact ⟨raw, text, hraw, htext, rfl, by simpa using hset⟩

theorem keyedBy_chargedTo (forms : AddressText) (numberText : Auth.NumberText) (key : KeySource)
    (client : ClientAddress) (headers : Headers) (claims : Option Json) :
    ChargedTo forms numberText client headers claims key
      (keyedBy forms numberText key client headers claims) := by
  cases key with
  | ip => exact .address
  | header name =>
      rw [keyedBy]
      cases hvalue : headerStr headers name with
      | none =>
          refine .headerless fun raw value hraw htext => ?_
          by_contra hset
          rw [headerStr, hraw, Option.bind_some, htext, Option.map_some, Option.filter_some,
            if_pos (by simpa using hset)] at hvalue
          cases hvalue
      | some value =>
          obtain ⟨raw, text, hraw, htext, rfl, hset⟩ := headerStr_eq_some hvalue
          exact .header hraw htext hset
  | jwtClaim claim =>
      rw [keyedBy]
      cases hvalue : claims.bind fun claims => claimStr numberText claims claim with
      | none => exact .claimless fun verified hverified => Option.bind_eq_none_iff.mp hvalue _ hverified
      | some value =>
          obtain ⟨verified, hverified, hclaim⟩ := Option.bind_eq_some_iff.mp hvalue
          exact .claim hverified hclaim

theorem length_tag (source : Source) : source.tag.length ≤ 3 := by
  cases source <;> decide

theorem foldlM_appendPart (parts : List Text) : ∀ key : Text,
    key.length + (parts.map List.length).sum ≤ storeKeyCapacity →
      parts.foldlM appendPart key = some (key ++ parts.flatten) := by
  induction parts with
  | nil => intro key _; rw [List.flatten_nil, List.append_nil]; rfl
  | cons part parts ih =>
      intro key hfits
      rw [List.map_cons, List.sum_cons] at hfits
      rw [List.foldlM_cons, appendPart, if_pos (by omega)]
      have hrest := ih (key ++ part) (by rw [List.length_append]; omega)
      rw [List.flatten_cons, ← List.append_assoc]
      exact hrest

theorem storeKey_eq_some {fingerprint hash : Text} (source : Source)
    (hfingerprint : fingerprint.length = 32) (hhash : hash.length = 32) :
    storeKey fingerprint source.tag hash =
      some (fingerprint ++ colon :: (source.tag ++ colon :: hash)) := by
  have htag := length_tag source
  rw [storeKey, foldlM_appendPart]
  · simp
  · simp only [List.map_cons, List.map_nil, List.sum_cons, List.sum_nil, List.length_nil,
      List.length_singleton, storeKeyCapacity]
    omega

theorem storeKey_inj {fingerprint hash fingerprint' hash' : Text} {source source' : Source}
    (hfingerprint : fingerprint.length = 32) (hhash : hash.length = 32)
    (hfingerprint' : fingerprint'.length = 32) (hhash' : hash'.length = 32)
    (h : storeKey fingerprint source.tag hash = storeKey fingerprint' source'.tag hash') :
    fingerprint = fingerprint' ∧ source = source' ∧ hash = hash' := by
  rw [storeKey_eq_some source hfingerprint hhash, storeKey_eq_some source' hfingerprint' hhash',
    Option.some.injEq] at h
  obtain ⟨rfl, hrest⟩ := List.append_inj h (hfingerprint.trans hfingerprint'.symm)
  have hcolon : ∀ source : Source, colon ∉ source.tag := by
    intro source
    cases source <;> decide
  obtain ⟨htag, hhash⟩ := append_cons_inj (hcolon source) (hcolon source') (List.cons.inj hrest).2
  refine ⟨rfl, ?_, hhash⟩
  cases source <;> cases source' <;> first | rfl | exact absurd htag (by decide)

theorem keyRepr_injective {key key' : KeySource} (h : keyRepr key = keyRepr key') : key = key' := by
  have hip : str "ip" = [105, 112] := by decide
  have hhdr : str "hdr:" = [104, 100, 114, 58] := by decide
  have hjwt : str "jwt:" = [106, 119, 116, 58] := by decide
  cases key <;> cases key' <;> simp_all [keyRepr]

/-- A shape names its pattern, its key and its profile, where no name holds the separator. -/
theorem ruleShape_inj {pattern pattern' : Text} {key key' : KeySource} {profile profile' : Option Text}
    (hpattern : unitSeparator ∉ pattern) (hpattern' : unitSeparator ∉ pattern')
    (hkey : unitSeparator ∉ keyRepr key) (hkey' : unitSeparator ∉ keyRepr key')
    (h : ruleShape pattern key profile = ruleShape pattern' key' profile') :
    pattern = pattern' ∧ key = key' ∧ profile.getD [] = profile'.getD [] := by
  simp only [ruleShape, List.append_assoc, List.singleton_append] at h
  obtain ⟨rfl, hrest⟩ := append_cons_inj hpattern hpattern' h
  obtain ⟨hrepr, hprofile⟩ := append_cons_inj hkey hkey' hrest
  exact ⟨rfl, keyRepr_injective hrepr, hprofile⟩

theorem compileRule_eq_ok {globs : Globs} {sha : Sha256} {profiles : KeyMap Text CompiledProfile}
    {config : RateRuleConfig} {rule : CompiledRule}
    (h : compileRule globs sha profiles config = .ok rule) :
    compileKey globs config.pattern config.key = .ok rule.key ∧
      pathGlob globs config.pattern = .ok rule.matcher ∧ rule.profile = config.profile ∧
      rule.phase = phaseOf rule.key ∧
      rule.fingerprint = shortHash sha (ruleShape config.pattern rule.key config.profile) := by
  rw [compileRule] at h
  split at h
  · cases h
  · split at h
    · cases h
    · obtain ⟨key, hkey, h⟩ := bind_eq_ok.mp h
      obtain ⟨matcher, hmatcher, h⟩ := bind_eq_ok.mp h
      cases h
      exact ⟨hkey, hmatcher, rfl, rfl, rfl⟩

theorem compileRule_of_compileRules {globs : Globs} {sha : Sha256}
    {profiles : KeyMap Text CompiledProfile} {configs : List RateRuleConfig} {rules : List CompiledRule}
    (h : compileRules globs sha profiles configs = .ok rules) {index : Nat} {rule : CompiledRule}
    (hrule : rules[index]? = some rule) :
    ∃ config, configs[index]? = some config ∧ compileRule globs sha profiles config = .ok rule := by
  induction configs generalizing rules index with
  | nil =>
      cases h
      cases hrule
  | cons config configs ih =>
      rw [compileRules, List.mapM_cons] at h
      obtain ⟨first, hfirst, h⟩ := bind_eq_ok.mp h
      obtain ⟨rest, hrest, h⟩ := bind_eq_ok.mp h
      cases h
      cases index with
      | zero =>
          obtain rfl := Option.some.inj hrule
          exact ⟨config, rfl, hfirst⟩
      | succ index => exact ih hrest hrule

/-- Two texts whose hashes tell them apart, if they differ. -/
def Apart (sha : Sha256) (a b : Text) : Prop := shortHash sha a = shortHash sha b → a = b

namespace RateRuleConfig

variable (config : RateRuleConfig) (rule : CompiledRule)

def shape : Text := ruleShape config.pattern rule.key config.profile

def Separable : Prop := unitSeparator ∉ config.pattern ∧ unitSeparator ∉ keyRepr rule.key

end RateRuleConfig

section Shared

variable {globs : Globs} {sha : Sha256} {profiles : KeyMap Text CompiledProfile}
  {forms : AddressText} {numberText : Auth.NumberText} {config config' : RateRuleConfig}
  {rule rule' : CompiledRule} {peer peer' : Option SocketAddr} {request request' : Request}

theorem keyFor_eq (h : compileRule globs sha profiles config = .ok rule) :
    rule.keyFor forms numberText peer request sha =
      (storeKey (shortHash sha (config.shape rule)) (rule.keyed forms numberText peer request).source.tag
        (shortHash sha (rule.keyed forms numberText peer request).identity)).map fun store =>
          ⟨store, (rule.keyed forms numberText peer request).identity⟩ := by
  rw [CompiledRule.keyFor, ruleKey, (compileRule_eq_ok h).2.2.2.2]
  rfl

end Shared

def padded : Sha256 where
  digest := fun input => (input ++ List.replicate 32 0).take 32
  length := fun input => by rw [List.length_take, List.length_append, List.length_replicate]; omega

/-- Patterns that end in `**`. -/
def plainGlobs : Globs where
  glob := fun pattern => .ok (pattern.take (pattern.length - 2)).isPrefixOf
  headerName := fun name => some (name.map toAsciiLowercase)
  quote := id

def apiKeyConfig : RateRuleConfig where
  pattern := str "/v1/**"
  key := .header (str "X-Api-Key")
  profile := none

def apiKeyRule : CompiledRule where
  matcher := (str "/v1/").isPrefixOf
  key := .header (str "x-api-key")
  profile := none
  phase := .preAuth
  fingerprint := shortHash padded (ruleShape (str "/v1/**") (.header (str "x-api-key")) none)

theorem compile_apiKey :
    compileRules plainGlobs padded .empty [apiKeyConfig] = .ok [apiKeyRule] := rfl

def keyedRequest : Request where
  method := .GET
  path := str "/v1/shelves"
  headers := ⟨[(str "x-api-key", str " k1 ")]⟩
  client := none
  claims := none

def keylessRequest : Request := { keyedRequest with headers := .empty }

def shownAddress : AddressText where
  parseIpAddr := fun _ => none
  parseSocketAddr := fun _ => none
  parseIpv6Addr := fun _ => none
  display := fun _ => str "address"

theorem keyed_of_apiKey :
    apiKeyRule.keyed shownAddress id none keyedRequest = ⟨.hdr, str "k1"⟩ ∧
      apiKeyRule.keyed shownAddress id none keylessRequest = ⟨.ip, str "unknown"⟩ := by
  decide +kernel

end StructuredProxy.Shield
