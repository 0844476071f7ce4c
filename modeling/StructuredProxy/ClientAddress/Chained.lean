import StructuredProxy.ClientAddress.Influence

/-!
# The verified chain at the next proxy

A proxy in mode `verified` writes the client it resolved, the trusted proxies it passed and its peer. A
proxy that trusts the same addresses reads this chain from the right: all but the leftmost are trusted,
so the walk goes to the leftmost, which it resolves whether it is trusted or not.
-/

namespace StructuredProxy.Addressing

open Lib

def isAddressChar (byte : UInt8) : Bool :=
  (48 ≤ byte && byte ≤ 57) || (97 ≤ byte && byte ≤ 102) || byte = dot || byte = colon

/-- What the standard library writes for an address, and reads back. -/
structure AddressText.Faithful (forms : AddressText) (ip : IpAddr) : Prop where
  parses : forms.parseIpAddr (forms.display ip) = some ip
  chars : ∀ byte ∈ forms.display ip, isAddressChar byte = true
  length_pos : 0 < (forms.display ip).length
  length_le : (forms.display ip).length ≤ 45

theorem isAddressChar_facts {byte : UInt8} (h : isAddressChar byte = true) :
    byte < 0x80 ∧ isOws byte = false ∧ byte ≠ comma := by
  have hrange : 48 ≤ byte → byte ≤ 102 → byte < 0x80 ∧ isOws byte = false ∧ byte ≠ comma := by
    intro hlow hhigh
    have hne : ∀ other : UInt8, other < 48 → byte ≠ other := fun other hlt heq =>
      UInt8.not_le.mpr hlt (heq ▸ hlow)
    refine ⟨UInt8.lt_of_le_of_lt hhigh (by decide), ?_, hne comma (by decide)⟩
    rw [isOws, decide_eq_false (hne 32 (by decide)), decide_eq_false (hne 9 (by decide))]
    rfl
  simp only [isAddressChar, Bool.or_eq_true, Bool.and_eq_true, decide_eq_true_eq] at h
  rcases h with ((h | h) | rfl) | rfl
  · exact hrange h.1 (UInt8.le_trans h.2 (by decide))
  · exact hrange (UInt8.le_trans (by decide) h.1) h.2
  · decide
  · decide

theorem trimWhitespace_of_chars {text : Text} (h : ∀ byte ∈ text, isOws byte = false) :
    trimWhitespace text = text := by
  have hdrop : text.dropWhile isOws = text := by
    cases text with
    | nil => rfl
    | cons byte text => exact List.dropWhile_cons_of_neg (by simp [h byte List.mem_cons_self])
  rw [trimWhitespace, hdrop, List.rdropWhile_eq_self_iff]
  intro hne
  rw [h _ (List.getLast_mem hne)]
  exact Bool.false_ne_true

namespace AddressText.Faithful

variable {forms : AddressText} {ip : IpAddr}

theorem parseAddress_display (h : forms.Faithful ip) :
    parseAddress forms (forms.display ip) = some ip := by
  have hutf8 : fromUtf8 (forms.display ip) = some (forms.display ip) :=
    if_pos (fromUtf8Lossy_ascii fun byte hbyte => (isAddressChar_facts (h.chars byte hbyte)).1)
  rw [parseAddress, hutf8, Option.bind_some, h.parses]

theorem comma_notMem (h : forms.Faithful ip) : comma ∉ forms.display ip :=
  fun hmem => (isAddressChar_facts (h.chars comma hmem)).2.2 rfl

theorem ows_notMem (h : forms.Faithful ip) : ∀ byte ∈ forms.display ip, isOws byte = false :=
  fun byte hbyte => (isAddressChar_facts (h.chars byte hbyte)).2.1

theorem trimWhitespace_display (h : forms.Faithful ip) :
    trimWhitespace (forms.display ip) = forms.display ip :=
  trimWhitespace_of_chars h.ows_notMem

theorem trimWhitespace_space_display (h : forms.Faithful ip) :
    trimWhitespace (32 :: forms.display ip) = forms.display ip := by
  have htrim := h.trimWhitespace_display
  rwa [trimWhitespace] at htrim ⊢

end AddressText.Faithful

namespace Resolver

variable {resolver : Resolver} {forms : AddressText}

theorem readElement_display {ip : IpAddr} (h : forms.Faithful ip) (hcanonical : ip.toCanonical = ip)
    {state : WalkState} (hread : state.read < maxHops) {element : Text} {limit : Nat}
    (helement : trimWhitespace element = forms.display ip) (hlimit : element.length ≤ limit) :
    resolver.readElement forms state (element, limit) =
      if resolver.trusts ip then
        .ok ⟨state.read + 1, some ip, state.hops ++ [ip]⟩
      else .error ⟨.ok (some ip), state.hops⟩ := by
  have hne : (forms.display ip).isEmpty = false := by
    rw [List.isEmpty_eq_false_iff, ← List.length_pos_iff]
    exact h.length_pos
  rw [readElement, if_neg (by omega), if_pos hlimit, helement, walkElement, hne, h.parseAddress_display,
    Option.map_some, hcanonical]
  rfl

def chainText (forms : AddressText) (chain : List IpAddr) : Text :=
  separator.intercalate (chain.map forms.display)

theorem chainText_concat (forms : AddressText) {chain : List IpAddr} (hne : chain ≠ []) (ip : IpAddr) :
    chainText forms (chain ++ [ip]) = chainText forms chain ++ comma :: 32 :: forms.display ip := by
  rw [chainText, List.map_append, List.map_singleton, intercalate_concat separator (by simpa using hne),
    List.append_assoc]
  rfl

/-- The walk goes past the trusted addresses of a chain, from the right to the leftmost. -/
theorem walkLine_chainText {client : IpAddr} (proxies : List IpAddr) : ∀ {state : WalkState},
    (∀ ip ∈ proxies, forms.Faithful ip ∧ ip.toCanonical = ip ∧ resolver.trusts ip = true) →
      forms.Faithful client → state.read + proxies.length < maxHops →
      resolver.walkLine forms state (chainText forms (client :: proxies)) =
        resolver.readElement forms ⟨state.read + proxies.length, proxies.head?.or state.leftmost,
          state.hops ++ proxies.reverse⟩ (forms.display client, maxElement + 1) := by
  induction proxies using List.reverseRecOn with
  | nil =>
      intro state _ hclient _
      rw [chainText, List.map_singleton, List.intercalate_singleton,
        walkLine_of_notMem resolver forms state hclient.comma_notMem]
      simp
  | append_singleton proxies last ih =>
      intro state hproxies hclient hroom
      rw [List.length_append, List.length_singleton] at hroom
      obtain ⟨hlast, hcanonical, htrusts⟩ := hproxies last (by simp)
      have hcomma : comma ∉ 32 :: forms.display last :=
        not_or.mpr ⟨by decide, hlast.comma_notMem⟩ |> mt List.mem_cons.mp
      have hlength := hlast.length_le
      rw [← List.cons_append, chainText_concat forms (List.cons_ne_nil _ _),
        walkLine_append_comma resolver forms state _ hcomma,
        readElement_display hlast hcanonical (by omega) hlast.trimWhitespace_space_display (by
          rw [List.length_cons, maxElement]; omega), if_pos htrusts]
      have hrest := @ih ⟨state.read + 1, some last, state.hops ++ [last]⟩
        (fun ip hip => hproxies ip (List.mem_append_left _ hip)) hclient (by dsimp only; omega)
      refine hrest.trans ?_
      congr 1
      simp only [WalkState.mk.injEq, List.length_append, List.length_singleton, List.reverse_append,
        List.reverse_singleton, List.append_assoc, and_true]
      refine ⟨by omega, ?_⟩
      cases proxies <;> rfl

/-- **A chain is read back**: its leftmost address is the client, the others are the hops. -/
theorem walk_chainText {client : IpAddr} {proxies : List IpAddr} (hclient : forms.Faithful client)
    (hcanonical : client.toCanonical = client)
    (hproxies : ∀ ip ∈ proxies, forms.Faithful ip ∧ ip.toCanonical = ip ∧ resolver.trusts ip = true)
    (hroom : (client :: proxies).length ≤ maxHops) :
    resolver.walk forms [chainText forms (client :: proxies)] =
      ⟨.ok (some client), proxies.reverse⟩ := by
  rw [List.length_cons] at hroom
  have hline := @walkLine_chainText resolver forms client proxies WalkState.start hproxies hclient
    (by simp only [WalkState.start]; omega)
  have hlength := hclient.length_le
  rw [readElement_display hclient hcanonical (by simp only [WalkState.start]; omega)
    hclient.trimWhitespace_display (by rw [maxElement]; omega)] at hline
  have hwalk : resolver.walk forms [chainText forms (client :: proxies)] =
      finish (resolver.walkLine forms WalkState.start (chainText forms (client :: proxies))) := by
    rw [walk, List.reverse_singleton, List.foldlM_cons]
    exact congrArg finish (bind_pure _)
  rw [hwalk, hline]
  split
  · simp [finish, WalkState.start]
  · simp [finish, WalkState.start]

/-! ### What a walk notes -/

theorem toCanonical_idem (ip : IpAddr) : ip.toCanonical.toCanonical = ip.toCanonical := by
  cases ip with
  | v4 bits => rfl
  | v6 bits =>
      by_cases hmapped : bits >>> 32 = 0xffff
      · have hv4 : (IpAddr.v6 bits).toCanonical = .v4 (bits.setWidth 32) := if_pos hmapped
        rw [hv4]
        rfl
      · have hv6 : (IpAddr.v6 bits).toCanonical = .v6 bits := if_neg hmapped
        rw [hv6, hv6]

structure Noted (resolver : Resolver) (client : Option IpAddr) (hops : List IpAddr) : Prop where
  hops : ∀ hop ∈ hops, hop.toCanonical = hop ∧ resolver.trusts hop = true
  client : ∀ ip ∈ client, ip.toCanonical = ip

def WalkNoted (resolver : Resolver) : Walk → Prop
  | .ok state => resolver.Noted state.leftmost state.hops
  | .error walked => resolver.Noted (walked.result.toOption.bind id) walked.hops

theorem walkNoted_readElement {state : WalkState} (h : resolver.Noted state.leftmost state.hops)
    (element : Text × Nat) : resolver.WalkNoted (resolver.readElement forms state element) := by
  have hnone : resolver.Noted none state.hops := ⟨h.hops, fun _ hip => absurd hip (Option.not_mem_none _)⟩
  unfold readElement
  split
  · exact hnone
  · split
    · unfold walkElement
      split
      · exact h
      · cases hparsed : (parseAddress forms (trimWhitespace element.1)).map IpAddr.toCanonical with
        | none => exact hnone
        | some ip =>
            obtain ⟨raw, -, rfl⟩ := Option.map_eq_some_iff.mp hparsed
            have hip : ∀ other ∈ some raw.toCanonical, other.toCanonical = other := by
              intro other hother
              rw [← Option.mem_some.mp hother, toCanonical_idem]
            by_cases htrusts : resolver.trusts raw.toCanonical = true
            · simp only [htrusts, if_true]
              refine ⟨fun hop hhop => ?_, hip⟩
              rcases List.mem_append.mp hhop with hhop | hhop
              · exact h.hops hop hhop
              · rw [List.mem_singleton.mp hhop]
                exact ⟨toCanonical_idem raw, htrusts⟩
            · simp only [htrusts]
              exact ⟨h.hops, hip⟩
    · exact hnone

theorem walkNoted_foldlM (elements : List (Text × Nat)) : ∀ {state : WalkState},
    resolver.Noted state.leftmost state.hops →
      resolver.WalkNoted (elements.foldlM (resolver.readElement forms) state) := by
  induction elements with
  | nil => intro state h; exact h
  | cons element elements ih =>
      intro state h
      have hstep := @walkNoted_readElement resolver forms _ h element
      rw [List.foldlM_cons]
      cases hread : resolver.readElement forms state element with
      | error walked =>
          rw [hread] at hstep
          exact hstep
      | ok next =>
          rw [hread] at hstep
          exact ih hstep

theorem noted_walk (resolver : Resolver) (forms : AddressText) (lines : List Text) :
    resolver.Noted ((resolver.walk forms lines).result.toOption.bind id)
      (resolver.walk forms lines).hops := by
  have hstart : resolver.Noted WalkState.start.leftmost WalkState.start.hops :=
    ⟨fun _ hhop => absurd hhop List.not_mem_nil, fun _ hip => absurd hip (Option.not_mem_none _)⟩
  have hrun := @walkNoted_foldlM resolver forms (lines.reverse.flatMap limitedElements) _ hstart
  rw [walk_eq_foldlM]
  cases hfold : (lines.reverse.flatMap limitedElements).foldlM (resolver.readElement forms)
      WalkState.start with
  | error walked =>
      rw [hfold] at hrun
      exact hrun
  | ok state =>
      rw [hfold] at hrun
      refine ⟨fun hop hhop => hrun.hops hop ?_, hrun.client⟩
      rw [finish] at hhop
      dsimp only at hhop
      split at hhop
      · exact List.dropLast_subset _ hhop
      · exact hhop

/-! ### Two proxies -/

end Resolver

def ClientAddress.ip (client : ClientAddress) : Option IpAddr :=
  match client.resolution with
  | .peer ip => some ip
  | .forwarded ip => some ip
  | .invalid _ => none
  | .unavailable => none

def verifiedAddresses (client : ClientAddress) (hops : List IpAddr) : List IpAddr :=
  match client.resolution with
  | .forwarded ip => ip :: hops.reverse ++ (client.peer.map (·.ip.toCanonical)).toList
  | .peer ip => [ip]
  | .invalid _ => []
  | .unavailable => []

namespace Resolver

variable {forms : AddressText}

structure Configured (resolver : Resolver) : Prop where
  client : ∀ name ∈ resolver.clientHeader, name ≠ xForwardedFor ∧ name ≠ forwarded
  audit : ∀ name ∈ resolver.auditHeader, owns name = false ∧ resolver.clientHeader ≠ some name

def chainOf (resolver : Resolver) (forms : AddressText) (peer : Option SocketAddr)
    (headers : HeaderMap Text Text) : List IpAddr :=
  verifiedAddresses (resolver.resolveNoting forms peer headers).1
    (resolver.resolveNoting forms peer headers).2

variable {resolver : Resolver}

theorem exists_chainOf (hheader : resolver.header = .xForwardedFor) {peer : Option SocketAddr}
    {headers : HeaderMap Text Text} {ip : IpAddr}
    (hip : (resolver.resolveNoting forms peer headers).1.ip = some ip) :
    ∃ proxies, resolver.chainOf forms peer headers = ip :: proxies ∧
      verifiedChain forms (resolver.resolveNoting forms peer headers).1
        (resolver.resolveNoting forms peer headers).2 = some (chainText forms (ip :: proxies)) ∧
      ip.toCanonical = ip ∧
      ∀ proxy ∈ proxies, proxy.toCanonical = proxy ∧ resolver.trusts proxy = true := by
  have halone : ∀ {client : IpAddr}, chainText forms [client] = forms.display client := by
    intro client
    rw [chainText, List.map_singleton, List.intercalate_singleton]
  cases peer with
  | none => cases hip
  | some peer =>
      unfold chainOf
      unfold resolveNoting at hip ⊢
      dsimp only at hip ⊢
      by_cases htrusts : resolver.trusts peer.ip.toCanonical = true
      · rw [if_pos htrusts] at hip ⊢
        have hread : resolver.readForwarded forms headers =
            resolver.walk forms (headers.getAll xForwardedFor) := by
          rw [readForwarded, hheader]
        have hnoted := resolver.noted_walk forms (headers.getAll xForwardedFor)
        rw [hread] at hip ⊢
        generalize resolver.walk forms (headers.getAll xForwardedFor) = walked at hip hnoted
        cases hresult : walked.result with
        | error invalid =>
            rw [hresult] at hip
            cases hip
        | ok found =>
            rw [hresult] at hip hnoted
            cases found with
            | some client =>
                obtain rfl := Option.some.inj hip
                refine ⟨walked.hops.reverse ++ [peer.ip.toCanonical], rfl, ?_,
                  hnoted.client client rfl, fun proxy hproxy => ?_⟩
                · rw [chainText, ← List.cons_append]
                  rfl
                · rcases List.mem_append.mp hproxy with hproxy | hproxy
                  · exact hnoted.hops proxy (List.mem_reverse.mp hproxy)
                  · rw [List.mem_singleton.mp hproxy]
                    exact ⟨toCanonical_idem peer.ip, htrusts⟩
            | none =>
                cases hrequired : resolver.required with
                | true =>
                    rw [resolutionOf, hrequired] at hip
                    cases hip
                | false =>
                    rw [resolutionOf, hrequired] at hip ⊢
                    obtain rfl := Option.some.inj hip
                    exact ⟨[], rfl, by rw [halone]; rfl, toCanonical_idem peer.ip,
                      fun _ hproxy => absurd hproxy List.not_mem_nil⟩
      · rw [if_neg htrusts] at hip ⊢
        obtain rfl := Option.some.inj hip
        exact ⟨[], rfl, by rw [halone]; rfl, toCanonical_idem peer.ip,
          fun _ hproxy => absurd hproxy List.not_mem_nil⟩

theorem getAll_apply_verified (hmode : resolver.forward = .verified) (hconfigured : resolver.Configured)
    (request : Request) (peer : Option SocketAddr) :
    (resolver.apply forms request peer).headers.getAll xForwardedFor =
      (verifiedChain forms (resolver.resolveNoting forms peer request.headers).1
        (resolver.resolveNoting forms peer request.headers).2).toList := by
  have hpreserve : resolver.forward ≠ .preserve := by
    rw [hmode]
    decide
  have hkept : ∀ (client : ClientAddress) (headers : HeaderMap Text Text),
      (resolver.clientHeaders client headers).getAll xForwardedFor = headers.getAll xForwardedFor := by
    intro client headers
    rw [clientHeaders]
    cases hname : resolver.clientHeader with
    | none => rfl
    | some name => exact getAll_rewrite_of_ne (hconfigured.client name hname).1.symm _ _
  simp only [apply]
  rw [hkept, getAll_forwardHeaders hpreserve, if_pos rfl, forwardedValue, hmode]

/-- **The verified chain resolves to the same client** at a proxy that trusts the same addresses, and
is sent on with that proxy's peer at its end. -/
theorem apply_verified_chain {first second : Resolver} (htrusted : second.trusted = first.trusted)
    (hconfigured : first.Configured) (hconfigured' : second.Configured)
    (hheader : first.header = .xForwardedFor) (hheader' : second.header = .xForwardedFor)
    (hmode : first.forward = .verified) {request request' : Request} {peer : Option SocketAddr}
    {peer' : SocketAddr} {ip : IpAddr}
    (hresolved : ((first.apply forms request peer).client).bind ClientAddress.ip = some ip)
    (hforms : ∀ address ∈ first.chainOf forms peer request.headers, forms.Faithful address)
    (hroom : (first.chainOf forms peer request.headers).length ≤ maxHops)
    (hreceived : request'.headers.getAll xForwardedFor =
      (first.apply forms request peer).headers.getAll xForwardedFor)
    (htrusts : second.trusts peer'.ip.toCanonical = true) :
    ((second.apply forms request' (some peer')).client).bind ClientAddress.ip = some ip ∧
      (second.forward = .verified →
        request'.headers.getAll xForwardedFor =
            [chainText forms (first.chainOf forms peer request.headers)] ∧
          (second.apply forms request' (some peer')).headers.getAll xForwardedFor =
            [chainText forms (first.chainOf forms peer request.headers) ++ separator ++
              forms.display peer'.ip.toCanonical]) := by
  obtain ⟨proxies, hchain, hvalue, hcanonical, hproxies⟩ := exists_chainOf hheader hresolved
  rw [getAll_apply_verified hmode hconfigured, hvalue, Option.toList_some] at hreceived
  rw [hchain] at hforms hroom ⊢
  have htrusts_eq : ∀ address, second.trusts address = first.trusts address := by
    intro address
    rw [trusts, trusts, htrusted]
  -- The next proxy walks the chain to its leftmost address.
  have hwalk : second.walk forms (request'.headers.getAll xForwardedFor) =
      ⟨.ok (some ip), proxies.reverse⟩ := by
    rw [hreceived]
    refine walk_chainText (hforms ip List.mem_cons_self) hcanonical (fun proxy hproxy => ?_) hroom
    rw [htrusts_eq]
    exact ⟨hforms proxy (List.mem_cons_of_mem _ hproxy), hproxies proxy hproxy⟩
  have hresolve : second.resolveNoting forms (some peer') request'.headers =
      (.new forms (some peer') (.forwarded ip), proxies.reverse) := by
    rw [resolveNoting]
    dsimp only
    rw [if_pos htrusts, readForwarded, hheader']
    dsimp only
    rw [hwalk]
    rfl
  refine ⟨?_, fun hmode' => ⟨hreceived, ?_⟩⟩
  · simp only [apply, hresolve, Option.bind_some]
    rfl
  · rw [getAll_apply_verified hmode' hconfigured', hresolve]
    have hnext : verifiedChain forms (.new forms (some peer') (.forwarded ip)) proxies.reverse =
        some (chainText forms (ip :: proxies ++ [peer'.ip.toCanonical])) := by
      rw [chainText]
      simp [verifiedChain, ClientAddress.new]
    rw [hnext, chainText_concat forms (List.cons_ne_nil _ _), Option.toList_some, List.append_assoc]
    rfl

end Resolver

def nextPeer : SocketAddr := ⟨.v4 (BitVec.ofNat 32 (10 * 2 ^ 24 + 9)), 4000⟩

def sentRequest : Request := (behindProxies .verified).apply dottedForms forgedRequest (some proxyPeer)

def sentChain : List IpAddr :=
  [203 * 2 ^ 24 + 113 * 2 ^ 8 + 7, 10 * 2 ^ 24 + 2, 10 * 2 ^ 24 + 1].map fun bits =>
    .v4 (BitVec.ofNat 32 bits)

theorem sent_chain_resolves :
    ((behindProxies .verified).apply dottedForms sentRequest (some nextPeer)).client.bind
        ClientAddress.ip = sentChain.head? ∧
      ((behindProxies .verified).apply dottedForms sentRequest (some nextPeer)).headers.getAll
          xForwardedFor =
        [Resolver.chainText dottedForms ((behindProxies .verified).chainOf dottedForms (some proxyPeer)
          forgedRequest.headers) ++ separator ++ dottedForms.display nextPeer.ip.toCanonical] := by
  have hconfigured : (behindProxies .verified).Configured := ⟨by decide +kernel, by decide +kernel⟩
  have hchain : (behindProxies .verified).chainOf dottedForms (some proxyPeer) forgedRequest.headers =
      sentChain := by decide +kernel
  have hforms : ∀ address ∈ sentChain, dottedForms.Faithful address := by
    intro address haddress
    have hfacts : dottedForms.parseIpAddr (dottedForms.display address) = some address ∧
        (∀ byte ∈ dottedForms.display address, isAddressChar byte = true) ∧
        0 < (dottedForms.display address).length ∧ (dottedForms.display address).length ≤ 45 := by
      revert address
      decide +kernel
    exact ⟨hfacts.1, hfacts.2.1, hfacts.2.2.1, hfacts.2.2.2⟩
  have hresolved : ((behindProxies .verified).apply dottedForms forgedRequest
      (some proxyPeer)).client.bind ClientAddress.ip = sentChain.head? := by decide +kernel
  have hreceived : sentRequest.headers.getAll xForwardedFor =
      ((behindProxies .verified).apply dottedForms forgedRequest (some proxyPeer)).headers.getAll
        xForwardedFor := rfl
  have htrusts : (behindProxies .verified).trusts nextPeer.ip.toCanonical = true := by decide +kernel
  have hsent := Resolver.apply_verified_chain rfl hconfigured hconfigured rfl rfl rfl hresolved
    (hchain ▸ hforms) (hchain ▸ (by decide : sentChain.length ≤ maxHops)) hreceived htrusts
  exact ⟨hsent.1, (hsent.2 rfl).2⟩

end StructuredProxy.Addressing
