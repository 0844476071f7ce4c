import StructuredProxy.ClientAddress.OneList
import Mathlib.Algebra.Ring.Nat

/-!
# What the client cannot influence

Two requests that differ left of the client the walk resolves, in the headers the forwarding writes
itself, or in any forwarding header when the peer is no trusted proxy, leave the resolver with the same
client address and the same forwarding headers.
-/

namespace StructuredProxy.Addressing

open Lib

theorem elementsOf_append (earlier later : List Text) :
    elementsOf (earlier ++ later) = elementsOf later ++ elementsOf earlier := by
  rw [elementsOf, elementsOf, elementsOf, List.reverse_append, List.flatMap_append]

theorem elementsOf_cons (line : Text) (later : List Text) :
    elementsOf (line :: later) = elementsOf later ++ limitedElements line := by
  rw [elementsOf, elementsOf, List.reverse_cons, List.flatMap_append, List.flatMap_singleton]

namespace Resolver

variable (resolver : Resolver) (forms : AddressText)

/-- Among these elements, last one first, the walk finds an address outside the trusted proxies. -/
def FindsClient (elements : List (Text × Nat)) : Prop :=
  ∃ ip hops, elements.foldlM (resolver.readElement forms) WalkState.start =
    .error ⟨.ok (some ip), hops⟩

/-- The field lines are those of another request up to the text left of the client: earlier lines,
and of the client's own line what stands before a comma left of it. -/
inductive SameUpToClient : List Text → List Text → Prop
  | same (lines : List Text) : SameUpToClient lines lines
  | own (earlier earlier' : List Text) (line : Text) (later : List Text)
      (hfinds : resolver.FindsClient forms (elementsOf (line :: later))) :
      SameUpToClient (earlier ++ line :: later) (earlier' ++ line :: later)
  | left (earlier earlier' : List Text) (before before' rest : Text) (later : List Text)
      (hfinds : resolver.FindsClient forms
        (elementsOf later ++ bounded (rest.splitOn comma).reverse)) :
      SameUpToClient (earlier ++ (before ++ comma :: rest) :: later)
        (earlier' ++ (before' ++ comma :: rest) :: later)

variable {resolver forms}

/-- What stands left of the client is never read. -/
theorem walk_of_findsClient {elements : List (Text × Nat)}
    (hfinds : resolver.FindsClient forms elements) {lines lines' : List Text}
    {left left' : List (Text × Nat)} (hlines : elementsOf lines = elements ++ left)
    (hlines' : elementsOf lines' = elements ++ left') :
    resolver.walk forms lines = resolver.walk forms lines' := by
  obtain ⟨ip, hops, hrun⟩ := hfinds
  have hwalk : ∀ {lines : List Text} {left : List (Text × Nat)},
      elementsOf lines = elements ++ left →
        resolver.walk forms lines = ⟨.ok (some ip), hops⟩ := by
    intro lines left hlines
    rw [elementsOf] at hlines
    rw [walk_eq_foldlM, hlines, List.foldlM_append, hrun]
    rfl
  rw [hwalk hlines, hwalk hlines']

theorem SameUpToClient.walk_eq {lines lines' : List Text}
    (h : resolver.SameUpToClient forms lines lines') :
    resolver.walk forms lines = resolver.walk forms lines' := by
  cases h with
  | same lines => rfl
  | own earlier earlier' line later hfinds =>
      exact walk_of_findsClient hfinds (elementsOf_append earlier _) (elementsOf_append earlier' _)
  | left earlier earlier' before before' rest later hfinds =>
      have hcut : ∀ (earlier : List Text) (before : Text),
          elementsOf (earlier ++ (before ++ comma :: rest) :: later) =
            elementsOf later ++ bounded (rest.splitOn comma).reverse ++
              (limitedElements before ++ elementsOf earlier) := by
        intro earlier before
        rw [elementsOf_append, elementsOf_cons, limitedElements_append_comma, bounded]
        simp only [List.append_assoc]
      exact walk_of_findsClient hfinds (hcut earlier before) (hcut earlier' before')

/-! ### The forwarding headers -/

theorem getAll_rewrite_self (name : Text) (value : Option Text) (headers : HeaderMap Text Text) :
    (rewrite name value headers).getAll name = value.toList := by
  cases value <;> simp [rewrite]

theorem getAll_rewrite_of_ne {name other : Text} (hne : other ≠ name) (value : Option Text)
    (headers : HeaderMap Text Text) :
    (rewrite name value headers).getAll other = headers.getAll other := by
  cases value with
  | none => exact HeaderMap.getAll_remove_of_ne hne
  | some value =>
      rw [rewrite, HeaderMap.getAll_insert_of_ne hne, HeaderMap.getAll_remove_of_ne hne]

theorem getAll_forwardHeaders (hmode : resolver.forward ≠ .preserve) (value : Option Text)
    (headers : HeaderMap Text Text) (name : Text) :
    (resolver.forwardHeaders value headers).getAll name =
      if name = xForwardedFor then value.toList
      else if owns name then [] else headers.getAll name := by
  have hcleaned : (((headers.remove xForwardedFor).remove xRealIp).remove forwarded).getAll name =
      if owns name then [] else headers.getAll name := by
    by_cases hforwarded : name = forwarded
    · simp [owns, hforwarded]
    by_cases hreal : name = xRealIp
    · rw [HeaderMap.getAll_remove_of_ne hforwarded, hreal]
      simp [owns]
    by_cases hxff : name = xForwardedFor
    · rw [HeaderMap.getAll_remove_of_ne hforwarded, HeaderMap.getAll_remove_of_ne hreal, hxff]
      simp [owns]
    rw [HeaderMap.getAll_remove_of_ne hforwarded, HeaderMap.getAll_remove_of_ne hreal,
      HeaderMap.getAll_remove_of_ne hxff]
    simp [owns, hforwarded, hreal, hxff]
  rw [forwardHeaders, if_neg hmode]
  by_cases hxff : name = xForwardedFor
  · rw [if_pos hxff]
    cases value with
    | none =>
        rw [hcleaned]
        simp [owns, hxff]
    | some value =>
        rw [hxff]
        simp
  · rw [if_neg hxff, ← hcleaned]
    cases value with
    | none => rfl
    | some value => exact HeaderMap.getAll_insert_of_ne hxff

/-- What the forwarding leaves of a header is decided by the client address, the value it forwards
and, for a header it does not write, the values that arrived. -/
theorem getAll_clientHeaders_congr (hmode : resolver.forward ≠ .preserve) {client : ClientAddress}
    {value : Option Text} {headers headers' : HeaderMap Text Text} {name : Text}
    (h : owns name = true ∨ some name = resolver.clientHeader ∨
      headers.getAll name = headers'.getAll name) :
    (resolver.clientHeaders client (resolver.forwardHeaders value headers)).getAll name =
      (resolver.clientHeaders client (resolver.forwardHeaders value headers')).getAll name := by
  have hforward : some name ≠ resolver.clientHeader →
      (resolver.forwardHeaders value headers).getAll name =
        (resolver.forwardHeaders value headers').getAll name := by
    intro hne
    rw [getAll_forwardHeaders hmode, getAll_forwardHeaders hmode]
    rcases h with howns | hclient | heq
    · rw [if_pos howns, if_pos howns]
    · exact absurd hclient hne
    · rw [heq]
  rw [clientHeaders, clientHeaders]
  cases hheader : resolver.clientHeader with
  | none => exact hforward (by rw [hheader]; exact Option.some_ne_none name)
  | some own =>
      by_cases hname : name = own
      · simp only [hname, getAll_rewrite_self]
      · simp only [getAll_rewrite_of_ne hname]
        exact hforward (by rw [hheader]; exact fun heq => hname (Option.some.inj heq))

theorem forwardedValue_congr
    (hmode : resolver.forward = .verified ∨ resolver.forward = .resolved ∨
      resolver.forward = .remove)
    (headers headers' : HeaderMap Text Text) (client : ClientAddress) (hops : List IpAddr) :
    resolver.forwardedValue forms headers client hops =
      resolver.forwardedValue forms headers' client hops := by
  rcases hmode with hmode | hmode | hmode <;> rw [forwardedValue, forwardedValue, hmode]

/-- The field lines of two requests from `peer` differ only where the client could write. -/
def ClientWrote (resolver : Resolver) (forms : AddressText) (peer : Option SocketAddr)
    (lines lines' : List Text) : Prop :=
  ∀ proxy, peer = some proxy → resolver.trusts proxy.ip.toCanonical = true →
    resolver.SameUpToClient forms lines lines'

theorem resolveNoting_congr (hheader : resolver.header = .xForwardedFor) {peer : Option SocketAddr}
    {headers headers' : HeaderMap Text Text}
    (hlines : resolver.ClientWrote forms peer (headers.getAll xForwardedFor)
      (headers'.getAll xForwardedFor)) :
    resolver.resolveNoting forms peer headers = resolver.resolveNoting forms peer headers' := by
  cases peer with
  | none => rfl
  | some proxy =>
      rw [resolveNoting, resolveNoting]
      by_cases htrusts : resolver.trusts proxy.ip.toCanonical = true
      · have hwalk := (hlines proxy rfl htrusts).walk_eq
        have hread : resolver.readForwarded forms headers = resolver.readForwarded forms headers' := by
          rw [readForwarded, readForwarded, hheader]
          exact hwalk
        simp only [hread]
      · simp only [if_neg htrusts]

/-- **A client cannot influence its forwarded address.** -/
theorem apply_not_influenced (hheader : resolver.header = .xForwardedFor)
    (hmode : resolver.forward = .verified ∨ resolver.forward = .resolved ∨
      resolver.forward = .remove)
    (haudit : resolver.auditHeader = none) {peer : Option SocketAddr} {request request' : Request}
    (hlines : resolver.ClientWrote forms peer (request.headers.getAll xForwardedFor)
      (request'.headers.getAll xForwardedFor)) :
    (resolver.apply forms request peer).client = (resolver.apply forms request' peer).client ∧
      ∀ name, (owns name = true ∨ some name = resolver.clientHeader ∨
          request.headers.getAll name = request'.headers.getAll name) →
        (resolver.apply forms request peer).headers.getAll name =
          (resolver.apply forms request' peer).headers.getAll name := by
  have hpreserve : resolver.forward ≠ .preserve := by
    rcases hmode with hmode | hmode | hmode <;> rw [hmode] <;> decide
  have hresolve := resolveNoting_congr hheader hlines
  have haudited : ∀ headers, resolver.auditHeaders headers = headers := by
    intro headers
    rw [auditHeaders, haudit]
  refine ⟨?_, fun name hname => ?_⟩
  · simp only [apply, hresolve]
  · simp only [apply, hresolve, haudited]
    rw [forwardedValue_congr hmode request.headers request'.headers]
    exact getAll_clientHeaders_congr hpreserve hname

end Resolver

def vouched : Text := str " 203.0.113.7, 10.0.0.2"

def forgedRequest : Request where
  headers := ⟨[(xForwardedFor, str "1.2.3.4" ++ comma :: vouched), (xRealIp, str "1.2.3.4")]⟩
  client := none

def garbledRequest : Request where
  headers :=
    ⟨[(xForwardedFor, str "unknown"), (xForwardedFor, str ",,not an address" ++ comma :: vouched),
      (forwarded, str "for=1.2.3.4")]⟩
  client := none

def proxyPeer : SocketAddr := ⟨.v4 (BitVec.ofNat 32 (10 * 2 ^ 24 + 1)), 4000⟩

theorem forged_not_influenced :
    (behindProxies .verified).trusts proxyPeer.ip.toCanonical = true ∧
      ((behindProxies .verified).apply dottedForms forgedRequest (some proxyPeer)).client =
        ((behindProxies .verified).apply dottedForms garbledRequest (some proxyPeer)).client ∧
      ((behindProxies .verified).apply dottedForms forgedRequest (some proxyPeer)).headers.getAll
          xForwardedFor =
        ((behindProxies .verified).apply dottedForms garbledRequest (some proxyPeer)).headers.getAll
          xForwardedFor :=
  have hlines : (behindProxies .verified).ClientWrote dottedForms (some proxyPeer)
      (forgedRequest.headers.getAll xForwardedFor) (garbledRequest.headers.getAll xForwardedFor) :=
    fun _ _ _ =>
      .left [] [str "unknown"] (str "1.2.3.4") (str ",,not an address") vouched []
        ⟨.v4 (BitVec.ofNat 32 (((203 * 256 + 0) * 256 + 113) * 256 + 7)),
          [.v4 (BitVec.ofNat 32 (10 * 2 ^ 24 + 2))], by decide +kernel⟩
  have h := @Resolver.apply_not_influenced (behindProxies .verified) dottedForms rfl (Or.inl rfl) rfl
    (some proxyPeer) forgedRequest garbledRequest hlines
  ⟨by decide, h.1, h.2 xForwardedFor (Or.inl (by decide))⟩

end StructuredProxy.Addressing
