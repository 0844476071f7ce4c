import StructuredProxy.Lib.Headers
import StructuredProxy.Lib.Lists
import StructuredProxy.Transcode.Decode
import Mathlib.Data.List.DropRight

/-!
# Resolving the client's address and forwarding it

The resolver starts from the connection's peer. Where the peer is a trusted proxy it reads the header
that proxy reports in: `X-Forwarded-For` is walked from the right, one element at a time, through the
trusted proxies to the first address outside them. The forwarding headers of the request are then
rewritten by the configured mode.
-/

namespace StructuredProxy.Addressing

open Lib

inductive IpAddr where
  | v4 (bits : BitVec 32)
  | v6 (bits : BitVec 128)
  deriving DecidableEq

structure SocketAddr where
  ip : IpAddr
  port : BitVec 16
  deriving DecidableEq

def IpAddr.toCanonical : IpAddr → IpAddr
  | .v4 bits => .v4 bits
  | .v6 bits => if bits >>> 32 = 0xffff then .v4 (bits.setWidth 32) else .v6 bits

/-- A CIDR range, by the addresses that `IpNet::contains` finds in it. -/
structure IpNet where
  contains : IpAddr → Bool

/-- The text forms of the standard library: what `str::parse` reads and `Display` writes. -/
structure AddressText where
  parseIpAddr : Text → Option IpAddr
  parseSocketAddr : Text → Option SocketAddr
  parseIpv6Addr : Text → Option (BitVec 128)
  display : IpAddr → Text

def comma : UInt8 := 44
def openBracket : UInt8 := 91
def closeBracket : UInt8 := 93

/-- A lossy reading changes exactly what is not UTF-8. -/
def fromUtf8 (bytes : Text) : Option Text :=
  if fromUtf8Lossy bytes = bytes then some bytes else none

/-- An address bare, as IPv6 in brackets, or either with a port, which is dropped. -/
def parseAddress (forms : AddressText) (bytes : Text) : Option IpAddr :=
  (fromUtf8 bytes).bind fun text =>
    match forms.parseIpAddr text with
    | some ip => some ip
    | none =>
        match forms.parseSocketAddr text with
        | some socket => some socket.ip
        | none =>
            ((stripPrefix openBracket text).bind (stripSuffix closeBracket)).bind fun v6 =>
              (forms.parseIpv6Addr v6).map IpAddr.v6

inductive ForwardingHeader where
  | xForwardedFor
  | xRealIp
  | cleanedReport
  deriving DecidableEq

/-- What the upstream gets as `X-Forwarded-For`. -/
inductive XForwardedFor where
  | verified
  | resolved
  | append
  | preserve
  | remove
  deriving DecidableEq

inductive InvalidForwarding where
  | malformed
  | tooManyHops
  | repeated
  | conflicting
  deriving DecidableEq

inductive Resolution where
  | peer (ip : IpAddr)
  | forwarded (ip : IpAddr)
  | invalid (reason : InvalidForwarding)
  | unavailable
  deriving DecidableEq

/-- The request extension: `value` is the resolved address as a header value. -/
structure ClientAddress where
  peer : Option SocketAddr
  resolution : Resolution
  value : Option Text
  deriving DecidableEq

structure Resolver where
  trusted : List IpNet
  header : ForwardingHeader
  required : Bool
  forward : XForwardedFor
  clientHeader : Option Text
  auditHeader : Option Text

/-- A request as the resolver reads and writes it; header names are in lower case. -/
structure Request where
  headers : HeaderMap Text Text
  client : Option ClientAddress

def xForwardedFor : Text := str "x-forwarded-for"
def xRealIp : Text := str "x-real-ip"
def forwarded : Text := str "forwarded"

/-- The headers that carry a client's address: no guard may set them. -/
def owns (name : Text) : Bool :=
  name = xForwardedFor || name = xRealIp || name = forwarded

def maxHops : Nat := 32
def maxElement : Nat := 128

def ClientAddress.new (forms : AddressText) (peer : Option SocketAddr) (resolution : Resolution) :
    ClientAddress where
  peer := peer
  resolution := resolution
  value :=
    match resolution with
    | .peer ip => some (forms.display ip)
    | .forwarded ip => some (forms.display ip)
    | .invalid _ => none
    | .unavailable => none

def Resolver.trusts (resolver : Resolver) (ip : IpAddr) : Bool :=
  resolver.trusted.any fun net => net.contains ip

def isOws (byte : UInt8) : Bool := byte = 32 || byte = 9

def trimWhitespace (bytes : Text) : Text := (bytes.dropWhile isOws).rdropWhile isOws

/-- The last element of a list and what precedes its comma, searched for from `window` on. -/
def cutElement (window : Nat) (bytes : Text) : Except InvalidForwarding (Text × Option Text) :=
  match rposition (· = comma) (bytes.drop window) with
  | some at_ => .ok (trimWhitespace (bytes.drop (window + at_ + 1)), some (bytes.take (window + at_)))
  | none => if window = 0 then .ok (trimWhitespace bytes, none) else .error .malformed

def lastElement (bytes : Text) : Except InvalidForwarding (Text × Option Text) :=
  cutElement (bytes.length - (maxElement + 1)) bytes

theorem length_lt_of_cutElement {window : Nat} {bytes element before : Text}
    (h : cutElement window bytes = .ok (element, some before)) : before.length < bytes.length := by
  rw [cutElement] at h
  split at h
  · rename_i at_ hat
    simp only [Except.ok.injEq, Prod.mk.injEq, Option.some.injEq] at h
    have hlt := rposition_lt hat
    rw [List.length_drop] at hlt
    rw [← h.2, List.length_take]
    omega
  · split at h <;> simp at h

/-- What the walk keeps between elements: how many it read, the leftmost address, and the trusted
proxies, nearest first. -/
structure WalkState where
  read : Nat
  leftmost : Option IpAddr
  hops : List IpAddr
  deriving DecidableEq

structure Walked where
  result : Except InvalidForwarding (Option IpAddr)
  hops : List IpAddr
  deriving DecidableEq

def WalkState.start : WalkState := ⟨0, none, []⟩

/-- A return from within the walk is the error of this monad. -/
abbrev Walk := Except Walked WalkState

namespace Resolver

variable (resolver : Resolver) (forms : AddressText)

/-- One element, trimmed: an empty one is skipped, an address outside the trusted ones ends the walk. -/
def walkElement (state : WalkState) (element : Text) : Walk :=
  if element.isEmpty then .ok state
  else
    match (parseAddress forms element).map IpAddr.toCanonical with
    | none => .error ⟨.error .malformed, state.hops⟩
    | some ip =>
        if resolver.trusts ip then
          .ok { state with leftmost := some ip, hops := state.hops ++ [ip] }
        else .error ⟨.ok (some ip), state.hops⟩

set_option maxRecDepth 4000 in
def walkLine (state : WalkState) (rest : Text) : Walk :=
  if maxHops < state.read + 1 then .error ⟨.error .tooManyHops, state.hops⟩
  else
    match _h : lastElement rest with
    | .error invalid => .error ⟨.error invalid, state.hops⟩
    | .ok (element, none) =>
        resolver.walkElement forms { state with read := state.read + 1 } element
    | .ok (element, some before) =>
        (resolver.walkElement forms { state with read := state.read + 1 } element).bind
          fun state => walkLine state before
  termination_by rest.length
  decreasing_by exact length_lt_of_cutElement (by assumption)

/-- Every hop trusted: the leftmost is the client, not a hop. -/
def finish : Walk → Walked
  | .error walked => walked
  | .ok state =>
      ⟨.ok state.leftmost, if state.leftmost.isSome then state.hops.dropLast else state.hops⟩

def walk (lines : List Text) : Walked :=
  finish (lines.reverse.foldlM (resolver.walkLine forms) WalkState.start)

end Resolver

def realIp (forms : AddressText) : List Text → Except InvalidForwarding (Option IpAddr)
  | [] => .ok none
  | _ :: _ :: _ => .error .repeated
  | [raw] =>
      if maxElement < raw.length then .error .malformed
      else
        match parseAddress forms (trimWhitespace raw) with
        | some ip => .ok (some ip.toCanonical)
        | none => .error .malformed

def reportAgrees (forms : AddressText) (reported : Option IpAddr) (chain : List Text) : Bool :=
  match reported, chain with
  | _, _ :: _ :: _ => false
  | none, [_] => false
  | _, [] => true
  | some ip, [line] =>
      match realIp forms [line] with
      | .ok found => found = some ip
      | .error _ => false

def cleanedReport (forms : AddressText) (headers : HeaderMap Text Text) :
    Except InvalidForwarding (Option IpAddr) :=
  match realIp forms (headers.getAll xRealIp) with
  | .error invalid => .error invalid
  | .ok reported =>
      if !headers.containsKey forwarded &&
          reportAgrees forms reported (headers.getAll xForwardedFor) then .ok reported
      else .error .conflicting

/-! ### A request -/

namespace Resolver

variable (resolver : Resolver) (forms : AddressText)

def readForwarded (headers : HeaderMap Text Text) : Walked :=
  match resolver.header with
  | .xForwardedFor => resolver.walk forms (headers.getAll xForwardedFor)
  | .xRealIp => ⟨realIp forms (headers.getAll xRealIp), []⟩
  | .cleanedReport => ⟨cleanedReport forms headers, []⟩

def resolutionOf (peerIp : IpAddr) : Except InvalidForwarding (Option IpAddr) → Resolution
  | .ok (some ip) => .forwarded ip
  | .ok none => if resolver.required then .unavailable else .peer peerIp
  | .error invalid => .invalid invalid

def resolveNoting (peer : Option SocketAddr) (headers : HeaderMap Text Text) :
    ClientAddress × List IpAddr :=
  match peer with
  | none => (.new forms none .unavailable, [])
  | some peer =>
      let peerIp := peer.ip.toCanonical
      if resolver.trusts peerIp then
        let walked := resolver.readForwarded forms headers
        (.new forms (some peer) (resolver.resolutionOf peerIp walked.result), walked.hops)
      else (.new forms (some peer) (.peer peerIp), [])

end Resolver

def separator : Text := str ", "

/-- The resolved client, the trusted proxies in the order they forwarded, then this proxy's peer. -/
def verifiedChain (forms : AddressText) (client : ClientAddress) (hops : List IpAddr) :
    Option Text :=
  client.value.bind fun value =>
    match client.resolution with
    | .forwarded ip =>
        client.peer.map fun peer =>
          separator.intercalate
            ((ip :: hops.reverse ++ [peer.ip.toCanonical]).map forms.display)
    | _ => some value

/-- The list as it arrived, its lines joined, then the peer. -/
def appendedChain (forms : AddressText) (headers : HeaderMap Text Text) (peer : Option SocketAddr) :
    Option Text :=
  let lines := headers.getAll xForwardedFor
  match peer with
  | none => if lines.isEmpty then none else some (separator.intercalate lines)
  | some peer => some (separator.intercalate (lines ++ [forms.display peer.ip.toCanonical]))

namespace Resolver

variable (resolver : Resolver) (forms : AddressText)

def forwardedValue (headers : HeaderMap Text Text) (client : ClientAddress) (hops : List IpAddr) :
    Option Text :=
  match resolver.forward with
  | .verified => verifiedChain forms client hops
  | .resolved => client.value
  | .append => appendedChain forms headers client.peer
  | .preserve => none
  | .remove => none

def rewrite (name : Text) (value : Option Text) (headers : HeaderMap Text Text) :
    HeaderMap Text Text :=
  match value with
  | none => headers.remove name
  | some value => (headers.remove name).insert name value

/-- The audit header holds the list as it arrived and nothing sent under its name. -/
def auditHeaders (headers : HeaderMap Text Text) : HeaderMap Text Text :=
  match resolver.auditHeader with
  | none => headers
  | some audit =>
      (headers.getAll xForwardedFor).foldl (fun headers line => headers.append audit line)
        (headers.remove audit)

def forwardHeaders (value : Option Text) (headers : HeaderMap Text Text) : HeaderMap Text Text :=
  if resolver.forward = .preserve then headers
  else
    let cleaned := ((headers.remove xForwardedFor).remove xRealIp).remove forwarded
    match value with
    | none => cleaned
    | some value => cleaned.insert xForwardedFor value

def clientHeaders (client : ClientAddress) (headers : HeaderMap Text Text) : HeaderMap Text Text :=
  match resolver.clientHeader with
  | none => headers
  | some name => rewrite name client.value headers

def apply (request : Request) (peer : Option SocketAddr) : Request :=
  let (client, hops) := resolver.resolveNoting forms peer request.headers
  let audited := resolver.auditHeaders request.headers
  let value := resolver.forwardedValue forms audited client hops
  { headers := resolver.clientHeaders client (resolver.forwardHeaders value audited)
    client := some client }

end Resolver

end StructuredProxy.Addressing
