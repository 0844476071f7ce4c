import StructuredProxy.ClientAddress.Resolver
import StructuredProxy.Lib.Fallible
import Mathlib.Algebra.Ring.Nat

/-!
# Request headers as gRPC metadata

The headers a request forwards to the upstream become metadata of the call, every value of each in
order. The parts of a binary value joined by commas travel as values of their own. Trace context is not
forwarded with the others: a request's own `traceparent` is passed on when it is valid, together with
its `tracestate`, and otherwise a new one is made.
-/

namespace StructuredProxy.Metadata

open Lib

abbrev Headers := HeaderMap Text Text

def dash : UInt8 := 45

def toAsciiLowercase (byte : UInt8) : UInt8 := if 65 ≤ byte && byte ≤ 90 then byte + 32 else byte

def eqIgnoreAsciiCase (a b : Text) : Bool := a.map toAsciiLowercase = b.map toAsciiLowercase

def isAsciiAlphanumeric (byte : UInt8) : Bool :=
  (48 ≤ byte && byte ≤ 57) || (65 ≤ byte && byte ≤ 90) || (97 ≤ byte && byte ≤ 122)

/-- `u8::is_ascii_whitespace`. -/
def isAsciiWhitespace (byte : UInt8) : Bool :=
  byte = 32 || byte = 9 || byte = 10 || byte = 12 || byte = 13

def trimAscii (bytes : Text) : Text :=
  (bytes.dropWhile isAsciiWhitespace).rdropWhile isAsciiWhitespace

def endsWith (ending text : Text) : Bool := ending.isSuffixOf text

/-- `strip_suffix` of several bytes. -/
def stripEnding (ending text : Text) : Option Text :=
  if ending.isSuffixOf text then some (text.take (text.length - ending.length)) else none

/-- The headers a request forwards: as configured, with what `HeaderName::from_bytes` makes of a name, or
already parsed. -/
inductive Forwarded where
  | listed (fromBytes : Text → Option Text) (names : List Text)
  | named (names : List Text)

def Forwarded.names : Forwarded → List Text
  | .listed fromBytes names => names.filterMap fromBytes
  | .named names => names

inductive Source where
  | client
  | rewritten
  deriving DecidableEq

def isGrpcKey (name : Text) : Bool :=
  !name.isEmpty && name.all fun byte =>
    let byte := toAsciiLowercase byte
    (48 ≤ byte && byte ≤ 57) || (97 ≤ byte && byte ≤ 122) || (str "_-.").contains byte

def traceparent : Text := str "traceparent"
def tracestate : Text := str "tracestate"

def isTraceContext (name : Text) : Bool :=
  eqIgnoreAsciiCase name traceparent || eqIgnoreAsciiCase name tracestate

def isBinary (name : Text) : Bool := endsWith (str "-bin") name

/-- At least one byte, each visible or a space. -/
def isAsciiValue (value : Text) : Bool :=
  !value.isEmpty && value.all fun byte => 0x20 ≤ byte && byte ≤ 0x7e

def base64Digit (digit : UInt8) : UInt8 :=
  if 65 ≤ digit && digit ≤ 90 then digit - 65
  else if 97 ≤ digit && digit ≤ 122 then digit - 97 + 26
  else if 48 ≤ digit && digit ≤ 57 then digit - 48 + 52
  else if digit = 43 then 62
  else 63

/-- The bits of the last digit past the final byte are zero. -/
def canonicalTail (data : Text) : Bool :=
  if data.length % 4 = 2 then data.getLast?.any fun digit => base64Digit digit &&& 0b1111 = 0
  else if data.length % 4 = 3 then data.getLast?.any fun digit => base64Digit digit &&& 0b0011 = 0
  else true

def isBase64Part (part : Text) : Bool :=
  let part := trimAscii part
  let alphabet := fun data : Text =>
    data.all fun byte => isAsciiAlphanumeric byte || byte = 43 || byte = 47
  match (stripEnding (str "==") part).or (stripEnding (str "=") part) with
  | some data => part.length % 4 = 0 && alphabet data && canonicalTail data
  | none => part.length % 4 ≠ 1 && alphabet part && canonicalTail part

def isBase64Value (value : Text) : Bool := (value.splitOn Addressing.comma).all isBase64Part

def carries (name value : Text) : Bool :=
  if isBinary name then isBase64Value value else isAsciiValue value

section

variable {ε : Type} (check : Text → Text → Except ε Unit)

def forwardedParts (name value : Text) : List Text :=
  if isBinary name && value.contains Addressing.comma then
    (value.splitOn Addressing.comma).map trimAscii
  else [value]

/-- The values of a header in order, each checked before it is pushed. -/
def pushValues (name : Text) : List Text → Headers → Except ε Headers
  | [], metadata => .ok metadata
  | value :: rest, metadata =>
      match check name value with
      | .error error => .error error
      | .ok () => pushValues name rest (metadata.appendAll name (forwardedParts name value))

def forwardOne (source : Source) (headers metadata : Headers) (name : Text) : Except ε Headers :=
  if isTraceContext name || (source = .client && Addressing.owns name) then .ok metadata
  else if (headers.getAll name).isEmpty then .ok metadata
  else if !isGrpcKey name then .ok metadata
  else if metadata.containsKey name then .ok metadata
  else pushValues check name (headers.getAll name) metadata

def forwardAll (source : Source) (headers : Headers) : List Text → Headers → Except ε Headers
  | [], metadata => .ok metadata
  | name :: rest, metadata =>
      match forwardOne check source headers metadata name with
      | .error error => .error error
      | .ok metadata => forwardAll source headers rest metadata

end

/-! ### Trace context -/

/-- `HeaderValue::to_str`: visible characters, spaces and tabs. -/
def toStr (value : Text) : Option Text :=
  if value.all fun byte => (0x20 ≤ byte && byte < 0x7f) || byte = 9 then some value else none

def isHex (length : Nat) (text : Text) : Bool := text.length = length && text.all isAsciiHexdigit

def zero : UInt8 := 48

def isValidTraceparent (tp : Text) : Bool :=
  match tp.splitOn dash with
  | version :: traceId :: parentId :: flags :: more =>
      !(version = str "00" && !more.isEmpty) && isHex 2 version &&
        !eqIgnoreAsciiCase version (str "ff") && isHex 32 traceId && isHex 16 parentId &&
        isHex 2 flags && traceId.any (· ≠ zero) && parentId.any (· ≠ zero)
  | _ => false

/-- The generator of trace ids: what its thread holds, and what the system gives for a seed. -/
structure Random where
  thread : Option (BitVec 64)
  system : Option (BitVec 64)

def Random.randomId (random : Random) : Option (BitVec 64 × Random) :=
  (random.thread.or random.system).map fun seed =>
    let next := seed + 0xa0761d6478bd642f#64
    let wide := next.setWidth 128 * (next ^^^ 0xe7037ed1a0b428db#64).setWidth 128
    ((wide >>> 64).setWidth 64 ^^^ wide.setWidth 64, { random with thread := some next })

def writeHex (value : BitVec 64) : Text :=
  (List.range 16).map fun at_ =>
    (str "0123456789abcdef").getD (value.toNat / 2 ^ (60 - 4 * at_) % 16) zero

/-- A trace id of two words and a span id, none of them all zero. -/
def traceparentOf (high low span : BitVec 64) : Text :=
  let low := if high = 0 ∧ low = 0 then 1 else low
  let span := if span = 0 then 1 else span
  str "00-" ++ writeHex high ++ writeHex low ++ str "-" ++ writeHex span ++ str "-01"

def newTraceparent (random : Random) : Option Text :=
  random.randomId.bind fun (high, random) =>
    random.randomId.bind fun (low, random) =>
      random.randomId.map fun (span, _) => traceparentOf high low span

def insertAscii (metadata : Headers) (key value : Text) : Headers :=
  if isAsciiValue value then metadata.insert key value else metadata

def appendAscii (metadata : Headers) (key value : Text) : Headers :=
  if isAsciiValue value then metadata.append key value else metadata

def validTraceparent (headers : Headers) : Option Text :=
  ((headers.getAll traceparent).head?.bind toStr).filter isValidTraceparent

def injectTraceContext (random : Random) (headers metadata : Headers) : Headers :=
  match validTraceparent headers with
  | some tp =>
      (headers.getAll tracestate).foldl (fun metadata ts => appendAscii metadata tracestate ts)
        (insertAscii metadata traceparent tp)
  | none =>
      match newTraceparent random with
      | some tp => metadata.insert traceparent tp
      | none => metadata

/-- The metadata for the headers of a request, with `check` deciding on each forwarded value. -/
def forward {ε : Type} (check : Text → Text → Except ε Unit) (random : Random) (source : Source)
    (headers : Headers) (forwarded : Forwarded) : Except ε Headers :=
  (forwardAll check source headers forwarded.names HeaderMap.empty).map
    (injectTraceContext random headers)

/-- The header a value of which metadata cannot carry. -/
structure InvalidForwardedHeader where
  header : Text

def checkCarries (name value : Text) : Except InvalidForwardedHeader Unit :=
  if carries name value then .ok () else .error { header := name }

def forwardedMetadata (random : Random) (headers : Headers) (forwarded : Forwarded)
    (rewritten : Bool) : Except InvalidForwardedHeader Headers :=
  forward checkCarries random (if rewritten then .rewritten else .client) headers forwarded

end StructuredProxy.Metadata
