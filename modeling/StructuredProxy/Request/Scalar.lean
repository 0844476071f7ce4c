import StructuredProxy.Request.Message
import Mathlib.Algebra.Ring.Int.Defs

/-!
# Values from strings

`field_value` reads the value of a field from the strings of a path, query or form key, each as the
ProtoJSON of such a value.
-/

namespace StructuredProxy

structure DecodeError where
  /-- The byte outside the alphabet, when that is the error. -/
  invalidByte : Option UInt8
  text : Text

/-- What the libraries read a string with: the float parser and cast, the two base64 alphabets, and a
message type read from a JSON string. -/
structure StringReaders where
  parseF64 : Text → Except Text UInt64
  toF32 : UInt64 → UInt32
  base64Standard : Text → Except DecodeError Text
  base64UrlSafe : Text → Except DecodeError Text
  message : Nat → Text → Except Text Fields

def parseDigits (sign low high : Int) (overflow : Text) : Int → Text → Except Text Int
  | result, [] => .ok result
  | result, byte :: rest =>
      if 48 ≤ byte && byte ≤ 57 then
        let next := result * 10 + sign * (byte.toNat - 48)
        if low ≤ next ∧ next ≤ high then parseDigits sign low high overflow next rest
        else .error overflow
      else .error (str "invalid digit found in string")

/-- `FromStr` of an integer type with values from `low` to `high`. -/
def parseInt (low high : Int) (raw : Text) : Except Text Int :=
  match raw with
  | [] => .error (str "cannot parse integer from empty string")
  | [byte] =>
      if byte = 43 || byte = 45 then .error (str "invalid digit found in string")
      else parseDigits 1 low high (str "number too large to fit in target type") 0 raw
  | byte :: rest =>
      if byte = 43 then
        parseDigits 1 low high (str "number too large to fit in target type") 0 rest
      else if byte = 45 && low < 0 then
        parseDigits (-1) low high (str "number too small to fit in target type") 0 rest
      else parseDigits 1 low high (str "number too large to fit in target type") 0 raw

def parseBool (raw : Text) : Except Text Bool :=
  if raw = str "true" then .ok true
  else if raw = str "false" then .ok false
  else .error (str "provided string was not `true` or `false`")

def infinity : UInt64 := 0x7FF0000000000000

def magnitude (bits : UInt64) : UInt64 := bits &&& 0x7FFFFFFFFFFFFFFF

def isFinite (bits : UInt64) : Bool := magnitude bits < infinity

def specialFloat (raw : Text) : Option UInt64 :=
  if raw = str "Infinity" then some infinity
  else if raw = str "-Infinity" then some 0xFFF0000000000000
  else if raw = str "NaN" then some 0x7FF8000000000000
  else none

section

variable (readers : StringReaders)

def parseF64 (raw : Text) : Except Text UInt64 :=
  match specialFloat raw with
  | some special => .ok special
  | none => do
      let value ← readers.parseF64 raw
      if isFinite value then return value
      throw (str "value out of range, or not a decimal number")

/-- The double nearest to the greatest float has the magnitude the range check compares with. -/
def maxF32 : UInt64 := 0x47EFFFFFE0000000

def parseF32 (raw : Text) : Except Text UInt32 := do
  let wide ← parseF64 readers raw
  if isFinite wide && maxF32 < magnitude wide then throw (str "float value out of range")
  return readers.toF32 wide

def decodeBase64 (raw : Text) : Except Text Text :=
  match readers.base64Standard raw with
  | .ok bytes => .ok bytes
  | .error error =>
      if error.invalidByte = some 45 || error.invalidByte = some 95 then
        (readers.base64UrlSafe raw).mapError fun error => str "invalid base64: " ++ error.text
      else .error (str "invalid base64: " ++ error.text)

def scalar (kind : Kind) (raw : Text) : Except Text Value :=
  match kind with
  | .double => (parseF64 readers raw).map .f64
  | .float => (parseF32 readers raw).map .f32
  | .int32 | .sint32 | .sfixed32 => (parseInt (-2 ^ 31) (2 ^ 31 - 1) raw).map .i32
  | .int64 | .sint64 | .sfixed64 => (parseInt (-2 ^ 63) (2 ^ 63 - 1) raw).map .i64
  | .uint32 | .fixed32 => (parseInt 0 (2 ^ 32 - 1) raw).map fun n => .u32 n.toNat
  | .uint64 | .fixed64 => (parseInt 0 (2 ^ 64 - 1) raw).map fun n => .u64 n.toNat
  | .bool => (parseBool raw).map .bool
  | .string => .ok (.string raw)
  | .bytes => (decodeBase64 readers raw).map .bytes
  | .enum _ values =>
      match values.lookup raw with
      | some number => .ok (.enumNumber number)
      | none => .error (str "unrecognized enum value '" ++ raw ++ str "'")
  | .message type => (readers.message type raw).map (.message type)

def invalidValue (field : Field) (error : Text) : Text :=
  str "invalid value for field `" ++ field.name ++ str "`: " ++ error

/-- The value of `field` from its string forms: all of them for a repeated field, the last one
otherwise. -/
def fieldValue (field : Field) (raw : List Text) : Except Text Value :=
  if field.isMap then .error (invalidValue field (str "a map field cannot be set from a string"))
  else if field.isList then
    ((raw.mapM (scalar readers field.kind)).map .list).mapError (invalidValue field)
  else (scalar readers field.kind (raw.getLastD [])).mapError (invalidValue field)

end

end StructuredProxy
