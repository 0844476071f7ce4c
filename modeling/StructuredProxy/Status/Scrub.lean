import StructuredProxy.Lib.Lists
import StructuredProxy.Transcode.Text

/-!
# Removing debug information from error details

`scrub` walks a dynamic message and removes every `google.rpc.DebugInfo` below it, also from messages
packed into a `google.protobuf.Any`, which are decoded, scrubbed and packed again. A message it must
remove is reported to the caller, who drops the field, list element or map entry that holds it.
-/

namespace StructuredProxy.Status

open Lib

/-- A field or an extension: whether its kind is a message, and whether it is a proto2 `required` one. -/
structure FieldDesc where
  number : Nat
  name : Text
  isMessage : Bool
  required : Bool
  deriving DecidableEq

structure MessageDesc where
  fullName : Text
  fields : List FieldDesc
  /-- Whether the type declares extension ranges. -/
  extensible : Bool
  deriving DecidableEq

inductive Scalar where
  | bool (value : Bool)
  | integer (value : Int)
  | float (bits : UInt64)
  | string (value : Text)
  | bytes (value : Text)
  | enumNumber (value : Int)
  deriving DecidableEq

mutual

/-- A message: its type, and its populated fields and extensions. -/
inductive Message where
  | mk (desc : MessageDesc) (fields extensions : List (FieldDesc × PbValue))

inductive Item where
  | scalar (value : Scalar)
  | message (value : Message)

inductive PbValue where
  | single (item : Item)
  | list (items : List Item)
  | map (entries : List (Scalar × Item))

end

abbrev Entries := List (FieldDesc × PbValue)

namespace Message

def desc : Message → MessageDesc
  | .mk desc _ _ => desc

def fields : Message → Entries
  | .mk _ fields _ => fields

def extensions : Message → Entries
  | .mk _ _ extensions => extensions

def fullName (message : Message) : Text := message.desc.fullName

def hasField (message : Message) (field : FieldDesc) : Bool :=
  message.fields.any fun entry => entry.1.number = field.number

def getFieldByName (message : Message) (name : Text) : Option PbValue :=
  (message.fields.find? fun entry => entry.1.name = name).map Prod.snd

end Message

/-- A list or a map without elements is an unset field. -/
def PbValue.isEmpty : PbValue → Bool
  | .single _ => false
  | .list items => items.isEmpty
  | .map entries => entries.isEmpty

def anyName : Text := str "google.protobuf.Any"
def debugInfoName : Text := str "google.rpc.DebugInfo"

def underscore : UInt8 := 95

def isAsciiAlphabetic (byte : UInt8) : Bool :=
  (65 ≤ byte && byte ≤ 90) || (97 ≤ byte && byte ≤ 122)

def isAsciiDigit (byte : UInt8) : Bool := 48 ≤ byte && byte ≤ 57

def isIdentifier : Text → Bool
  | [] => false
  | first :: rest =>
      (isAsciiAlphabetic first || first = underscore) &&
        rest.all fun byte => isAsciiAlphabetic byte || isAsciiDigit byte || byte = underscore

def isFullName (name : Text) : Bool := !name.isEmpty && (name.splitOn dot).all isIdentifier

/-- The type a URL names: what follows its last slash, when that is a full name. -/
def anyTypeName (typeUrl : Text) : Option Text :=
  (rposition (· = slash) typeUrl).bind fun at_ =>
    let name := typeUrl.drop (at_ + 1)
    if isFullName name then some name else none

namespace Message

def typeUrl (any : Message) : Text :=
  match any.getFieldByName (str "type_url") with
  | some (.single (.scalar (.string url))) => url
  | _ => []

def packed (any : Message) : Text :=
  match any.getFieldByName (str "value") with
  | some (.single (.scalar (.bytes bytes))) => bytes
  | _ => []

def valueField (any : Message) : FieldDesc :=
  (any.desc.fields.find? fun field => field.name = str "value").getD ⟨2, str "value", false, false⟩

/-- Sets the packed bytes; empty ones are an unset field. -/
def repack (any : Message) (bytes : Text) : Message :=
  let others := any.fields.filter fun entry => entry.1.name ≠ str "value"
  let value :=
    if bytes.isEmpty then []
    else [(any.valueField, .single (.scalar (.bytes bytes)))]
  .mk any.desc (others ++ value) any.extensions

end Message

structure Pool where
  types : List MessageDesc

def Pool.resolve (pool : Pool) (name : Text) : Option MessageDesc :=
  pool.types.find? fun desc => desc.fullName = name

/-! ### Scrubbing -/

/-- A malformed status; `exhausted` when the recursion was cut short. -/
inductive Failure where
  | malformed
  | exhausted
  deriving DecidableEq

/-- None when the message must go; otherwise what is left, and whether anything changed. -/
abbrev Scrubbed (α : Type) := Except Failure (Option (α × Bool))

/-- The elements of a list or the entries of a map, those that must go removed. -/
def scrubAll {α : Type} (scrub : Message → Scrubbed Message) (item : α → Item)
    (put : α → Item → α) : List α → Except Failure (List α × Bool)
  | [] => .ok ([], false)
  | a :: rest =>
      match item a with
      | .scalar _ =>
          (scrubAll scrub item put rest).map fun (kept, changed) => (a :: kept, changed)
      | .message inner =>
          match scrub inner with
          | .error failure => .error failure
          | .ok none => (scrubAll scrub item put rest).map fun (kept, _) => (kept, true)
          | .ok (some (inner, innerChanged)) =>
              (scrubAll scrub item put rest).map fun (kept, changed) =>
                (put a (.message inner) :: kept, innerChanged || changed)

def scrubValue (scrub : Message → Scrubbed Message) : PbValue → Scrubbed PbValue
  | .single (.message inner) =>
      (scrub inner).map fun outcome =>
        outcome.map fun (inner, changed) => (.single (.message inner), changed)
  | .single (.scalar value) => .ok (some (.single (.scalar value), false))
  | .list items =>
      (scrubAll scrub id (fun _ item => item) items).map fun (items, changed) =>
        some (.list items, changed)
  | .map entries =>
      (scrubAll scrub Prod.snd (fun entry item => (entry.1, item)) entries).map
        fun (entries, changed) => some (.map entries, changed)

/-- The populated fields, or the extensions, in order. A `required` field that must go takes the whole
message with it; no extension is `required`. -/
def scrubEntries (scrub : Message → Scrubbed Message) (ownFields : Bool) :
    Entries → Scrubbed Entries
  | [] => .ok (some ([], false))
  | (field, value) :: rest =>
      if !field.isMessage then
        (scrubEntries scrub ownFields rest).map fun outcome =>
          outcome.map fun (kept, changed) => ((field, value) :: kept, changed)
      else
        match scrubValue scrub value with
        | .error failure => .error failure
        | .ok none =>
            if ownFields && field.required then .ok none
            else
              (scrubEntries scrub ownFields rest).map fun outcome =>
                outcome.map fun (kept, _) => (kept, true)
        | .ok (some (value, valueChanged)) =>
            (scrubEntries scrub ownFields rest).map fun outcome =>
              outcome.map fun (kept, changed) =>
                (if value.isEmpty then kept else (field, value) :: kept, valueChanged || changed)

def lacksRequired (message : Message) : Bool :=
  message.desc.fields.any fun field => field.required && !message.hasField field

def scrubFields (scrub : Message → Scrubbed Message) (message : Message) : Scrubbed Message :=
  if lacksRequired message then .error .malformed
  else
    match scrubEntries scrub true message.fields with
    | .error failure => .error failure
    | .ok none => .ok none
    | .ok (some (fields, changed)) =>
        (scrubEntries scrub false message.extensions).map fun outcome =>
          outcome.map fun (extensions, extensionsChanged) =>
            (.mk message.desc fields extensions, changed || extensionsChanged)

structure Wire where
  decode : MessageDesc → Text → Option Message
  encode : Message → Text

variable (pool : Pool) (wire : Wire)

def scrubAny (scrub : Message → Scrubbed Message) (any : Message) : Scrubbed Message :=
  match anyTypeName any.typeUrl with
  | none => .error .malformed
  | some name =>
      if name = debugInfoName then .ok none
      else
        match pool.resolve name with
        | none => .ok (some (any, false))
        | some desc =>
            match wire.decode desc any.packed with
            | none => .error .malformed
            | some inner =>
                match scrub inner with
                | .error failure => .error failure
                | .ok none => .ok none
                | .ok (some (_, false)) => .ok (some (any, false))
                | .ok (some (inner, true)) => .ok (some (any.repack (wire.encode inner), true))

/-- `scrub`, through at most `depth` messages below one another. -/
def scrub : Nat → Message → Scrubbed Message
  | 0, _ => .error .exhausted
  | depth + 1, message =>
      if message.fullName = anyName then scrubAny pool wire (scrub depth) message
      else if message.fullName = debugInfoName then .ok none
      else scrubFields (scrub depth) message

end StructuredProxy.Status
