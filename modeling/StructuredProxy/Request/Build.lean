import StructuredProxy.Request.Bind
import StructuredProxy.Request.Json
import StructuredProxy.Transcode.Rule

/-!
# Building the request message

`build` reads the body as its mapping says, then sets the fields the path binds, then fills what is
left from the query. A JSON body that cannot be read is read again without the keys the path binds.
-/

namespace StructuredProxy

inductive Body where
  | absent
  | json (bytes : Text)
  | form (bytes : Text)

def isJsonWhitespace (byte : UInt8) : Bool :=
  byte = 32 || byte = 9 || byte = 10 || byte = 13

def trimJsonWhitespace (bytes : Text) : Text :=
  ((bytes.dropWhile isJsonWhitespace).reverse.dropWhile isJsonWhitespace).reverse

structure Libraries where
  strings : StringReaders
  proto : ProtoJson
  parseJson : Text → Except Text Json
  /-- The text of a null is `null`, with whitespace around it. -/
  parseJson_null : ∀ bytes, parseJson bytes = .ok .null ↔ trimJsonWhitespace bytes = str "null"
  parseForm : Text → List (Text × Text)
  writeJson : MessageType → Fields → Except Text Unit

/-- The entries of an object as the JSON value type keeps them: sorted by key, the last of each. -/
def sortEntries (entries : List (Text × Json)) : List (Text × Json) :=
  ((entries.map Prod.fst).eraseDups.mergeSort fun a b => decide (a ≤ b)).filterMap fun key =>
    (entries.reverse.lookup key).map fun json => (key, json)

mutual

def Json.toValue : Json → Json
  | .array items => .array (toValues items)
  | .object entries => .object (sortEntries (toValueEntries entries))
  | json => json

def toValues : List Json → List Json
  | [] => []
  | json :: items => json.toValue :: toValues items

def toValueEntries : List (Text × Json) → List (Text × Json)
  | [] => []
  | (key, json) :: entries => (key, json.toValue) :: toValueEntries entries

end

def modifyEntry (key : Text) (change : Json → Json) : List (Text × Json) → List (Text × Json)
  | [] => []
  | (other, json) :: entries =>
      if other = key then (other, change json) :: entries
      else (other, json) :: modifyEntry key change entries

section

variable (types : Types)

def removePath : List Text → MessageType → Json → Json
  | [], _, json => json
  | segment :: segments, type, json =>
      match json, fieldNamed type segment with
      | .object entries, some (field, _) =>
          match segments with
          | [] => .object (entries.filter fun entry =>
              entry.1 ≠ field.jsonName && entry.1 ≠ field.name)
          | next :: segments =>
              match types.typeOf field.kind with
              | none => json
              | some inner =>
                  let key :=
                    if entries.any (·.1 = field.jsonName) then field.jsonName else field.name
                  .object (modifyEntry key (removePath (next :: segments) inner) entries)
      | _, _ => json

def stripPathField (input : MessageType) (mapping : BodyMapping) (body : Json) (key : Text) : Json :=
  match mapping with
  | .none => body
  | .root => removePath types (key.splitOn dot) input body
  | .field name =>
      match key.splitOn dot with
      | [] => body
      | first :: segments =>
          if first ≠ name then body
          else
            match (input.getFieldByName name).bind fun field => types.typeOf field.kind with
            | none => body
            | some inner => removePath types segments inner body

def stripPathFields (input : MessageType) (mapping : BodyMapping) (pathParams : List (Text × Text))
    (body : Json) : Json :=
  (pathParams.map Prod.fst).foldl (stripPathField types input mapping) body

/-- The body as an object of the input: under `body: field` the value of that field. -/
def wrapBody (input : MessageType) (mapping : BodyMapping) (body : Json) : Json :=
  match mapping with
  | .field name =>
      let key := ((input.getFieldByName name).map Field.jsonName).getD name
      .object [(key, body)]
  | _ => body

variable (libs : Libraries)

def deserialize (input : MessageType) (mapping : BodyMapping) (body : Json)
    (presence : Option Presence) : Except Text Draft :=
  (readMessage types libs.proto input (wrapBody input mapping body)).map fun fields =>
    { fields
      presence := presence.map (recordMessage types libs.proto input (wrapBody input mapping body)) }

def bodyError (error : Text) : Text := str "failed to decode request body: " ++ error

/-- Deserialize a JSON body; one that fails is read again without the keys the path binds. -/
def jsonBody (input : MessageType) (mapping : BodyMapping) (bytes : Text)
    (pathParams : List (Text × Text)) (presence : Option Presence) : Except Text Draft :=
  if mapping = .root && trimJsonWhitespace bytes = str "null" then .ok { fields := [], presence }
  else
    match libs.parseJson bytes with
    | .error error => .error (bodyError error)
    | .ok body =>
        match deserialize types libs input mapping body presence with
        | .ok draft => .ok draft
        | .error error =>
            if pathParams.isEmpty then .error (bodyError error)
            else
              (deserialize types libs input mapping
                (stripPathFields types input mapping pathParams body.toValue)
                (presence.map fun _ => {})).mapError bodyError

/-- The message field a form body fills under `body: field`. -/
def formField (input : MessageType) (name : Text) : Option (Field × MessageType) := do
  let field ← (input.getFieldByName name).filter fun field => !field.isList && !field.isMap
  let inner ← types.typeOf field.kind
  return (field, inner)

def formBody (input : MessageType) (mapping : BodyMapping) (pairs pathParams : List (Text × Text))
    (presence : Option Presence) : Except Text Bool × Draft :=
  match mapping with
  | .field name =>
      match formField types input name with
      | none =>
          (.error (str "a form body cannot fill field `" ++ name ++ str "`"), { fields := [], presence })
      | some (field, inner) =>
          -- The field is the body's even when the form is empty of it.
          let draft : Draft := {
            fields := Fields.setField [] field (.message field.kind.messageType [])
            presence := presence.map (·.recordPath [field] true) }
          bindPairs types libs.strings pairs
            { root := input, inside := inner.hasSpecialJson, within := some field } .set
            (some pathParams) draft
  | _ =>
      bindPairs types libs.strings pairs
        { root := input, inside := input.hasSpecialJson, within := none } .set (some pathParams)
        { fields := [], presence }

/-! ### Well-known types set field by field -/

def heldAt (type : MessageType) (fields : Fields) (name : Text) : Option Value :=
  (type.getFieldByName name).bind fun field => fields.lookup field.number

def heldI64 (type : MessageType) (fields : Fields) (name : Text) : Int :=
  match heldAt type fields name with
  | some (.i64 value) => value
  | _ => 0

def heldI32 (type : MessageType) (fields : Fields) (name : Text) : Int :=
  match heldAt type fields name with
  | some (.i32 value) => value
  | _ => 0

def checkTimeRange (type : MessageType) (fields : Fields) : Except Text Unit :=
  let seconds := heldI64 type fields (str "seconds")
  let nanos := heldI32 type fields (str "nanos")
  if type.fullName = str "google.protobuf.Timestamp" then
    if ¬(-62135596800 ≤ seconds ∧ seconds ≤ 253402300799) ∨ ¬(0 ≤ nanos ∧ nanos ≤ 999999999) then
      .error (str "timestamp out of range")
    else .ok ()
  else if type.fullName = str "google.protobuf.Duration" then
    if 315576000000 < seconds.natAbs ∨ 999999999 < nanos.natAbs ∨ (0 < seconds ∧ nanos < 0) ∨
        (seconds < 0 ∧ 0 < nanos) then
      .error (str "duration out of range")
    else .ok ()
  else .ok ()

mutual

def checkValueTimeRanges : Value → Except Text Unit
  | .message type fields =>
      match (types[type]?).elim (.ok ()) fun type => checkTimeRange type fields with
      | .error error => .error error
      | .ok () => checkFieldsTimeRanges fields
  | .list items => checkItemsTimeRanges items
  | .map entries => checkEntriesTimeRanges entries
  | _ => .ok ()

def checkFieldsTimeRanges : List (Nat × Value) → Except Text Unit
  | [] => .ok ()
  | (_, value) :: fields =>
      match checkValueTimeRanges value with
      | .error error => .error error
      | .ok () => checkFieldsTimeRanges fields

def checkItemsTimeRanges : List Value → Except Text Unit
  | [] => .ok ()
  | value :: items =>
      match checkValueTimeRanges value with
      | .error error => .error error
      | .ok () => checkItemsTimeRanges items

def checkEntriesTimeRanges : List (Value × Value) → Except Text Unit
  | [] => .ok ()
  | (_, value) :: entries =>
      match checkValueTimeRanges value with
      | .error error => .error error
      | .ok () => checkEntriesTimeRanges entries

end

/-- Refuse a well-known type set field by field whose value its JSON form could not hold. -/
def checkWellKnown (input : MessageType) (fields : Fields) : Except Text Unit :=
  (do
    checkTimeRange input fields
    checkFieldsTimeRanges types fields
    libs.writeJson input fields).mapError fun error =>
      str "invalid value for a well-known type: " ++ error

def settled (result : Except Text Bool × Draft) : Except Text (Bool × Draft) :=
  result.1.map fun inside => (inside, result.2)

/-- The text of a JSON body; an empty body is `{}`. -/
def jsonText (bytes : Text) : Text := if bytes.isEmpty then str "\x7b\x7d" else bytes

def readBody (input : MessageType) (mapping : BodyMapping) (body : Body)
    (pathParams : List (Text × Text)) (presence : Option Presence) : Except Text (Bool × Draft) :=
  let json (bytes : Text) :=
    (jsonBody types libs input mapping bytes pathParams presence).map fun draft => (false, draft)
  match mapping, body with
  | .none, _ => .ok (false, { fields := [], presence })
  | .field name, .absent =>
      let recorded := (input.getFieldByName name).elim presence fun field =>
        presence.map (·.recordPath [field] false)
      .ok (false, { fields := [], presence := recorded })
  | .root, .absent => .ok (false, { fields := [], presence })
  | _, .json bytes => json (jsonText bytes)
  | _, .form bytes =>
      if bytes.isEmpty then json (jsonText bytes)
      else settled (formBody types libs input mapping (libs.parseForm bytes) pathParams presence)

def rootStart (input : MessageType) : Start :=
  { root := input, inside := input.hasSpecialJson, within := none }

def bindPath (input : MessageType) : List (Text × Text) → Bool → Draft → Except Text (Bool × Draft)
  | [], inside, draft => .ok (inside, draft)
  | (key, raw) :: params, inside, draft => do
      let (set, draft) ← settled (bind types libs.strings (rootStart input) key [raw] .set draft)
      bindPath input params (inside || set) draft

/-- Fill what is left from the query; without a query there is nothing recorded and nothing to do. -/
def bindQuery (input : MessageType) (query : List (Text × Text)) (inside : Bool) (draft : Draft) :
    Except Text (Bool × Draft) :=
  match draft.presence with
  | none => .ok (inside, draft)
  | some _ =>
      (settled (bindPairs types libs.strings query (rootStart input) .fill none draft)).map
        fun (set, draft) => (inside || set, draft)

def build (input : MessageType) (mapping : BodyMapping) (body : Body)
    (pathParams query : List (Text × Text)) : Except Text Fields := do
  let presence := if query.isEmpty then none else some {}
  let (inside, draft) ← readBody types libs input mapping body pathParams presence
  let (inside, draft) ← bindPath types libs input pathParams inside draft
  let (inside, draft) ← bindQuery types libs input query inside draft
  if inside then checkWellKnown types libs input draft.fields
  return draft.fields

end

end StructuredProxy
