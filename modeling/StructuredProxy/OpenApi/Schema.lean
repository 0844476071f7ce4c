import StructuredProxy.Lib.Registry
import StructuredProxy.Request.Descriptor

/-!
# Schemas of the OpenAPI document

What `openapi.rs` makes of message types: the schema of a field in a body or in a parameter, the schema of
a message, and the components registered for the messages below it. A component goes under the short
name of its message, and a reference names no more than that.
-/

namespace StructuredProxy.OpenApi

open Lib

/-- How a field's value travels, which decides its schema where the two differ. -/
inductive Encoding where
  | json
  | param
deriving DecidableEq

structure Described where
  type : MessageType
  without : List Text := []

namespace Described

variable (described : Described)

def name : Text := described.type.name

def fields : List Field :=
  described.type.fields.filter fun field => !described.without.contains field.name

end Described

structure Form where
  type : Text
  format : Option Text := none
  description : Option Text := none
  sample : Option Text := none

inductive Schema where
  /-- `{}`: any value. -/
  | any
  | null
  | form (form : Form)
  | enum (values : List Text)
  /-- A `google.protobuf.Any`: its `@type`, and any other properties. -/
  | typed
  /-- What the reference is written for; the document shows `#/components/schemas/` and its name. -/
  | ref (message : Described)
  | array (items : Schema)
  /-- An object of `additionalProperties`. -/
  | map (values : Schema)
  | object (properties : List (Text × Schema))

abbrev Schemas := KeyMap Text Schema

def Schema.ofType (type : String) : Schema := .form { type := str type }

def wellKnown (name : String) : Text := str "google.protobuf." ++ str name

def wellKnownForms : List (Text × Schema) :=
  [(wellKnown "Timestamp", .form { type := str "string", format := str "date-time" }),
    (wellKnown "Duration",
      .form { type := str "string", format := str "duration", sample := str "3.5s" }),
    (wellKnown "Empty", .ofType "object"),
    (wellKnown "Struct", .ofType "object"),
    (wellKnown "Value", .any),
    (wellKnown "ListValue", .array .any),
    (wellKnown "StringValue", .ofType "string"),
    (wellKnown "BytesValue", .ofType "string"),
    (wellKnown "BoolValue", .ofType "boolean"),
    (wellKnown "Int32Value", .ofType "integer"),
    (wellKnown "UInt32Value", .ofType "integer"),
    (wellKnown "Int64Value", .form { type := str "string", format := str "int64" }),
    (wellKnown "UInt64Value", .form { type := str "string", format := str "uint64" }),
    (wellKnown "FloatValue", .ofType "number"),
    (wellKnown "DoubleValue", .ofType "number"),
    (wellKnown "FieldMask",
      .form { type := str "string", description := str "Comma-separated field paths" }),
    (wellKnown "Any", .typed)]

def wellKnownSchema (type : MessageType) : Schema :=
  (wellKnownForms.lookup type.fullName).getD (.ofType "object")

section

variable (types : Types)

def kindSchema (encoding : Encoding) : Kind → Schema
  | .double | .float => .form { type := str "number", format := str "double" }
  | .int32 | .sint32 | .sfixed32 => .form { type := str "integer", format := str "int32" }
  | .int64 | .sint64 | .sfixed64 =>
      .form { type := str "string", format := str "int64",
              description := str "64-bit integer (string-encoded)" }
  | .uint32 | .fixed32 => .form { type := str "integer", format := str "uint32" }
  | .uint64 | .fixed64 =>
      .form { type := str "string", format := str "uint64",
              description := str "64-bit unsigned integer (string-encoded)" }
  | .bool => .ofType "boolean"
  | .string => .ofType "string"
  | .bytes => .form { type := str "string", format := str "byte" }
  | .enum fullName values =>
      if fullName = wellKnown "NullValue" && encoding = .json then .null
      else .enum (values.map Prod.fst)
  | .message type =>
      match types[type]? with
      | none => .any
      | some type =>
          -- a parameter string becomes a `Value`'s string value
          if encoding = .param && type.fullName = wellKnown "Value" then .ofType "string"
          else if type.hasSpecialJson then wellKnownSchema type
          else .ref { type }

def mapValue (field : Field) : Option Field :=
  (types.typeOf field.kind).bind (·.getFieldByName (str "value"))

def elementSchema (encoding : Encoding) (field : Field) : Schema :=
  if field.isList then .array (kindSchema types encoding field.kind)
  else kindSchema types encoding field.kind

/-- The value field of a map entry is no map itself, see `Descriptors.maps`. -/
def fieldToSchema (encoding : Encoding) (field : Field) : Schema :=
  if !field.isList && field.isMap then
    if (types.typeOf field.kind).isSome then
      .map (((mapValue types field).map (elementSchema types encoding)).getD .any)
    else .ofType "object"
  else elementSchema types encoding field

/-- The message a field has its component registered for: one that ProtoJSON writes as an object of its
fields. -/
def nested (field : Field) : Option Described :=
  ((types.typeOf field.kind).filter (!·.hasSpecialJson)).map fun type => { type }

def messageSchema (described : Described) : Schema :=
  .object (described.fields.map fun field => (field.jsonName, fieldToSchema types .json field))

/-- The schema of a message, after those of the messages below it are registered. -/
def messageToSchema (registerNested : Schemas → Field → Option Schemas) (described : Described)
    (schemas : Schemas) : Option (Schema × Schemas) := do
  let schemas ← described.fields.foldlM registerNested schemas
  return (messageSchema types described, schemas)

/-- What stands for a component while the fields of its message are walked. -/
def placeholder : Schema := .ofType "object"

/-- Register the schema of a message-typed field, the calls nested at most `fuel` deep. -/
def registerNested (fuel : Nat) (schemas : Schemas) (field : Field) : Option Schemas :=
  match nested types field with
  | none => some schemas
  | some nested =>
      match fuel with
      | 0 => none
      | fuel + 1 =>
          if (schemas.get nested.name).isSome then some schemas
          else do
            let (schema, schemas) ← messageToSchema types (registerNested fuel) nested
              (schemas.set nested.name placeholder)
            return schemas.set nested.name schema

/-- A reference to a message whose component is written, whatever the name held. -/
def messageRef (fuel : Nat) (described : Described) (schemas : Schemas) :
    Option (Schema × Schemas) := do
  let (schema, schemas) ← messageToSchema types (registerNested types fuel) described schemas
  return (.ref described, schemas.set described.name schema)

/-- A reference to a message whose component is written unless the name is taken. -/
def messageRefOrInline (fuel : Nat) (type : MessageType) (schemas : Schemas) :
    Option (Schema × Schemas) :=
  if (schemas.get type.name).isSome then some (.ref { type }, schemas)
  else messageRef types fuel { type } schemas

end

end StructuredProxy.OpenApi
