import StructuredProxy.Transcode.Text
import Mathlib.Data.List.Nodup

/-!
# Message types

What the descriptors say of a message type, as far as requests are built from it: its fields with
their names, numbers, kinds and oneofs. A field of a message kind names its type by position, so types
may contain themselves.
-/

namespace StructuredProxy

inductive Kind where
  | double | float
  | int32 | int64 | uint32 | uint64 | sint32 | sint64
  | fixed32 | fixed64 | sfixed32 | sfixed64
  | bool | string | bytes
  | enum (fullName : Text) (values : List (Text × Int))
  | message (type : Nat)
deriving DecidableEq

structure Oneof where
  name : Text
  members : List Nat
deriving DecidableEq

structure Field where
  number : Nat
  name : Text
  jsonName : Text
  kind : Kind
  isList : Bool := false
  isMap : Bool := false
  oneof : Option Oneof := none
deriving DecidableEq

def Field.named (field : Field) (key : Text) : Bool := key = field.name || key = field.jsonName

/-- A message type. The descriptor pool refuses a second field of one number, name or JSON name; a proto
name is an identifier, so no dot is in it. -/
structure MessageType where
  fullName : Text
  fields : List Field
  numbers_nodup : (fields.map Field.number).Nodup := by decide
  names_nodup : (fields.map Field.name).Nodup := by decide
  jsonNames_nodup : (fields.map Field.jsonName).Nodup := by decide
  names_dotless : (fields.all fun field => !field.name.contains dot) = true := by decide
  oneofs : (fields.all fun field => fields.all fun other => field.oneof.all fun oneof =>
    decide (other.number ∈ oneof.members) = decide (other.oneof = some oneof)) = true := by decide
deriving DecidableEq

namespace MessageType

variable (type : MessageType)

def name : Text := (type.fullName.splitOn dot).getLastD []

def getFieldByName (name : Text) : Option Field := type.fields.find? (·.name = name)

def getFieldByJsonName (name : Text) : Option Field := type.fields.find? (·.jsonName = name)

/-- The types read through their own JSON form rather than as a map of fields. -/
def specialNames : List Text :=
  ["Any", "Timestamp", "Duration", "Struct", "FloatValue", "DoubleValue", "Int32Value", "Int64Value",
    "UInt32Value", "UInt64Value", "BoolValue", "StringValue", "BytesValue", "FieldMask", "ListValue",
    "Value", "Empty"].map fun name => str "google.protobuf." ++ str name

def hasSpecialJson : Bool := specialNames.contains type.fullName

variable {type} {name : Text} {field other : Field}

theorem mem_of_getFieldByName (h : type.getFieldByName name = some field) :
    field ∈ type.fields ∧ field.name = name :=
  ⟨List.mem_of_find?_eq_some h, by simpa using List.find?_some h⟩

theorem mem_of_getFieldByJsonName (h : type.getFieldByJsonName name = some field) :
    field ∈ type.fields ∧ field.jsonName = name :=
  ⟨List.mem_of_find?_eq_some h, by simpa using List.find?_some h⟩

theorem eq_of_number_eq (hfield : field ∈ type.fields) (hother : other ∈ type.fields)
    (hnumber : field.number = other.number) : field = other :=
  List.inj_on_of_nodup_map type.numbers_nodup hfield hother hnumber

theorem eq_of_name_eq (hfield : field ∈ type.fields) (hother : other ∈ type.fields)
    (hname : field.name = other.name) : field = other :=
  List.inj_on_of_nodup_map type.names_nodup hfield hother hname

theorem dot_notMem_name (hfield : field ∈ type.fields) : dot ∉ field.name := by
  have hdotless := List.all_eq_true.mp type.names_dotless field hfield
  simpa using hdotless

theorem getFieldByName_name (hfield : field ∈ type.fields) :
    type.getFieldByName field.name = some field := by
  have hsome : (type.getFieldByName field.name).isSome = true :=
    List.find?_isSome.mpr ⟨field, hfield, decide_eq_true rfl⟩
  obtain ⟨other, hother⟩ := Option.isSome_iff_exists.mp hsome
  obtain ⟨hmem, hname⟩ := mem_of_getFieldByName hother
  rw [hother, eq_of_name_eq hmem hfield hname]

theorem eq_of_jsonName_eq (hfield : field ∈ type.fields) (hother : other ∈ type.fields)
    (hname : field.jsonName = other.jsonName) : field = other :=
  List.inj_on_of_nodup_map type.jsonNames_nodup hfield hother hname

end MessageType

abbrev Types := List MessageType

def Types.typeOf (types : Types) (kind : Kind) : Option MessageType :=
  match kind with
  | .message type => types[type]?
  | _ => none

end StructuredProxy
