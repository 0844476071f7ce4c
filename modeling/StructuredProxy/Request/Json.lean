import StructuredProxy.Request.Presence

/-!
# Reading a JSON body

The reflection library reads a message as a JSON object, one field for each key, by its JSON name or
else its proto name. What it makes of a value that is not itself such an object (a scalar, a list, a
map, a well-known type) is a parameter. `Recording` passes everything on and records the keys.
-/

namespace StructuredProxy

inductive Json where
  | null
  | bool (value : Bool)
  | number (token : Text)
  | string (value : Text)
  | array (items : List Json)
  | object (entries : List (Text × Json))

/-- What is recorded of a value that was read: nothing below a key that holds it as a whole, every key of
an object below one that holds an object. -/
inductive Recorded : Json → Held → List KeyTree → Prop
  | whole (json : Json) (trees : List KeyTree) : Recorded json .whole trees
  | object {entries : List (Text × Json)} {trees : List KeyTree} (held : Text × Json → Held)
      (below : Text × Json → List KeyTree)
      (hmem : ∀ entry ∈ entries, .node entry.1 (held entry) (below entry) ∈ trees)
      (hbelow : ∀ entry ∈ entries, Recorded entry.2 (held entry) (below entry)) :
      Recorded (.object entries) .object trees

/-- How the reflection library reads what is not an object of fields. -/
structure ProtoJson where
  /-- The value of a field that is not a singular message read as an object of fields; none where a
  null leaves the field unset. -/
  leaf : Field → Json → Except Text (Option Value)
  /-- The keys of the objects the value of such a field is read through, none when it is not read as
  an object. -/
  leafKeys : Field → Json → Option (List KeyTree)
  leafKeys_recorded : ∀ field json trees, leafKeys field json = some trees →
    Recorded json .object trees
  special : MessageType → Json → Except Text Fields

def MessageType.jsonField (type : MessageType) (key : Text) : Option Field :=
  (type.getFieldByJsonName key).or (type.getFieldByName key)

def Types.objectType (types : Types) (field : Field) : Option MessageType :=
  if field.isList || field.isMap then none
  else (types.typeOf field.kind).filter fun type => !type.hasSpecialJson

/-- Set a field read from a key, unless a field of its oneof is set already. -/
def setRead (fields : Fields) (field : Field) (value : Value) : Except Text Fields :=
  match field.oneof.filter fun oneof => oneof.members.any fields.hasField with
  | some oneof => .error (oneofError oneof)
  | none => .ok (fields.setField field value)

section

variable (types : Types) (proto : ProtoJson)

mutual

def readField (field : Field) : Json → Except Text (Option Value)
  | .object entries =>
      match types.objectType field with
      | some type => (readEntries type entries []).map fun fields =>
          some (.message field.kind.messageType fields)
      | none => proto.leaf field (.object entries)
  | .null =>
      match types.objectType field with
      | some _ => .ok none
      | none => proto.leaf field .null
  | json =>
      match types.objectType field with
      | some _ => .error (str "invalid type, expected a map")
      | none => proto.leaf field json

def readEntries (type : MessageType) : List (Text × Json) → Fields → Except Text Fields
  | [], fields => .ok fields
  | (key, json) :: entries, fields =>
      match type.jsonField key with
      | none => .error (str "unrecognized field name '" ++ key ++ str "'")
      | some field =>
          match readField field json with
          | .error error => .error error
          | .ok none => readEntries type entries fields
          | .ok (some value) =>
              match setRead fields field value with
              | .error error => .error error
              | .ok fields => readEntries type entries fields

end

mutual

def recordedField (field : Field) : Json → Held × List KeyTree
  | .object entries =>
      match types.objectType field with
      | some type => (.object, recordedKeys type entries)
      | none =>
          match proto.leafKeys field (.object entries) with
          | some trees => (.object, trees)
          | none => (.whole, [])
  | json =>
      match types.objectType field with
      | some _ => (.whole, [])
      | none =>
          match proto.leafKeys field json with
          | some trees => (.object, trees)
          | none => (.whole, [])

def recordedKeys (type : MessageType) : List (Text × Json) → List KeyTree
  | [] => []
  | (key, json) :: entries =>
      (match type.jsonField key with
        | none => .node key .whole []
        | some field =>
            let (held, trees) := recordedField field json
            .node key held trees) :: recordedKeys type entries

end

def readMessage (type : MessageType) (json : Json) : Except Text Fields :=
  if type.hasSpecialJson then proto.special type json
  else
    match json with
    | .object entries => readEntries types proto type entries []
    | _ => .error (str "invalid type, expected a map")

def recordMessage (type : MessageType) (json : Json) (presence : Presence) : Presence :=
  if type.hasSpecialJson then presence.recordWhole
  else
    match json with
    | .object entries =>
        { presence with
          entries := presence.entries ++ KeyTree.entries.all 0 (recordedKeys types proto type entries) }
    | _ => presence

end

end StructuredProxy
