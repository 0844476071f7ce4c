import StructuredProxy.OpenApi.Schema
import StructuredProxy.Transcode.Rule

/-!
# The operation of one binding

`build_operation`: the parameters of the path and of the query, the request body by the body rule, the
responses. The messages it refers to are registered on the way.
-/

namespace StructuredProxy.OpenApi

open Lib

structure ApiMethod extends MethodDescriptor where
  input : MessageType
  output : MessageType
  serverStreaming : Bool := false

structure ApiService where
  fullName : Text
  methods : List ApiMethod

namespace ApiService

variable (service : ApiService)

def name : Text := (service.fullName.splitOn dot).getLastD []

def descriptor : ServiceDescriptor where
  fullName := service.fullName
  methods := service.methods.map ApiMethod.toMethodDescriptor

end ApiService

/-- The type of a map field is an ordinary message whose `value` is one value. -/
def entryShaped (types : Types) (field : Field) : Bool :=
  !field.isMap || (!field.isList && (types.typeOf field.kind).any (!·.hasSpecialJson) &&
    (mapValue types field).any fun value => !value.isList && !value.isMap)

structure Descriptors where
  types : Types
  services : List ApiService
  /-- Whether the pool holds the extension `google.api.http`. -/
  httpExtension : Bool := true
  maps : (types.all fun type => type.fields.all (entryShaped types)) = true := by decide
  messages : (services.all fun service => service.methods.all fun method =>
    types.contains method.input && types.contains method.output) = true := by decide

def Descriptors.pool (descriptors : Descriptors) : DescriptorPool where
  httpExtension := descriptors.httpExtension
  services := descriptors.services.map ApiService.descriptor

section

variable {descriptors : Descriptors} {type : MessageType} {field : Field}

theorem Descriptors.entry_of_isMap (htype : type ∈ descriptors.types) (hfield : field ∈ type.fields)
    (hmap : field.isMap = true) : field.isList = false ∧
      (∃ entry, nested descriptors.types field = some entry) ∧
      ∃ value, mapValue descriptors.types field = some value ∧ value.isList = false ∧
        value.isMap = false := by
  have hshaped := List.all_eq_true.mp (List.all_eq_true.mp descriptors.maps type htype) field hfield
  rw [entryShaped, hmap, Bool.not_true, Bool.false_or, Bool.and_eq_true, Bool.and_eq_true,
    Bool.not_eq_true', Option.any_eq_true, Option.any_eq_true] at hshaped
  obtain ⟨⟨hlist, entry, hentry, hspecial⟩, value, hvalue, hsingle⟩ := hshaped
  rw [Bool.and_eq_true, Bool.not_eq_true', Bool.not_eq_true'] at hsingle
  refine ⟨hlist, ⟨⟨entry, []⟩, ?_⟩, value, hvalue, hsingle⟩
  rw [nested, hentry, Option.filter_some, hspecial]
  rfl

end

/-- A `google.api.HttpBody` with the fields the transcoder reads and writes. -/
def isHttpBody (type : MessageType) : Bool :=
  let fieldIs (name : Text) (kind : Kind) :=
    (type.getFieldByName name).any fun field => field.kind = kind && !field.isList
  type.fullName = str "google.api.HttpBody" && fieldIs (str "content_type") .string &&
    fieldIs (str "data") .bytes

section

variable (types : Types)

def httpBodyField (type : MessageType) (name : Text) : Option (Field × MessageType) := do
  let field ← type.getFieldByName name
  let inner ← types.typeOf field.kind
  if !field.isList && isHttpBody inner then some (field, inner) else none

/-- The fields a dotted path walks, when it ends at an `HttpBody`. -/
def httpBodySegments (type : MessageType) : List Text → Option (List Field)
  | [] => if isHttpBody type then some [] else none
  | segment :: segments => do
      let field ← type.getFieldByName segment
      let inner ← types.typeOf field.kind
      if field.isList then none
      else return field :: (← httpBodySegments inner segments)

def httpBodyPath (type : MessageType) (path : Text) : Option (List Field) :=
  httpBodySegments types type (path.splitOn dot)

/-- The field a `response_body` path names, through singular message fields. -/
def responseSegments (type : MessageType) : List Text → Option Field
  | [] => none
  | [segment] => type.getFieldByName segment
  | segment :: next :: segments => do
      let field ← type.getFieldByName segment
      let inner ← types.typeOf field.kind
      if field.isList || field.isMap then none else responseSegments inner (next :: segments)

def responseField (output : MessageType) (path : Text) : Option Field :=
  responseSegments types output (path.splitOn dot)

end

inductive Place where
  | path
  | query
deriving DecidableEq

structure Parameter where
  name : Text
  place : Place
  schema : Schema

structure ParamScan where
  params : List Text := []
  inBrace : Bool := false
  current : Text := []

def ParamScan.next (scan : ParamScan) (byte : UInt8) : ParamScan :=
  if byte = openBrace then { scan with inBrace := true, current := [] }
  else if byte = closeBrace then
    let name := scan.current.takeWhile (· ≠ equals)
    { scan with inBrace := false, params := scan.params ++ if name.isEmpty then [] else [name] }
  else if scan.inBrace then { scan with current := scan.current ++ [byte] }
  else scan

def extractPathParams (path : Text) : List Text := (path.foldl ParamScan.next {}).params

def hasStringForm (type : MessageType) : Bool :=
  (["Timestamp", "Duration", "FieldMask", "Value", "DoubleValue", "FloatValue", "Int64Value",
    "UInt64Value", "Int32Value", "UInt32Value", "BoolValue", "StringValue", "BytesValue"].map
      wellKnown).contains type.fullName

section

variable (types : Types)

def pathParam (input : MessageType) (name : Text) : Parameter where
  name := name
  place := .path
  schema :=
    match input.getFieldByName name with
    | some field => fieldToSchema types .param field
    | none => .ofType "string"

/-- A parameter for every field below `message` that `bound` leaves to the query, the calls nested at most
`fuel` deep. -/
def queryParams (bound : Text → Bool) :
    Nat → MessageType → Text → List Text → Option (List Parameter)
  | 0, _, _, _ => none
  | fuel + 1, message, before, onTheWay => do
      let params ← message.fields.mapM fun field =>
        let key := before ++ field.name
        let parameter : Parameter :=
          { name := key, place := .query, schema := fieldToSchema types .param field }
        if bound key || field.isMap then some []
        else
          match types.typeOf field.kind with
          | none => some [parameter]
          | some inner =>
              if hasStringForm inner then some [parameter]
              else if field.isList || onTheWay.contains inner.fullName then some []
              else queryParams bound fuel inner (key ++ [dot]) (onTheWay ++ [inner.fullName])
      return params.flatten

/-! ### Bodies -/

structure Content where
  mediaType : Text
  schema : Schema

def rawContent : Content where
  mediaType := str "*/*"
  schema := .form { type := str "string", format := str "binary" }

def jsonContent (schema : Schema) : Content := ⟨str "application/json", schema⟩

def fieldContent (fuel : Nat) (field : Field) (schemas : Schemas) : Option (Content × Schemas) := do
  let schemas ← registerNested types fuel schemas field
  return (jsonContent (fieldToSchema types .json field), schemas)

def requestBody (fuel : Nat) (input : MessageType) (pathParams : List Text) (schemas : Schemas) :
    BodyMapping → Option (Option Content × Schemas)
  | .none => some (none, schemas)
  | .root =>
      if isHttpBody input then some (some rawContent, schemas)
      else if input.fields.any fun field => !pathParams.contains field.name then do
        let (schema, schemas) ← messageRef types fuel { type := input, without := pathParams } schemas
        return (some (jsonContent schema), schemas)
      else some (none, schemas)
  | .field name =>
      match input.getFieldByName name with
      | none => some (none, schemas)
      | some field =>
          if (httpBodyField types input name).isSome then some (some rawContent, schemas)
          else do
            let (content, schemas) ← fieldContent types fuel field schemas
            return (some content, schemas)

structure Response where
  description : Text
  content : Option Content := none

def rawResponse (output : MessageType) : Option Text → Bool
  | none => isHttpBody output
  | some path => (httpBodyPath types output path).isSome

def successResponse (fuel : Nat) (method : ApiMethod) (responseBody : Option Text)
    (schemas : Schemas) : Option (Response × Schemas) :=
  if rawResponse types method.output responseBody then
    let description :=
      if method.serverStreaming then
        str "Server-streaming raw body (the data of every message, concatenated)"
      else str "Success"
    some (⟨description, some rawContent⟩, schemas)
  else if method.serverStreaming then do
    let (schema, schemas) ← messageRefOrInline types fuel method.output schemas
    return (⟨str "Server-streaming response (NDJSON)",
      some ⟨str "application/x-ndjson", schema⟩⟩, schemas)
  else
    match responseBody with
    | some path =>
        match responseField types method.output path with
        | some field => do
            let (content, schemas) ← fieldContent types fuel field schemas
            return (⟨str "Success", some content⟩, schemas)
        -- the runtime answers `null` for a path that names no field
        | none => some (⟨str "Success", some (jsonContent .null)⟩, schemas)
    | none =>
        if method.output.fullName = wellKnown "Empty" then
          some (⟨str "Success (empty response)", none⟩, schemas)
        else do
          let (schema, schemas) ← messageRef types fuel { type := method.output } schemas
          return (⟨str "Success", some (jsonContent schema)⟩, schemas)

def errorResponses : List (Text × Response) :=
  [(str "400", ⟨str "Invalid argument", none⟩), (str "401", ⟨str "Unauthenticated", none⟩),
    (str "403", ⟨str "Permission denied", none⟩), (str "404", ⟨str "Not found", none⟩),
    (str "503", ⟨str "Service unavailable", none⟩)]

structure Operation where
  tag : Text
  summary : Text
  parameters : List Parameter
  requestBody : Option Content
  responses : List (Text × Response)
  operationId : Option Text := none

/-- What the path and the body leave to the query; nothing with `body: "*"`. -/
def queryParameters (fuel : Nat) (input : MessageType) (pathParams : List Text) :
    BodyMapping → Option (List Parameter)
  | .root => some []
  | .none => queryParams types (fun key => pathParams.contains key) fuel input [] [input.fullName]
  | .field name =>
      queryParams types (fun key => pathParams.contains key || key = name) fuel input []
        [input.fullName]

/-- The operation for one binding of `method`, without its `operationId`. -/
def buildOperation (fuel : Nat) (service : Text) (method : ApiMethod) (binding : HttpBinding)
    (schemas : Schemas) : Option (Operation × Schemas) := do
  let pathParams := extractPathParams binding.path
  let (body, schemas) ← requestBody types fuel method.input pathParams schemas binding.body
  let query ← queryParameters types fuel method.input pathParams binding.body
  let (success, schemas) ← successResponse types fuel method binding.responseBody schemas
  return ({
    tag := service
    summary := method.name
    parameters := pathParams.map (pathParam types method.input) ++ query
    requestBody := body
    responses := (str "200", success) :: errorResponses }, schemas)

end

def stripResponseContent (operation : Operation) : Operation :=
  { operation with responses :=
      operation.responses.map fun (code, response) => (code, { response with content := none }) }

end StructuredProxy.OpenApi
