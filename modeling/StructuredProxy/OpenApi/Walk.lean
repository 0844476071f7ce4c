import StructuredProxy.Lib.Fallible
import StructuredProxy.OpenApi.Document

/-!
# What the document refers to and what it registers

Building an operation comes down to tasks: the root of a body or of an answer has its component written, a
field has the component of its message registered. The messages a selection reaches are those of its
tasks and the ones below them, and a reference is to what a task writes, or to what a field of a reached
message refers to.
-/

namespace StructuredProxy.OpenApi

open Lib

mutual

def Schema.refs : Schema → List Described
  | .ref message => [message]
  | .array items => items.refs
  | .map values => values.refs
  | .object properties => propertyRefs properties
  | _ => []

def propertyRefs : List (Text × Schema) → List Described
  | [] => []
  | (_, schema) :: properties => schema.refs ++ propertyRefs properties

end

theorem propertyRefs_eq (properties : List (Text × Schema)) :
    propertyRefs properties = properties.flatMap fun property => property.2.refs := by
  induction properties with
  | nil => rfl
  | cons property properties ih =>
      rw [propertyRefs, ih]
      rfl

def Content.refs (content : Content) : List Described := content.schema.refs

def Operation.refs (operation : Operation) : List Described :=
  operation.parameters.flatMap (·.schema.refs) ++ operation.requestBody.toList.flatMap Content.refs ++
    operation.responses.flatMap fun (_, response) => response.content.toList.flatMap Content.refs

def operations (paths : Paths) : List Operation :=
  paths.entries.flatMap fun (_, item) => item.entries.map Prod.snd

def Document.refs (document : Document) : List Described :=
  (operations document.paths).flatMap Operation.refs ++
    document.schemas.entries.flatMap fun (_, schema) => schema.refs

section

variable (types : Types)

def referenced (field : Field) : Option Described :=
  if !field.isList && field.isMap then (mapValue types field).bind (nested types)
  else nested types field

/-- The message a field has registered, with the name of the one it refers to. -/
def want (field : Field) : Option (Described × Text) :=
  (nested types field).map fun message => (message, ((referenced types field).getD message).name)

def components : Registry Described Text Schema where
  key := Described.name
  value := messageSchema types
  wants := fun described => described.fields.filterMap (want types)
  placeholder := placeholder

abbrev register := (components types).register

abbrev write := (components types).write

variable {types} {fuel : Nat} {schemas : Schemas}

@[simp]
theorem key_components (described : Described) : (components types).key described = described.name := rfl

@[simp]
theorem value_components (described : Described) :
    (components types).value described = messageSchema types described := rfl

theorem children_components (described : Described) :
    (components types).children described = described.fields.filterMap (nested types) := by
  have hwant : ∀ field, (want types field).map Prod.fst = nested types field := by
    intro field
    rw [want, Option.map_map]
    exact Option.map_id'
  rw [Registry.children, components, List.map_filterMap]
  exact congrArg (List.filterMap · described.fields) (funext hwant)

theorem foldlM_registerNested
    (hstep : ∀ schemas field, registerNested types fuel schemas field =
      (nested types field).toList.foldlM (register types fuel) schemas)
    (fields : List Field) : ∀ schemas, fields.foldlM (registerNested types fuel) schemas =
      (fields.filterMap (nested types)).foldlM (register types fuel) schemas := by
  induction fields with
  | nil => exact fun _ => rfl
  | cons field fields ih =>
      intro schemas
      rw [List.foldlM_cons, hstep]
      cases hnested : nested types field with
      | none =>
          rw [List.filterMap_cons_none hnested]
          exact ih schemas
      | some message =>
          rw [List.filterMap_cons_some hnested, List.foldlM_cons]
          simp only [Option.toList_some, List.foldlM_cons, List.foldlM_nil, bind_pure]
          exact congrArg _ (funext ih)

theorem registerNested_eq (fuel : Nat) : ∀ schemas field,
    registerNested types fuel schemas field =
      (nested types field).toList.foldlM (register types fuel) schemas := by
  induction fuel with
  | zero =>
      intro schemas field
      rw [registerNested]
      cases nested types field <;> rfl
  | succ fuel ih =>
      intro schemas field
      rw [registerNested]
      cases nested types field with
      | none => rfl
      | some message =>
          simp only [Option.toList_some, List.foldlM_cons, List.foldlM_nil, bind_pure, register,
            Registry.register, children_components, key_components, value_components]
          split
          · rfl
          · rw [messageToSchema, foldlM_registerNested ih]
            simp only [Option.bind_eq_bind, Option.pure_def, Option.bind_assoc,
              Option.bind_some, Option.map_eq_bind]
            rfl

theorem messageRef_eq (described : Described) :
    messageRef types fuel described schemas =
      (write types fuel schemas described).map fun schemas => (.ref described, schemas) := by
  rw [messageRef, messageToSchema, foldlM_registerNested (registerNested_eq fuel), write,
    Registry.write, children_components, Option.map_map, Option.map_eq_bind]
  simp only [Option.bind_eq_bind, Option.pure_def, Option.bind_assoc, Option.bind_some]
  rfl

theorem refs_wellKnownSchema (type : MessageType) : (wellKnownSchema type).refs = [] := by
  have hforms : ∀ form ∈ wellKnownForms, form.2.refs = [] := by
    simp only [wellKnownForms, List.forall_mem_cons]
    exact ⟨rfl, rfl, rfl, rfl, rfl, rfl, rfl, rfl, rfl, rfl, rfl, rfl, rfl, rfl, rfl, rfl, rfl,
      fun form hform => absurd hform List.not_mem_nil⟩
  rw [wellKnownSchema]
  cases hlookup : wellKnownForms.lookup type.fullName with
  | none => rfl
  | some schema =>
      obtain ⟨before, after, hsplit, -⟩ := List.lookup_eq_some_iff.mp hlookup
      refine hforms (type.fullName, schema) ?_
      rw [hsplit]
      exact List.mem_append_right _ List.mem_cons_self

theorem refs_kindSchema (field : Field) :
    (kindSchema types .json field.kind).refs = (nested types field).toList := by
  unfold nested Types.typeOf
  cases hkind : field.kind with
  | message index =>
      rw [kindSchema]
      dsimp only
      cases types[index]? with
      | none => rfl
      | some type =>
          cases hspecial : type.hasSpecialJson with
          | true => simp [hspecial, refs_wellKnownSchema]
          | false => simp [hspecial, Schema.refs, Option.filter_some]
  | enum fullName values =>
      rw [kindSchema]
      split <;> rfl
  | _ => rfl

theorem refs_kindSchema_param {field : Field} (hnested : nested types field = none) :
    (kindSchema types .param field.kind).refs = [] := by
  unfold nested Types.typeOf at hnested
  cases hkind : field.kind with
  | message index =>
      rw [hkind] at hnested
      rw [kindSchema]
      dsimp only at hnested ⊢
      cases htype : types[index]? with
      | none => rfl
      | some type =>
          rw [htype, Option.map_eq_none_iff] at hnested
          have hspecial : type.hasSpecialJson = true := by simpa using hnested
          simp only [hspecial, if_true]
          split
          · rfl
          · exact refs_wellKnownSchema type
  | enum fullName values =>
      rw [kindSchema]
      split <;> rfl
  | _ => rfl

theorem refs_elementSchema (field : Field) :
    (elementSchema types .json field).refs = (nested types field).toList := by
  rw [elementSchema]
  split
  · rw [Schema.refs, refs_kindSchema]
  · exact refs_kindSchema field

theorem refs_fieldToSchema (field : Field) :
    (fieldToSchema types .json field).refs = (referenced types field).toList := by
  rw [fieldToSchema, referenced]
  split
  · split
    · rw [Schema.refs]
      cases mapValue types field with
      | none => rfl
      | some value => exact refs_elementSchema value
    · rename_i htype
      rw [Bool.not_eq_true, Option.isSome_eq_false_iff, Option.isNone_iff_eq_none] at htype
      rw [mapValue, htype]
      rfl
  · exact refs_elementSchema field

theorem refs_fieldToSchema_param {field : Field} (hnested : nested types field = none)
    (hmap : field.isMap = false) : (fieldToSchema types .param field).refs = [] := by
  rw [fieldToSchema, hmap, Bool.and_false, if_neg Bool.false_ne_true, elementSchema]
  split
  · rw [Schema.refs, refs_kindSchema_param hnested]
  · exact refs_kindSchema_param hnested

theorem mem_refs_messageSchema {described r : Described}
    (h : r ∈ (messageSchema types described).refs) :
    ∃ field ∈ described.fields, referenced types field = some r := by
  rw [messageSchema, Schema.refs, propertyRefs_eq, List.flatMap_map, List.mem_flatMap] at h
  obtain ⟨field, hfield, hr⟩ := h
  rw [refs_fieldToSchema, Option.mem_toList] at hr
  exact ⟨field, hfield, hr⟩

end

/-! ### Tasks -/

inductive Task where
  /-- Write the component of a root, whatever its name held. -/
  | write (described : Described)
  /-- Write the component of a root unless its name is taken. -/
  | inline (type : MessageType)
  /-- Register the component of a field's message. -/
  | field (field : Field)

section

variable (types : Types)

def bodyTasks (input : MessageType) (pathParams : List Text) : BodyMapping → List Task
  | .none => []
  | .root =>
      if isHttpBody input then []
      else if input.fields.any fun field => !pathParams.contains field.name then
        [.write { type := input, without := pathParams }]
      else []
  | .field name =>
      if (httpBodyField types input name).isSome then []
      else (input.getFieldByName name).toList.map .field

def answerTasks (method : ApiMethod) (responseBody : Option Text) : List Task :=
  if rawResponse types method.output responseBody then []
  else if method.serverStreaming then [.inline method.output]
  else
    match responseBody with
    | some path => (responseField types method.output path).toList.map .field
    | none =>
        if method.output.fullName = wellKnown "Empty" then []
        else [.write { type := method.output }]

def bindingTasks (method : ApiMethod) (binding : HttpBinding) : List Task :=
  bodyTasks types method.input (extractPathParams binding.path) binding.body ++
    answerTasks types method binding.responseBody

namespace Task

def run (fuel : Nat) (schemas : Schemas) : Task → Option Schemas
  | .write described => OpenApi.write types fuel schemas described
  | .inline type =>
      if (schemas.get type.name).isSome then some schemas
      else OpenApi.write types fuel schemas { type }
  | .field held => registerNested types fuel schemas held

def root : Task → Option Described
  | .write described => some described
  | .inline type => some { type }
  | .field _ => none

/-- The messages a task has registered, each with the name it is registered for. -/
def asks : Task → List (Described × Text)
  | .write described => [(described, described.name)]
  | .inline type => [({ type }, type.name)]
  | .field held => (want types held).toList

def refs : Task → List Described
  | .field held => (referenced types held).toList
  | task => task.root.toList

end Task

end

section

variable (descriptors : Descriptors) (selection : RpcSelection)

def methodTasks (service : ApiService) (method : ApiMethod) : List Task :=
  if method.clientStreaming || !selection.selects service.descriptor method.toMethodDescriptor then []
  else
    (httpBindings method.toMethodDescriptor).flatMap fun binding =>
      if (operationMethods binding.method).isEmpty then []
      else bindingTasks descriptors.types method binding

def tasks : List Task :=
  if descriptors.httpExtension then
    descriptors.services.flatMap fun service =>
      service.methods.flatMap (methodTasks descriptors selection service)
  else []

structure Binds (method : ApiMethod) (binding : HttpBinding) : Prop where
  annotated : descriptors.httpExtension = true
  service : ∃ service ∈ descriptors.services, method ∈ service.methods ∧
    selection.selects service.descriptor method.toMethodDescriptor = true
  unary : method.clientStreaming = false
  bound : binding ∈ httpBindings method.toMethodDescriptor
  listed : operationMethods binding.method ≠ []

inductive Reached : Described → Prop where
  | task {task : Task} {ask : Described × Text} : task ∈ tasks descriptors selection →
      ask ∈ task.asks descriptors.types → Reached ask.1
  | child {described child : Described} : Reached described →
      child ∈ (components descriptors.types).children described → Reached child

end

section

variable {descriptors : Descriptors} {selection : RpcSelection} {field : Field} {described : Described}
  {method : ApiMethod} {binding : HttpBinding} {task : Task}

theorem mem_tasks_iff : task ∈ tasks descriptors selection ↔
    ∃ method binding, Binds descriptors selection method binding ∧
      task ∈ bindingTasks descriptors.types method binding := by
  rw [tasks]
  constructor
  · intro h
    split at h
    · rename_i hextension
      obtain ⟨service, hservice, h⟩ := List.mem_flatMap.mp h
      obtain ⟨method, hmethod, h⟩ := List.mem_flatMap.mp h
      rw [methodTasks] at h
      split at h
      · exact absurd h List.not_mem_nil
      rename_i hselected
      rw [Bool.or_eq_true, not_or, Bool.not_eq_true, Bool.not_eq_true, Bool.not_eq_false'] at hselected
      obtain ⟨binding, hbinding, h⟩ := List.mem_flatMap.mp h
      split at h
      · exact absurd h List.not_mem_nil
      rename_i hlisted
      exact ⟨method, binding, ⟨hextension, ⟨service, hservice, hmethod, hselected.2⟩, hselected.1,
        hbinding, by simpa using hlisted⟩, h⟩
    · exact absurd h List.not_mem_nil
  · rintro ⟨method, binding, ⟨hextension, ⟨service, hservice, hmethod, hselected⟩, hunary, hbound,
      hlisted⟩, h⟩
    rw [if_pos hextension]
    refine List.mem_flatMap.mpr ⟨service, hservice, List.mem_flatMap.mpr ⟨method, hmethod, ?_⟩⟩
    rw [methodTasks, hunary, hselected, if_neg (by decide)]
    refine List.mem_flatMap.mpr ⟨binding, hbound, ?_⟩
    rwa [if_neg (by simpa using hlisted)]

/-! ### Messages and fields of the pool -/

theorem mem_types_of_typeOf {types : Types} {kind : Kind} {type : MessageType}
    (h : types.typeOf kind = some type) : type ∈ types := by
  cases kind with
  | message index => exact List.mem_of_getElem? h
  | _ => cases h

theorem nested_eq_some {types : Types} (h : nested types field = some described) :
    described.type ∈ types ∧ described.without = [] ∧ described.type.hasSpecialJson = false := by
  obtain ⟨type, htype, rfl⟩ := Option.map_eq_some_iff.mp h
  obtain ⟨htypeOf, hplain⟩ := Option.filter_eq_some_iff.mp htype
  exact ⟨mem_types_of_typeOf htypeOf, rfl, by simpa using hplain⟩

theorem referenced_eq_some {types : Types} (h : referenced types field = some described) :
    ∃ holder, nested types holder = some described := by
  rw [referenced] at h
  split at h
  · obtain ⟨value, -, h⟩ := Option.bind_eq_some_iff.mp h
    exact ⟨value, h⟩
  · exact ⟨field, h⟩

theorem mem_children {types : Types} {child : Described} :
    child ∈ (components types).children described ↔
      ∃ field ∈ described.fields, nested types field = some child := by
  rw [children_components, List.mem_filterMap]

theorem Binds.mem_types (h : Binds descriptors selection method binding) :
    method.input ∈ descriptors.types ∧ method.output ∈ descriptors.types := by
  obtain ⟨service, hservice, hmethod, -⟩ := h.service
  have hmessages := List.all_eq_true.mp
    (List.all_eq_true.mp descriptors.messages service hservice) method hmethod
  rw [Bool.and_eq_true, List.contains_iff_mem, List.contains_iff_mem] at hmessages
  exact hmessages

theorem mem_fields_of_responseSegments {types : Types} (segments : List Text) :
    ∀ {type : MessageType}, type ∈ types → responseSegments types type segments = some field →
      ∃ holder ∈ types, field ∈ holder.fields := by
  induction segments with
  | nil =>
      intro type _ h
      cases h
  | cons segment segments ih =>
      intro type htype h
      cases segments with
      | nil => exact ⟨type, htype, (MessageType.mem_of_getFieldByName h).1⟩
      | cons next segments =>
          rw [responseSegments] at h
          obtain ⟨first, -, h⟩ := Option.bind_eq_some_iff.mp h
          obtain ⟨inner, hinner, h⟩ := Option.bind_eq_some_iff.mp h
          split at h
          · cases h
          · exact ih (mem_types_of_typeOf hinner) h

/-- A task is about a message of the pool, or a field of one. -/
def Task.InPool (types : Types) : Task → Prop
  | .write described => described.type ∈ types
  | .inline type => type ∈ types
  | .field held => ∃ holder ∈ types, held ∈ holder.fields

theorem inPool_of_mem_bodyTasks {types : Types} {input : MessageType} {pathParams : List Text}
    {body : BodyMapping} (hinput : input ∈ types) (h : task ∈ bodyTasks types input pathParams body) :
    task.InPool types := by
  cases body with
  | none => exact absurd h List.not_mem_nil
  | root =>
      rw [bodyTasks] at h
      split at h
      · exact absurd h List.not_mem_nil
      split at h
      · rw [List.mem_singleton.mp h]
        exact hinput
      · exact absurd h List.not_mem_nil
  | field name =>
      rw [bodyTasks] at h
      split at h
      · exact absurd h List.not_mem_nil
      · obtain ⟨field, hfield, rfl⟩ := List.mem_map.mp h
        exact ⟨input, hinput, (MessageType.mem_of_getFieldByName (Option.mem_toList.mp hfield)).1⟩

theorem inPool_of_mem_answerTasks {types : Types} {responseBody : Option Text}
    (houtput : method.output ∈ types) (h : task ∈ answerTasks types method responseBody) :
    task.InPool types := by
  unfold answerTasks at h
  split at h
  · exact absurd h List.not_mem_nil
  split at h
  · rw [List.mem_singleton.mp h]
    exact houtput
  split at h
  · obtain ⟨field, hfield, rfl⟩ := List.mem_map.mp h
    exact mem_fields_of_responseSegments _ houtput (Option.mem_toList.mp hfield)
  split at h
  · exact absurd h List.not_mem_nil
  · rw [List.mem_singleton.mp h]
    exact houtput

theorem inPool_of_mem_tasks (h : task ∈ tasks descriptors selection) :
    task.InPool descriptors.types := by
  obtain ⟨method, binding, hbinds, htask⟩ := mem_tasks_iff.mp h
  rcases List.mem_append.mp htask with htask | htask
  · exact inPool_of_mem_bodyTasks hbinds.mem_types.1 htask
  · exact inPool_of_mem_answerTasks hbinds.mem_types.2 htask

theorem Reached.mem_types (h : Reached descriptors selection described) :
    described.type ∈ descriptors.types := by
  cases h with
  | @task task _ htask hask =>
      have hpool := inPool_of_mem_tasks htask
      cases task with
      | write root =>
          rw [List.mem_singleton.mp hask]
          exact hpool
      | inline type =>
          rw [List.mem_singleton.mp hask]
          exact hpool
      | field held =>
          obtain ⟨message, hmessage, rfl⟩ := Option.map_eq_some_iff.mp (Option.mem_toList.mp hask)
          exact (nested_eq_some hmessage).1
  | child _ hchild =>
      obtain ⟨field, -, hnested⟩ := mem_children.mp hchild
      exact (nested_eq_some hnested).1

/-- What a field refers to is what it has registered, or below that for a map. -/
theorem below_of_want {types : Types} {ask : Described × Text} (h : want types field = some ask) :
    (components types).Below ask := by
  obtain ⟨message, hmessage, rfl⟩ := Option.map_eq_some_iff.mp h
  cases hr : referenced types field with
  | none => exact Or.inl rfl
  | some r =>
      rw [referenced] at hr
      split at hr
      · obtain ⟨value, hvalue, hr⟩ := Option.bind_eq_some_iff.mp hr
        refine Or.inr ⟨r, mem_children.mpr ⟨value, ?_, hr⟩, rfl⟩
        obtain ⟨inner, hinner, hget⟩ := Option.bind_eq_some_iff.mp hvalue
        rw [nested, hinner] at hmessage
        obtain ⟨inner', hfilter, rfl⟩ := Option.map_eq_some_iff.mp hmessage
        obtain rfl := Option.some.inj (Option.filter_eq_some_iff.mp hfilter).1
        rw [Described.fields, List.mem_filter]
        exact ⟨(MessageType.mem_of_getFieldByName hget).1, rfl⟩
      · rw [hmessage] at hr
        exact Or.inl (congrArg Described.name (Option.some.inj hr).symm)

theorem want_eq_some {r : Described} (hfield : ∃ holder ∈ descriptors.types, field ∈ holder.fields)
    (hr : referenced descriptors.types field = some r) :
    ∃ message, want descriptors.types field = some (message, r.name) := by
  have hnested : ∃ message, nested descriptors.types field = some message := by
    rw [referenced] at hr
    split at hr
    · rename_i hmap
      obtain ⟨holder, hholder, hfield⟩ := hfield
      exact (descriptors.entry_of_isMap hholder hfield (Bool.and_eq_true_iff.mp hmap).2).2.1
    · exact ⟨r, hr⟩
  obtain ⟨message, hmessage⟩ := hnested
  refine ⟨message, ?_⟩
  rw [want, hmessage, hr]
  rfl

/-- What a task refers to, it has a message registered for. -/
theorem exists_mem_asks (htask : task ∈ tasks descriptors selection) {r : Described}
    (hr : r ∈ task.refs descriptors.types) :
    ∃ message, (message, r.name) ∈ task.asks descriptors.types := by
  have hpool := inPool_of_mem_tasks htask
  cases task with
  | write root =>
      rw [List.mem_singleton.mp hr]
      exact ⟨root, List.mem_singleton.mpr rfl⟩
  | inline type =>
      rw [List.mem_singleton.mp hr]
      exact ⟨{ type }, List.mem_singleton.mpr rfl⟩
  | field held =>
      obtain ⟨message, hwant⟩ := want_eq_some hpool (Option.mem_toList.mp hr)
      exact ⟨message, Option.mem_toList.mpr hwant⟩

/-- The schema of a reached message refers to what its component is written over. -/
theorem exists_mem_wants (h : Reached descriptors selection described) {r : Described}
    (hr : r ∈ (messageSchema descriptors.types described).refs) :
    ∃ message, (message, r.name) ∈ (components descriptors.types).wants described := by
  obtain ⟨field, hfield, hr⟩ := mem_refs_messageSchema hr
  obtain ⟨message, hwant⟩ :=
    want_eq_some ⟨_, h.mem_types, (List.mem_filter.mp hfield).1⟩ hr
  exact ⟨message, List.mem_filterMap.mpr ⟨field, hfield, hwant⟩⟩

theorem closed_reached : (components descriptors.types).Closed (Reached descriptors selection) where
  step := fun hreached ask hask => .child hreached (List.mem_map_of_mem hask)
  below := fun _ ask hask => by
    obtain ⟨field, -, hwant⟩ := List.mem_filterMap.mp hask
    exact below_of_want hwant

end

section

variable {descriptors : Descriptors} {router : Matchit} {aliases : List AliasConfig}
  {selection : RpcSelection} {fuel : Nat} {mounted : List Text} {service : ApiService}
  {method : ApiMethod} {binding : HttpBinding} {draft draft' : Draft}

theorem of_addBinding {types : Types} (hlisted : operationMethods binding.method ≠ [])
    (h : addBinding router aliases types fuel mounted service method draft binding = some draft') :
    ∃ operation schemas,
      buildOperation types fuel service.name method binding draft.schemas = some (operation, schemas) ∧
      (operationMethods binding.method).foldlM (fun draft httpMethod =>
        (targets aliases binding.path).foldlM (addTarget router mounted operation httpMethod
          (baseId service.name method.name ((operationMethods binding.method).length > 1) httpMethod))
          draft) { draft with schemas } = some draft' := by
  unfold addBinding at h
  dsimp only at h
  rw [if_neg (by simpa using hlisted)] at h
  obtain ⟨⟨operation, schemas⟩, hbuilt, h⟩ := Option.bind_eq_some_iff.mp h
  exact ⟨operation, schemas, hbuilt, h⟩

variable {inv : Draft → Prop}

theorem services_keep (htags : ∀ draft tags, inv draft → inv { draft with tags })
    (hbinding : ∀ service method binding, Binds descriptors selection method binding →
      ∀ draft draft', inv draft →
      addBinding router aliases descriptors.types fuel mounted service method draft binding =
        some draft' → inv draft')
    (hdraft : inv draft)
    (h : descriptors.services.foldlM (addService router aliases selection descriptors.types fuel
      mounted descriptors.httpExtension) draft = some draft') : inv draft' := by
  refine foldlM_keeps _ (fun service hservice before after hbefore hadd => ?_) hdraft h
  unfold addService at hadd
  dsimp only at hadd
  split at hadd
  · obtain rfl := Option.some.inj hadd
    exact hbefore
  split at hadd
  · obtain rfl := Option.some.inj hadd
    exact htags before _ hbefore
  rename_i hextension
  rw [Bool.not_eq_true', Bool.not_eq_false] at hextension
  refine foldlM_keeps _ (fun method hmethod before after hbefore hadd => ?_)
    (htags before _ hbefore) hadd
  rw [addMethod] at hadd
  split at hadd
  · obtain rfl := Option.some.inj hadd
    exact hbefore
  rename_i hselected
  rw [Bool.or_eq_true, not_or, Bool.not_eq_true, Bool.not_eq_true, Bool.not_eq_false'] at hselected
  refine foldlM_keeps _ (fun binding hbound before after hbefore hadd => ?_) hbefore hadd
  by_cases hlisted : operationMethods binding.method = []
  · rw [addBinding, hlisted] at hadd
    obtain rfl := Option.some.inj hadd
    exact hbefore
  · exact hbinding service method binding
      ⟨hextension, ⟨service, hservice, hmethod, hselected.2⟩, hselected.1, hbound, hlisted⟩
      before after hbefore hadd

theorem services_isSome {types : Types} {httpExtension : Bool} (services : List ApiService)
    (hbinding : ∀ service method draft binding,
      (addBinding router aliases types fuel mounted service method draft binding).isSome = true)
    (draft : Draft) :
    (services.foldlM (addService router aliases selection types fuel mounted httpExtension)
      draft).isSome = true := by
  refine isSome_foldlM services (fun service _ draft => ?_) draft
  unfold addService
  dsimp only
  split
  · rfl
  split
  · rfl
  refine isSome_foldlM service.methods (fun method _ draft => ?_) _
  rw [addMethod]
  split
  · rfl
  · exact isSome_foldlM _ (fun binding _ draft => hbinding service method draft binding) draft

end

end StructuredProxy.OpenApi
