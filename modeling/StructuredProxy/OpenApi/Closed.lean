import StructuredProxy.OpenApi.OperationIds
import StructuredProxy.OpenApi.Tasks
import StructuredProxy.Transcode.Startup

/-!
# The document is closed

Generation ends, whatever messages contain themselves: each nested call registers a name, or puts a
message on the way to a query parameter. Every reference has its component as long as a walk that comes
to map entries whose short name is taken finds the name of the values taken, or being walked, too: the
reference of a map is to its values, while the component is looked up under the name of its entries.
-/

namespace StructuredProxy.OpenApi

open Lib

section Ends

variable {types : Types} {fuel : Nat} {schemas : Schemas}

def wholeMessages (types : Types) : List Described := types.map fun type => { type }

theorem mem_wholeMessages_of_nested {field : Field} {message : Described}
    (h : nested types field = some message) : message ∈ wholeMessages types := by
  obtain ⟨hmem, hwithout, -⟩ := nested_eq_some h
  refine List.mem_map.mpr ⟨message.type, hmem, ?_⟩
  cases message
  cases hwithout
  rfl

theorem mem_wholeMessages_of_mem_children {described child : Described}
    (h : child ∈ (components types).children described) : child ∈ wholeMessages types := by
  obtain ⟨field, -, hnested⟩ := mem_children.mp h
  exact mem_wholeMessages_of_nested hnested

theorem free_wholeMessages_lt (hfuel : types.length < fuel) :
    (components types).free (wholeMessages types) schemas < fuel := by
  refine Nat.lt_of_le_of_lt List.countP_le_length ?_
  rwa [wholeMessages, List.length_map]

theorem fieldContent_isSome (hfuel : types.length < fuel) (field : Field) :
    (fieldContent types fuel field schemas).isSome = true := by
  refine isSome_bind ?_ fun _ => rfl
  rw [registerNested_eq]
  refine isSome_foldlM _ (fun message hmessage schemas => ?_) schemas
  exact Registry.register_isSome (fun _ _ _ hchild => mem_wholeMessages_of_mem_children hchild) fuel
    schemas message (mem_wholeMessages_of_nested (Option.mem_toList.mp hmessage))
    (free_wholeMessages_lt hfuel)

theorem messageRef_isSome (hfuel : types.length < fuel) (described : Described) :
    (messageRef types fuel described schemas).isSome = true := by
  rw [messageRef_eq, Option.isSome_map]
  exact Registry.write_isSome (fun _ _ _ hchild => mem_wholeMessages_of_mem_children hchild)
    (fun _ hchild => mem_wholeMessages_of_mem_children hchild) (free_wholeMessages_lt hfuel)

theorem requestBody_isSome (hfuel : types.length < fuel) (input : MessageType) (pathParams : List Text)
    (body : BodyMapping) : (requestBody types fuel input pathParams schemas body).isSome = true := by
  cases body with
  | none => rfl
  | root =>
      rw [requestBody]
      split
      · rfl
      split
      · exact isSome_bind (messageRef_isSome hfuel _) fun _ => rfl
      · rfl
  | field name =>
      rw [requestBody]
      split
      · rfl
      split
      · rfl
      · exact isSome_bind (fieldContent_isSome hfuel _) fun _ => rfl

theorem successResponse_isSome (hfuel : types.length < fuel) (method : ApiMethod)
    (responseBody : Option Text) :
    (successResponse types fuel method responseBody schemas).isSome = true := by
  unfold successResponse
  split
  · rfl
  split
  · refine isSome_bind ?_ fun _ => rfl
    rw [messageRefOrInline]
    split
    · rfl
    · exact messageRef_isSome hfuel _
  split
  · split
    · exact isSome_bind (fieldContent_isSome hfuel _) fun _ => rfl
    · rfl
  · split
    · rfl
    · exact isSome_bind (messageRef_isSome hfuel _) fun _ => rfl

def offTheWay (types : Types) (onTheWay : List Text) : Nat :=
  types.countP fun type => !onTheWay.contains type.fullName

theorem offTheWay_concat_lt {onTheWay : List Text} {type : MessageType} (hmem : type ∈ types)
    (hoff : onTheWay.contains type.fullName = false) :
    offTheWay types (onTheWay ++ [type.fullName]) < offTheWay types onTheWay := by
  have hle : ∀ part : Types, part.countP (fun other =>
      !(onTheWay ++ [type.fullName]).contains other.fullName) ≤
        part.countP fun other => !onTheWay.contains other.fullName := by
    refine fun part => List.countP_mono_left fun other _ hother => ?_
    rw [Bool.not_eq_true', List.contains_eq_mem, decide_eq_false_iff_not] at hother ⊢
    exact fun hin => hother (List.mem_append_left _ hin)
  obtain ⟨before, after, rfl⟩ := List.append_of_mem hmem
  have hon : (onTheWay ++ [type.fullName]).contains type.fullName = true :=
    List.contains_iff_mem.mpr (List.mem_append_right _ List.mem_cons_self)
  have hbefore := hle before
  have hafter := hle after
  simp only [offTheWay, List.countP_append, List.countP_cons, hoff, hon, Bool.not_false, Bool.not_true,
    if_true, Bool.false_eq_true, if_false]
  omega

theorem queryParams_isSome {bound : Text → Bool} (fuel : Nat) : ∀ (message : MessageType)
    (before : Text) (onTheWay : List Text), offTheWay types onTheWay < fuel →
      (queryParams types bound fuel message before onTheWay).isSome = true := by
  induction fuel with
  | zero => exact fun _ _ _ h => absurd h (Nat.not_lt_zero _)
  | succ fuel ih =>
      intro message before onTheWay hfuel
      rw [queryParams]
      refine isSome_bind (isSome_mapM _ fun field _ => ?_) fun _ => rfl
      dsimp only
      split
      · rfl
      split
      · rfl
      rename_i inner hinner
      split
      · rfl
      split
      · rfl
      rename_i hentered
      rw [Bool.or_eq_true, not_or, Bool.not_eq_true, Bool.not_eq_true] at hentered
      have hlt := offTheWay_concat_lt (mem_types_of_typeOf hinner) hentered.2
      exact ih inner _ _ (by omega)

theorem queryParameters_isSome (hfuel : types.length < fuel) (input : MessageType)
    (pathParams : List Text) (body : BodyMapping) :
    (queryParameters types fuel input pathParams body).isSome = true := by
  have hoff : offTheWay types [input.fullName] < fuel :=
    Nat.lt_of_le_of_lt List.countP_le_length hfuel
  cases body with
  | root => rfl
  | none => exact queryParams_isSome fuel input [] _ hoff
  | field name => exact queryParams_isSome fuel input [] _ hoff

theorem buildOperation_isSome (hfuel : types.length < fuel) (service : Text) (method : ApiMethod)
    (binding : HttpBinding) : (buildOperation types fuel service method binding schemas).isSome = true :=
  isSome_bind (requestBody_isSome hfuel _ _ _) fun _ =>
    isSome_bind (queryParameters_isSome hfuel _ _ _) fun _ =>
      isSome_bind (successResponse_isSome hfuel _ _) fun _ => rfl

variable {router : Matchit} {uri : UriParser} {aliases : List AliasConfig} {selection : RpcSelection}

theorem addTarget_isSome (mounted : List Text) (operation : Operation) (httpMethod : HttpOperation)
    (base : Text) (draft : Draft) (path : Text) :
    (addTarget router mounted operation httpMethod base draft path).isSome = true := by
  unfold addTarget
  dsimp only
  split
  · rfl
  · exact isSome_bind (uniqueId_isSome draft.operationIds base) fun _ => rfl

theorem addBinding_isSome (hfuel : types.length < fuel) (mounted : List Text) (service : ApiService)
    (method : ApiMethod) (draft : Draft) (binding : HttpBinding) :
    (addBinding router aliases types fuel mounted service method draft binding).isSome = true := by
  unfold addBinding
  dsimp only
  split
  · rfl
  · refine isSome_bind (buildOperation_isSome hfuel _ _ _) fun built => ?_
    refine isSome_foldlM _ (fun httpMethod _ draft => ?_) _
    exact isSome_foldlM _ (fun path _ draft => addTarget_isSome mounted _ httpMethod _ draft path) draft

/-- **Generation ends**: no call nests deeper than there are messages in the pool, and one. -/
theorem generate_isSome {descriptors : Descriptors} (hfuel : descriptors.types.length < fuel)
    (config : OpenApiConfig) :
    (generate router uri aliases selection fuel descriptors config).isSome = true :=
  isSome_bind (services_isSome descriptors.services
    (fun service method draft binding => addBinding_isSome hfuel _ service method draft binding) {})
    fun _ => rfl

end Ends

section Closure

variable {descriptors : Descriptors} {selection : RpcSelection} {schemas schemas' : Schemas} {fuel : Nat}
  {task : Task}

/-- Whether every field finds the name of what it refers to, if that of what it registers is taken when its
turn comes. The two names are the same but for a map field. -/
def Task.finds (types : Types) (fuel : Nat) (schemas : Schemas) : Task → Bool
  | .write described => (components types).findsBelow fuel schemas described
  | .inline type =>
      (schemas.get type.name).isSome || (components types).findsBelow fuel schemas { type }
  | .field held => (want types held).all ((components types).finds fuel [] schemas)

/-- Whenever a task comes to a map field whose entries have the name of a component, the values have the
name of one too, or of a message held by one whose fields are being walked. -/
def FindsValues (descriptors : Descriptors) (selection : RpcSelection) (fuel : Nat) : Prop :=
  throughout (Task.run descriptors.types fuel) (Task.finds descriptors.types fuel)
    (tasks descriptors selection) .empty = true

abbrev Filled (descriptors : Descriptors) (selection : RpcSelection) (schemas : Schemas) : Prop :=
  (components descriptors.types).Filled (Reached descriptors selection) [] schemas

theorem run_fills (htask : task ∈ tasks descriptors selection)
    (hfilled : Filled descriptors selection schemas)
    (hfinds : task.finds descriptors.types fuel schemas = true)
    (h : task.run descriptors.types fuel schemas = some schemas') :
    (components descriptors.types).Fills (Reached descriptors selection) [] schemas schemas'
      (task.asks descriptors.types) := by
  cases task with
  | write described =>
      exact Registry.write_fills closed_reached (.task htask (List.mem_singleton.mpr rfl)) hfilled hfinds h
  | inline type =>
      rw [Task.run] at h
      split at h
      · rename_i htaken
        obtain rfl := Option.some.inj h
        exact ⟨hfilled, KeyMap.Grows.refl schemas, List.forall_mem_singleton.mpr htaken,
          List.forall_mem_singleton.mpr (Registry.found_iff.mpr (Or.inl htaken))⟩
      · rename_i hfree
        rw [Task.finds, Bool.eq_false_iff.mpr hfree, Bool.false_or] at hfinds
        exact Registry.write_fills closed_reached (.task htask (List.mem_singleton.mpr rfl)) hfilled
          hfinds h
  | field held =>
      rw [Task.run, registerNested_eq] at h
      rw [Task.finds, want] at hfinds
      rw [Task.asks, want]
      cases hnested : nested descriptors.types held with
      | none =>
          rw [hnested] at h
          obtain rfl := Option.some.inj h
          exact .nothing hfilled
      | some message =>
          have hwant : want descriptors.types held =
              some (message, ((referenced descriptors.types held).getD message).name) := by
            rw [want, hnested]
            rfl
          rw [hnested] at h hfinds
          simp only [Option.toList_some, List.foldlM_cons, List.foldlM_nil, bind_pure] at h
          exact Registry.register_fills closed_reached fuel
            (.task htask (Option.mem_toList.mpr hwant)) (below_of_want hwant) hfilled hfinds h

structure Complete (descriptors : Descriptors) (selection : RpcSelection) (schemas : Schemas) : Prop where
  filled : Filled descriptors selection schemas
  tasks : ∀ task ∈ tasks descriptors selection, ∀ r ∈ task.refs descriptors.types,
    (schemas.get r.name).isSome = true

theorem generate_complete {router : Matchit} {uri : UriParser} {aliases : List AliasConfig}
    {config : OpenApiConfig} {document : Document} (hfinds : FindsValues descriptors selection fuel)
    (h : generate router uri aliases selection fuel descriptors config = some document) :
    Complete descriptors selection document.schemas := by
  have hfills := Registry.foldlM_fills (tasks descriptors selection)
    (fun task htask {_ _} hbefore hok hrun => run_fills htask hbefore hok hrun) Registry.filled_empty
    hfinds (generate_runs h)
  refine ⟨hfills.filled, fun task htask r hr => ?_⟩
  obtain ⟨message, hask⟩ := exists_mem_asks htask hr
  simpa [Registry.found] using hfills.found _ (List.mem_flatMap.mpr ⟨task, htask, hask⟩)

theorem Complete.isSome_of_refs (h : Complete descriptors selection schemas) {name : Text}
    {schema : Schema} (hget : schemas.get name = some schema) {r : Described} (hr : r ∈ schema.refs) :
    (schemas.get r.name).isSome = true := by
  rcases h.filled name schema hget with ⟨holder, hholder, -⟩ | ⟨described, hreached, -, rfl, hwants⟩
  · exact absurd hholder List.not_mem_nil
  · obtain ⟨message, hwant⟩ := exists_mem_wants hreached hr
    simpa [Registry.found] using hwants _ hwant

end Closure

/-! ### Two maps of one name -/

def textField (number : Nat) (name : String) : Field where
  number := number
  name := str name
  jsonName := str name
  kind := .string

def messageField (number : Nat) (name : String) (type : Nat) : Field where
  number := number
  name := str name
  jsonName := str name
  kind := .message type

def sampleRequest : MessageType where
  fullName := str "lib.Request"
  fields := [textField 1 "name"]

def shelf : MessageType where
  fullName := str "lib.Shelf"
  fields := [{ messageField 1 "items" 2 with isMap := true }]

def shelfEntry : MessageType where
  fullName := str "lib.Shelf.ItemsEntry"
  fields := [textField 1 "key", messageField 2 "value" 3]

def book : MessageType where
  fullName := str "lib.Book"
  fields := [textField 1 "title", messageField 2 "shelf" 1]

def box : MessageType where
  fullName := str "lib.Box"
  fields := [{ messageField 1 "items" 5 with isMap := true }]

def boxEntry : MessageType where
  fullName := str "lib.Box.ItemsEntry"
  fields := [textField 1 "key", messageField 2 "value" 6]

def tool : MessageType where
  fullName := str "lib.Tool"
  fields := [textField 1 "label"]

def getShelf : ApiMethod where
  name := str "GetShelf"
  http := some { get := str "/v1/shelves/\x7bname\x7d" }
  input := sampleRequest
  output := shelf

def getBox : ApiMethod where
  name := str "GetBox"
  http := some { get := str "/v1/boxes/\x7bname\x7d" }
  input := sampleRequest
  output := box

def library : Descriptors where
  types := [sampleRequest, shelf, shelfEntry, book, box, boxEntry, tool]
  services := [{ fullName := str "lib.Library", methods := [getShelf, getBox] }]

theorem library_scalarPaths (selection : RpcSelection) : ScalarPaths library selection := by
  intro method binding hbinds name _ field hfield
  obtain ⟨service, hservice, hmethod, -⟩ := hbinds.service
  rw [List.mem_singleton.mp hservice] at hmethod
  have hinput : method.input = sampleRequest := by
    rcases List.mem_cons.mp hmethod with rfl | hmethod
    · rfl
    · rw [List.mem_singleton.mp hmethod]
      rfl
  rw [hinput] at hfield
  have hname := (MessageType.mem_of_getFieldByName hfield).1
  rw [List.mem_singleton.mp hname]
  rfl

def onlyShelves : RpcSelection where
  names := [⟨str "lib.Library", some (str "GetShelf")⟩]

end StructuredProxy.OpenApi
