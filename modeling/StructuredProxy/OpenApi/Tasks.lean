import StructuredProxy.OpenApi.Walk

/-!
# Generation runs the tasks of the described bindings

The components of a document are what the tasks leave, run one after another, and the operations refer to
what the tasks refer to, or to what a path variable names.
-/

namespace StructuredProxy.OpenApi

open Lib

variable {descriptors : Descriptors} {selection : RpcSelection} {method : ApiMethod}
  {binding : HttpBinding} {types : Types} {schemas schemas' : Schemas} {fuel : Nat}

structure Runs (types : Types) (fuel : Nat) (schemas schemas' : Schemas) (refs : List Described)
    (tasks : List Task) : Prop where
  run : tasks.foldlM (Task.run types fuel) schemas = some schemas'
  refs : ∀ r ∈ refs, ∃ task ∈ tasks, r ∈ task.refs types

theorem Runs.nothing : Runs types fuel schemas schemas [] [] :=
  ⟨rfl, fun _ hr => absurd hr List.not_mem_nil⟩

theorem Runs.single (task : Task) (h : task.run types fuel schemas = some schemas') :
    Runs types fuel schemas schemas' (task.refs types) [task] := by
  refine ⟨?_, fun r hr => ⟨task, List.mem_singleton.mpr rfl, hr⟩⟩
  rw [List.foldlM_cons, h]
  rfl

theorem fieldContent_runs {field : Field} {content : Content}
    (h : fieldContent types fuel field schemas = some (content, schemas')) :
    Runs types fuel schemas schemas' content.refs [.field field] := by
  obtain ⟨walked, hwalked, h⟩ := Option.bind_eq_some_iff.mp h
  obtain ⟨rfl, rfl⟩ := Prod.mk.inj (Option.some.inj h)
  rw [Content.refs, jsonContent, refs_fieldToSchema]
  exact .single (.field field) hwalked

theorem messageRef_runs {described : Described} {schema : Schema}
    (h : messageRef types fuel described schemas = some (schema, schemas')) :
    Runs types fuel schemas schemas' schema.refs [.write described] := by
  rw [messageRef_eq] at h
  obtain ⟨written, hwritten, h⟩ := Option.map_eq_some_iff.mp h
  obtain ⟨rfl, rfl⟩ := Prod.mk.inj h
  exact .single (.write described) hwritten

theorem messageRefOrInline_runs {type : MessageType} {schema : Schema}
    (h : messageRefOrInline types fuel type schemas = some (schema, schemas')) :
    Runs types fuel schemas schemas' schema.refs [.inline type] := by
  rw [messageRefOrInline] at h
  split at h
  · rename_i hthere
    obtain ⟨rfl, rfl⟩ := Prod.mk.inj (Option.some.inj h)
    exact .single (.inline type) (if_pos hthere)
  · rename_i hfree
    rw [messageRef_eq] at h
    obtain ⟨written, hwritten, h⟩ := Option.map_eq_some_iff.mp h
    obtain ⟨rfl, rfl⟩ := Prod.mk.inj h
    exact .single (.inline type) ((if_neg hfree).trans hwritten)

theorem requestBody_runs {input : MessageType} {pathParams : List Text} {body : BodyMapping}
    {content : Option Content}
    (h : requestBody types fuel input pathParams schemas body = some (content, schemas')) :
    Runs types fuel schemas schemas' (content.toList.flatMap Content.refs)
      (bodyTasks types input pathParams body) := by
  cases body with
  | none =>
      obtain ⟨rfl, rfl⟩ := Prod.mk.inj (Option.some.inj h)
      exact .nothing
  | root =>
      rw [requestBody] at h
      rw [bodyTasks]
      split at h
      · rename_i hraw
        obtain ⟨rfl, rfl⟩ := Prod.mk.inj (Option.some.inj h)
        rw [if_pos hraw]
        exact .nothing
      rename_i hraw
      rw [if_neg hraw]
      split at h
      · rename_i hfields
        obtain ⟨⟨schema, written⟩, hwritten, h⟩ := Option.bind_eq_some_iff.mp h
        obtain ⟨rfl, rfl⟩ := Prod.mk.inj (Option.some.inj h)
        rw [if_pos hfields, Option.toList_some, List.flatMap_singleton]
        exact messageRef_runs hwritten
      · rename_i hfields
        obtain ⟨rfl, rfl⟩ := Prod.mk.inj (Option.some.inj h)
        rw [if_neg hfields]
        exact .nothing
  | field name =>
      rw [requestBody] at h
      rw [bodyTasks]
      split at h
      · rename_i hnone
        obtain ⟨rfl, rfl⟩ := Prod.mk.inj (Option.some.inj h)
        rw [hnone]
        split <;> exact .nothing
      rename_i field hfield
      split at h
      · rename_i hraw
        obtain ⟨rfl, rfl⟩ := Prod.mk.inj (Option.some.inj h)
        rw [if_pos hraw]
        exact .nothing
      · rename_i hraw
        obtain ⟨⟨inner, written⟩, hwritten, h⟩ := Option.bind_eq_some_iff.mp h
        obtain ⟨rfl, rfl⟩ := Prod.mk.inj (Option.some.inj h)
        rw [if_neg hraw, hfield, Option.toList_some, List.flatMap_singleton]
        exact fieldContent_runs hwritten

theorem successResponse_runs {responseBody : Option Text} {response : Response}
    (h : successResponse types fuel method responseBody schemas = some (response, schemas')) :
    Runs types fuel schemas schemas' (response.content.toList.flatMap Content.refs)
      (answerTasks types method responseBody) := by
  unfold successResponse at h
  unfold answerTasks
  split at h
  · rename_i hraw
    obtain ⟨rfl, rfl⟩ := Prod.mk.inj (Option.some.inj h)
    rw [if_pos hraw]
    exact .nothing
  rename_i hraw
  rw [if_neg hraw]
  split at h
  · rename_i hstreaming
    obtain ⟨⟨schema, written⟩, hwritten, h⟩ := Option.bind_eq_some_iff.mp h
    obtain ⟨rfl, rfl⟩ := Prod.mk.inj (Option.some.inj h)
    rw [if_pos hstreaming, Option.toList_some, List.flatMap_singleton]
    exact messageRefOrInline_runs hwritten
  rename_i hunary
  rw [if_neg hunary]
  cases responseBody with
  | some path =>
      dsimp only at h ⊢
      split at h
      · rename_i field hfield
        obtain ⟨⟨content, written⟩, hwritten, h⟩ := Option.bind_eq_some_iff.mp h
        obtain ⟨rfl, rfl⟩ := Prod.mk.inj (Option.some.inj h)
        rw [hfield, Option.toList_some, Option.toList_some, List.flatMap_singleton]
        exact fieldContent_runs hwritten
      · rename_i hnone
        obtain ⟨rfl, rfl⟩ := Prod.mk.inj (Option.some.inj h)
        rw [hnone]
        exact .nothing
  | none =>
      dsimp only at h ⊢
      split at h
      · rename_i hempty
        obtain ⟨rfl, rfl⟩ := Prod.mk.inj (Option.some.inj h)
        rw [if_pos hempty]
        exact .nothing
      · rename_i hempty
        obtain ⟨⟨schema, written⟩, hwritten, h⟩ := Option.bind_eq_some_iff.mp h
        obtain ⟨rfl, rfl⟩ := Prod.mk.inj (Option.some.inj h)
        rw [if_neg hempty, Option.toList_some, List.flatMap_singleton]
        exact messageRef_runs hwritten

/-! ### Parameters -/

/-- A reference of a path parameter; no component is registered for it. -/
def PathRef (descriptors : Descriptors) (selection : RpcSelection) (r : Described) : Prop :=
  ∃ method binding, Binds descriptors selection method binding ∧
    ∃ name ∈ extractPathParams binding.path,
      r ∈ (pathParam descriptors.types method.input name).schema.refs

def ScalarPaths (descriptors : Descriptors) (selection : RpcSelection) : Prop :=
  ∀ method binding, Binds descriptors selection method binding →
    ∀ name ∈ extractPathParams binding.path, ∀ field, method.input.getFieldByName name = some field →
      nested descriptors.types field = none

theorem ScalarPaths.not_pathRef (hpaths : ScalarPaths descriptors selection) {r : Described} :
    ¬PathRef descriptors selection r := by
  rintro ⟨method, binding, hbinds, name, hname, hr⟩
  unfold pathParam at hr
  dsimp only at hr
  split at hr
  · rename_i field hfield
    have hnested := hpaths method binding hbinds name hname field hfield
    rw [refs_fieldToSchema_param hnested (Bool.eq_false_iff.mpr fun hmap => ?_)] at hr
    · exact absurd hr List.not_mem_nil
    · obtain ⟨-, ⟨entry, hentry⟩, -⟩ := descriptors.entry_of_isMap hbinds.mem_types.1
        (MessageType.mem_of_getFieldByName hfield).1 hmap
      rw [hnested] at hentry
      cases hentry
  · exact absurd hr List.not_mem_nil

theorem hasSpecialJson_of_hasStringForm {type : MessageType} (h : hasStringForm type = true) :
    type.hasSpecialJson = true := by
  have hforms : ∀ name ∈ ["Timestamp", "Duration", "FieldMask", "Value", "DoubleValue", "FloatValue",
      "Int64Value", "UInt64Value", "Int32Value", "UInt32Value", "BoolValue", "StringValue",
      "BytesValue"].map wellKnown, name ∈ MessageType.specialNames := by decide
  rw [hasStringForm, List.contains_iff_mem] at h
  rw [MessageType.hasSpecialJson, List.contains_iff_mem]
  exact hforms _ h

theorem refs_queryParams {types : Types} {bound : Text → Bool} (fuel : Nat) :
    ∀ {message : MessageType} {before : Text} {onTheWay : List Text} {params : List Parameter},
      queryParams types bound fuel message before onTheWay = some params →
      ∀ param ∈ params, param.schema.refs = [] := by
  induction fuel with
  | zero =>
      intro message before onTheWay params h
      cases h
  | succ fuel ih =>
      intro message before onTheWay params h
      rw [queryParams] at h
      obtain ⟨parts, hparts, h⟩ := Option.bind_eq_some_iff.mp h
      obtain rfl := Option.some.inj h
      intro param hparam
      obtain ⟨part, hpart, hparam⟩ := List.mem_flatten.mp hparam
      obtain ⟨field, -, hfield⟩ := exists_of_mem_mapM _ hparts part hpart
      dsimp only at hfield
      split at hfield
      · rw [← Option.some.inj hfield] at hparam
        exact absurd hparam List.not_mem_nil
      rename_i hbound
      rw [Bool.or_eq_true, not_or, Bool.not_eq_true, Bool.not_eq_true] at hbound
      split at hfield
      · rename_i htype
        rw [← Option.some.inj hfield] at hparam
        rw [List.mem_singleton.mp hparam]
        refine refs_fieldToSchema_param ?_ hbound.2
        rw [nested, htype]
        rfl
      · rename_i inner htype
        split at hfield
        · rename_i hform
          rw [← Option.some.inj hfield] at hparam
          rw [List.mem_singleton.mp hparam]
          refine refs_fieldToSchema_param ?_ hbound.2
          rw [nested, htype, Option.filter_some, hasSpecialJson_of_hasStringForm hform]
          rfl
        · split at hfield
          · rw [← Option.some.inj hfield] at hparam
            exact absurd hparam List.not_mem_nil
          · exact ih hfield param hparam

theorem refs_queryParameters {types : Types} {input : MessageType} {pathParams : List Text}
    {body : BodyMapping} {params : List Parameter}
    (h : queryParameters types fuel input pathParams body = some params) :
    ∀ param ∈ params, param.schema.refs = [] := by
  cases body with
  | root =>
      obtain rfl := Option.some.inj h
      exact fun param hparam => absurd hparam List.not_mem_nil
  | none => exact refs_queryParams fuel h
  | field name => exact refs_queryParams fuel h

/-! ### Operations -/

theorem buildOperation_runs {service : Text} {operation : Operation}
    (h : buildOperation types fuel service method binding schemas = some (operation, schemas')) :
    (bindingTasks types method binding).foldlM (Task.run types fuel) schemas = some schemas' ∧
      ∀ r ∈ operation.refs,
        (∃ name ∈ extractPathParams binding.path,
          r ∈ (pathParam types method.input name).schema.refs) ∨
        ∃ task ∈ bindingTasks types method binding, r ∈ task.refs types := by
  obtain ⟨⟨body, middle⟩, hbody, h⟩ := Option.bind_eq_some_iff.mp h
  obtain ⟨query, hquery, h⟩ := Option.bind_eq_some_iff.mp h
  obtain ⟨⟨success, last⟩, hsuccess, h⟩ := Option.bind_eq_some_iff.mp h
  obtain ⟨rfl, rfl⟩ := Prod.mk.inj (Option.some.inj h)
  have hfirst := requestBody_runs hbody
  have hsecond := successResponse_runs hsuccess
  refine ⟨?_, fun r hr => ?_⟩
  · rw [bindingTasks, List.foldlM_append, hfirst.run]
    exact hsecond.run
  rw [Operation.refs] at hr
  rcases List.mem_append.mp hr with hr | hr
  · rcases List.mem_append.mp hr with hr | hr
    · obtain ⟨param, hparam, hr⟩ := List.mem_flatMap.mp hr
      rcases List.mem_append.mp hparam with hparam | hparam
      · obtain ⟨name, hname, rfl⟩ := List.mem_map.mp hparam
        exact Or.inl ⟨name, hname, hr⟩
      · rw [refs_queryParameters hquery param hparam] at hr
        exact absurd hr List.not_mem_nil
    · obtain ⟨task, htask, hr⟩ := hfirst.refs r hr
      exact Or.inr ⟨task, List.mem_append_left _ htask, hr⟩
  · -- the error responses have no content
    have hresponses : r ∈ success.content.toList.flatMap Content.refs := by
      simpa [errorResponses] using hr
    obtain ⟨task, htask, hr⟩ := hsecond.refs r hresponses
    exact Or.inr ⟨task, List.mem_append_right _ htask, hr⟩

theorem refs_stripResponseContent {operation : Operation} :
    ∀ r ∈ (stripResponseContent operation).refs, r ∈ operation.refs := by
  intro r hr
  rw [Operation.refs] at hr ⊢
  rcases List.mem_append.mp hr with hr | hr
  · exact List.mem_append_left _ hr
  · rw [stripResponseContent, List.flatMap_map] at hr
    obtain ⟨response, -, hr⟩ := List.mem_flatMap.mp hr
    exact absurd hr List.not_mem_nil

theorem mem_operations_addPathOperation {paths : Paths} {path : Text} {httpMethod : HttpOperation}
    {operation other : Operation}
    (h : other ∈ operations (addPathOperation paths path httpMethod operation)) :
    other = operation ∨ other ∈ operations paths := by
  obtain ⟨⟨key, item⟩, hentry, hother⟩ := List.mem_flatMap.mp h
  rcases List.mem_cons.mp hentry with heq | hentry
  · obtain ⟨rfl, rfl⟩ := Prod.mk.inj heq
    obtain ⟨⟨held, listed⟩, hlisted, rfl⟩ := List.mem_map.mp hother
    rcases List.mem_cons.mp hlisted with heq | hlisted
    · exact Or.inl (Prod.mk.inj heq).2
    · right
      cases hget : paths.get key with
      | none =>
          rw [hget] at hlisted
          exact absurd hlisted List.not_mem_nil
      | some before =>
          rw [hget] at hlisted
          exact List.mem_flatMap.mpr ⟨(key, before), KeyMap.get_eq_some_iff.mp hget,
            List.mem_map.mpr ⟨(held, listed), (List.mem_filter.mp hlisted).1, rfl⟩⟩
  · exact Or.inr (List.mem_flatMap.mpr ⟨(key, item), (List.mem_filter.mp hentry).1, hother⟩)

section Walk

variable {router : Matchit} {aliases : List AliasConfig} {mounted : List Text} {draft draft' : Draft}

theorem addTarget_cases {operation : Operation} {httpMethod : HttpOperation} {base path : Text}
    (h : addTarget router mounted operation httpMethod base draft path = some draft') :
    draft'.schemas = draft.schemas ∧ ∀ other ∈ operations draft'.paths,
      other ∈ operations draft.paths ∨ ∀ r ∈ other.refs, r ∈ operation.refs := by
  unfold addTarget at h
  dsimp only at h
  split at h
  · obtain rfl := Option.some.inj h
    exact ⟨rfl, fun other hother => Or.inl hother⟩
  · obtain ⟨id, -, h⟩ := Option.bind_eq_some_iff.mp h
    obtain rfl := Option.some.inj h
    refine ⟨rfl, fun other hother => ?_⟩
    rcases mem_operations_addPathOperation hother with rfl | hother
    · right
      intro r hr
      split at hr
      · exact refs_stripResponseContent r hr
      · exact hr
    · exact Or.inl hother

theorem addBinding_cases {service : ApiService} (hlisted : operationMethods binding.method ≠ [])
    (h : addBinding router aliases types fuel mounted service method draft binding = some draft') :
    (bindingTasks types method binding).foldlM (Task.run types fuel) draft.schemas =
        some draft'.schemas ∧
      ∀ other ∈ operations draft'.paths, other ∈ operations draft.paths ∨ ∀ r ∈ other.refs,
        (∃ name ∈ extractPathParams binding.path,
          r ∈ (pathParam types method.input name).schema.refs) ∨
        ∃ task ∈ bindingTasks types method binding, r ∈ task.refs types := by
  obtain ⟨operation, schemas, hbuilt, h⟩ := of_addBinding hlisted h
  obtain ⟨hrun, hrefs⟩ := buildOperation_runs hbuilt
  have htargets : ∀ {httpMethod : HttpOperation} {base : Text}, ∀ path ∈ targets aliases binding.path,
      ∀ before after : Draft, (before.schemas = schemas ∧ ∀ other ∈ operations before.paths,
        other ∈ operations draft.paths ∨ ∀ r ∈ other.refs, r ∈ operation.refs) →
      addTarget router mounted operation httpMethod base before path = some after →
      after.schemas = schemas ∧ ∀ other ∈ operations after.paths,
        other ∈ operations draft.paths ∨ ∀ r ∈ other.refs, r ∈ operation.refs := by
    intro httpMethod base path _ before after hbefore hadd
    obtain ⟨hschemas, hothers⟩ := addTarget_cases hadd
    exact ⟨hschemas.trans hbefore.1, fun other hother =>
      (hothers other hother).elim (hbefore.2 other) Or.inr⟩
  have hstart : ({ draft with schemas } : Draft).schemas = schemas ∧
      ∀ other ∈ operations ({ draft with schemas } : Draft).paths,
        other ∈ operations draft.paths ∨ ∀ r ∈ other.refs, r ∈ operation.refs :=
    ⟨rfl, fun other hother => Or.inl hother⟩
  obtain ⟨hschemas, hothers⟩ := foldlM_keeps _ (fun httpMethod _ before after hbefore hadd =>
    foldlM_keeps _ htargets hbefore hadd) hstart h
  refine ⟨by rw [hschemas, hrun], fun other hother => ?_⟩
  exact (hothers other hother).imp_right fun hsub r hr => hrefs r (hsub r hr)

theorem addMethod_runs {service : ApiService}
    (h : addMethod router aliases selection descriptors.types fuel mounted service draft method =
      some draft') :
    (methodTasks descriptors selection service method).foldlM (Task.run descriptors.types fuel)
      draft.schemas = some draft'.schemas := by
  rw [addMethod] at h
  rw [methodTasks]
  split at h
  · rename_i hskipped
    obtain rfl := Option.some.inj h
    rw [if_pos hskipped]
    rfl
  · rename_i hselected
    rw [if_neg hselected]
    refine foldlM_flatMap _ (fun binding _ before after hadd => ?_) h
    split
    · rename_i hempty
      rw [addBinding] at hadd
      dsimp only at hadd
      rw [if_pos hempty] at hadd
      rw [Option.some.inj hadd]
      rfl
    · rename_i hlisted
      exact (addBinding_cases (by simpa using hlisted) hadd).1

theorem addService_runs {service : ApiService}
    (h : addService router aliases selection descriptors.types fuel mounted true draft service =
      some draft') :
    (service.methods.flatMap (methodTasks descriptors selection service)).foldlM
      (Task.run descriptors.types fuel) draft.schemas = some draft'.schemas := by
  unfold addService at h
  dsimp only at h
  split at h
  · rename_i hskipped
    obtain rfl := Option.some.inj h
    have hnone : service.methods.flatMap (methodTasks descriptors selection service) = [] := by
      rw [Bool.and_eq_true, Bool.not_eq_true', Bool.not_eq_true', List.any_eq_false] at hskipped
      refine List.flatMap_eq_nil_iff.mpr fun method hmethod => ?_
      rw [methodTasks, Bool.eq_false_iff.mpr (hskipped.2 method hmethod), if_pos (by simp)]
    rw [hnone]
    rfl
  · have hrun : (service.methods.flatMap (methodTasks descriptors selection service)).foldlM
        (Task.run descriptors.types fuel)
        ({ draft with tags := draft.tags ++ [service.name] } : Draft).schemas = some draft'.schemas :=
      foldlM_flatMap _ (fun method _ before after hadd => addMethod_runs hadd) h
    exact hrun

/-- The components of the document are what the tasks leave. -/
theorem generate_runs {uri : UriParser} {config : OpenApiConfig} {document : Document}
    (h : generate router uri aliases selection fuel descriptors config = some document) :
    (tasks descriptors selection).foldlM (Task.run descriptors.types fuel) .empty =
      some document.schemas := by
  obtain ⟨draft, hdraft, h⟩ := Option.bind_eq_some_iff.mp h
  obtain rfl := Option.some.inj h
  rw [tasks]
  cases hextension : descriptors.httpExtension with
  | true =>
      rw [hextension] at hdraft
      exact foldlM_flatMap _ (fun service _ before after hadd => addService_runs hadd) hdraft
  | false =>
      rw [hextension] at hdraft
      have hkept : ∀ service ∈ descriptors.services, ∀ before after : Draft,
          before.schemas = .empty → addService router aliases selection descriptors.types fuel
            (mountedShapes router uri aliases selection descriptors.pool) false before service =
              some after → after.schemas = .empty := by
        intro service _ before after hbefore hadd
        unfold addService at hadd
        split at hadd <;> obtain rfl := Option.some.inj hadd <;> exact hbefore
      exact congrArg some (foldlM_keeps _ hkept rfl hdraft).symm

/-- The operations refer to what the tasks refer to, and to what the path variables name. -/
def Refers (descriptors : Descriptors) (selection : RpcSelection) (paths : Paths) : Prop :=
  ∀ operation ∈ operations paths, ∀ r ∈ operation.refs, PathRef descriptors selection r ∨
    ∃ task ∈ tasks descriptors selection, r ∈ task.refs descriptors.types

theorem generate_refers {uri : UriParser} {config : OpenApiConfig} {document : Document}
    (h : generate router uri aliases selection fuel descriptors config = some document) :
    Refers descriptors selection document.paths := by
  obtain ⟨draft, hdraft, h⟩ := Option.bind_eq_some_iff.mp h
  obtain rfl := Option.some.inj h
  have hbinding : ∀ service method binding, Binds descriptors selection method binding →
      ∀ before after : Draft, Refers descriptors selection before.paths →
      addBinding router aliases descriptors.types fuel
        (mountedShapes router uri aliases selection descriptors.pool) service method before binding =
          some after → Refers descriptors selection after.paths := by
    intro service method binding hbinds before after hbefore hadd operation hoperation r hr
    rcases (addBinding_cases hbinds.listed hadd).2 operation hoperation with hold | hnew
    · exact hbefore operation hold r hr
    · rcases hnew r hr with ⟨name, hname, hr⟩ | ⟨task, htask, hr⟩
      · exact Or.inl ⟨method, binding, hbinds, name, hname, hr⟩
      · exact Or.inr ⟨task, mem_tasks_iff.mpr ⟨method, binding, hbinds, htask⟩, hr⟩
  have hempty : Refers descriptors selection ({} : Draft).paths :=
    fun operation hoperation => absurd hoperation List.not_mem_nil
  exact services_keep (fun _ _ hdraft => hdraft) hbinding hempty hdraft

/-- A reference of the document is one of a path variable, of a task or of a component. -/
theorem generate_refs {uri : UriParser} {config : OpenApiConfig} {document : Document}
    (h : generate router uri aliases selection fuel descriptors config = some document) {r : Described}
    (hr : r ∈ document.refs) : PathRef descriptors selection r ∨
      (∃ task ∈ tasks descriptors selection, r ∈ task.refs descriptors.types) ∨
      ∃ name schema, document.schemas.get name = some schema ∧ r ∈ schema.refs := by
  rcases List.mem_append.mp hr with hr | hr
  · obtain ⟨operation, hoperation, hr⟩ := List.mem_flatMap.mp hr
    exact (generate_refers h operation hoperation r hr).imp_right Or.inl
  · obtain ⟨⟨name, schema⟩, hentry, hr⟩ := List.mem_flatMap.mp hr
    exact Or.inr (Or.inr ⟨name, schema, KeyMap.get_eq_some_iff.mpr hentry, hr⟩)

end Walk

end StructuredProxy.OpenApi
