import StructuredProxy.OpenApi.Closed
import StructuredProxy.Request.Bind

/-!
# What a reference denotes

A component is found by the short name of its message. The last root written under a name wins; where no
root is written, the first message registered under it. As long as whatever can win the name of a
referenced message has the schema of that message, a reference denotes its own message, in whatever order
the services, methods and bindings come.
-/

namespace StructuredProxy.OpenApi

open Lib

section

variable (descriptors : Descriptors) (selection : RpcSelection)

def Written (described : Described) : Prop := .write described ∈ tasks descriptors selection

/-- What can stand under its name in the end. -/
def Stands (described : Described) : Prop :=
  Written descriptors selection described ∨ (Reached descriptors selection described ∧
    ∀ root, Written descriptors selection root → root.name ≠ described.name)

def Referenced (r : Described) : Prop :=
  (∃ task ∈ tasks descriptors selection, r ∈ task.refs descriptors.types) ∨
    ∃ described, Stands descriptors selection described ∧
      r ∈ (messageSchema descriptors.types described).refs

/-- What the bodies and answers refer to, and the schemas of those messages, and so on. -/
inductive Linked : Described → Prop where
  | task {task : Task} {r : Described} : task ∈ tasks descriptors selection →
      r ∈ task.refs descriptors.types → Linked r
  | schema {described r : Described} : Linked described →
      r ∈ (messageSchema descriptors.types described).refs → Linked r

end

def Described.binds (described : Described) (field : Field) : Bool :=
  described.without.any fun key => (fieldNamed described.type key).any fun found => found.1 = field

/-- A message that is not written as an object of its fields; an `Empty` is. -/
def hasOwnForm (type : MessageType) : Bool :=
  type.hasSpecialJson && !(type.fullName = wellKnown "Empty" && type.fields.isEmpty)

/-- The ProtoJSON form of a message: its own one, or an object of all the fields the path does not set,
under their JSON names. -/
def ownSchema (types : Types) (described : Described) : Schema :=
  if hasOwnForm described.type then wellKnownSchema described.type
  else
    .object ((described.type.fields.filter fun field => !described.binds field).map fun field =>
      (field.jsonName, fieldToSchema types .json field))

/-- Every message the document refers to has its name to itself. -/
structure OwnNames (descriptors : Descriptors) (selection : RpcSelection) : Prop where
  /-- What can stand under the name of a referenced message has its schema. -/
  same : ∀ described, Stands descriptors selection described →
    ∀ r, Referenced descriptors selection r → described.name = r.name →
      messageSchema descriptors.types described = messageSchema descriptors.types r
  /-- What a path variable refers to, a body or an answer leads to. -/
  paths : ∀ r, PathRef descriptors selection r → Linked descriptors selection r
  /-- No whole body or answer has a JSON form of its own. -/
  roots : ∀ task ∈ tasks descriptors selection, ∀ r ∈ task.root, hasOwnForm r.type = false
  /-- The fields a path sets have their own names in it. -/
  spelled : ∀ task ∈ tasks descriptors selection, ∀ r ∈ task.root,
    ∀ field ∈ r.type.fields, r.binds field = true → field.name ∈ r.without

section

variable {descriptors : Descriptors} {selection : RpcSelection} {r : Described} {task : Task}
  {schemas schemas' : Schemas} {fuel : Nat}

theorem Task.root_or_nested (task : Task) {types : Types} (hr : r ∈ task.refs types) :
    r ∈ task.root ∨ ∃ field, nested types field = some r := by
  cases task with
  | write root => exact Or.inl (Option.mem_toList.mp hr)
  | inline type => exact Or.inl (Option.mem_toList.mp hr)
  | field held => exact Or.inr (referenced_eq_some (Option.mem_toList.mp hr))

theorem Referenced.root_or_nested (h : Referenced descriptors selection r) :
    (∃ task ∈ tasks descriptors selection, r ∈ task.root) ∨
      ∃ field, nested descriptors.types field = some r := by
  rcases h with ⟨task, htask, hr⟩ | ⟨described, -, hr⟩
  · exact (task.root_or_nested hr).imp_left fun hroot => ⟨task, htask, hroot⟩
  · obtain ⟨field, -, hr⟩ := mem_refs_messageSchema hr
    exact Or.inr (referenced_eq_some hr)

theorem messageSchema_eq_ownSchema {types : Types} (hform : hasOwnForm r.type = false)
    (hspelled : ∀ field ∈ r.type.fields, r.binds field = true → field.name ∈ r.without) :
    messageSchema types r = ownSchema types r := by
  have hbinds : ∀ field ∈ r.type.fields, r.without.contains field.name = r.binds field := by
    intro field hfield
    rw [Bool.eq_iff_iff, List.contains_iff_mem]
    refine ⟨fun hmem => ?_, hspelled field hfield⟩
    refine List.any_eq_true.mpr ⟨field.name, hmem, ?_⟩
    rw [fieldNamed, MessageType.getFieldByName_name hfield]
    exact decide_eq_true rfl
  have hfilter : r.fields = r.type.fields.filter fun field => !r.binds field :=
    List.filter_congr fun field hfield => by rw [hbinds field hfield]
  rw [messageSchema, ownSchema, hform, if_neg Bool.false_ne_true, hfilter]

theorem Referenced.messageSchema_eq (hnames : OwnNames descriptors selection)
    (h : Referenced descriptors selection r) :
    messageSchema descriptors.types r = ownSchema descriptors.types r := by
  rcases h.root_or_nested with ⟨task, htask, hroot⟩ | ⟨field, hnested⟩
  · exact messageSchema_eq_ownSchema (hnames.roots task htask r hroot)
      (hnames.spelled task htask r hroot)
  · obtain ⟨-, hwithout, hplain⟩ := nested_eq_some hnested
    have hform : hasOwnForm r.type = false := by rw [hasOwnForm, hplain, Bool.false_and]
    refine messageSchema_eq_ownSchema hform fun field _ hbinds => ?_
    rw [Described.binds, hwithout] at hbinds
    exact absurd hbinds Bool.false_ne_true

theorem run_cases (h : task.run descriptors.types fuel schemas = some schemas') :
    schemas.Extends schemas' ∨
      ∃ described, task = .write described ∧
        write descriptors.types fuel schemas described = some schemas' := by
  cases task with
  | write described => exact Or.inr ⟨described, rfl, h⟩
  | inline type =>
      left
      intro k v hget
      rw [Task.run] at h
      split at h
      · obtain rfl := Option.some.inj h
        exact hget
      · rename_i hfree
        refine Registry.write_get_of_ne h (fun heq => hfree ?_) hget
        rw [← show k = type.name from heq, hget]
        rfl
  | field held =>
      rw [Task.run, registerNested_eq] at h
      exact Or.inl (Registry.foldlM_extends _ (Registry.register_extends fuel) h)

/-- A name under which a root is written. -/
def Won (descriptors : Descriptors) (selection : RpcSelection) (schemas : Schemas) (name : Text) : Prop :=
  ∃ root, Written descriptors selection root ∧ root.name = name ∧
    schemas.get name = some (messageSchema descriptors.types root)

theorem run_won (htask : task ∈ tasks descriptors selection)
    (h : task.run descriptors.types fuel schemas = some schemas') {name : Text}
    (hwon : Won descriptors selection schemas name ∨ ∃ root, task = .write root ∧ root.name = name) :
    Won descriptors selection schemas' name := by
  rcases run_cases h with hextends | ⟨described, rfl, hwrite⟩
  · rcases hwon with ⟨root, hroot, hname, hget⟩ | ⟨root, rfl, rfl⟩
    · exact ⟨root, hroot, hname, hextends name _ hget⟩
    · exact ⟨root, htask, rfl, Registry.write_get h⟩
  · by_cases heq : name = described.name
    · subst heq
      exact ⟨described, htask, rfl, Registry.write_get hwrite⟩
    · rcases hwon with ⟨root, hroot, hname, hget⟩ | ⟨root, hroot, hname⟩
      · exact ⟨root, hroot, hname, Registry.write_get_of_ne hwrite heq hget⟩
      · cases hroot
        exact absurd hname.symm heq

theorem foldlM_won (items : List Task) (hitems : ∀ task ∈ items, task ∈ tasks descriptors selection) :
    ∀ {schemas schemas' : Schemas} {name : Text},
      items.foldlM (Task.run descriptors.types fuel) schemas = some schemas' →
      (Won descriptors selection schemas name ∨ ∃ root, .write root ∈ items ∧ root.name = name) →
      Won descriptors selection schemas' name := by
  induction items with
  | nil =>
      intro schemas schemas' name h hwon
      obtain rfl := Option.some.inj h
      exact hwon.resolve_right fun ⟨_, hroot, _⟩ => absurd hroot List.not_mem_nil
  | cons task items ih =>
      intro schemas schemas' name h hwon
      rw [List.foldlM_cons] at h
      obtain ⟨middle, hfirst, hrest⟩ := Option.bind_eq_some_iff.mp h
      have hone := @run_won _ _ _ _ _ _ (hitems task List.mem_cons_self) hfirst name
      refine ih (fun other hother => hitems other (List.mem_cons_of_mem _ hother)) hrest ?_
      rcases hwon with hwon | ⟨root, hroot, hname⟩
      · exact Or.inl (hone (Or.inl hwon))
      · rcases List.mem_cons.mp hroot with hroot | hroot
        · exact Or.inl (hone (Or.inr ⟨root, hroot.symm, hname⟩))
        · exact Or.inr ⟨root, hroot, hname⟩

theorem generate_stands {router : Matchit} {uri : UriParser} {aliases : List AliasConfig}
    {config : OpenApiConfig} {document : Document}
    (hfilled : Filled descriptors selection document.schemas)
    (h : generate router uri aliases selection fuel descriptors config = some document) {name : Text}
    {schema : Schema} (hget : document.schemas.get name = some schema) :
    ∃ described, Stands descriptors selection described ∧ described.name = name ∧
      messageSchema descriptors.types described = schema := by
  by_cases hwritten : ∃ root, Written descriptors selection root ∧ root.name = name
  · obtain ⟨root, hroot, hname⟩ := hwritten
    obtain ⟨winner, hwinner, hname, hwon⟩ :=
      foldlM_won _ (fun _ htask => htask) (generate_runs h) (Or.inr ⟨root, hroot, hname⟩)
    exact ⟨winner, Or.inl hwinner, hname, Option.some.inj (hwon.symm.trans hget)⟩
  · rcases hfilled name schema hget with ⟨holder, hholder, -⟩ | ⟨described, hreached, hname, hvalue, -⟩
    · exact absurd hholder List.not_mem_nil
    · refine ⟨described, Or.inr ⟨hreached, fun root hroot heq => ?_⟩, hname, hvalue⟩
      exact hwritten ⟨root, hroot, heq.trans hname⟩

structure Denoting (descriptors : Descriptors) (selection : RpcSelection) (schemas : Schemas) : Prop
    extends Complete descriptors selection schemas where
  stands : ∀ {name schema}, schemas.get name = some schema →
    ∃ described, Stands descriptors selection described ∧ described.name = name ∧
      messageSchema descriptors.types described = schema

theorem Denoting.get_eq (h : Denoting descriptors selection schemas)
    (hnames : OwnNames descriptors selection) (hr : Referenced descriptors selection r)
    (hthere : (schemas.get r.name).isSome = true) :
    schemas.get r.name = some (messageSchema descriptors.types r) := by
  obtain ⟨schema, hschema⟩ := Option.isSome_iff_exists.mp hthere
  obtain ⟨described, hstands, hname, rfl⟩ := h.stands hschema
  rw [hschema, hnames.same described hstands r hr hname]

theorem Denoting.refs_of_get (h : Denoting descriptors selection schemas) {name : Text} {schema : Schema}
    (hget : schemas.get name = some schema) (hr : r ∈ schema.refs) :
    Referenced descriptors selection r ∧ (schemas.get r.name).isSome = true := by
  obtain ⟨described, hstands, -, rfl⟩ := h.stands hget
  exact ⟨Or.inr ⟨described, hstands, hr⟩, h.isSome_of_refs hget hr⟩

theorem Linked.denotes (hlinked : Linked descriptors selection r)
    (h : Denoting descriptors selection schemas) (hnames : OwnNames descriptors selection) :
    Referenced descriptors selection r ∧ (schemas.get r.name).isSome = true := by
  induction hlinked with
  | @task task r htask hr => exact ⟨Or.inl ⟨task, htask, hr⟩, h.tasks task htask r hr⟩
  | schema _ hr ih => exact h.refs_of_get (h.get_eq hnames ih.1 ih.2) hr

end

/-! ### The order of services, methods and bindings -/

structure ReorderedMethod (method method' : ApiMethod) : Prop where
  name : method'.name = method.name
  clientStreaming : method'.clientStreaming = method.clientStreaming
  input : method'.input = method.input
  output : method'.output = method.output
  serverStreaming : method'.serverStreaming = method.serverStreaming
  bindings : (httpBindings method'.toMethodDescriptor).Perm (httpBindings method.toMethodDescriptor)

structure ReorderedService (service service' : ApiService) : Prop where
  fullName : service'.fullName = service.fullName
  methods : ∃ methods, List.Forall₂ ReorderedMethod service.methods methods ∧
    service'.methods.Perm methods

structure Reordered (descriptors descriptors' : Descriptors) : Prop where
  types : descriptors'.types = descriptors.types
  httpExtension : descriptors'.httpExtension = descriptors.httpExtension
  services : ∃ services, List.Forall₂ ReorderedService descriptors.services services ∧
    descriptors'.services.Perm services

section

variable {descriptors descriptors' : Descriptors} {selection : RpcSelection}

theorem selects_congr {service service' : ApiService} {method method' : ApiMethod}
    (hservice : service'.fullName = service.fullName) (hmethod : method'.name = method.name) :
    selection.selects service'.descriptor method'.toMethodDescriptor =
      selection.selects service.descriptor method.toMethodDescriptor := by
  rw [RpcSelection.selects, RpcSelection.selects, ApiService.descriptor, ApiService.descriptor, hservice,
    hmethod]

theorem Reordered.binds (h : Reordered descriptors descriptors') {method' : ApiMethod}
    {binding : HttpBinding} (hbinds : Binds descriptors' selection method' binding) :
    ∃ method, Binds descriptors selection method binding ∧ ReorderedMethod method method' := by
  obtain ⟨services, hrelated, hperm⟩ := h.services
  obtain ⟨service', hservice', hmethod', hselected⟩ := hbinds.service
  obtain ⟨service, hservice, hsame⟩ := exists_of_mem_forall₂ hrelated.flip (hperm.mem_iff.mp hservice')
  obtain ⟨methods, hmethods, hmethodsPerm⟩ := hsame.methods
  obtain ⟨method, hmethod, hmethodSame⟩ :=
    exists_of_mem_forall₂ hmethods.flip (hmethodsPerm.mem_iff.mp hmethod')
  refine ⟨method, ⟨?_, ⟨service, hservice, hmethod, ?_⟩, ?_, ?_, hbinds.listed⟩, hmethodSame⟩
  · rw [← h.httpExtension, hbinds.annotated]
  · rwa [← selects_congr hsame.fullName hmethodSame.name]
  · rw [← hmethodSame.clientStreaming, hbinds.unary]
  · exact hmethodSame.bindings.mem_iff.mp hbinds.bound

theorem ReorderedMethod.symm {method method' : ApiMethod} (h : ReorderedMethod method method') :
    ReorderedMethod method' method :=
  ⟨h.name.symm, h.clientStreaming.symm, h.input.symm, h.output.symm, h.serverStreaming.symm,
    h.bindings.symm⟩

theorem ReorderedService.symm {service service' : ApiService} (h : ReorderedService service service') :
    ReorderedService service' service := by
  obtain ⟨methods, hrelated, hperm⟩ := h.methods
  obtain ⟨others, hothers, hback⟩ := List.perm_comp_forall₂ hperm hrelated.flip
  exact ⟨h.fullName.symm, others, hothers.imp fun _ _ => ReorderedMethod.symm, hback.symm⟩

theorem Reordered.symm (h : Reordered descriptors descriptors') : Reordered descriptors' descriptors := by
  obtain ⟨services, hrelated, hperm⟩ := h.services
  obtain ⟨others, hothers, hback⟩ := List.perm_comp_forall₂ hperm hrelated.flip
  exact ⟨h.types.symm, h.httpExtension.symm, others, hothers.imp fun _ _ => ReorderedService.symm,
    hback.symm⟩

theorem ReorderedMethod.bindingTasks_eq {method method' : ApiMethod} (h : ReorderedMethod method method')
    (types : Types) (binding : HttpBinding) :
    bindingTasks types method' binding = bindingTasks types method binding := by
  simp only [bindingTasks, answerTasks, h.input, h.output, h.serverStreaming]

theorem Reordered.mem_tasks (h : Reordered descriptors descriptors') {task : Task}
    (htask : task ∈ tasks descriptors' selection) : task ∈ tasks descriptors selection := by
  rw [OpenApi.mem_tasks_iff] at htask ⊢
  obtain ⟨method', binding, hbinds, htask⟩ := htask
  obtain ⟨method, hbinds, hsame⟩ := h.binds hbinds
  rw [h.types, hsame.bindingTasks_eq] at htask
  exact ⟨method, binding, hbinds, htask⟩

theorem Reordered.reached (h : Reordered descriptors descriptors') {described : Described}
    (hreached : Reached descriptors' selection described) : Reached descriptors selection described := by
  induction hreached with
  | task htask hask =>
      rw [h.types] at hask
      exact .task (h.mem_tasks htask) hask
  | child _ hchild ih =>
      rw [h.types] at hchild
      exact .child ih hchild

theorem Reordered.stands (h : Reordered descriptors descriptors') {described : Described}
    (hstands : Stands descriptors' selection described) : Stands descriptors selection described :=
  hstands.imp h.mem_tasks fun ⟨hreached, hfree⟩ =>
    ⟨h.reached hreached, fun root hroot => hfree root (h.symm.mem_tasks hroot)⟩

theorem Reordered.referenced (h : Reordered descriptors descriptors') {r : Described}
    (hr : Referenced descriptors' selection r) : Referenced descriptors selection r := by
  rw [Referenced, h.types] at hr
  exact hr.imp (fun ⟨task, htask, hr⟩ => ⟨task, h.mem_tasks htask, hr⟩)
    fun ⟨described, hstands, hr⟩ => ⟨described, h.stands hstands, hr⟩

theorem Reordered.linked (h : Reordered descriptors descriptors') {r : Described}
    (hlinked : Linked descriptors selection r) : Linked descriptors' selection r := by
  induction hlinked with
  | task htask hr => exact .task (h.symm.mem_tasks htask) (by rwa [h.types])
  | schema _ hr ih => exact .schema ih (by rwa [h.types])

theorem Reordered.ownNames (h : Reordered descriptors descriptors')
    (hnames : OwnNames descriptors selection) : OwnNames descriptors' selection where
  same := fun described hstands r hr hname => by
    rw [h.types]
    exact hnames.same described (h.stands hstands) r (h.referenced hr) hname
  paths := by
    rintro r ⟨method', binding, hbinds, name, hname, hr⟩
    obtain ⟨method, hbinds, hsame⟩ := h.binds hbinds
    rw [hsame.input, h.types] at hr
    exact h.linked (hnames.paths r ⟨method, binding, hbinds, name, hname, hr⟩)
  roots := fun task htask => hnames.roots task (h.mem_tasks htask)
  spelled := fun task htask => hnames.spelled task (h.mem_tasks htask)

end

def item : MessageType where
  fullName := str "lib.Item"
  fields := [textField 1 "name", textField 2 "title"]

def emptyMessage : MessageType where
  fullName := str "google.protobuf.Empty"
  fields := []

def getItem : ApiMethod where
  name := str "GetItem"
  http := some { get := str "/v1/items/\x7bname\x7d" }
  input := sampleRequest
  output := item

def updateItem : ApiMethod where
  name := str "UpdateItem"
  http := some { put := str "/v1/items/\x7bname\x7d", body := str "*" }
  input := item
  output := emptyMessage

def items : Descriptors where
  types := [sampleRequest, item, emptyMessage]
  services := [{ fullName := str "lib.Items", methods := [getItem, updateItem] }]

def Schema.propertyNames : Schema → List Text
  | .object properties => properties.map Prod.fst
  | _ => []

def libraryReversed : Descriptors where
  types := library.types
  services := [{ fullName := str "lib.Library", methods := [getBox, getShelf] }]

theorem library_reordered : Reordered library libraryReversed where
  types := rfl
  httpExtension := rfl
  services := by
    have hmethod : ∀ method, ReorderedMethod method method := fun method =>
      ⟨rfl, rfl, rfl, rfl, rfl, List.Perm.refl _⟩
    have hmethods : List.Forall₂ ReorderedMethod [getShelf, getBox] [getShelf, getBox] :=
      .cons (hmethod _) (.cons (hmethod _) .nil)
    exact ⟨libraryReversed.services,
      .cons ⟨rfl, [getShelf, getBox], hmethods, List.Perm.swap getShelf getBox []⟩ .nil, List.Perm.refl _⟩

def shelved : List Described := [{ type := shelf }, { type := shelfEntry }, { type := book }]

theorem tasks_onlyShelves : tasks library onlyShelves = [.write { type := shelf }] := rfl

theorem reached_onlyShelves {described : Described} (h : Reached library onlyShelves described) :
    described ∈ shelved := by
  induction h with
  | task htask hask =>
      rw [tasks_onlyShelves, List.mem_singleton] at htask
      subst htask
      rw [List.mem_singleton.mp hask]
      exact List.mem_cons_self
  | child _ hchild ih =>
      have hclosed : ∀ holder ∈ shelved, ∀ held ∈ (components library.types).children holder,
          held ∈ shelved := by
        have hshelf : (components library.types).children { type := shelf } =
            [{ type := shelfEntry }] := rfl
        have hentry : (components library.types).children { type := shelfEntry } =
            [{ type := book }] := rfl
        have hbook : (components library.types).children { type := book } = [{ type := shelf }] := rfl
        simp [shelved, hshelf, hentry, hbook]
      exact hclosed _ ih _ hchild

theorem stands_onlyShelves {described : Described} (h : Stands library onlyShelves described) :
    described ∈ shelved := by
  rcases h with hwritten | ⟨hreached, -⟩
  · exact reached_onlyShelves (.task hwritten (List.mem_singleton.mpr rfl))
  · exact reached_onlyShelves hreached

theorem referenced_onlyShelves {r : Described} (h : Referenced library onlyShelves r) : r ∈ shelved := by
  rcases h with ⟨task, htask, hr⟩ | ⟨described, hstands, hr⟩
  · rw [tasks_onlyShelves, List.mem_singleton] at htask
    subst htask
    rw [List.mem_singleton.mp hr]
    exact List.mem_cons_self
  · have hrefs : ∀ holder ∈ shelved, ∀ r ∈ (messageSchema library.types holder).refs, r ∈ shelved := by
      have hshelf : (messageSchema library.types { type := shelf }).refs = [{ type := book }] := rfl
      have hentry : (messageSchema library.types { type := shelfEntry }).refs = [{ type := book }] := rfl
      have hbook : (messageSchema library.types { type := book }).refs = [{ type := shelf }] := rfl
      simp [shelved, hshelf, hentry, hbook]
    exact hrefs described (stands_onlyShelves hstands) r hr

theorem library_shelves_ownNames : OwnNames library onlyShelves where
  same := by
    have hdistinct : ∀ described ∈ shelved, ∀ r ∈ shelved, described.name = r.name →
        described.type = r.type ∧ described.without = r.without := by
      decide +kernel
    intro described hstands r hr hname
    obtain ⟨htype, hwithout⟩ := hdistinct described (stands_onlyShelves hstands) r
      (referenced_onlyShelves hr) hname
    cases described
    cases r
    cases htype
    cases hwithout
    rfl
  paths := fun r hr => absurd hr (library_scalarPaths onlyShelves).not_pathRef
  roots := by
    rw [tasks_onlyShelves]
    decide +kernel
  spelled := by
    rw [tasks_onlyShelves]
    decide +kernel

end StructuredProxy.OpenApi
