import StructuredProxy.Request.Binding
import StructuredProxy.Request.Build

/-!
# The fields a JSON body sets

A body sets a field when a chain of its keys names the field and ends in a value that is not an object
of the field's own fields. Reading the body records such a chain.
-/

namespace StructuredProxy

variable {types : Types}

theorem mem_of_jsonField {type : MessageType} {key : Text} {field : Field}
    (h : type.jsonField key = some field) : field ∈ type.fields ∧ field.named key = true := by
  rw [MessageType.jsonField, Option.or_eq_some_iff] at h
  rcases h with h | ⟨-, h⟩
  · obtain ⟨hmem, hname⟩ := MessageType.mem_of_getFieldByJsonName h
    exact ⟨hmem, by simp [Field.named, hname]⟩
  · obtain ⟨hmem, hname⟩ := MessageType.mem_of_getFieldByName h
    exact ⟨hmem, by simp [Field.named, hname]⟩

def Json.isObject : Json → Bool
  | object _ => true
  | _ => false

/-- Whether a chain of keys names the path and ends in a value other than an object of the fields of
its last field. -/
def Json.sets (types : Types) : List Field → Json → Bool
  | [field], .object entries => entries.any fun entry =>
      field.named entry.1 && !((types.objectType field).isSome && entry.2.isObject)
  | field :: next :: path, .object entries => entries.any fun entry =>
      field.named entry.1 && entry.2.sets types (next :: path)
  | _, _ => false

theorem Json.exists_of_sets {field : Field} {path : List Field} {json : Json}
    (h : json.sets types (field :: path) = true) :
    ∃ entries key value, json = .object entries ∧ (key, value) ∈ entries ∧ field.named key = true ∧
      (path = [] → (types.objectType field).isSome = true → value.isObject = false) ∧
      (path ≠ [] → value.sets types path = true) := by
  cases json with
  | object entries =>
      cases path with
      | nil =>
          obtain ⟨⟨key, value⟩, hmem, hentry⟩ := List.any_eq_true.mp h
          rw [Bool.and_eq_true, Bool.not_eq_true', Bool.and_eq_false_iff] at hentry
          refine ⟨entries, key, value, rfl, hmem, hentry.1, fun _ hobject => ?_, fun hne => absurd rfl hne⟩
          exact hentry.2.resolve_left (by simp [hobject])
      | cons next path =>
          obtain ⟨⟨key, value⟩, hmem, hentry⟩ := List.any_eq_true.mp h
          rw [Bool.and_eq_true] at hentry
          exact ⟨entries, key, value, rfl, hmem, hentry.1, by simp, fun _ => hentry.2⟩
  | _ => cases path <;> cases h

/-! ### The recorded keys -/

variable {proto : ProtoJson}

theorem Types.objectType_eq_some {field : Field} {type : MessageType}
    (h : types.objectType field = some type) :
    field.isList = false ∧ field.isMap = false ∧ types.typeOf field.kind = some type ∧
      type.hasSpecialJson = false := by
  unfold objectType at h
  split at h
  · cases h
  · rename_i hsingular
    rw [Bool.or_eq_true, not_or, Bool.not_eq_true, Bool.not_eq_true] at hsingular
    obtain ⟨htype, hspecial⟩ := Option.filter_eq_some_iff.mp h
    exact ⟨hsingular.1, hsingular.2, htype, by simpa using hspecial⟩

theorem hasSpecialJson_of_objectType {field : Field} {type : MessageType} (hlist : field.isList = false)
    (hmap : field.isMap = false) (htype : types.typeOf field.kind = some type)
    (h : types.objectType field = none) : type.hasSpecialJson = true := by
  rw [Types.objectType, hlist, hmap, Bool.or_false, if_neg (by decide), htype,
    Option.filter_some_eq_none] at h
  simpa using h

def recordedEntry (types : Types) (proto : ProtoJson) (type : MessageType) (entry : Text × Json) :
    Held × List KeyTree :=
  (type.jsonField entry.1).elim (.whole, []) fun field => recordedField types proto field entry.2

theorem recordedKeys_eq (type : MessageType) (entries : List (Text × Json)) :
    recordedKeys types proto type entries = entries.map fun entry =>
      .node entry.1 (recordedEntry types proto type entry).1 (recordedEntry types proto type entry).2 := by
  induction entries with
  | nil => rfl
  | cons entry entries ih =>
      obtain ⟨key, json⟩ := entry
      rw [recordedKeys, ih, List.map_cons, recordedEntry]
      cases type.jsonField key <;> rfl

theorem recordedField_of_leaf {field : Field} (hobject : types.objectType field = none) (json : Json) :
    recordedField types proto field json =
      (proto.leafKeys field json).elim (.whole, []) fun trees => (.object, trees) := by
  cases json with
  | _ =>
      simp only [recordedField, hobject]
      cases proto.leafKeys field _ <;> rfl

theorem recorded_of_leaf {field : Field} (hobject : types.objectType field = none) (json : Json) :
    Recorded json (recordedField types proto field json).1 (recordedField types proto field json).2 := by
  rw [recordedField_of_leaf hobject]
  cases hkeys : proto.leafKeys field json with
  | none => exact .whole json []
  | some trees => exact proto.leafKeys_recorded field json trees hkeys

theorem recorded_of_scalar (field : Field) {json : Json}
    (hwhole : ∀ type, types.objectType field = some type →
      recordedField types proto field json = (.whole, [])) :
    Recorded json (recordedField types proto field json).1 (recordedField types proto field json).2 := by
  cases hobject : types.objectType field with
  | none => exact recorded_of_leaf hobject json
  | some type =>
      rw [hwhole type hobject]
      exact .whole json []

mutual

/-- What is recorded while the value of a field is read is recorded of that value. -/
theorem recorded_recordedField (field : Field) : ∀ json,
    Recorded json (recordedField types proto field json).1 (recordedField types proto field json).2
  | .object entries => by
      cases hobject : types.objectType field with
      | none => exact recorded_of_leaf hobject _
      | some type =>
          simp only [recordedField, hobject, recordedKeys_eq]
          refine .object (fun entry => (recordedEntry types proto type entry).1)
            (fun entry => (recordedEntry types proto type entry).2) ?_ (recorded_recordedEntry type entries)
          intro entry hentry
          exact List.mem_map_of_mem hentry
  | .null | .bool _ | .number _ | .string _ | .array _ =>
      recorded_of_scalar field (fun _ hobject => by simp only [recordedField, hobject])

theorem recorded_recordedEntry (type : MessageType) : ∀ entries : List (Text × Json), ∀ entry ∈ entries,
    Recorded entry.2 (recordedEntry types proto type entry).1 (recordedEntry types proto type entry).2
  | [] => by simp
  | (key, json) :: entries => by
      intro entry hentry
      rcases List.mem_cons.mp hentry with rfl | hentry
      · unfold recordedEntry
        cases type.jsonField key with
        | none => exact .whole _ _
        | some field => exact recorded_recordedField field json
      · exact recorded_recordedEntry type entries entry hentry

end

theorem recorded_recordedKeys (type : MessageType) (entries : List (Text × Json)) :
    Recorded (.object entries) .object (recordedKeys types proto type entries) := by
  rw [recordedKeys_eq]
  refine .object (fun entry => (recordedEntry types proto type entry).1)
    (fun entry => (recordedEntry types proto type entry).2) ?_ (recorded_recordedEntry type entries)
  intro entry hentry
  exact List.mem_map_of_mem hentry

theorem isWhole_object_of_special {field : Field} {type : MessageType} (hlist : field.isList = false)
    (hmap : field.isMap = false) (htype : types.typeOf field.kind = some type)
    (hobject : types.objectType field = none) : Held.object.isWhole types field = true := by
  rw [Held.isWhole, htype]
  exact hasSpecialJson_of_objectType hlist hmap htype hobject

/-- **A chain of keys that sets a path is recorded**: it blocks the path, every field above it and every
field below it. -/
theorem Recorded.blocks {p : List Field} : ∀ {type : MessageType} {q : List Field} {json : Json}
    {trees : List KeyTree}, Recorded json .object trees → PathIn types type q →
    q <+: p ∨ p <+: q → json.sets types p = true → trees.any (KeyTree.blocks types q) = true := by
  induction p with
  | nil => intro type q json trees _ _ _ hsets; cases json <;> cases hsets
  | cons f p ih =>
      intro type q json trees hrecorded hq hnear hsets
      cases q with
      | nil => cases hq
      | cons g q =>
          obtain ⟨rfl, htails⟩ : g = f ∧ (q <+: p ∨ p <+: q) := by
            rcases hnear with hbegins | hbegins
            · obtain ⟨heq, htail⟩ := List.cons_prefix_cons.mp hbegins
              exact ⟨heq, Or.inl htail⟩
            · obtain ⟨heq, htail⟩ := List.cons_prefix_cons.mp hbegins
              exact ⟨heq.symm, Or.inr htail⟩
          obtain ⟨entries, key, value, rfl, hmem, hnamed, hend, hrest⟩ := Json.exists_of_sets hsets
          cases hrecorded with
          | object held below hnode hbelow =>
              refine List.any_eq_true.mpr ⟨_, hnode _ hmem, ?_⟩
              have hvalue := hbelow _ hmem
              rw [KeyTree.blocks, hnamed, Bool.true_and, KeyTree.anyBlocks_eq, Bool.or_eq_true,
                Bool.or_eq_true]
              cases hq with
              | last _ => exact Or.inl (Or.inl rfl)
              | step hfield hlist hmap hinner hpath =>
                  generalize held (key, value) = holds, below (key, value) = under at hvalue ⊢
                  cases hvalue with
                  | whole _ _ => exact Or.inl (Or.inr rfl)
                  | object held below hnode hbelow =>
                      cases hobject : types.objectType g with
                      | none =>
                          exact Or.inl (Or.inr (isWhole_object_of_special hlist hmap hinner hobject))
                      | some object =>
                          cases p with
                          | nil => exact absurd (hend rfl (by rw [hobject]; rfl)) (by simp [Json.isObject])
                          | cons next p =>
                              have hsets := hrest (List.cons_ne_nil _ _)
                              exact Or.inr (ih (.object held below hnode hbelow) hpath htails hsets)

end StructuredProxy
