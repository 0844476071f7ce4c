import StructuredProxy.Request.PathWins
import StructuredProxy.Request.Spelling
import Mathlib.Logic.Relation

/-!
# Keys in either spelling

A segment of a key that names a field by its proto name may be replaced by the JSON name of the field.
The key then names the same field, and the pairs have the same outcome where both spellings bind a field
and the fields inside it in the same order.
-/

namespace StructuredProxy

variable {types : Types}

def MessageType.NamesApart (type : MessageType) : Prop :=
  ∀ field ∈ type.fields, ∀ other ∈ type.fields, field.jsonName = other.name → field = other

/-- One segment that is the proto name of a field replaced by the field's JSON name, which has no dot to
be split at. -/
inductive RespelledOnce (types : Types) : MessageType → List Text → List Text → Prop
  | here {type : MessageType} {segment : Text} {field : Field} (segments : List Text)
      (hfield : type.getFieldByName segment = some field) (happart : type.NamesApart)
      (hdotless : dot ∉ field.jsonName) :
      RespelledOnce types type (segment :: segments) (field.jsonName :: segments)
  | inner {type inner : MessageType} {segment : Text} {field : Field} {aliased : Bool}
      {segments segments' : List Text} (hfield : fieldNamed type segment = some (field, aliased))
      (hinner : types.typeOf field.kind = some inner)
      (hrest : RespelledOnce types inner segments segments') :
      RespelledOnce types type (segment :: segments) (segment :: segments')

def RespelledSegments (types : Types) (type : MessageType) : List Text → List Text → Prop :=
  Relation.ReflTransGen (RespelledOnce types type)

def Start.keyed (types : Types) (start : Start) : Option MessageType :=
  match start.within with
  | none => some start.root
  | some field => types.typeOf field.kind

def Respelled (types : Types) (start : Start) (key key' : Text) : Prop :=
  ∃ type, start.keyed types = some type ∧ ∃ segments,
    RespelledSegments types type (key.splitOn dot) segments ∧ key' = [dot].intercalate segments

/-! ### The field a respelled key names -/

variable {type : MessageType}

theorem fieldNamed_of_getFieldByName {name : Text} {field : Field}
    (h : type.getFieldByName name = some field) : fieldNamed type name = some (field, false) := by
  simp only [fieldNamed, h]

theorem fieldNamed_jsonName (happart : type.NamesApart) {field : Field} (hfield : field ∈ type.fields) :
    ∃ aliased, fieldNamed type field.jsonName = some (field, aliased) := by
  have hnamed : field.named field.jsonName = true := by
    rw [Field.named, decide_eq_true rfl, Bool.or_true]
  obtain ⟨other, aliased, hother⟩ := exists_fieldNamed hfield hnamed
  obtain ⟨hmem, hotherNamed⟩ := mem_of_fieldNamed hother
  rw [Field.named, Bool.or_eq_true, decide_eq_true_eq, decide_eq_true_eq] at hotherNamed
  rcases hotherNamed with hname | hjsonName
  · obtain rfl := happart field hfield other hmem hname
    exact ⟨aliased, hother⟩
  · obtain rfl := MessageType.eq_of_jsonName_eq hfield hmem hjsonName
    exact ⟨aliased, hother⟩

/-- The path depends on the field a segment names, not on the name. -/
theorem path_resolveSegments_cons {segment segment' : Text} {field : Field} {aliased aliased' : Bool}
    (h : fieldNamed type segment = some (field, aliased))
    (h' : fieldNamed type segment' = some (field, aliased')) (segments : List Text) :
    (resolveSegments types type (segment' :: segments)).map Resolved.path =
      (resolveSegments types type (segment :: segments)).map Resolved.path := by
  cases segments with
  | nil => simp only [resolveSegments, h, h', Option.map_some]
  | cons next segments =>
      simp only [resolveSegments, h, h', Option.bind_eq_bind, Option.bind_some]
      cases types.typeOf field.kind with
      | none => rfl
      | some inner =>
          simp only [Option.bind_some]
          split
          · rfl
          · cases resolveSegments types inner (next :: segments) <;> rfl

theorem path_resolveSegments_below {inner : MessageType} {segment : Text} {field : Field} {aliased : Bool}
    {segments segments' : List Text} (hfield : fieldNamed type segment = some (field, aliased))
    (hinner : types.typeOf field.kind = some inner) (hne : segments ≠ []) (hne' : segments' ≠ [])
    (h : (resolveSegments types inner segments').map Resolved.path =
      (resolveSegments types inner segments).map Resolved.path) :
    (resolveSegments types type (segment :: segments')).map Resolved.path =
      (resolveSegments types type (segment :: segments)).map Resolved.path := by
  obtain ⟨next, segments, rfl⟩ := List.exists_cons_of_ne_nil hne
  obtain ⟨next', segments', rfl⟩ := List.exists_cons_of_ne_nil hne'
  simp only [resolveSegments, hfield, hinner, Option.bind_eq_bind, Option.bind_some]
  split
  · rfl
  · have hpaths := congrArg (Option.map (field :: ·)) h
    rw [Option.map_map, Option.map_map, Option.map_eq_bind, Option.map_eq_bind] at hpaths
    rw [Option.map_bind, Option.map_bind]
    exact hpaths

theorem RespelledOnce.ne_nil {segments segments' : List Text}
    (h : RespelledOnce types type segments segments') : segments ≠ [] ∧ segments' ≠ [] := by
  cases h <;> exact ⟨List.cons_ne_nil _ _, List.cons_ne_nil _ _⟩

theorem RespelledOnce.path_eq {segments segments' : List Text}
    (h : RespelledOnce types type segments segments') :
    (resolveSegments types type segments').map Resolved.path =
      (resolveSegments types type segments).map Resolved.path := by
  induction h with
  | here segments hfield happart _ =>
      obtain ⟨hmem, -⟩ := MessageType.mem_of_getFieldByName hfield
      obtain ⟨aliased, hjson⟩ := fieldNamed_jsonName happart hmem
      have hproto := fieldNamed_of_getFieldByName hfield
      exact path_resolveSegments_cons hproto hjson segments
  | inner hfield hinner hrest ih =>
      exact path_resolveSegments_below hfield hinner hrest.ne_nil.1 hrest.ne_nil.2 ih

theorem RespelledOnce.dotless {segments segments' : List Text}
    (h : RespelledOnce types type segments segments') (hsegments : ∀ segment ∈ segments, dot ∉ segment) :
    ∀ segment ∈ segments', dot ∉ segment := by
  induction h with
  | here segments _ _ hdotless =>
      rw [List.forall_mem_cons] at hsegments ⊢
      exact ⟨hdotless, hsegments.2⟩
  | inner _ _ _ ih =>
      rw [List.forall_mem_cons] at hsegments ⊢
      exact ⟨hsegments.1, ih hsegments.2⟩

section Keys

variable {start : Start} {key key' : Text}

theorem RespelledSegments.ne_nil {segments segments' : List Text}
    (h : RespelledSegments types type segments segments') (hne : segments ≠ []) : segments' ≠ [] := by
  induction h with
  | refl => exact hne
  | tail _ hlast _ => exact hlast.ne_nil.2

theorem RespelledSegments.path_eq {segments segments' : List Text}
    (h : RespelledSegments types type segments segments') :
    (resolveSegments types type segments').map Resolved.path =
      (resolveSegments types type segments).map Resolved.path := by
  induction h with
  | refl => rfl
  | tail _ hlast ih => rw [hlast.path_eq, ih]

theorem RespelledSegments.dotless {segments segments' : List Text}
    (h : RespelledSegments types type segments segments')
    (hsegments : ∀ segment ∈ segments, dot ∉ segment) : ∀ segment ∈ segments', dot ∉ segment := by
  induction h with
  | refl => exact hsegments
  | tail _ hlast ih => exact hlast.dotless ih

theorem keyPath_of_keyed (hkeyed : start.keyed types = some type) (key : Text) :
    keyPath types start key = ((resolveSegments types type (key.splitOn dot)).map Resolved.path).map
      (start.within.toList ++ ·) := by
  unfold keyPath resolve
  unfold Start.keyed at hkeyed
  cases hwithin : start.within with
  | none =>
      simp only [hwithin] at hkeyed
      obtain rfl := Option.some.inj hkeyed
      simp only [Option.map_map]
      rfl
  | some field =>
      simp only [hwithin] at hkeyed
      simp only [hkeyed, Option.bind_eq_bind, Option.bind_some, Option.map_bind, Option.map_map]
      exact Option.map_eq_bind.symm

theorem Respelled.keyPath_eq (h : Respelled types start key key') :
    keyPath types start key' = keyPath types start key := by
  obtain ⟨type, hkeyed, segments, hsegments, rfl⟩ := h
  have hsplit : ([dot].intercalate segments).splitOn dot = segments := by
    refine List.splitOn_intercalate dot ?_ (hsegments.ne_nil (List.splitOn_ne_nil _ _))
    exact hsegments.dotless fun segment hsegment => Lib.notMem_of_mem_splitOn hsegment
  rw [keyPath_of_keyed hkeyed, keyPath_of_keyed hkeyed, hsplit, hsegments.path_eq]

end Keys

def valueField : Field := { number := 1, name := str "value", jsonName := str "value", kind := .string }

def wrapperType : MessageType := { fullName := str "google.protobuf.StringValue", fields := [valueField] }

def displayField : Field :=
  { number := 1, name := str "display_name", jsonName := str "displayName", kind := .message 0 }

def profileType : MessageType := { fullName := str "library.Profile", fields := [displayField] }

def boundDisplay (pairs : List (Text × Text)) : Option Text :=
  match outcome (bindPairs [wrapperType, profileType] (sampleLibraries [0] [] []).strings pairs
      (rootStart profileType) .set none ⟨[], none⟩) with
  | some fields =>
      match fields.valueAt [displayField, valueField] with
      | some (.string text) => some text
      | _ => none
  | none => none

theorem runs_of_sorted {pairs : List (Text × Text)}
    (h : (pairs.map Prod.fst).eraseDups.Pairwise fun a b => decide (a ≤ b) = true) :
    runs pairs = (pairs.map Prod.fst).eraseDups.map fun key => (key, pairs.findIdxs (·.1 = key)) := by
  rw [runs, List.mergeSort_of_pairwise h]

end StructuredProxy
