import StructuredProxy.Request.Descriptor
import StructuredProxy.Lib.KeyedList
import Mathlib.Data.Nat.Basic

/-!
# Messages and the assignment of one field

A message holds the values of its set fields by number. `assignAt` is the part of `assign` that walks
down to the field: it checks the oneof of every field on the way, creates the parents and writes the
value, and it keeps what it wrote when it fails further down.
-/

namespace StructuredProxy

inductive Value where
  | bool (value : Bool)
  | i32 (value : Int)
  | i64 (value : Int)
  | u32 (value : Nat)
  | u64 (value : Nat)
  | f32 (bits : UInt32)
  | f64 (bits : UInt64)
  | string (value : Text)
  | bytes (value : Text)
  | enumNumber (value : Int)
  | message (type : Nat) (fields : List (Nat × Value))
  | list (items : List Value)
  | map (entries : List (Value × Value))

def Kind.messageType : Kind → Nat
  | .message type => type
  | _ => 0

/-- The set fields of a message, in the order of their numbers. -/
abbrev Fields := List (Nat × Value)

def Field.rivals (field : Field) : List Nat :=
  match field.oneof with
  | none => []
  | some oneof => oneof.members.filter (· ≠ field.number)

namespace Fields

def hasField (fields : Fields) (number : Nat) : Bool := (fields.lookup number).isSome

def setField (fields : Fields) (field : Field) (value : Value) : Fields :=
  Lib.upsert field.number value (Lib.eraseKeys field.rivals fields)

/-- The type and the fields of the message a singular message field holds, an empty one when it is
not set. The source has no other value there. -/
def holder (fields : Fields) (field : Field) : Nat × Fields :=
  match fields.lookup field.number with
  | some (.message type inner) => (type, inner)
  | _ => (field.kind.messageType, [])

def valueAt : Fields → List Field → Option Value
  | _, [] => none
  | fields, [field] => fields.lookup field.number
  | fields, field :: next :: path => (fields.holder field).2.valueAt (next :: path)

end Fields

def oneofError (oneof : Oneof) : Text :=
  str "multiple fields provided for oneof '" ++ oneof.name ++ str "'"

def checkOneof (fields : Fields) (field : Field) : Except Text Unit :=
  match field.oneof with
  | none => .ok ()
  | some oneof =>
      if oneof.members.any fun other => other ≠ field.number && fields.hasField other then
        .error (oneofError oneof)
      else .ok ()

/-- Write `value` at the end of `path`; the message comes back with what was written either way. -/
def assignAt (value : Value) : List Field → Fields → Except Text Unit × Fields
  | [], fields => (.ok (), fields)
  | [field], fields =>
      match checkOneof fields field with
      | .error error => (.error error, fields)
      | .ok () => (.ok (), fields.setField field value)
  | parent :: next :: path, fields =>
      match checkOneof fields parent with
      | .error error => (.error error, fields)
      | .ok () =>
          let (type, held) := fields.holder parent
          let (result, inner) := assignAt value (next :: path) held
          (result, fields.setField parent (.message type inner))

def Free (fields : Fields) (field : Field) : Prop := ∀ other ∈ field.rivals, fields.lookup other = none

theorem checkOneof_of_free {fields : Fields} {field : Field} (hfree : Free fields field) :
    checkOneof fields field = .ok () := by
  unfold checkOneof
  cases honeof : field.oneof with
  | none => rfl
  | some oneof =>
      refine if_neg fun hany => ?_
      obtain ⟨other, hmem, hother⟩ := List.any_eq_true.mp hany
      rw [Bool.and_eq_true, decide_eq_true_eq] at hother
      have hrival : other ∈ field.rivals := by
        rw [Field.rivals, honeof]
        exact List.mem_filter.mpr ⟨hmem, decide_eq_true hother.1⟩
      rw [Fields.hasField, hfree other hrival] at hother
      exact absurd hother.2 (by decide)

theorem checkOneof_of_not_free {fields : Fields} {field : Field} (hfree : ¬Free fields field) :
    ∃ error, checkOneof fields field = .error error := by
  unfold checkOneof
  cases honeof : field.oneof with
  | none => exact absurd (by simp [Free, Field.rivals, honeof]) hfree
  | some oneof =>
      refine ⟨_, if_pos ?_⟩
      by_contra hany
      refine hfree fun other hrival => ?_
      rw [Field.rivals, honeof] at hrival
      obtain ⟨hmem, hne⟩ := List.mem_filter.mp hrival
      by_contra hset
      refine hany (List.any_eq_true.mpr ⟨other, hmem, ?_⟩)
      rw [Bool.and_eq_true]
      exact ⟨hne, Option.isSome_iff_ne_none.mpr hset⟩

theorem Fields.setField_of_free {fields : Fields} {field : Field} (hfree : Free fields field)
    (value : Value) : fields.setField field value = Lib.upsert field.number value fields := by
  rw [setField, Lib.eraseKeys_eq_self hfree]

/-! ### Paths -/

def FreeAt : Fields → List Field → Prop
  | _, [] => True
  | fields, field :: path => Free fields field ∧ FreeAt (fields.holder field).2 path

def setAt (value : Value) : List Field → Fields → Fields
  | [], fields => fields
  | [field], fields => Lib.upsert field.number value fields
  | field :: next :: path, fields =>
      Lib.upsert field.number
        (.message (fields.holder field).1 (setAt value (next :: path) (fields.holder field).2)) fields

theorem freeAt_nil (path : List Field) : FreeAt [] path := by
  induction path with
  | nil => trivial
  | cons field path ih =>
      have hfree : Free [] field := fun other _ => rfl
      exact ⟨hfree, ih⟩

theorem lookup_of_not_freeAt {fields : Fields} {field : Field} {path : List Field}
    (hfree : ¬FreeAt (fields.holder field).2 path) :
    fields.lookup field.number =
      some (.message (fields.holder field).1 (fields.holder field).2) := by
  unfold Fields.holder at hfree ⊢
  split
  · assumption
  · rename_i hnone
    split at hfree
    · rename_i hsome
      exact absurd hsome (hnone _ _)
    · exact absurd (freeAt_nil path) hfree

theorem assignAt_of_free (value : Value) {path : List Field} : ∀ {fields : Fields},
    FreeAt fields path → assignAt value path fields = (.ok (), setAt value path fields) := by
  induction path with
  | nil => intro fields _; rfl
  | cons field path ih =>
      intro fields hfree
      cases path with
      | nil => rw [assignAt, checkOneof_of_free hfree.1, setAt, Fields.setField_of_free hfree.1]
      | cons next path =>
          rw [assignAt, checkOneof_of_free hfree.1]
          simp only [ih hfree.2]
          rw [setAt, Fields.setField_of_free hfree.1]

/-- A failed assignment leaves the message as it was. -/
theorem assignAt_of_not_free (value : Value) {path : List Field} : ∀ {fields : Fields},
    ¬FreeAt fields path → ∃ error, assignAt value path fields = (.error error, fields) := by
  induction path with
  | nil => intro fields hfree; exact absurd trivial hfree
  | cons field path ih =>
      intro fields hfree
      cases path with
      | nil =>
          obtain ⟨error, herror⟩ := checkOneof_of_not_free fun h => hfree ⟨h, trivial⟩
          exact ⟨error, by rw [assignAt, herror]⟩
      | cons next path =>
          by_cases hfield : Free fields field
          · have hinner : ¬FreeAt (fields.holder field).2 (next :: path) := fun h => hfree ⟨hfield, h⟩
            obtain ⟨error, herror⟩ := ih hinner
            refine ⟨error, ?_⟩
            rw [assignAt, checkOneof_of_free hfield]
            simp only [herror]
            rw [Fields.setField_of_free hfield, Lib.upsert_eq_self (lookup_of_not_freeAt hinner)]
          · obtain ⟨error, herror⟩ := checkOneof_of_not_free hfield
            exact ⟨error, by rw [assignAt, herror]⟩

end StructuredProxy
