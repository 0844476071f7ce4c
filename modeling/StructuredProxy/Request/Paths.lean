import StructuredProxy.Request.Message

/-!
# Assignments to two paths

How writing at one path changes what is held at another, and whether the other may still be written.
Two paths neither of which starts the other write independent parts of a message, unless they part in
one oneof; a write above another takes its place.
-/

namespace StructuredProxy

/-- A path of fields from a type: singular message fields, then any field. -/
inductive PathIn (types : Types) : MessageType → List Field → Prop
  | last {type : MessageType} {field : Field} (hfield : field ∈ type.fields) : PathIn types type [field]
  | step {type inner : MessageType} {field next : Field} {path : List Field}
      (hfield : field ∈ type.fields) (hlist : field.isList = false) (hmap : field.isMap = false)
      (hinner : types.typeOf field.kind = some inner) (hpath : PathIn types inner (next :: path)) :
      PathIn types type (field :: next :: path)

namespace PathIn

variable {types : Types} {type : MessageType} {f next : Field} {p : List Field}

theorem ne_nil (h : PathIn types type p) : p ≠ [] := by
  cases h <;> exact List.cons_ne_nil _ _

theorem mem (h : PathIn types type (f :: p)) : f ∈ type.fields := by
  cases h <;> assumption

theorem tail (h : PathIn types type (f :: next :: p)) :
    ∃ inner, types.typeOf f.kind = some inner ∧ PathIn types inner (next :: p) := by
  cases h with
  | step _ _ _ hinner hpath => exact ⟨_, hinner, hpath⟩

theorem tails {next' : Field} {q : List Field} (hp : PathIn types type (f :: next :: p))
    (hq : PathIn types type (f :: next' :: q)) :
    ∃ inner, PathIn types inner (next :: p) ∧ PathIn types inner (next' :: q) := by
  obtain ⟨inner, hinner, hp⟩ := hp.tail
  obtain ⟨inner', hinner', hq⟩ := hq.tail
  obtain rfl := Option.some.inj (hinner.symm.trans hinner')
  exact ⟨inner, hp, hq⟩

end PathIn

def Apart (p q : List Field) : Prop := ¬p <+: q ∧ ¬q <+: p

def PartFreely : List Field → List Field → Prop
  | f :: p, g :: q => if f = g then PartFreely p q else g.number ∉ f.rivals
  | _, _ => True

theorem Field.number_notMem_rivals (field : Field) : field.number ∉ field.rivals := by
  unfold rivals
  split
  · exact List.not_mem_nil
  · simp

section OneType

variable {type : MessageType} {f g : Field} (hf : f ∈ type.fields) (hg : g ∈ type.fields)
include hf hg

theorem number_ne_of_ne (hne : f ≠ g) : f.number ≠ g.number := fun heq =>
  hne (MessageType.eq_of_number_eq hf hg heq)

theorem mem_rivals_iff : g.number ∈ f.rivals ↔ f ≠ g ∧ f.oneof ≠ none ∧ f.oneof = g.oneof := by
  unfold Field.rivals
  cases honeof : f.oneof with
  | none => simp
  | some oneof =>
      have hall := List.all_eq_true.mp (List.all_eq_true.mp type.oneofs f hf) g hg
      rw [honeof, Option.all_some, decide_eq_true_eq, decide_eq_decide] at hall
      simp only [List.mem_filter, decide_eq_true_eq, ne_eq, hall, reduceCtorEq, not_false_eq_true,
        true_and]
      constructor
      · rintro ⟨hmember, hnumber⟩
        exact ⟨fun heq => hnumber (by rw [heq]), hmember.symm⟩
      · rintro ⟨hne, hmember⟩
        exact ⟨hmember.symm, Ne.symm (number_ne_of_ne hf hg hne)⟩

theorem mem_rivals_comm : g.number ∈ f.rivals ↔ f.number ∈ g.rivals := by
  rw [mem_rivals_iff hf hg, mem_rivals_iff hg hf]
  constructor
  · rintro ⟨hne, hsome, heq⟩
    exact ⟨Ne.symm hne, heq ▸ hsome, heq.symm⟩
  · rintro ⟨hne, hsome, heq⟩
    exact ⟨Ne.symm hne, heq ▸ hsome, heq.symm⟩

end OneType

theorem holder_upsert_self (field : Field) (type : Nat) (inner fields : Fields) :
    Fields.holder (Lib.upsert field.number (.message type inner) fields) field = (type, inner) := by
  rw [Fields.holder, Lib.lookup_upsert_self]

theorem holder_upsert_of_ne {field : Field} {k : Nat} (hne : field.number ≠ k) (value : Value)
    (fields : Fields) :
    Fields.holder (Lib.upsert k value fields) field = Fields.holder fields field := by
  rw [Fields.holder, Lib.lookup_upsert_of_ne hne, Fields.holder]

theorem free_upsert_of_notMem {field : Field} {k : Nat} (hk : k ∉ field.rivals) (value : Value)
    (fields : Fields) : Free (Lib.upsert k value fields) field ↔ Free fields field := by
  have hlookup : ∀ other ∈ field.rivals,
      (Lib.upsert k value fields).lookup other = fields.lookup other := by
    intro other hother
    exact Lib.lookup_upsert_of_ne fun heq => hk (heq ▸ hother)
  constructor
  · intro hfree other hother
    rw [← hlookup other hother]
    exact hfree other hother
  · intro hfree other hother
    rw [hlookup other hother]
    exact hfree other hother

theorem free_upsert_self (field : Field) (value : Value) (fields : Fields) :
    Free (Lib.upsert field.number value fields) field ↔ Free fields field :=
  free_upsert_of_notMem field.number_notMem_rivals value fields

theorem not_free_upsert {field : Field} {k : Nat} (hk : k ∈ field.rivals) (value : Value)
    (fields : Fields) : ¬Free (Lib.upsert k value fields) field := by
  intro hfree
  have hlookup := hfree k hk
  rw [Lib.lookup_upsert_self] at hlookup
  exact absurd hlookup (by simp)

/-! ### A write and a path apart from it -/

theorem Apart.symm {p q : List Field} (h : Apart p q) : Apart q p := ⟨h.2, h.1⟩

theorem apart_cons_self {f : Field} {p q : List Field} : Apart (f :: p) (f :: q) ↔ Apart p q := by
  simp [Apart, List.cons_prefix_cons]

theorem apart_of_ne {f g : Field} (hne : f ≠ g) (p q : List Field) : Apart (f :: p) (g :: q) := by
  simp [Apart, List.cons_prefix_cons, hne, Ne.symm hne]

theorem not_apart_singleton_left {f : Field} {q : List Field} : ¬Apart [f] (f :: q) := fun h =>
  h.1 (List.cons_prefix_cons.mpr ⟨rfl, List.nil_prefix⟩)

theorem not_apart_singleton_right {f : Field} {p : List Field} : ¬Apart (f :: p) [f] := fun h =>
  h.2 (List.cons_prefix_cons.mpr ⟨rfl, List.nil_prefix⟩)

def topValue (value : Value) (field : Field) (path : List Field) (fields : Fields) : Value :=
  match path with
  | [] => value
  | _ => .message (fields.holder field).1 (setAt value path (fields.holder field).2)

theorem setAt_cons (value : Value) (field : Field) (path : List Field) (fields : Fields) :
    setAt value (field :: path) fields =
      Lib.upsert field.number (topValue value field path fields) fields := by
  cases path <;> rfl

theorem holder_setAt_cons (value : Value) (field next : Field) (path : List Field) (fields : Fields) :
    Fields.holder (setAt value (field :: next :: path) fields) field =
      ((fields.holder field).1, setAt value (next :: path) (fields.holder field).2) :=
  holder_upsert_self _ _ _ _

section Apart

variable {types : Types} {v w : Value}

/-- Paths of one message apart from each other part at a field, below the same fields. -/
@[elab_as_elim]
theorem Apart.induct {motive : List Field → List Field → Prop}
    (hparts : ∀ {type : MessageType} {f g} p q, f ∈ type.fields → g ∈ type.fields → f ≠ g →
      motive (f :: p) (g :: q))
    (hbelow : ∀ f {next p next' q}, motive (next :: p) (next' :: q) →
      motive (f :: next :: p) (f :: next' :: q)) {p : List Field} :
    ∀ {type : MessageType} {q : List Field}, PathIn types type p → PathIn types type q → Apart p q →
    motive p q := by
  induction p with
  | nil => intro type q hp; cases hp
  | cons f p ih =>
      intro type q hp hq hapart
      cases q with
      | nil => cases hq
      | cons g q =>
          by_cases hne : f = g
          · subst hne
            cases p with
            | nil => exact absurd hapart not_apart_singleton_left
            | cons next p =>
                cases q with
                | nil => exact absurd hapart not_apart_singleton_right
                | cons next' q =>
                    obtain ⟨inner, hp, hq⟩ := hp.tails hq
                    exact hbelow f (ih hp hq (apart_cons_self.mp hapart))
          · exact hparts p q hp.mem hq.mem hne

variable {type : MessageType} {p q : List Field} (hp : PathIn types type p) (hq : PathIn types type q)
  (hapart : Apart p q)
include hp hq hapart

theorem freeAt_setAt_of_apart (fields : Fields) :
    FreeAt (setAt v p fields) q ↔ FreeAt fields q ∧ PartFreely q p := by
  revert fields
  refine Apart.induct (fun {type f g} p q hf hg hne => ?_) (fun f {next p next' q} ih => ?_) hp hq hapart
  · intro fields
    have hnumber := number_ne_of_ne hf hg hne
    rw [setAt_cons, FreeAt, FreeAt, holder_upsert_of_ne (Ne.symm hnumber), PartFreely,
      if_neg (Ne.symm hne)]
    by_cases hrival : f.number ∈ g.rivals
    · simp [hrival, not_free_upsert hrival]
    · simp [hrival, free_upsert_of_notMem hrival]
  · intro fields
    have hfirst : FreeAt (setAt v (f :: next :: p) fields) (f :: next' :: q) ↔
        Free fields f ∧ FreeAt (setAt v (next :: p) (fields.holder f).2) (next' :: q) := by
      refine and_congr (free_upsert_self f _ fields) ?_
      rw [holder_setAt_cons]
    have hpart : PartFreely (f :: next' :: q) (f :: next :: p) ↔
        PartFreely (next' :: q) (next :: p) := by
      rw [PartFreely, if_pos rfl]
    rw [hfirst, ih, hpart, ← and_assoc]
    exact Iff.rfl

theorem setAt_comm (fields : Fields) :
    setAt v p (setAt w q fields) = setAt w q (setAt v p fields) := by
  revert fields
  refine Apart.induct (fun {type f g} p q hf hg hne => ?_) (fun f {next p next' q} ih => ?_) hp hq hapart
  · intro fields
    have hnumber := number_ne_of_ne hf hg hne
    have htop : topValue v f p (setAt w (g :: q) fields) = topValue v f p fields := by
      rw [setAt_cons]
      unfold topValue
      rw [holder_upsert_of_ne hnumber]
    have htop' : topValue w g q (setAt v (f :: p) fields) = topValue w g q fields := by
      rw [setAt_cons]
      unfold topValue
      rw [holder_upsert_of_ne (Ne.symm hnumber)]
    calc setAt v (f :: p) (setAt w (g :: q) fields)
        = Lib.upsert f.number (topValue v f p fields) (setAt w (g :: q) fields) := by
          rw [setAt_cons, htop]
      _ = Lib.upsert g.number (topValue w g q fields) (setAt v (f :: p) fields) := by
          rw [setAt_cons, setAt_cons, Lib.upsert_comm hnumber]
      _ = setAt w (g :: q) (setAt v (f :: p) fields) := by
          rw [setAt_cons w g, htop']
  · intro fields
    have hleft : setAt v (f :: next :: p) (setAt w (f :: next' :: q) fields) =
        Lib.upsert f.number (.message (fields.holder f).1
          (setAt v (next :: p) (setAt w (next' :: q) (fields.holder f).2))) fields := by
      rw [setAt, holder_setAt_cons, setAt, Lib.upsert_upsert]
    have hright : setAt w (f :: next' :: q) (setAt v (f :: next :: p) fields) =
        Lib.upsert f.number (.message (fields.holder f).1
          (setAt w (next' :: q) (setAt v (next :: p) (fields.holder f).2))) fields := by
      rw [setAt, holder_setAt_cons, setAt, Lib.upsert_upsert]
    rw [hleft, hright, ih]

theorem valueAt_setAt_of_apart (fields : Fields) :
    (setAt v p fields).valueAt q = fields.valueAt q := by
  revert fields
  refine Apart.induct (fun {type f g} p q hf hg hne => ?_) (fun f {next p next' q} ih => ?_) hp hq hapart
  · intro fields
    have hnumber := number_ne_of_ne hf hg hne
    rw [setAt_cons]
    cases q with
    | nil => exact Lib.lookup_upsert_of_ne (Ne.symm hnumber)
    | cons next q => rw [Fields.valueAt, Fields.valueAt, holder_upsert_of_ne (Ne.symm hnumber)]
  · intro fields
    rw [Fields.valueAt, Fields.valueAt, holder_setAt_cons, ih]

end Apart

theorem valueAt_setAt_self {value : Value} {path : List Field} : ∀ {fields : Fields}, path ≠ [] →
    (setAt value path fields).valueAt path = some value := by
  induction path with
  | nil => intro fields hne; exact absurd rfl hne
  | cons field path ih =>
      intro fields _
      cases path with
      | nil => exact Lib.lookup_upsert_self
      | cons next path => rw [Fields.valueAt, holder_setAt_cons, ih (List.cons_ne_nil _ _)]

theorem setAt_setAt_of_isPrefix {v w : Value} {q : List Field} : ∀ {p : List Field} {fields : Fields},
    q ≠ [] → q <+: p → setAt w q (setAt v p fields) = setAt w q fields := by
  induction q with
  | nil => intro p fields hne; exact absurd rfl hne
  | cons f q ih =>
      intro p fields _ hbegins
      cases p with
      | nil => exact absurd (List.prefix_nil.mp hbegins) (List.cons_ne_nil _ _)
      | cons g p =>
          obtain ⟨rfl, htail⟩ := List.cons_prefix_cons.mp hbegins
          cases q with
          | nil => rw [setAt_cons v, setAt, Lib.upsert_upsert, setAt]
          | cons next q =>
              cases p with
              | nil => exact absurd (List.prefix_nil.mp htail) (List.cons_ne_nil _ _)
              | cons next' p =>
                  rw [setAt, holder_setAt_cons, ih (List.cons_ne_nil _ _) htail, setAt,
                    Lib.upsert_upsert, setAt]

theorem freeAt_setAt_of_isPrefix {v : Value} {q : List Field} : ∀ {p : List Field} {fields : Fields},
    q <+: p → (FreeAt (setAt v p fields) q ↔ FreeAt fields q) := by
  induction q with
  | nil => intro p fields _; exact Iff.rfl
  | cons f q ih =>
      intro p fields hbegins
      cases p with
      | nil => exact absurd (List.prefix_nil.mp hbegins) (List.cons_ne_nil _ _)
      | cons g p =>
          obtain ⟨rfl, htail⟩ := List.cons_prefix_cons.mp hbegins
          rw [FreeAt, FreeAt, setAt_cons, free_upsert_self]
          cases q with
          | nil => exact Iff.rfl
          | cons next q =>
              cases p with
              | nil => exact absurd (List.prefix_nil.mp htail) (List.cons_ne_nil _ _)
              | cons next' p =>
                  rw [← setAt_cons, holder_setAt_cons, ih htail]

end StructuredProxy
