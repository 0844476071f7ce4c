import StructuredProxy.Lib.Fallible
import StructuredProxy.Request.Erased
import StructuredProxy.Request.PathWins

/-!
# What the path overwrites

A body that can be read can be read without the entries that name a field the path binds. The two
messages differ at most by a value at that field, and the keys of the two keep a query from the same
fields but for that one and those above and below it. The path writes the field later, so binding the
path parameters has one outcome on both.
-/

namespace StructuredProxy

variable {types : Types} {proto : ProtoJson} {type : MessageType} {p : List Field} {f next : Field}

def Fields.taken (fields : Fields) (field : Field) : Bool :=
  field.oneof.any fun oneof => oneof.members.any fields.hasField

theorem toOption_setRead (fields : Fields) (field : Field) (value : Value) :
    (setRead fields field value).toOption =
      if fields.taken field then none else some (Lib.upsert field.number value fields) := by
  unfold setRead Fields.taken
  cases honeof : field.oneof with
  | none =>
      have hfree : Free fields field := by simp [Free, Field.rivals, honeof]
      rw [Option.filter_none, Option.any_none, if_neg (by decide), ← Fields.setField_of_free hfree]
      rfl
  | some oneof =>
      rw [Option.any_some]
      cases htaken : oneof.members.any fields.hasField with
      | true =>
          simp only [Option.filter_some, htaken, if_true]
          rfl
      | false =>
          have hfree : Free fields field := by
            intro other hother
            rw [Field.rivals, honeof] at hother
            have hunset := List.any_eq_false.mp htaken other (List.mem_filter.mp hother).1
            rw [Fields.hasField, Option.not_isSome_iff_eq_none] at hunset
            exact hunset
          simp only [Option.filter_some, htaken, Bool.false_eq_true, if_false,
            ← Fields.setField_of_free hfree]
          rfl

theorem hasField_upsert (fields : Fields) (number other : Nat) (value : Value) :
    Fields.hasField (Lib.upsert number value fields) other = (other = number || fields.hasField other) := by
  unfold Fields.hasField
  by_cases hother : other = number
  · subst hother
    simp [Lib.lookup_upsert_self]
  · rw [Lib.lookup_upsert_of_ne hother, decide_eq_false hother, Bool.false_or]

def readEntry (types : Types) (proto : ProtoJson) (type : MessageType) (entry : Text × Json)
    (fields : Fields) : Option Fields :=
  (type.jsonField entry.1).bind fun field =>
    (readField types proto field entry.2).toOption.bind fun value =>
      value.elim (some fields) fun value => (setRead fields field value).toOption

/-- What reading an entry can do: fail, set nothing, or set its field while its oneof is not taken. -/
inductive ReadStep (type : MessageType) (key : Text) : (Fields → Option Fields) → Prop
  | refused : ReadStep type key fun _ => none
  | unset : ReadStep type key some
  | written (field : Field) (value : Value) (hfield : type.jsonField key = some field) :
      ReadStep type key fun fields =>
        if fields.taken field then none else some (Lib.upsert field.number value fields)

theorem readEntry_cases (entry : Text × Json) :
    ReadStep type entry.1 (readEntry types proto type entry) := by
  unfold readEntry
  cases hfield : type.jsonField entry.1 with
  | none => exact .refused
  | some field =>
      simp only [Option.bind_some]
      cases (readField types proto field entry.2).toOption with
      | none => exact .refused
      | some value =>
          cases value with
          | none => exact .unset
          | some value =>
              simp only [Option.bind_some, Option.elim_some, toOption_setRead]
              exact .written field value hfield

theorem readEntries_toOption (entries : List (Text × Json)) : ∀ fields,
    (readEntries types proto type entries fields).toOption =
      Lib.runSteps (readEntry types proto type) entries fields := by
  induction entries with
  | nil => intro fields; rfl
  | cons entry entries ih =>
      intro fields
      obtain ⟨key, json⟩ := entry
      rw [readEntries, Lib.runSteps_cons, readEntry]
      cases type.jsonField key with
      | none => rfl
      | some field =>
          simp only [Option.bind_some]
          cases readField types proto field json with
          | error error => rfl
          | ok value =>
              cases value with
              | none => exact ih fields
              | some value =>
                  simp only [Except.toOption, Option.bind_some, Option.elim_some]
                  cases setRead fields field value with
                  | error error => rfl
                  | ok next => exact ih next

theorem readMessage_eq_ok {json : Json} {read : Fields} (hspecial : type.hasSpecialJson = false)
    (h : readMessage types proto type json = .ok read) :
    ∃ entries, json = .object entries ∧ readEntries types proto type entries [] = .ok read := by
  unfold readMessage at h
  rw [hspecial, if_neg (by decide)] at h
  cases json with
  | object entries => exact ⟨entries, rfl, h⟩
  | _ => cases h

/-- The message is another one with at most a value written at the end of the path. -/
def Fields.Over (path : List Field) (fields fields' : Fields) : Prop :=
  fields = fields' ∨ ∃ value, fields = setAt value path fields'

theorem Fields.Over.taken_eq_false {fields fields' : Fields} (hover : fields.Over (f :: p) fields')
    {g : Field} (h : fields.taken g = false) : fields'.taken g = false := by
  rcases hover with rfl | ⟨value, rfl⟩
  · exact h
  · unfold Fields.taken at h ⊢
    cases honeof : g.oneof with
    | none => rfl
    | some oneof =>
        rw [honeof, Option.any_some, List.any_eq_false] at h
        rw [Option.any_some, List.any_eq_false]
        intro other hother hset
        refine h other hother ?_
        rw [setAt_cons, hasField_upsert, hset, Bool.or_true]

theorem Fields.Over.upsert_eq {fields fields' : Fields} (hover : fields.Over (f :: p) fields')
    (value : Value) : Lib.upsert f.number value fields = Lib.upsert f.number value fields' := by
  rcases hover with rfl | ⟨earlier, rfl⟩
  · rfl
  · rw [setAt_cons, Lib.upsert_upsert]

theorem Fields.Over.upsert_of_ne {fields fields' : Fields} (hover : fields.Over (f :: p) fields')
    (hp : PathIn types type (f :: p)) {g : Field} (hg : g ∈ type.fields) (hne : g ≠ f) (value : Value) :
    Fields.Over (f :: p) (Lib.upsert g.number value fields) (Lib.upsert g.number value fields') := by
  rcases hover with rfl | ⟨earlier, rfl⟩
  · exact Or.inl rfl
  · have hlast : PathIn types type [g] := .last hg
    refine Or.inr ⟨earlier, ?_⟩
    exact setAt_comm hlast hp (apart_of_ne hne [] p) fields'

theorem Fields.Over.upsert_message {fields fields' : Fields} (hover : fields.Over (f :: next :: p) fields')
    {inner inner' : Fields} (hinner : inner.Over (next :: p) inner') (index : Nat) :
    Fields.Over (f :: next :: p) (Lib.upsert f.number (.message index inner) fields)
      (Lib.upsert f.number (.message index inner') fields') := by
  rw [hover.upsert_eq]
  rcases hinner with rfl | ⟨value, rfl⟩
  · exact Or.inl rfl
  · refine Or.inr ⟨value, ?_⟩
    rw [setAt, holder_upsert_self, Lib.upsert_upsert]

/-! ### Reading without the entries of a path -/

/-- Every key on the way that names a field of the path passes a test. -/
def Json.onWay (test : MessageType → Field → Text → Bool) (types : Types) :
    MessageType → List Field → Json → Bool
  | type, field :: path, .object entries => entries.all fun entry => !field.named entry.1 ||
      (test type field entry.1 &&
        (types.typeOf field.kind).all fun inner => entry.2.onWay test types inner path)
  | _, _, _ => true

variable {test : MessageType → Field → Text → Bool}

theorem Json.onWay_entry {entries : List (Text × Json)}
    (h : (Json.object entries).onWay test types type (f :: p) = true) {entry : Text × Json}
    (hentry : entry ∈ entries) (hnamed : f.named entry.1 = true) : test type f entry.1 = true ∧
      ∀ inner, types.typeOf f.kind = some inner → entry.2.onWay test types inner p = true := by
  rw [onWay, List.all_eq_true] at h
  have hpasses := h entry hentry
  rw [hnamed, Bool.not_true, Bool.false_or, Bool.and_eq_true] at hpasses
  exact ⟨hpasses.1, fun inner hinner => by simpa [hinner] using hpasses.2⟩

theorem Json.onWay_erase {p : List Field} : ∀ {type : MessageType} {json : Json} (q : List Field),
    json.onWay test types type p = true → (json.erase q).onWay test types type p = true := by
  induction p with
  | nil => intro type json q _; cases json.erase q <;> rfl
  | cons field p ih =>
      intro type json q h
      cases json with
      | object entries =>
          obtain ⟨keep, change, herase, hchange⟩ := Json.erase_object q entries
          rw [onWay, List.all_eq_true] at h
          rw [herase, onWay, List.all_map, List.all_eq_true]
          rintro ⟨key, json⟩ hmem
          have hentry := h _ (List.mem_filter.mp hmem).1
          rw [Function.comp_apply, Bool.or_eq_true, Bool.and_eq_true]
          rw [Bool.or_eq_true, Bool.and_eq_true] at hentry
          refine hentry.imp_right fun hbelow => ⟨hbelow.1, ?_⟩
          cases hinner : types.typeOf field.kind with
          | none => rfl
          | some inner =>
              have hnext : json.onWay test types inner p = true := by simpa [hinner] using hbelow.2
              rw [Option.all_some]
              rcases hchange key json with hsame | ⟨rest, hrest⟩
              · simpa only [hsame] using hnext
              · simpa only [hrest] using ih rest hnext
      | _ => rw [Json.erase_of_not_object q rfl]; rfl

/-- The key is read as the field. -/
def MessageType.readsAs (type : MessageType) (field : Field) (key : Text) : Bool :=
  type.jsonField key = some field

/-- The key names no other field. -/
def MessageType.namesOnly (type : MessageType) (field : Field) (key : Text) : Bool :=
  type.fields.all fun other => !other.named key || other = field

theorem jsonField_ne_of_not_named {key : Text} (hnamed : f.named key = false) :
    type.jsonField key ≠ some f := by
  intro hfield
  rw [(mem_of_jsonField hfield).2] at hnamed
  cases hnamed

theorem readEntry_over (hp : PathIn types type (f :: p)) {entry : Text × Json}
    (hentry : type.jsonField entry.1 ≠ some f) {fields fields' read : Fields}
    (hover : fields.Over (f :: p) fields')
    (h : readEntry types proto type entry fields = some read) :
    ∃ read', readEntry types proto type entry fields' = some read' ∧ read.Over (f :: p) read' := by
  have hcases := @readEntry_cases types proto type entry
  generalize readEntry types proto type entry = step at h hcases ⊢
  cases hcases with
  | refused => cases h
  | unset =>
      obtain rfl := Option.some.inj h
      exact ⟨fields', rfl, hover⟩
  | written g value hg =>
      simp only at h ⊢
      cases htaken : fields.taken g with
      | true =>
          rw [htaken, if_pos rfl] at h
          cases h
      | false =>
          rw [htaken, if_neg (by decide)] at h
          obtain rfl := Option.some.inj h
          have hne : g ≠ f := fun heq => hentry (heq ▸ hg)
          refine ⟨Lib.upsert g.number value fields', ?_,
            hover.upsert_of_ne hp (mem_of_jsonField hg).1 hne value⟩
          rw [hover.taken_eq_false htaken, if_neg (by decide)]

theorem runSteps_without (hf : f ∈ type.fields) {entries : List (Text × Json)} :
    ∀ {fields fields' read : Fields}, (∀ entry ∈ entries, f.named entry.1 = true →
      type.jsonField entry.1 = some f) → fields.Over [f] fields' →
    Lib.runSteps (readEntry types proto type) entries fields = some read →
    ∃ read', Lib.runSteps (readEntry types proto type) (entries.filter fun entry => !f.named entry.1)
      fields' = some read' ∧ read.Over [f] read' := by
  induction entries with
  | nil =>
      intro fields fields' read _ hover h
      obtain rfl := Option.some.inj h
      exact ⟨fields', rfl, hover⟩
  | cons entry entries ih =>
      intro fields fields' read hkeys hover h
      have htail : ∀ other ∈ entries, f.named other.1 = true → type.jsonField other.1 = some f :=
        fun other hother => hkeys other (List.mem_cons_of_mem _ hother)
      rw [Lib.runSteps_cons] at h
      obtain ⟨mid, hmid, h⟩ := Option.bind_eq_some_iff.mp h
      cases hnamed : f.named entry.1 with
      | true =>
          rw [List.filter_cons_of_neg (by simp [hnamed])]
          refine ih htail ?_ h
          have hcases := @readEntry_cases types proto type entry
          generalize readEntry types proto type entry = step at hmid hcases
          cases hcases with
          | refused => cases hmid
          | unset =>
              obtain rfl := Option.some.inj hmid
              exact hover
          | written g value hg =>
              obtain rfl := Option.some.inj (hg.symm.trans (hkeys entry List.mem_cons_self hnamed))
              simp only at hmid
              split at hmid
              · cases hmid
              · obtain rfl := Option.some.inj hmid
                rw [hover.upsert_eq]
                exact Or.inr ⟨value, rfl⟩
      | false =>
          obtain ⟨mid', hmid', hover'⟩ :=
            readEntry_over (.last hf) (jsonField_ne_of_not_named hnamed) hover hmid
          obtain ⟨read', hread', hlast⟩ := ih htail hover' h
          refine ⟨read', ?_, hlast⟩
          rw [List.filter_cons_of_pos (by simp [hnamed]), Lib.runSteps_cons, hmid', Option.bind_some,
            hread']

def ThroughObjects (types : Types) : List Field → Prop
  | field :: next :: path => (types.objectType field).isSome = true ∧ ThroughObjects types (next :: path)
  | _ => True

inductive OverValue (path : List Field) : Option Value → Option Value → Prop
  | same (value : Option Value) : OverValue path value value
  | message (index : Nat) {read read' : Fields} (hover : read.Over path read') :
      OverValue path (some (.message index read)) (some (.message index read'))

theorem readField_erase {inner : MessageType} (hobject : types.objectType f = some inner)
    {json : Json} (hentries : ∀ entries read, json = .object entries →
      readEntries types proto inner entries [] = .ok read →
        ∃ rest read', (Json.object entries).erase p = .object rest ∧
          readEntries types proto inner rest [] = .ok read' ∧ read.Over p read')
    {value : Option Value} (h : readField types proto f json = .ok value) :
    ∃ value', readField types proto f (json.erase p) = .ok value' ∧ OverValue p value value' := by
  cases json with
  | object entries =>
      simp only [readField, hobject] at h
      cases hread : readEntries types proto inner entries [] with
      | error error =>
          rw [hread] at h
          cases h
      | ok read =>
          rw [hread] at h
          obtain rfl := Except.ok.inj h
          obtain ⟨rest, read', herase, hread', hover⟩ := hentries entries read rfl hread
          refine ⟨some (.message f.kind.messageType read'), ?_, .message _ hover⟩
          rw [herase]
          simp only [readField, hobject, hread']
          rfl
  | _ => exact ⟨value, by rw [Json.erase_of_not_object _ rfl]; exact h, .same value⟩

theorem readEntry_erase {key : Text} {json : Json} (hkey : type.jsonField key = some f)
    (hfield : ∀ value, readField types proto f json = .ok value → ∃ value',
      readField types proto f (json.erase (next :: p)) = .ok value' ∧ OverValue (next :: p) value value')
    {fields fields' read : Fields}
    (hover : fields.Over (f :: next :: p) fields')
    (h : readEntry types proto type (key, json) fields = some read) :
    ∃ read', readEntry types proto type (key, json.erase (next :: p)) fields' = some read' ∧
      read.Over (f :: next :: p) read' := by
  unfold readEntry at h ⊢
  rw [hkey, Option.bind_some] at h ⊢
  cases hread : readField types proto f json with
  | error error =>
      rw [hread] at h
      cases h
  | ok value =>
      obtain ⟨value', hread', hvalue⟩ := hfield value hread
      rw [hread] at h
      rw [hread']
      cases value with
      | none =>
          cases hvalue
          obtain rfl := Option.some.inj h
          exact ⟨fields', rfl, hover⟩
      | some value =>
          change (setRead fields f value).toOption = some read at h
          rw [toOption_setRead] at h
          split at h
          · cases h
          · rename_i htaken
            have htaken' := hover.taken_eq_false (Bool.eq_false_iff.mpr htaken)
            obtain rfl := Option.some.inj h
            cases hvalue with
            | same _ =>
                refine ⟨Lib.upsert f.number value fields', ?_, Or.inl (hover.upsert_eq value)⟩
                change (setRead fields' f value).toOption = _
                rw [toOption_setRead, htaken', if_neg (by decide)]
            | message index hinner =>
                refine ⟨_, ?_, hover.upsert_message hinner index⟩
                change (setRead fields' f _).toOption = _
                rw [toOption_setRead, htaken', if_neg (by decide)]

theorem runSteps_erase (hp : PathIn types type (f :: next :: p)) {entries : List (Text × Json)} :
    ∀ {fields fields' read : Fields}, (∀ entry ∈ entries, f.named entry.1 = true →
      type.jsonField entry.1 = some f ∧ ∀ value, readField types proto f entry.2 = .ok value → ∃ value',
        readField types proto f (entry.2.erase (next :: p)) = .ok value' ∧
          OverValue (next :: p) value value') → fields.Over (f :: next :: p) fields' →
    Lib.runSteps (readEntry types proto type) entries fields = some read →
    ∃ read', Lib.runSteps (readEntry types proto type) (entries.map fun entry =>
      (entry.1, if f.named entry.1 then entry.2.erase (next :: p) else entry.2)) fields' = some read' ∧
      read.Over (f :: next :: p) read' := by
  induction entries with
  | nil =>
      intro fields fields' read _ hover h
      obtain rfl := Option.some.inj h
      exact ⟨fields', rfl, hover⟩
  | cons entry entries ih =>
      intro fields fields' read hentries hover h
      obtain ⟨key, json⟩ := entry
      rw [Lib.runSteps_cons] at h
      obtain ⟨mid, hmid, h⟩ := Option.bind_eq_some_iff.mp h
      have hstep : ∃ mid', readEntry types proto type (key,
          if f.named key then json.erase (next :: p) else json) fields' = some mid' ∧
          mid.Over (f :: next :: p) mid' := by
        cases hnamed : f.named key with
        | true =>
            obtain ⟨hkey, hfield⟩ := hentries _ List.mem_cons_self hnamed
            exact readEntry_erase hkey hfield hover hmid
        | false => exact readEntry_over hp (jsonField_ne_of_not_named hnamed) hover hmid
      obtain ⟨mid', hmid', hover'⟩ := hstep
      obtain ⟨read', hread', hlast⟩ :=
        ih (fun other hother => hentries other (List.mem_cons_of_mem _ hother)) hover' h
      exact ⟨read', by rw [List.map_cons, Lib.runSteps_cons, hmid', Option.bind_some, hread'], hlast⟩

/-- **A body reads without the entries of a path** when it reads with them, up to a value at its end. -/
theorem readEntries_erase : ∀ {p : List Field}
    {type : MessageType} {entries : List (Text × Json)} {read : Fields}, PathIn types type p →
    ThroughObjects types p → (Json.object entries).onWay MessageType.readsAs types type p = true →
    readEntries types proto type entries [] = .ok read →
    ∃ rest read', (Json.object entries).erase p = .object rest ∧
      readEntries types proto type rest [] = .ok read' ∧ read.Over p read' := by
  have hok : ∀ {type : MessageType} {entries : List (Text × Json)} {read : Fields},
      readEntries types proto type entries [] = .ok read ↔
        Lib.runSteps (readEntry types proto type) entries [] = some read := by
    intro type entries read
    rw [← readEntries_toOption]
    cases readEntries types proto type entries [] <;> simp [Except.toOption]
  intro p
  induction p with
  | nil => intro type entries read hp; cases hp
  | cons f p ih =>
      intro type entries read hp hthrough hway hread
      rw [hok] at hread
      cases p with
      | nil =>
          have hkeys : ∀ entry ∈ entries, f.named entry.1 = true → type.jsonField entry.1 = some f :=
            fun entry hentry hnamed =>
              of_decide_eq_true (Json.onWay_entry hway hentry hnamed).1
          obtain ⟨read', hread', hover⟩ := runSteps_without hp.mem hkeys (Or.inl rfl) hread
          exact ⟨_, read', rfl, hok.mpr hread', hover⟩
      | cons next p =>
          obtain ⟨inner, hobject⟩ := Option.isSome_iff_exists.mp hthrough.1
          obtain ⟨-, -, htype, -⟩ := Types.objectType_eq_some hobject
          obtain ⟨inner', hinner', hpath⟩ := hp.tail
          obtain rfl := Option.some.inj (hinner'.symm.trans htype)
          have hentries : ∀ entry ∈ entries, f.named entry.1 = true →
              type.jsonField entry.1 = some f ∧ ∀ value, readField types proto f entry.2 = .ok value →
                ∃ value', readField types proto f (entry.2.erase (next :: p)) = .ok value' ∧
                  OverValue (next :: p) value value' := by
            rintro ⟨key, json⟩ hentry hnamed
            obtain ⟨hkey, hbelow⟩ := Json.onWay_entry hway hentry hnamed
            refine ⟨of_decide_eq_true hkey, fun value => readField_erase hobject ?_⟩
            rintro entries read rfl
            exact ih hpath hthrough.2 (hbelow inner' htype)
          obtain ⟨read', hread', hover⟩ := runSteps_erase hp hentries (Or.inl rfl) hread
          exact ⟨_, read', rfl, hok.mpr hread', hover⟩

def Near (p q : List Field) : Prop := p <+: q ∨ q <+: p

theorem Near.cons {p q : List Field} (h : Near p q) (f : Field) : Near (f :: p) (f :: q) :=
  h.imp (fun h => List.cons_prefix_cons.mpr ⟨rfl, h⟩) fun h => List.cons_prefix_cons.mpr ⟨rfl, h⟩

/-- A test before and after a change: it passes no more than before, and as before but for what is
near. -/
structure ButFor (near : Prop) (before after : Bool) : Prop where
  less : after = true → before = true
  more : before = true → after = true ∨ near

theorem ButFor.refl (near : Prop) (test : Bool) : ButFor near test test := ⟨id, Or.inl⟩

theorem ButFor.any {α : Type} {near : Prop} {l : List α} {before after : α → Bool}
    (h : ∀ a ∈ l, ButFor near (before a) (after a)) : ButFor near (l.any before) (l.any after) := by
  constructor
  · intro hany
    obtain ⟨a, ha, hafter⟩ := List.any_eq_true.mp hany
    exact List.any_eq_true.mpr ⟨a, ha, (h a ha).less hafter⟩
  · intro hany
    obtain ⟨a, ha, hbefore⟩ := List.any_eq_true.mp hany
    exact ((h a ha).more hbefore).imp_left fun hafter => List.any_eq_true.mpr ⟨a, ha, hafter⟩

theorem eq_of_namesOnly {key : Text} (h : type.namesOnly f key = true) {g : Field} (hg : g ∈ type.fields)
    (hnamed : g.named key = true) : g = f := by
  simpa [hnamed] using List.all_eq_true.mp h g hg

theorem blocks_node (types : Types) (g : Field) (q : List Field) (key : Text) (held : Held)
    (children : List KeyTree) : KeyTree.blocks types (g :: q) (.node key held children) =
      (g.named key && (q.isEmpty || held.isWhole types g || children.any (KeyTree.blocks types q))) := by
  rw [KeyTree.blocks, KeyTree.anyBlocks_eq]

theorem recordedField_erase {inner : MessageType} (hobject : types.objectType f = some inner) {json : Json}
    {g : Field} {q : List Field} {near : Prop} (hentries : ∀ entries rest, json = .object entries →
      (Json.object entries).erase p = .object rest →
      ButFor near ((recordedKeys types proto inner entries).any (KeyTree.blocks types q))
        ((recordedKeys types proto inner rest).any (KeyTree.blocks types q))) (key : Text) :
    ButFor near
      (KeyTree.blocks types (g :: q) (.node key (recordedField types proto f json).1
        (recordedField types proto f json).2))
      (KeyTree.blocks types (g :: q) (.node key (recordedField types proto f (json.erase p)).1
        (recordedField types proto f (json.erase p)).2)) := by
  cases json with
  | object entries =>
      obtain ⟨keep, change, herase, -⟩ := Json.erase_object p entries
      have hbelow := hentries entries _ rfl herase
      rw [herase, blocks_node, blocks_node]
      simp only [recordedField, hobject]
      constructor
      · simp only [Bool.and_eq_true, Bool.or_eq_true]
        exact And.imp_right (Or.imp_right hbelow.less)
      · simp only [Bool.and_eq_true, Bool.or_eq_true]
        rintro ⟨hnamed, hwhole | hblocks⟩
        · exact Or.inl ⟨hnamed, Or.inl hwhole⟩
        · exact (hbelow.more hblocks).imp_left fun hafter => ⟨hnamed, Or.inr hafter⟩
  | _ => rw [Json.erase_of_not_object p rfl]; exact .refl _ _

/-- **Erasing the entries of a path keeps what the keys block**, but for the path, the fields above it
and those below it. -/
theorem recordedKeys_erase {p : List Field} : ∀ {type : MessageType} {entries rest : List (Text × Json)}
    {q : List Field}, PathIn types type p → ThroughObjects types p →
    (Json.object entries).onWay MessageType.readsAs types type p = true →
    (Json.object entries).onWay MessageType.namesOnly types type p = true →
    (Json.object entries).erase p = .object rest → PathIn types type q →
    ButFor (Near p q) ((recordedKeys types proto type entries).any (KeyTree.blocks types q))
      ((recordedKeys types proto type rest).any (KeyTree.blocks types q)) := by
  induction p with
  | nil => intro type entries rest q hp; cases hp
  | cons f p ih =>
      intro type entries rest q hp hthrough hreads honly herase hq
      cases q with
      | nil => cases hq
      | cons g q =>
          rw [recordedKeys_eq, recordedKeys_eq, List.any_map, List.any_map]
          cases p with
          | nil =>
              obtain rfl := Json.object.inj herase
              rw [List.any_filter]
              refine ButFor.any fun entry hentry => ?_
              rw [Function.comp_apply, blocks_node]
              refine ⟨fun h => (Bool.and_eq_true_iff.mp h).2, fun hblocks => ?_⟩
              cases hnamed : f.named entry.1 with
              | false => exact Or.inl (by simpa using hblocks)
              | true =>
                  have hsame := eq_of_namesOnly (Json.onWay_entry honly hentry hnamed).1 hq.mem
                    (Bool.and_eq_true_iff.mp hblocks).1
                  exact Or.inr (Or.inl (List.cons_prefix_cons.mpr ⟨hsame.symm, List.nil_prefix⟩))
          | cons next p =>
              obtain rfl := Json.object.inj herase
              rw [List.any_map]
              refine ButFor.any fun entry hentry => ?_
              obtain ⟨key, json⟩ := entry
              rw [Function.comp_apply, Function.comp_apply, Function.comp_apply]
              cases hnamed : f.named key with
              | false => exact .refl _ _
              | true =>
                  obtain ⟨hkey, hreads⟩ := Json.onWay_entry hreads hentry hnamed
                  obtain ⟨hother, honly⟩ := Json.onWay_entry honly hentry hnamed
                  have hfield : type.jsonField key = some f := of_decide_eq_true hkey
                  by_cases hsame : g = f
                  swap
                  · -- a key that names the field of the path names no other
                    have hnot : g.named key = false :=
                      Bool.eq_false_iff.mpr fun h => hsame (eq_of_namesOnly hother hq.mem h)
                    simp only [blocks_node, hnot, Bool.false_and]
                    exact .refl _ _
                  subst hsame
                  obtain ⟨inner, hobject⟩ := Option.isSome_iff_exists.mp hthrough.1
                  obtain ⟨-, -, htype, -⟩ := Types.objectType_eq_some hobject
                  obtain ⟨inner', hinner', hpath⟩ := hp.tail
                  obtain rfl := Option.some.inj (hinner'.symm.trans htype)
                  simp only [recordedEntry, hfield, Option.elim_some, if_true]
                  cases q with
                  | nil =>
                      simp only [blocks_node, List.isEmpty_nil, Bool.true_or]
                      exact .refl _ _
                  | cons second q =>
                      obtain ⟨inner, hinner, hpath'⟩ := hq.tail
                      obtain rfl := Option.some.inj (hinner.symm.trans htype)
                      refine recordedField_erase hobject ?_ key
                      rintro entries rest rfl herase
                      have hinner := ih hpath hthrough.2 (hreads inner htype) (honly inner htype) herase
                        hpath'
                      exact ⟨hinner.less, fun h => (hinner.more h).imp_right fun hnear => hnear.cons g⟩

/-! ### Bodies -/

variable {libs : Libraries} {input : MessageType} {mapping : BodyMapping}

theorem throughObjects_of_outside {segments : List Text} : ∀ {type : MessageType} {found : Resolved},
    resolveSegments types type segments = some found → found.inside = false →
    ThroughObjects types found.path := by
  induction segments with
  | nil => intro type found h; cases h
  | cons segment segments ih =>
      intro type found h hinside
      cases segments with
      | nil =>
          obtain ⟨field, aliased, hfield, rfl⟩ := resolveSegments_singleton h
          trivial
      | cons next segments =>
          obtain ⟨field, aliased, inner, rest, -, hinner, hlist, hmap, hrest, rfl⟩ :=
            resolveSegments_cons_cons h
          obtain ⟨hspecial, hbelow⟩ := Bool.or_eq_false_iff.mp hinside
          obtain ⟨first, path, hpath⟩ := List.exists_cons_of_ne_nil (resolveSegments_pathIn hrest).ne_nil
          have hthrough := ih hrest hbelow
          simp only [hpath] at hthrough ⊢
          refine ⟨?_, hthrough⟩
          simp [Types.objectType, hlist, hmap, hinner, hspecial]

/-- One message is another with values written at the ends of some of the paths. -/
def Fields.OverAll (paths : List (List Field)) : Fields → Fields → Prop :=
  Relation.ReflTransGen fun fields fields' => ∃ path ∈ paths, fields.Over path fields'

theorem blocks_recordMessage (entries : List (Text × Json)) (q : List Field) :
    (recordMessage types proto input (.object entries) {}).blocks types q =
      (input.hasSpecialJson || (recordedKeys types proto input entries).any (KeyTree.blocks types q)) := by
  unfold recordMessage
  cases input.hasSpecialJson with
  | true => rfl
  | false =>
      rw [if_neg (by decide)]
      exact Presence.blocks_eq (List.nil_append _) q

/-- The JSON reads as the other one does, up to values at the ends of some of the paths, and, where they
are recorded, its keys block the same fields, up to those near the paths. -/
structure ReadsOver (types : Types) (proto : ProtoJson) (input : MessageType) (recorded : Bool)
    (paths : List (List Field)) (json json' : Json) : Prop where
  reads : ∀ read, readMessage types proto input json = .ok read →
    ∃ read', readMessage types proto input json' = .ok read' ∧ read.OverAll paths read'
  blocks : recorded = true → ∀ q, PathIn types input q → ButFor (∃ path ∈ paths, Near path q)
    ((recordMessage types proto input json {}).blocks types q)
    ((recordMessage types proto input json' {}).blocks types q)

variable {recorded : Bool}

theorem ReadsOver.refl (paths : List (List Field)) (json : Json) :
    ReadsOver types proto input recorded paths json json :=
  ⟨fun read h => ⟨read, h, .refl⟩, fun _ _ _ => .refl _ _⟩

theorem ReadsOver.trans {paths : List (List Field)} {json json' json'' : Json}
    (h : ReadsOver types proto input recorded paths json json')
    (h' : ReadsOver types proto input recorded paths json' json'') :
    ReadsOver types proto input recorded paths json json'' := by
  refine ⟨fun read hread => ?_, fun hrecorded q hq => ⟨?_, fun hblocks => ?_⟩⟩
  · obtain ⟨mid, hmid, hover⟩ := h.reads read hread
    obtain ⟨last, hlast, hover'⟩ := h'.reads mid hmid
    exact ⟨last, hlast, hover.trans hover'⟩
  · exact (h.blocks hrecorded q hq).less ∘ (h'.blocks hrecorded q hq).less
  · exact ((h.blocks hrecorded q hq).more hblocks).elim (h'.blocks hrecorded q hq).more Or.inr

/-- A message that reads, reads without the entries of a path outside well-known types. -/
theorem readMessage_erase {key : Text} {found : Resolved}
    (hfound : resolve types (rootStart input) key = some found) (hinside : found.inside = false)
    {json : Json} (hreads : json.onWay MessageType.readsAs types input found.path = true)
    (honly : recorded = true → json.onWay MessageType.namesOnly types input found.path = true)
    {paths : List (List Field)} (hmem : found.path ∈ paths) :
    ReadsOver types proto input recorded paths json (json.erase found.path) := by
  obtain ⟨rest, hrest, rfl⟩ := Option.map_eq_some_iff.mp hfound
  obtain ⟨hspecial, hbelow⟩ := Bool.or_eq_false_iff.mp hinside
  have hspecial : input.hasSpecialJson = false := hspecial
  have hpath := resolveSegments_pathIn hrest
  have hthrough := throughObjects_of_outside hrest hbelow
  cases json with
  | object entries =>
      refine ⟨fun read h => ?_, fun hrecorded q hq => ?_⟩
      · obtain ⟨_, hobject, hread⟩ := readMessage_eq_ok hspecial h
        obtain rfl := Json.object.inj hobject
        obtain ⟨left, read', herase, hread', hover⟩ := readEntries_erase hpath hthrough hreads hread
        refine ⟨read', ?_, .single ⟨_, hmem, hover⟩⟩
        rw [herase, readMessage, hspecial, if_neg (by decide)]
        exact hread'
      · obtain ⟨keep, change, herase, -⟩ := Json.erase_object rest.path entries
        have hkeys := @recordedKeys_erase types proto _ _ _ _ _ hpath hthrough hreads
          (honly hrecorded) herase hq
        rw [herase, blocks_recordMessage, blocks_recordMessage, hspecial, Bool.false_or, Bool.false_or]
        exact ⟨hkeys.less, fun h => (hkeys.more h).imp_right fun hnear => ⟨_, hmem, hnear⟩⟩
  | _ => rw [Json.erase_of_not_object _ rfl]; exact .refl _ _

theorem wrapBody_erase (hmapping : ∀ name, mapping = .field name →
      ∃ field, input.getFieldByName name = some field) (hp : PathIn types input p) (body : Json) :
    wrapBody input mapping (body.erase (mapping.below p)) = (wrapBody input mapping body).erase p ∨
      body.erase (mapping.below p) = body := by
  cases mapping with
  | none => exact Or.inr (Json.erase_nil body)
  | root => exact Or.inl rfl
  | field name =>
      obtain ⟨field, hfield⟩ := hmapping name rfl
      obtain ⟨hmem, hname⟩ := MessageType.mem_of_getFieldByName hfield
      cases p with
      | nil => cases hp
      | cons first p =>
          by_cases hfirst : first.name = name
          · obtain rfl := MessageType.eq_of_name_eq hp.mem hmem (hfirst.trans hname.symm)
            cases p with
            | nil => exact Or.inr (by rw [BodyMapping.below, if_pos hfirst, Json.erase_nil])
            | cons next p =>
                refine Or.inl ?_
                have hnamed : first.named first.jsonName = true := by simp [Field.named]
                simp [wrapBody, hfield, BodyMapping.below, hfirst, Json.erase, hnamed]
          · exact Or.inr (by rw [BodyMapping.below, if_neg hfirst, Json.erase_nil])

def Json.OutsideWellKnown (types : Types) (input : MessageType) (mapping : BodyMapping) (keys : List Text)
    (body : Json) : Prop :=
  ∀ key ∈ keys, ∀ found, resolve types (rootStart input) key = some found → found.inside = true →
    body.mentions (mapping.below found.path) = false

theorem Json.OutsideWellKnown.erase {keys : List Text} {body : Json}
    (h : body.OutsideWellKnown types input mapping keys) (q : List Field) :
    (body.erase q).OutsideWellKnown types input mapping keys := by
  intro key hkey found hfound hinside
  refine Bool.eq_false_iff.mpr fun hmentions => ?_
  exact absurd (Json.mentions_of_erase q hmentions) (by simp [h key hkey found hfound hinside])

/-- Every key of the body on the way to a bound field passes a test. -/
def Json.OnWays (test : MessageType → Field → Text → Bool) (types : Types) (input : MessageType)
    (mapping : BodyMapping) (keys : List Text) (body : Json) : Prop :=
  ∀ path ∈ keys.filterMap (keyPath types (rootStart input)), mapping.below path ≠ [] →
    (wrapBody input mapping body).onWay test types input path = true

theorem Json.OnWays.tail {key : Text} {keys : List Text} {body : Json}
    (h : body.OnWays test types input mapping (key :: keys)) :
    body.OnWays test types input mapping keys := by
  intro path hpath
  obtain ⟨other, hother, hsome⟩ := List.mem_filterMap.mp hpath
  exact h path (List.mem_filterMap.mpr ⟨other, List.mem_cons_of_mem _ hother, hsome⟩)

theorem Json.OnWays.erase {keys : List Text} {body : Json} (h : body.OnWays test types input mapping keys)
    {q rest : List Field}
    (hwrap : wrapBody input mapping (body.erase rest) = (wrapBody input mapping body).erase q) :
    (body.erase rest).OnWays test types input mapping keys := by
  intro path hpath hbelow
  rw [hwrap]
  exact Json.onWay_erase _ (h path hpath hbelow)

/-- **A body that reads, reads without the entries that name bound fields**, and the messages differ by
values at those fields. -/
theorem readMessage_eraseBound
    (hmapping : ∀ name, mapping = .field name → ∃ field, input.getFieldByName name = some field)
    {keys : List Text} {paths : List (List Field)} : ∀ {body : Json},
    (∀ path ∈ keys.filterMap (keyPath types (rootStart input)), path ∈ paths) →
    body.OnWays MessageType.readsAs types input mapping keys →
    (recorded = true → body.OnWays MessageType.namesOnly types input mapping keys) →
    body.OutsideWellKnown types input mapping keys →
    ReadsOver types proto input recorded paths (wrapBody input mapping body) (wrapBody input mapping
        (body.eraseBound mapping (keys.filterMap (keyPath types (rootStart input))))) := by
  induction keys with
  | nil => intro body _ _ _ _; exact .refl _ _
  | cons key keys ih =>
      intro body hpaths hreads honly houtside
      have hkeep := fun hrecorded => (honly hrecorded).tail
      have houtside' : body.OutsideWellKnown types input mapping keys := fun other hother =>
        houtside other (List.mem_cons_of_mem _ hother)
      cases hfound : resolve types (rootStart input) key with
      | none =>
          have hnone : keyPath types (rootStart input) key = none := by rw [keyPath, hfound]; rfl
          rw [List.filterMap_cons_none hnone] at hpaths ⊢
          exact ih hpaths hreads.tail hkeep houtside'
      | some found =>
          have hsome := keyPath_of_resolve hfound
          have hmem : found.path ∈ (key :: keys).filterMap (keyPath types (rootStart input)) :=
            List.mem_filterMap.mpr ⟨key, List.mem_cons_self, hsome⟩
          rw [List.filterMap_cons_some hsome] at hpaths ⊢
          obtain ⟨hpath, hpaths⟩ := List.forall_mem_cons.mp hpaths
          have hsame : body.erase (mapping.below found.path) = body →
              ReadsOver types proto input recorded paths (wrapBody input mapping body)
                (wrapBody input mapping ((body.erase (mapping.below found.path)).eraseBound mapping
                  (keys.filterMap (keyPath types (rootStart input))))) := by
            intro hsame
            rw [hsame]
            exact ih hpaths hreads.tail hkeep houtside'
          cases hinside : found.inside with
          | true =>
              exact hsame (Json.erase_of_not_mentions
                (houtside key List.mem_cons_self found hfound hinside))
          | false =>
              by_cases hbelow : mapping.below found.path = []
              · exact hsame (by rw [hbelow, Json.erase_nil])
              rcases wrapBody_erase hmapping (resolve_pathIn (rootStart_sound input) hfound) body with
                hwrap | hunchanged
              swap
              · exact hsame hunchanged
              have hstep := @readMessage_erase types proto input recorded _ _ hfound hinside _
                (hreads _ hmem hbelow) (fun hrecorded => honly hrecorded _ hmem hbelow) _ hpath
              rw [← hwrap] at hstep
              exact hstep.trans (ih hpaths (hreads.tail.erase hwrap)
                (fun hrecorded => (hkeep hrecorded).erase hwrap) (houtside'.erase _))

/-! ### Binding the path -/

def boundValues (types : Types) (input : MessageType) (params : List (Text × Text)) :
    List (List Field × Text) :=
  params.filterMap fun param => (keyPath types (rootStart input) param.1).map fun path => (path, param.2)

def bindValue (readers : StringReaders) (bound : List Field × Text) : Fields → Option Fields :=
  bindStep readers (fun _ => false) [bound.2] bound.1

def Presence.recordPaths (presence : Presence) (paths : List (List Field)) : Presence :=
  paths.foldl (fun presence path => presence.recordPath path false) presence

def bindsInside (types : Types) (input : MessageType) (params : List (Text × Text)) : Bool :=
  params.any fun param => (resolve types (rootStart input) param.1).any Resolved.inside

theorem map_fst_boundValues (params : List (Text × Text)) :
    (boundValues types input params).map Prod.fst = pathFields types input params := by
  rw [boundValues, pathFields, List.map_filterMap, List.filterMap_map]
  congr 1
  funext param
  rw [Option.map_map]
  exact Option.map_id'

theorem toOption_settled_bind {key raw : Text} {found : Resolved} (draft : Draft)
    (hresolve : resolve types (rootStart input) key = some found) :
    (settled (bind types libs.strings (rootStart input) key [raw] .set draft)).toOption =
      (bindValue libs.strings (found.path, raw) draft.fields).map fun fields => (found.inside,
        { fields, presence := draft.presence.map (·.recordPath found.path false) }) := by
  have hlast := List.getLast?_eq_some_getLast (resolve_ne_nil hresolve)
  unfold bind assign bindValue bindStep
  simp only [hresolve, reduceCtorEq, decide_false, Bool.false_and, Bool.false_eq_true, if_false, hlast,
    if_true]
  cases fieldValue libs.strings (found.path.getLast (resolve_ne_nil hresolve)) [raw] with
  | error error => rfl
  | ok value =>
      simp only
      by_cases hfree : FreeAt draft.fields found.path
      · rw [assignAt_of_free value hfree]
        rfl
      · obtain ⟨error, herror⟩ := assignAt_of_not_free value hfree
        rw [herror]
        rfl

theorem bindPath_toOption (params : List (Text × Text)) : ∀ (inside : Bool) (draft : Draft),
    (bindPath types libs input params inside draft).toOption =
      (Lib.runSteps (bindValue libs.strings) (boundValues types input params) draft.fields).map
        fun fields => (inside || bindsInside types input params,
          { fields,
            presence := draft.presence.map (·.recordPaths (pathFields types input params)) }) := by
  induction params with
  | nil =>
      intro inside draft
      obtain ⟨fields, presence⟩ := draft
      cases presence <;> simp [bindPath, Except.toOption, boundValues, pathFields, bindsInside,
        Presence.recordPaths]
  | cons param params ih =>
      intro inside draft
      obtain ⟨key, raw⟩ := param
      rw [bindPath]
      cases hresolve : resolve types (rootStart input) key with
      | none =>
          have hset : settled (bind types libs.strings (rootStart input) key [raw] .set draft) =
              .ok (false, draft) := by
            simp only [bind, hresolve]
            rfl
          have hpath : keyPath types (rootStart input) key = none := by rw [keyPath, hresolve]; rfl
          rw [hset]
          refine (ih (inside || false) draft).trans ?_
          simp [boundValues, pathFields, bindsInside, hpath, hresolve]
      | some found =>
          have hpath := keyPath_of_resolve hresolve
          have hset := @toOption_settled_bind types libs input key raw found draft hresolve
          have hvalues : boundValues types input ((key, raw) :: params) =
              (found.path, raw) :: boundValues types input params := by
            simp [boundValues, hpath]
          rw [hvalues, Lib.runSteps_cons]
          generalize settled (bind types libs.strings (rootStart input) key [raw] .set draft) = result
            at hset ⊢
          cases hstep : bindValue libs.strings (found.path, raw) draft.fields with
          | none =>
              rw [hstep] at hset
              cases result with
              | error error => rfl
              | ok result => cases hset
          | some fields =>
              rw [hstep] at hset
              cases result with
              | error error => cases hset
              | ok result =>
                  obtain rfl := Option.some.inj hset
                  refine (ih (inside || found.inside) _).trans ?_
                  simp [pathFields, bindsInside, hpath, hresolve, Presence.recordPaths, Bool.or_assoc,
                    Function.comp_def]

theorem bindValue_setAt {readers : StringReaders} {bound : List Field × Text} (hne : bound.1 ≠ [])
    {q : List Field} (hbegins : bound.1 <+: q) (value : Value) (fields : Fields) :
    bindValue readers bound (setAt value q fields) = bindValue readers bound fields := by
  have hcases := @bindStep_cases readers (fun _ => false) [bound.2] bound.1 hne
  unfold bindValue
  generalize bindStep readers (fun _ => false) [bound.2] bound.1 = step at hcases ⊢
  cases hcases with
  | skipped hskips => cases hskips
  | refused _ => rfl
  | written written _ hwrites hfails =>
      have hfree := @freeAt_setAt_of_isPrefix value bound.1 q fields hbegins
      by_cases hbound : FreeAt fields bound.1
      · rw [hwrites _ (hfree.mpr hbound), hwrites _ hbound, setAt_setAt_of_isPrefix hne hbegins]
      · rw [hfails _ fun h => hbound (hfree.mp h), hfails _ hbound]

theorem pathIn_of_boundValues {params : List (Text × Text)} {bound : List Field × Text}
    (h : bound ∈ boundValues types input params) : PathIn types input bound.1 := by
  obtain ⟨param, -, hparam⟩ := List.mem_filterMap.mp h
  obtain ⟨path, hpath, rfl⟩ := Option.map_eq_some_iff.mp hparam
  obtain ⟨found, hfound, rfl⟩ := Option.map_eq_some_iff.mp hpath
  exact resolve_pathIn (rootStart_sound input) hfound

theorem bindValue_yields {readers : StringReaders} {early late : List Field × Text}
    (hearly : PathIn types input early.1) (hlate : PathIn types input late.1)
    (hnot : ¬early.1 <+: late.1) (hway : GivesWay early.1 late.1) :
    Lib.Yields (bindValue readers) early late := by
  by_cases hbegins : late.1 <+: early.1
  swap
  · exact Lib.Swaps.yields (bindStep_swaps hearly hlate ⟨hnot, hbegins⟩)
  exact bindStep_yields hearly.ne_nil hlate.ne_nil rfl hbegins hway

/-- **What the body had at a bound field does not matter to binding the path**, when path parameters
give way to later ones. -/
theorem runSteps_bindValue_setAt {readers : StringReaders} {params : List (Text × Text)}
    (hway : (pathFields types input params).Pairwise GivesWay) {path : List Field}
    (hpath : path ∈ pathFields types input params) (value : Value) (fields : Fields) :
    Lib.runSteps (bindValue readers) (boundValues types input params) (setAt value path fields) =
      Lib.runSteps (bindValue readers) (boundValues types input params) fields := by
  rw [← map_fst_boundValues] at hway hpath
  obtain ⟨bound, hbound, rfl⟩ := List.mem_map.mp hpath
  refine @Lib.runSteps_absorbed _ _ _ _ _ (·.1 <+: bound.1) _ ⟨bound, hbound, List.prefix_rfl⟩ ?_ ?_
  · refine (List.pairwise_map.mp hway).imp_of_mem fun {early late} hearly hlate hway hnot hbegins => ?_
    exact bindValue_yields (pathIn_of_boundValues hearly) (pathIn_of_boundValues hlate)
      (fun h => hnot (h.trans hbegins)) hway
  · intro late hlate hbegins
    exact bindValue_setAt (pathIn_of_boundValues hlate).ne_nil hbegins value fields

theorem Fields.OverAll.runSteps_eq {readers : StringReaders} {params : List (Text × Text)}
    (hway : (pathFields types input params).Pairwise GivesWay) {fields fields' : Fields}
    (hover : fields.OverAll (pathFields types input params) fields') :
    Lib.runSteps (bindValue readers) (boundValues types input params) fields =
      Lib.runSteps (bindValue readers) (boundValues types input params) fields' := by
  induction hover with
  | refl => rfl
  | tail _ hlast ih =>
      obtain ⟨path, hpath, rfl | ⟨value, rfl⟩⟩ := hlast
      · exact ih
      · rw [ih, runSteps_bindValue_setAt hway hpath]

end StructuredProxy
