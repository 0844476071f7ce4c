import StructuredProxy.Lib.Worklist
import StructuredProxy.Status.Scrubbed

/-!
# The check for required fields

A decoded message must have every proto2 `required` field of its type, and so must the messages in it.
`missingRequired` looks for one that is unset. `hasRequiredFields` decides from the type alone, before
any message arrives, whether there is anything to look for; types may refer to one another in cycles.
Where it finds nothing the check is left out, and the decoder accepts and rejects as if it were made.
-/

namespace StructuredProxy.Codec

open Lib Status

/-- The message types of a pool and what their fields and known extensions refer to. A map field refers
to the type of its entries, which has the field of the values. -/
structure TypeGraph extends Pool where
  /-- The type of a field or extension whose kind is a message. -/
  kind : MessageDesc → FieldDesc → Option MessageDesc
  extensions : MessageDesc → List FieldDesc
  kind_mem : ∀ desc field inner, kind desc field = some inner → inner ∈ types
  name_inj : ∀ a ∈ types, ∀ b ∈ types, a.fullName = b.fullName → a = b

variable (graph : TypeGraph)

/-- The fields of a type in order: none at the first `required` one, otherwise the types they refer to,
pushed on `pending`. -/
def scanFields (desc : MessageDesc) : List FieldDesc → List MessageDesc → Option (List MessageDesc)
  | [], pending => some pending
  | field :: rest, pending =>
      if field.required then none
      else
        match graph.kind desc field with
        | some inner => scanFields desc rest (inner :: pending)
        | none => scanFields desc rest pending

def pushExtensions (desc : MessageDesc) (pending : List MessageDesc) : List MessageDesc :=
  (graph.extensions desc).foldl
    (fun pending field =>
      match graph.kind desc field with
      | some inner => inner :: pending
      | none => pending)
    pending

/-- What one round of the loop pushes, none when the type has a `required` field. -/
def expand (desc : MessageDesc) : Option (List MessageDesc) :=
  (scanFields graph desc desc.fields []).map (pushExtensions graph desc)

/-- Whether messages of the type can lack a `required` field at any depth; none when `fuel` rounds of the
loop were not enough. -/
def hasRequiredFields (fuel : Nat) (desc : MessageDesc) : Option Bool :=
  explore MessageDesc.fullName (expand graph) fuel [] [desc]

def fieldFullName (desc : MessageDesc) (field : FieldDesc) : Text :=
  desc.fullName ++ [dot] ++ field.name

mutual

/-- The first `required` field that is unset in the message or one nested in it. -/
def missingRequired : Message → Option Text
  | .mk desc fields extensions =>
      match desc.fields.find? fun field =>
          field.required && !(Message.mk desc fields extensions).hasField field with
      | some field => some (fieldFullName desc field)
      | none => (missingInEntries fields).or (missingInEntries extensions)

def missingInItem : Item → Option Text
  | .scalar _ => none
  | .message inner => missingRequired inner

def missingInItems : List Item → Option Text
  | [] => none
  | item :: rest => (missingInItem item).or (missingInItems rest)

def missingInMap : List (Scalar × Item) → Option Text
  | [] => none
  | (_, item) :: rest => (missingInItem item).or (missingInMap rest)

def missingInValue : PbValue → Option Text
  | .single item => missingInItem item
  | .list items => missingInItems items
  | .map entries => missingInMap entries

def missingInEntries : List (FieldDesc × PbValue) → Option Text
  | [] => none
  | (_, value) :: rest => (missingInValue value).or (missingInEntries rest)

end

structure DynamicDecoder where
  desc : MessageDesc
  checkRequired : Bool

/-- `decode` of a frame, through the reflection library's reader of the wire format. -/
def DynamicDecoder.decode (library : MessageDesc → Text → Except Text Message)
    (decoder : DynamicDecoder) (frame : Text) : Except Text Message :=
  match library decoder.desc frame with
  | .error error => .error (str "decode error: " ++ error)
  | .ok message =>
      if decoder.checkRequired then
        match missingRequired message with
        | some field => .error (str "decode error: required field " ++ field ++ str " is missing")
        | none => .ok message
      else .ok message

/-! ### What a round of the loop finds -/

variable {graph}

theorem scanFields_eq_some {desc : MessageDesc} {fields : List FieldDesc} :
    ∀ {pending out : List MessageDesc}, scanFields graph desc fields pending = some out →
      (∀ field ∈ fields, field.required = false) ∧
        ∀ inner, inner ∈ out ↔ inner ∈ pending ∨ ∃ field ∈ fields, graph.kind desc field = some inner := by
  induction fields with
  | nil =>
      intro pending out h
      rw [scanFields, Option.some.injEq] at h
      rw [h]
      simp
  | cons field rest ih =>
      intro pending out h
      rw [scanFields] at h
      by_cases hrequired : field.required = true
      · rw [if_pos hrequired] at h
        exact absurd h (by simp)
      · rw [if_neg hrequired] at h
        cases hkind : graph.kind desc field with
        | none =>
            rw [hkind] at h
            obtain ⟨hrest, hmem⟩ := ih h
            refine ⟨?_, fun inner => ?_⟩
            · simpa using ⟨Bool.eq_false_iff.mpr hrequired, hrest⟩
            · simp [hmem inner, hkind]
        | some found =>
            rw [hkind] at h
            obtain ⟨hrest, hmem⟩ := ih h
            refine ⟨?_, fun inner => ?_⟩
            · simpa using ⟨Bool.eq_false_iff.mpr hrequired, hrest⟩
            · simp only [hmem inner, List.mem_cons, exists_eq_or_imp, hkind, Option.some.injEq]
              rw [@eq_comm _ inner found, or_comm (a := found = inner), or_assoc]

theorem mem_pushExtensions {desc inner : MessageDesc} (pending : List MessageDesc) :
    inner ∈ pushExtensions graph desc pending ↔
      inner ∈ pending ∨ ∃ field ∈ graph.extensions desc, graph.kind desc field = some inner := by
  unfold pushExtensions
  induction graph.extensions desc generalizing pending with
  | nil => simp
  | cons field rest ih =>
      rw [List.foldl_cons, ih]
      cases hkind : graph.kind desc field with
      | none => simp [hkind]
      | some found =>
          simp only [List.mem_cons, exists_eq_or_imp, hkind, Option.some.injEq]
          rw [@eq_comm _ inner found, or_comm (a := found = inner), or_assoc]

theorem expand_eq_some {desc : MessageDesc} {more : List MessageDesc}
    (h : expand graph desc = some more) :
    (∀ field ∈ desc.fields, field.required = false) ∧
      ∀ inner, inner ∈ more ↔
        ∃ field ∈ desc.fields ++ graph.extensions desc, graph.kind desc field = some inner := by
  obtain ⟨pending, hpending, hmore⟩ := Option.map_eq_some_iff.mp h
  obtain ⟨hrequired, hmem⟩ := scanFields_eq_some hpending
  refine ⟨hrequired, fun inner => ?_⟩
  rw [← hmore, mem_pushExtensions, hmem inner]
  simp only [List.not_mem_nil, false_or, List.mem_append, or_and_right, exists_or]

theorem closed_types : Closed MessageDesc.fullName (expand graph) graph.types where
  next_mem := by
    intro desc _ more hmore inner hinner
    obtain ⟨field, -, hkind⟩ := ((expand_eq_some hmore).2 inner).mp hinner
    exact graph.kind_mem desc field inner hkind
  key_inj := graph.name_inj

/-- **The loop ends**, on cyclic types as well. -/
theorem hasRequiredFields_ends {desc : MessageDesc} (hdesc : desc ∈ graph.types) :
    ∃ enough answer, ∀ fuel ≥ enough, hasRequiredFields graph fuel desc = some answer := by
  have hpending : ∀ a ∈ [desc], a ∈ graph.types := by
    intro a ha
    rw [List.mem_singleton.mp ha]
    exact hdesc
  obtain ⟨enough, henough⟩ : ∃ enough,
      roundsLeft MessageDesc.fullName (expand graph) graph.types [] [desc] < enough :=
    ⟨_, Nat.lt_succ_self _⟩
  obtain ⟨answer, hanswer⟩ := explore_ends closed_types hpending henough
  refine ⟨enough, answer, fun fuel hfuel => ?_⟩
  obtain ⟨more, rfl⟩ := Nat.exists_eq_add_of_le hfuel
  exact hanswer more

theorem missingInItem_eq_none_iff {item : Item} :
    missingInItem item = none ↔ ∀ inner ∈ item.messages, missingRequired inner = none := by
  cases item with
  | scalar value => simp [missingInItem, Item.messages]
  | message inner => simp [missingInItem, Item.messages]

theorem missingInItems_eq_none_iff {items : List Item} :
    missingInItems items = none ↔
      ∀ inner ∈ items.flatMap Item.messages, missingRequired inner = none := by
  induction items with
  | nil => simp [missingInItems]
  | cons item rest ih =>
      rw [missingInItems, Option.or_eq_none_iff, missingInItem_eq_none_iff, ih, List.flatMap_cons,
        List.forall_mem_append]

theorem missingInMap_eq_none_iff {entries : List (Scalar × Item)} :
    missingInMap entries = none ↔
      ∀ inner ∈ entries.flatMap fun entry => entry.2.messages, missingRequired inner = none := by
  induction entries with
  | nil => simp [missingInMap]
  | cons entry rest ih =>
      rw [missingInMap, Option.or_eq_none_iff, missingInItem_eq_none_iff, ih, List.flatMap_cons,
        List.forall_mem_append]

theorem missingInValue_eq_none_iff {value : PbValue} :
    missingInValue value = none ↔ ∀ inner ∈ value.messages, missingRequired inner = none := by
  cases value with
  | single item => exact missingInItem_eq_none_iff
  | list items => exact missingInItems_eq_none_iff
  | map entries => exact missingInMap_eq_none_iff

theorem missingInEntries_eq_none_iff {entries : Entries} :
    missingInEntries entries = none ↔ ∀ inner ∈ entries.messages, missingRequired inner = none := by
  induction entries with
  | nil => simp [missingInEntries, Entries.messages]
  | cons entry rest ih =>
      rw [missingInEntries, Option.or_eq_none_iff, missingInValue_eq_none_iff, ih, Entries.messages,
        Entries.messages, List.flatMap_cons, List.forall_mem_append]

/-- A message lacks nothing when its type has no `required` field and no message in it lacks one. -/
theorem missingRequired_eq_none {message : Message}
    (hrequired : ∀ field ∈ message.desc.fields, field.required = false)
    (hbelow : ∀ inner ∈ message.children, missingRequired inner = none) :
    missingRequired message = none := by
  obtain ⟨desc, fields, extensions⟩ := message
  have hfind : (desc.fields.find? fun field =>
      field.required && !(Message.mk desc fields extensions).hasField field) = none := by
    apply List.find?_eq_none.mpr
    intro field hfield
    rw [hrequired field hfield, Bool.false_and]
    decide
  have hchildren := List.forall_mem_append.mp hbelow
  rw [missingRequired, hfind]
  exact Option.or_eq_none_iff.mpr ⟨missingInEntries_eq_none_iff.mpr hchildren.1,
    missingInEntries_eq_none_iff.mpr hchildren.2⟩

/-! ### Messages of the declared types -/

/-- The type of the messages in the value of a field: of the field itself, or for a map of the values of
its entries. -/
def TypeGraph.Declares (graph : TypeGraph) (desc : MessageDesc) (field : FieldDesc)
    (inner : MessageDesc) : PbValue → Prop
  | .map _ => ∃ entry, graph.kind desc field = some entry ∧
      ∃ value ∈ entry.fields, graph.kind entry value = some inner
  | _ => graph.kind desc field = some inner

/-- A message whose fields and extensions are those of its type, the messages in them of the types these
declare, at every depth. -/
inductive Declared (graph : TypeGraph) : Message → Prop
  | intro {message : Message}
      (hfields : ∀ entry ∈ message.fields, entry.1 ∈ message.desc.fields)
      (hextensions : ∀ entry ∈ message.extensions, entry.1 ∈ graph.extensions message.desc)
      (hinner : ∀ entry ∈ message.entries, ∀ inner ∈ entry.2.messages,
        graph.Declares message.desc entry.1 inner.desc entry.2)
      (hbelow : ∀ inner ∈ message.children, Declared graph inner) : Declared graph message

theorem exists_entry_of_mem_children {message inner : Message} (h : inner ∈ message.children) :
    ∃ entry ∈ message.entries, inner ∈ entry.2.messages := by
  rw [Message.children, Entries.messages, Entries.messages, ← List.flatMap_append] at h
  exact List.mem_flatMap.mp h

theorem mem_of_declares {seen : List Text}
    (hseen : Expanded MessageDesc.fullName (expand graph) graph.types seen [])
    {desc inner : MessageDesc} {field : FieldDesc} {value : PbValue} (hdesc : desc ∈ graph.types)
    (hname : desc.fullName ∈ seen) (hfield : field ∈ desc.fields ++ graph.extensions desc)
    (hdeclares : graph.Declares desc field inner value) :
    inner ∈ graph.types ∧ inner.fullName ∈ seen := by
  have hstep : ∀ {desc inner : MessageDesc} {field : FieldDesc}, desc ∈ graph.types →
      desc.fullName ∈ seen → field ∈ desc.fields ++ graph.extensions desc →
      graph.kind desc field = some inner → inner ∈ graph.types ∧ inner.fullName ∈ seen := by
    intro desc inner field hdesc hname hfield hkind
    obtain ⟨more, hmore, hall⟩ := hseen desc hdesc hname
    have hmem := ((expand_eq_some hmore).2 inner).mpr ⟨field, hfield, hkind⟩
    exact ⟨graph.kind_mem desc field inner hkind, (hall inner hmem).resolve_right (by simp)⟩
  cases value with
  | single item => exact hstep hdesc hname hfield hdeclares
  | list items => exact hstep hdesc hname hfield hdeclares
  | map entries =>
      obtain ⟨entry, hentry, valueField, hvalue, hinner⟩ := hdeclares
      obtain ⟨hentryMem, hentryName⟩ := hstep hdesc hname hfield hentry
      exact hstep hentryMem hentryName (List.mem_append_left _ hvalue) hinner

theorem missingRequired_of_seen {seen : List Text}
    (hseen : Expanded MessageDesc.fullName (expand graph) graph.types seen []) {message : Message}
    (h : Declared graph message) :
    message.desc ∈ graph.types → message.desc.fullName ∈ seen → missingRequired message = none := by
  induction h with
  | @intro message hfields hextensions hinner _ ih =>
      intro hdesc hname
      obtain ⟨more, hmore, -⟩ := hseen message.desc hdesc hname
      apply missingRequired_eq_none (expand_eq_some hmore).1
      intro inner hchild
      obtain ⟨entry, hentry, hmem⟩ := exists_entry_of_mem_children hchild
      have hfield : entry.1 ∈ message.desc.fields ++ graph.extensions message.desc := by
        obtain hentry | hentry := List.mem_append.mp hentry
        · exact List.mem_append_left _ (hfields entry hentry)
        · exact List.mem_append_right _ (hextensions entry hentry)
      obtain ⟨htypes, hinnerName⟩ :=
        mem_of_declares hseen hdesc hname hfield (hinner entry hentry inner hmem)
      exact ih inner hchild htypes hinnerName

theorem missingRequired_of_hasRequiredFields {fuel : Nat} {desc : MessageDesc}
    (hdesc : desc ∈ graph.types) (hfalse : hasRequiredFields graph fuel desc = some false)
    {message : Message} (hmessage : message.desc = desc) (hdeclared : Declared graph message) :
    missingRequired message = none := by
  have hpending : ∀ a ∈ [desc], a ∈ graph.types := by
    intro a ha
    rw [List.mem_singleton.mp ha]
    exact hdesc
  have hexpanded : Expanded MessageDesc.fullName (expand graph) graph.types [] [desc] :=
    fun a _ ha => absurd ha (by simp)
  obtain ⟨seen, -, hroot, hseen⟩ := explore_eq_false closed_types hpending hexpanded hfalse
  apply missingRequired_of_seen hseen hdeclared
  · rw [hmessage]
    exact hdesc
  · rw [hmessage]
    exact hroot desc List.mem_cons_self

/-- **Leaving the check out changes nothing**, given that the library reads a frame as a message of the
declared types. -/
theorem hasRequiredFields_sound {desc : MessageDesc} (hdesc : desc ∈ graph.types) :
    (∃ enough answer, ∀ fuel ≥ enough, hasRequiredFields graph fuel desc = some answer) ∧
      (∀ fuel, hasRequiredFields graph fuel desc = some false → ∀ message : Message,
        message.desc = desc → Declared graph message → missingRequired message = none) ∧
      ∀ library : MessageDesc → Text → Except Text Message,
        (∀ frame message, library desc frame = .ok message →
          message.desc = desc ∧ Declared graph message) →
        ∀ fuel answer, hasRequiredFields graph fuel desc = some answer → ∀ frame,
          DynamicDecoder.decode library { desc, checkRequired := answer } frame =
            DynamicDecoder.decode library { desc, checkRequired := true } frame := by
  refine ⟨hasRequiredFields_ends hdesc, ?_, ?_⟩
  · intro fuel hfalse message hmessage hdeclared
    exact missingRequired_of_hasRequiredFields hdesc hfalse hmessage hdeclared
  · intro library hlibrary fuel answer hanswer frame
    cases answer with
    | true => rfl
    | false =>
        unfold DynamicDecoder.decode
        dsimp only
        cases hframe : library desc frame with
        | error error => rfl
        | ok message =>
            obtain ⟨hmessage, hdeclared⟩ := hlibrary frame message hframe
            dsimp only
            rw [missingRequired_of_hasRequiredFields hdesc hanswer hmessage hdeclared]
            rfl

def linkField : FieldDesc := ⟨1, str "next", true, false⟩
def noteExtension : FieldDesc := ⟨100, str "note", true, false⟩
def linkDesc : MessageDesc := ⟨str "acme.Link", [linkField], true⟩

def linkGraph : TypeGraph where
  types := [linkDesc]
  kind := fun _ _ => some linkDesc
  extensions := fun _ => [noteExtension]
  kind_mem := by
    intro desc field inner h
    rw [← Option.some.inj h]
    exact List.mem_cons_self
  name_inj := by
    intro a ha b hb _
    rw [List.mem_singleton.mp ha, List.mem_singleton.mp hb]

def lastLink : Message := .mk linkDesc [] []

def linkMessage : Message :=
  .mk linkDesc [(linkField, .single (.message lastLink))] [(noteExtension, .list [.message lastLink])]

theorem declared_lastLink : Declared linkGraph lastLink := by
  refine .intro ?_ ?_ ?_ ?_ <;> intro entry hentry <;> cases hentry

theorem declared_linkMessage : Declared linkGraph linkMessage := by
  refine .intro ?_ ?_ ?_ ?_
  · intro entry hentry
    rw [List.mem_singleton.mp hentry]
    exact List.mem_cons_self
  · intro entry hentry
    rw [List.mem_singleton.mp hentry]
    exact List.mem_cons_self
  · intro entry hentry inner hinner
    obtain rfl | hentry := List.mem_cons.mp hentry
    · rw [List.mem_singleton.mp hinner]
      rfl
    · rw [List.mem_singleton.mp hentry] at hinner ⊢
      rw [List.mem_singleton.mp hinner]
      rfl
  · intro inner hinner
    have hlast : inner = lastLink := by
      obtain hinner | hinner := List.mem_cons.mp hinner
      · exact hinner
      · exact List.mem_singleton.mp hinner
    rw [hlast]
    exact declared_lastLink

def readLink (_ : MessageDesc) (frame : Text) : Except Text Message :=
  .ok (if frame.isEmpty then lastLink else linkMessage)

theorem readLink_declared (frame : Text) (message : Message)
    (h : readLink linkDesc frame = .ok message) :
    message.desc = linkDesc ∧ Declared linkGraph message := by
  rw [readLink, Except.ok.injEq] at h
  rw [← h]
  split
  · exact ⟨rfl, declared_lastLink⟩
  · exact ⟨rfl, declared_linkMessage⟩

theorem link_check_left_out : hasRequiredFields linkGraph 4 linkDesc = some false ∧ ∀ frame,
    DynamicDecoder.decode readLink { desc := linkDesc, checkRequired := false } frame =
      DynamicDecoder.decode readLink { desc := linkDesc, checkRequired := true } frame := by
  have hanswer : hasRequiredFields linkGraph 4 linkDesc = some false := by rfl
  refine ⟨hanswer, ?_⟩
  exact (hasRequiredFields_sound List.mem_cons_self).2.2 readLink readLink_declared 4 false hanswer

end StructuredProxy.Codec
