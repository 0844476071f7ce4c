import StructuredProxy.Lib.Fallible
import StructuredProxy.Status.Scrub

/-!
# What debug information survives

What `scrub` leaves of a message holds a `DebugInfo` exactly when the message has an `Any`, outside
everything that is removed, with one in a field of its own besides the type URL and the packed bytes:
`scrub_any` reads those two alone. The flag says exactly whether the message changed, and a message with
nothing to remove comes back as it is. The flag carries the proof: a packed message is encoded again
only when the flag says so, so a lost flag would leave the old bytes.
-/

namespace StructuredProxy.Status

open Lib

/-! ### What a message holds -/

def Item.messages : Item → List Message
  | .scalar _ => []
  | .message inner => [inner]

def PbValue.messages : PbValue → List Message
  | .single item => item.messages
  | .list items => items.flatMap Item.messages
  | .map entries => entries.flatMap fun entry => entry.2.messages

def Entries.messages (entries : Entries) : List Message :=
  entries.flatMap fun entry => entry.2.messages

namespace Message

def entries (message : Message) : Entries := message.fields ++ message.extensions

def children (message : Message) : List Message := message.fields.messages ++ message.extensions.messages

end Message

/-- A message of the pool, as the library keeps it: its fields are those of its type, a field holds
messages only if its kind is a message, no list or map it holds is empty, and so on below. -/
inductive Conforms (pool : Pool) : Message → Prop
  | intro {message : Message} (hdesc : message.desc ∈ pool.types)
      (hfields : ∀ entry ∈ message.fields, entry.1 ∈ message.desc.fields)
      (hextensions : message.desc.extensible = false → message.extensions = [])
      (hkind : ∀ entry ∈ message.entries, entry.1.isMessage = false → entry.2.messages = [])
      (hset : ∀ entry ∈ message.entries, entry.2.isEmpty = false)
      (hbelow : ∀ inner ∈ message.children, Conforms pool inner) : Conforms pool message

/-- The packed bytes of an `Any` are not a message field, which could not be set to bytes. -/
def Pool.PacksBytes (pool : Pool) : Prop :=
  ∀ desc ∈ pool.types, desc.fullName = anyName →
    ∀ field ∈ desc.fields, field.name = str "value" → field.isMessage = false

section

variable (pool : Pool) (wire : Wire)

/-- A DebugInfo at any depth: the message itself, one in a field, list element, map value or
extension, an `Any` that names one, or one in a packed message whose type resolves. -/
inductive HasDebugInfo : Message → Prop
  | itself {message : Message} (h : message.fullName = debugInfoName) : HasDebugInfo message
  | named {message : Message} (hany : message.fullName = anyName)
      (h : anyTypeName message.typeUrl = some debugInfoName) : HasDebugInfo message
  | inside {message inner : Message} (hmem : inner ∈ message.children) (h : HasDebugInfo inner) :
      HasDebugInfo message
  | packed {message inner : Message} {name : Text} {desc : MessageDesc}
      (hany : message.fullName = anyName) (hname : anyTypeName message.typeUrl = some name)
      (hdesc : pool.resolve name = some desc)
      (hdecode : wire.decode desc message.packed = some inner) (h : HasDebugInfo inner) :
      HasDebugInfo message

/-- A message that is removed as a whole: a DebugInfo, an `Any` that names one or packs a message that is
removed, or a message with one in a `required` field. -/
inductive Goes : Message → Prop
  | itself {message : Message} (h : message.fullName = debugInfoName) : Goes message
  | named {message : Message} (hany : message.fullName = anyName)
      (h : anyTypeName message.typeUrl = some debugInfoName) : Goes message
  | packed {message inner : Message} {name : Text} {desc : MessageDesc}
      (hany : message.fullName = anyName) (hname : anyTypeName message.typeUrl = some name)
      (hdesc : pool.resolve name = some desc)
      (hdecode : wire.decode desc message.packed = some inner) (h : Goes inner) : Goes message
  | required {message inner : Message} {field : FieldDesc} (hany : message.fullName ≠ anyName)
      (hmem : (field, .single (.message inner)) ∈ message.fields) (hmessage : field.isMessage = true)
      (hrequired : field.required = true) (h : Goes inner) : Goes message

/-- An `Any` that is not removed has a DebugInfo beside its packed message. -/
inductive Overlooked : Message → Prop
  | beside {message inner : Message} (hany : message.fullName = anyName)
      (hmem : inner ∈ message.children) (h : HasDebugInfo pool wire inner) : Overlooked message
  | packed {message inner : Message} {name : Text} {desc : MessageDesc}
      (hany : message.fullName = anyName) (hname : anyTypeName message.typeUrl = some name)
      (hdesc : pool.resolve name = some desc)
      (hdecode : wire.decode desc message.packed = some inner) (h : Overlooked inner) :
      Overlooked message
  | inside {message inner : Message} (hany : message.fullName ≠ anyName)
      (hmem : inner ∈ message.children) (hstays : ¬ Goes pool wire inner) (h : Overlooked inner) :
      Overlooked message

/-- All required fields are set, and every `Any` is well formed, resolves and decodes, at any depth. -/
inductive Complete : Message → Prop
  | any {message inner : Message} {name : Text} {desc : MessageDesc}
      (hany : message.fullName = anyName) (hname : anyTypeName message.typeUrl = some name)
      (hdesc : pool.resolve name = some desc)
      (hdecode : wire.decode desc message.packed = some inner) (hinner : Complete inner) :
      Complete message
  | fields {message : Message} (hany : message.fullName ≠ anyName)
      (hrequired : lacksRequired message = false)
      (hbelow : ∀ inner ∈ message.children, Complete inner) : Complete message

/-- The library decodes messages of the pool, and decoding inverts encoding on every message that is
packed again. -/
structure Wire.Lawful : Prop where
  conforms : ∀ desc ∈ pool.types, ∀ bytes message, wire.decode desc bytes = some message →
    Conforms pool message
  inverts : ∀ desc bytes inner, wire.decode desc bytes = some inner → ∀ depth after,
    scrub pool wire depth inner = .ok (some (after, true)) →
      wire.decode desc (wire.encode after) = some after

end

/-! ### Lists, values and entries -/

/-- What is left comes from the messages that stay, and each of those leaves something. -/
structure Kept (scrub : Message → Scrubbed Message) (before after : List Message) : Prop where
  origin : ∀ left ∈ after, ∃ inner ∈ before, ∃ changed, scrub inner = .ok (some (left, changed))
  fate : ∀ inner ∈ before, scrub inner = .ok none ∨
    ∃ left ∈ after, ∃ changed, scrub inner = .ok (some (left, changed))

def Exact (scrub : Message → Scrubbed Message) (messages : List Message) : Prop :=
  ∀ inner ∈ messages, ∀ left changed, scrub inner = .ok (some (left, changed)) →
    (changed = true ↔ left ≠ inner)

variable {scrub' : Message → Scrubbed Message}

theorem Kept.append {before before' after after' : List Message} (h : Kept scrub' before after)
    (h' : Kept scrub' before' after') : Kept scrub' (before ++ before') (after ++ after') := by
  constructor
  · intro left hleft
    rcases List.mem_append.mp hleft with hleft | hleft
    · obtain ⟨inner, hinner, hscrub⟩ := h.origin left hleft
      exact ⟨inner, List.mem_append_left _ hinner, hscrub⟩
    · obtain ⟨inner, hinner, hscrub⟩ := h'.origin left hleft
      exact ⟨inner, List.mem_append_right _ hinner, hscrub⟩
  · intro inner hinner
    rcases List.mem_append.mp hinner with hinner | hinner
    · refine (h.fate inner hinner).imp_right ?_
      rintro ⟨left, hleft, hscrub⟩
      exact ⟨left, List.mem_append_left _ hleft, hscrub⟩
    · refine (h'.fate inner hinner).imp_right ?_
      rintro ⟨left, hleft, hscrub⟩
      exact ⟨left, List.mem_append_right _ hleft, hscrub⟩

theorem Kept.nil : Kept scrub' [] [] :=
  ⟨fun _ hleft => absurd hleft List.not_mem_nil, fun _ hinner => absurd hinner List.not_mem_nil⟩

theorem Kept.gone {inner : Message} (h : scrub' inner = .ok none) : Kept scrub' [inner] [] :=
  ⟨fun _ hleft => absurd hleft List.not_mem_nil,
    fun found hfound => Or.inl (by rw [List.mem_singleton.mp hfound, h])⟩

theorem Kept.one {inner left : Message} {changed : Bool} (h : scrub' inner = .ok (some (left, changed))) :
    Kept scrub' [inner] [left] := by
  constructor
  · intro found hfound
    exact ⟨inner, List.mem_singleton_self inner, changed, by rw [List.mem_singleton.mp hfound, h]⟩
  · intro found hfound
    exact Or.inr ⟨left, List.mem_singleton_self left, changed, by rw [List.mem_singleton.mp hfound, h]⟩

theorem map_map_eq_ok {ε α β : Type} {x : Except ε (Option α)} {f : α → β} {b : β}
    (h : x.map (fun outcome => outcome.map f) = .ok (some b)) : ∃ a, x = .ok (some a) ∧ f a = b := by
  obtain ⟨outcome, houtcome, hmap⟩ := map_eq_ok h
  obtain ⟨a, rfl, hresult⟩ := Option.map_eq_some_iff.mp hmap
  exact ⟨a, houtcome, hresult⟩

theorem ne_cons_of_length_le {α : Type} {kept rest : List α} (h : kept.length ≤ rest.length) {a : α} :
    kept ≠ a :: rest := by
  rintro rfl
  rw [List.length_cons] at h
  omega

section All

variable {α : Type} {item : α → Item} {put : α → Item → α}

theorem put_message_eq_iff (hitem : ∀ a i, item (put a i) = i) (hput : ∀ a, put a (item a) = a) {a : α}
    {inner left : Message} (hinner : item a = .message inner) :
    put a (.message left) = a ↔ left = inner := by
  constructor
  · intro heq
    have hsame := congrArg item heq
    rw [hitem, hinner] at hsame
    cases hsame
    rfl
  · rintro rfl
    rw [← hinner, hput]

theorem scrubAll_spec (hitem : ∀ a i, item (put a i) = i) (hput : ∀ a, put a (item a) = a)
    {l l' : List α} {changed : Bool} (h : scrubAll scrub' item put l = .ok (l', changed))
    (hexact : Exact scrub' (l.flatMap fun a => (item a).messages)) :
    Kept scrub' (l.flatMap fun a => (item a).messages) (l'.flatMap fun a => (item a).messages) ∧
      l'.length ≤ l.length ∧ (changed = true ↔ l' ≠ l) := by
  induction l generalizing l' changed with
  | nil =>
      cases h
      exact ⟨Kept.nil, Nat.le_refl _, by simp⟩
  | cons a rest ih =>
      rw [List.flatMap_cons] at hexact
      have hrest : Exact scrub' (rest.flatMap fun a => (item a).messages) := fun inner hinner =>
        hexact inner (List.mem_append_right _ hinner)
      rw [scrubAll] at h
      cases hcase : item a with
      | scalar value =>
          rw [hcase] at h
          obtain ⟨⟨kept, keptChanged⟩, hkept, hresult⟩ := map_eq_ok h
          cases hresult
          obtain ⟨hmessages, hlength, hflag⟩ := ih hkept hrest
          refine ⟨?_, Nat.succ_le_succ hlength, ?_⟩
          · rw [List.flatMap_cons, List.flatMap_cons, hcase]
            exact hmessages
          · rw [hflag]
            simp
      | message inner =>
          simp only [hcase] at h
          have hmem : inner ∈ (item a).messages := by
            rw [hcase]
            exact List.mem_singleton_self inner
          cases hscrub : scrub' inner with
          | error failure =>
              simp only [hscrub] at h
              cases h
          | ok outcome =>
              cases outcome with
              | none =>
                  simp only [hscrub] at h
                  obtain ⟨⟨kept, keptChanged⟩, hkept, hresult⟩ := map_eq_ok h
                  cases hresult
                  obtain ⟨hmessages, hlength, -⟩ := ih hkept hrest
                  refine ⟨?_, Nat.le_succ_of_le hlength, ?_⟩
                  · rw [List.flatMap_cons, hcase]
                    exact (Kept.gone hscrub).append hmessages
                  · simp [ne_cons_of_length_le hlength]
              | some outcome =>
                  obtain ⟨left, leftChanged⟩ := outcome
                  simp only [hscrub] at h
                  obtain ⟨⟨kept, keptChanged⟩, hkept, hresult⟩ := map_eq_ok h
                  cases hresult
                  obtain ⟨hmessages, hlength, hflag⟩ := ih hkept hrest
                  have hleft : leftChanged = true ↔ left ≠ inner :=
                    hexact inner (List.mem_append_left _ hmem) left leftChanged hscrub
                  refine ⟨?_, Nat.succ_le_succ hlength, ?_⟩
                  · rw [List.flatMap_cons, List.flatMap_cons, hitem, hcase]
                    exact (Kept.one hscrub).append hmessages
                  · rw [Bool.or_eq_true, hleft, hflag, ne_eq, ne_eq, ne_eq, List.cons.injEq,
                      put_message_eq_iff hitem hput hcase]
                    exact not_and_or.symm

theorem scrubAll_same (hput : ∀ a, put a (item a) = a) {l : List α}
    (h : ∀ inner ∈ l.flatMap (fun a => (item a).messages), scrub' inner = .ok (some (inner, false))) :
    scrubAll scrub' item put l = .ok (l, false) := by
  induction l with
  | nil => rfl
  | cons a rest ih =>
      rw [List.flatMap_cons] at h
      have hrest := ih fun inner hinner => h inner (List.mem_append_right _ hinner)
      rw [scrubAll, hrest]
      cases hcase : item a with
      | scalar value => rfl
      | message inner =>
          have hinner : inner ∈ (item a).messages := by
            rw [hcase]
            exact List.mem_singleton_self inner
          simp only [h inner (List.mem_append_left _ hinner)]
          rw [← hcase, hput]
          rfl

end All

theorem scrubValue_spec {value value' : PbValue} {changed : Bool}
    (h : scrubValue scrub' value = .ok (some (value', changed)))
    (hexact : Exact scrub' value.messages) :
    Kept scrub' value.messages value'.messages ∧ (changed = true ↔ value' ≠ value) := by
  cases value with
  | single item =>
      cases item with
      | scalar s =>
          cases h
          exact ⟨Kept.nil, by simp⟩
      | message inner =>
          obtain ⟨⟨left, leftChanged⟩, hscrub, hresult⟩ := map_map_eq_ok h
          cases hresult
          have hinner : inner ∈ (PbValue.single (.message inner)).messages :=
            List.mem_singleton_self inner
          refine ⟨Kept.one hscrub, ?_⟩
          rw [hexact inner hinner left changed hscrub]
          simp
  | list items =>
      obtain ⟨⟨items', itemsChanged⟩, hall, hresult⟩ := map_eq_ok h
      cases hresult
      obtain ⟨hkept, -, hflag⟩ := scrubAll_spec (fun _ _ => rfl) (fun _ => rfl) hall hexact
      refine ⟨hkept, ?_⟩
      rw [hflag]
      simp
  | map entries =>
      obtain ⟨⟨entries', entriesChanged⟩, hall, hresult⟩ := map_eq_ok h
      cases hresult
      obtain ⟨hkept, -, hflag⟩ := scrubAll_spec (fun _ _ => rfl) (fun _ => rfl) hall hexact
      refine ⟨hkept, ?_⟩
      rw [hflag]
      simp

theorem scrubValue_none {value : PbValue} (h : scrubValue scrub' value = .ok none) :
    ∃ inner, value = .single (.message inner) ∧ scrub' inner = .ok none := by
  cases value with
  | single item =>
      cases item with
      | scalar s => cases h
      | message inner =>
          obtain ⟨outcome, houtcome, hresult⟩ := map_eq_ok h
          rw [Option.map_eq_none_iff.mp hresult] at houtcome
          exact ⟨inner, rfl, houtcome⟩
  | list items =>
      obtain ⟨_, -, hresult⟩ := map_eq_ok h
      cases hresult
  | map entries =>
      obtain ⟨_, -, hresult⟩ := map_eq_ok h
      cases hresult

theorem scrubValue_same {value : PbValue}
    (h : ∀ inner ∈ value.messages, scrub' inner = .ok (some (inner, false))) :
    scrubValue scrub' value = .ok (some (value, false)) := by
  cases value with
  | single item =>
      cases item with
      | scalar s => rfl
      | message inner =>
          rw [scrubValue, h inner (List.mem_singleton_self inner)]
          rfl
  | list items =>
      have hall : scrubAll scrub' id (fun _ item => item) items = .ok (items, false) :=
        scrubAll_same (fun _ => rfl) h
      rw [scrubValue, hall]
      rfl
  | map entries =>
      have hall : scrubAll scrub' Prod.snd (fun entry item => (entry.1, item)) entries =
          .ok (entries, false) := scrubAll_same (fun _ => rfl) h
      rw [scrubValue, hall]
      rfl

/-- A field holds messages only if its kind is a message, and no list or map it holds is empty. -/
def Populated (entries : Entries) : Prop :=
  (∀ entry ∈ entries, entry.1.isMessage = false → entry.2.messages = []) ∧
    ∀ entry ∈ entries, entry.2.isEmpty = false

theorem Populated.tail {entry : FieldDesc × PbValue} {entries : Entries}
    (h : Populated (entry :: entries)) : Populated entries :=
  ⟨fun next hnext => h.1 next (List.mem_cons_of_mem _ hnext),
    fun next hnext => h.2 next (List.mem_cons_of_mem _ hnext)⟩

inductive EntryScrubbed (scrub : Message → Scrubbed Message) (ownFields : Bool) (field : FieldDesc)
    (value : PbValue) (kept : Entries) (keptChanged : Bool) : Entries → Bool → Prop
  | stays (hscalar : field.isMessage = false) :
      EntryScrubbed scrub ownFields field value kept keptChanged ((field, value) :: kept) keptChanged
  | dropped (hvalue : scrubValue scrub value = .ok none) (hfree : (ownFields && field.required) = false) :
      EntryScrubbed scrub ownFields field value kept keptChanged kept true
  | scrubbed {value' : PbValue} {changed : Bool}
      (hvalue : scrubValue scrub value = .ok (some (value', changed))) :
      EntryScrubbed scrub ownFields field value kept keptChanged
        (if value'.isEmpty then kept else (field, value') :: kept) (changed || keptChanged)

theorem scrubEntries_cons {ownFields : Bool} {field : FieldDesc} {value : PbValue}
    {rest entries' : Entries} {changed : Bool}
    (h : scrubEntries scrub' ownFields ((field, value) :: rest) = .ok (some (entries', changed))) :
    ∃ kept keptChanged, scrubEntries scrub' ownFields rest = .ok (some (kept, keptChanged)) ∧
      EntryScrubbed scrub' ownFields field value kept keptChanged entries' changed := by
  rw [scrubEntries] at h
  split at h
  · rename_i hscalar
    obtain ⟨⟨kept, keptChanged⟩, hentries, hresult⟩ := map_map_eq_ok h
    cases hresult
    exact ⟨kept, changed, hentries, .stays (by simpa using hscalar)⟩
  · split at h
    · cases h
    · rename_i hvalue
      split at h
      · cases h
      · rename_i hfree
        obtain ⟨⟨kept, keptChanged⟩, hentries, hresult⟩ := map_map_eq_ok h
        cases hresult
        exact ⟨entries', keptChanged, hentries, .dropped hvalue (by simpa using hfree)⟩
    · rename_i hvalue
      obtain ⟨⟨kept, keptChanged⟩, hentries, hresult⟩ := map_map_eq_ok h
      cases hresult
      exact ⟨kept, keptChanged, hentries, .scrubbed hvalue⟩

/-- A `required` field takes the whole message with it, and nothing else does. -/
theorem scrubEntries_none {ownFields : Bool} {entries : Entries}
    (h : scrubEntries scrub' ownFields entries = .ok none) : ownFields = true ∧ ∃ field inner,
      (field, .single (.message inner)) ∈ entries ∧ field.isMessage = true ∧ field.required = true ∧
        scrub' inner = .ok none := by
  induction entries with
  | nil => cases h
  | cons entry rest ih =>
      obtain ⟨field, value⟩ := entry
      have hrest : scrubEntries scrub' ownFields rest = .ok none → ownFields = true ∧ ∃ field' inner,
          (field', .single (.message inner)) ∈ (field, value) :: rest ∧ field'.isMessage = true ∧
            field'.required = true ∧ scrub' inner = .ok none := by
        intro hrest
        obtain ⟨hown, field', inner, hmem, hfield⟩ := ih hrest
        exact ⟨hown, field', inner, List.mem_cons_of_mem _ hmem, hfield⟩
      rw [scrubEntries] at h
      split at h
      · obtain ⟨outcome, houtcome, hresult⟩ := map_eq_ok h
        rw [Option.map_eq_none_iff.mp hresult] at houtcome
        exact hrest houtcome
      · rename_i hmessage
        split at h
        · cases h
        · rename_i hvalue
          split at h
          · rename_i hrequired
            rw [Bool.and_eq_true] at hrequired
            obtain ⟨inner, rfl, hscrub⟩ := scrubValue_none hvalue
            exact ⟨hrequired.1, field, inner, List.mem_cons_self, by simpa using hmessage, hrequired.2,
              hscrub⟩
          · obtain ⟨outcome, houtcome, hresult⟩ := map_eq_ok h
            rw [Option.map_eq_none_iff.mp hresult] at houtcome
            exact hrest houtcome
        · obtain ⟨outcome, houtcome, hresult⟩ := map_eq_ok h
          rw [Option.map_eq_none_iff.mp hresult] at houtcome
          exact hrest houtcome

theorem scrubEntries_required {entries : Entries} : ∀ {kept : Entries × Bool},
    scrubEntries scrub' true entries = .ok (some kept) → ∀ field inner,
    (field, .single (.message inner)) ∈ entries → field.isMessage = true → field.required = true →
    ∃ left, scrub' inner = .ok (some left) := by
  induction entries with
  | nil => intro kept _ field inner hmem; cases hmem
  | cons entry rest ih =>
      rintro ⟨entries', changed⟩ h field inner hmem hmessage hrequired
      obtain ⟨first, value⟩ := entry
      obtain ⟨kept, keptChanged, hentries, hscrubbed⟩ := scrubEntries_cons h
      rcases List.mem_cons.mp hmem with heq | hmem
      · obtain ⟨rfl, rfl⟩ := Prod.mk.inj heq
        cases hscrubbed with
        | stays hscalar => rw [hmessage] at hscalar; cases hscalar
        | dropped _ hfree => rw [hrequired] at hfree; cases hfree
        | scrubbed hvalue =>
            obtain ⟨left, hscrub, -⟩ := map_map_eq_ok hvalue
            exact ⟨left, hscrub⟩
      · exact ih hentries field inner hmem hmessage hrequired

theorem messages_of_isEmpty {value : PbValue} (h : value.isEmpty = true) : value.messages = [] := by
  cases value with
  | single item => cases h
  | list items => rw [List.isEmpty_iff.mp h]; rfl
  | map entries => rw [List.isEmpty_iff.mp h]; rfl

theorem scrubEntries_spec {ownFields : Bool} {entries entries' : Entries} {changed : Bool}
    (h : scrubEntries scrub' ownFields entries = .ok (some (entries', changed)))
    (hset : Populated entries) (hexact : Exact scrub' entries.messages) :
    Kept scrub' entries.messages entries'.messages ∧ entries'.length ≤ entries.length ∧
      (changed = true ↔ entries' ≠ entries) := by
  induction entries generalizing entries' changed with
  | nil =>
      cases h
      exact ⟨Kept.nil, Nat.le_refl _, by simp⟩
  | cons entry rest ih =>
      obtain ⟨field, value⟩ := entry
      obtain ⟨kept, keptChanged, hentries, hscrubbed⟩ := scrubEntries_cons h
      obtain ⟨hkept, hlength, hflag⟩ := ih hentries hset.tail fun inner hinner =>
        hexact inner (List.mem_append_right _ hinner)
      cases hscrubbed with
      | stays hscalar =>
          have hmessages : value.messages = [] := hset.1 _ List.mem_cons_self hscalar
          refine ⟨?_, Nat.succ_le_succ hlength, ?_⟩
          · rw [Entries.messages, Entries.messages, List.flatMap_cons, List.flatMap_cons, hmessages]
            exact hkept
          · rw [hflag]
            simp
      | dropped hvalue _ =>
          obtain ⟨inner, rfl, hscrub⟩ := scrubValue_none hvalue
          refine ⟨(Kept.gone hscrub).append hkept, Nat.le_succ_of_le hlength, ?_⟩
          simp [ne_cons_of_length_le hlength]
      | @scrubbed value' valueChanged hvalue =>
          obtain ⟨hmessages, hvalueFlag⟩ := scrubValue_spec hvalue fun inner hinner =>
            hexact inner (List.mem_append_left _ hinner)
          by_cases hempty : value'.isEmpty = true
          · -- every element went: the field is unset
            have hchanged : valueChanged = true := by
              rw [hvalueFlag]
              intro heq
              rw [heq, hset.2 _ List.mem_cons_self] at hempty
              cases hempty
            rw [messages_of_isEmpty hempty] at hmessages
            rw [if_pos hempty]
            refine ⟨hmessages.append hkept, Nat.le_succ_of_le hlength, ?_⟩
            simp [hchanged, ne_cons_of_length_le hlength]
          · rw [if_neg hempty]
            refine ⟨hmessages.append hkept, Nat.succ_le_succ hlength, ?_⟩
            rw [Bool.or_eq_true, hvalueFlag, hflag]
            simp only [ne_eq, List.cons.injEq, Prod.mk.injEq, true_and]
            exact not_and_or.symm

theorem scrubEntries_same {ownFields : Bool} {entries : Entries} (hset : Populated entries)
    (h : ∀ inner ∈ entries.messages, scrub' inner = .ok (some (inner, false))) :
    scrubEntries scrub' ownFields entries = .ok (some (entries, false)) := by
  induction entries with
  | nil => rfl
  | cons entry rest ih =>
      obtain ⟨field, value⟩ := entry
      have hrest := ih hset.tail fun inner hinner => h inner (List.mem_append_right _ hinner)
      have hvalue : scrubValue scrub' value = .ok (some (value, false)) :=
        scrubValue_same fun inner hinner => h inner (List.mem_append_left _ hinner)
      have hempty : value.isEmpty = false := hset.2 _ List.mem_cons_self
      rw [scrubEntries, hrest, hvalue]
      by_cases hmessage : field.isMessage = true
      · simp [hmessage, hempty, Except.map]
      · simp [hmessage, Except.map]

variable {pool : Pool} {wire : Wire}

theorem valueField_name (any : Message) : any.valueField.name = str "value" := by
  rw [Message.valueField]
  cases hfound : any.desc.fields.find? fun field => field.name = str "value" with
  | none => rfl
  | some field => simpa using List.find?_some hfound

theorem fields_repack (any : Message) (bytes : Text) :
    (any.repack bytes).fields = any.fields.filter (fun entry => entry.1.name ≠ str "value") ++
      if bytes.isEmpty then [] else [(any.valueField, .single (.scalar (.bytes bytes)))] := rfl

theorem typeUrl_repack (any : Message) (bytes : Text) :
    (any.repack bytes).typeUrl = any.typeUrl := by
  have hne : ¬ str "value" = str "type_url" := by decide +kernel
  have hvalue : (if bytes.isEmpty then []
      else [(any.valueField, PbValue.single (.scalar (.bytes bytes)))]).find?
        (fun entry => entry.1.name = str "type_url") = none := by
    split
    · rfl
    · simp [valueField_name, hne]
  have hothers : (any.fields.filter fun entry => entry.1.name ≠ str "value").find?
      (fun entry => entry.1.name = str "type_url") =
        any.fields.find? fun entry => entry.1.name = str "type_url" := by
    rw [List.find?_filter]
    congr 1
    funext entry
    by_cases hname : entry.1.name = str "type_url"
    · simp [hname, Ne.symm hne]
    · simp [hname]
  rw [Message.typeUrl, Message.typeUrl, Message.getFieldByName, Message.getFieldByName,
    fields_repack, List.find?_append, hothers, hvalue, Option.or_none]

theorem packed_repack (any : Message) (bytes : Text) : (any.repack bytes).packed = bytes := by
  have hothers : (any.fields.filter fun entry => entry.1.name ≠ str "value").find?
      (fun entry => entry.1.name = str "value") = none := by
    rw [List.find?_filter, List.find?_eq_none]
    intro entry _
    simp
  rw [Message.packed, Message.getFieldByName, fields_repack, List.find?_append, hothers,
    Option.none_or]
  by_cases hempty : bytes.isEmpty = true
  · rw [if_pos hempty]
    exact (List.isEmpty_iff.mp hempty).symm
  · rw [if_neg hempty, List.find?_cons_of_pos (by simp [valueField_name])]
    rfl

/-- Packing a message again leaves the messages beside it. -/
theorem mem_children_repack (hbytes : pool.PacksBytes) {any : Message} (hconforms : Conforms pool any)
    (hany : any.fullName = anyName) (bytes : Text) (inner : Message) :
    inner ∈ (any.repack bytes).children ↔ inner ∈ any.children := by
  obtain ⟨hdesc, hfields, -, hkind, -, -⟩ := hconforms
  have hvalue : ∀ entry ∈ any.fields, entry.1.name = str "value" → entry.2.messages = [] := by
    intro entry hentry hname
    exact hkind entry (List.mem_append_left _ hentry)
      (hbytes any.desc hdesc hany entry.1 (hfields entry hentry) hname)
  have hpacked : Entries.messages (if bytes.isEmpty then []
      else [(any.valueField, .single (.scalar (.bytes bytes)))]) = [] := by split <;> rfl
  have hothers : inner ∈ Entries.messages (any.fields.filter fun entry => entry.1.name ≠ str "value") ↔
      inner ∈ any.fields.messages := by
    rw [Entries.messages, Entries.messages, List.mem_flatMap, List.mem_flatMap]
    refine exists_congr fun entry => ?_
    rw [List.mem_filter]
    constructor
    · rintro ⟨⟨hentry, -⟩, hinner⟩
      exact ⟨hentry, hinner⟩
    · rintro ⟨hentry, hinner⟩
      refine ⟨⟨hentry, decide_eq_true fun hname => ?_⟩, hinner⟩
      rw [hvalue entry hentry hname] at hinner
      exact List.not_mem_nil hinner
  have hextensions : (any.repack bytes).extensions = any.extensions := rfl
  rw [Message.children, Message.children, hextensions, fields_repack, List.mem_append, List.mem_append,
    Entries.messages, List.flatMap_append, ← Entries.messages, ← Entries.messages, hpacked,
    List.append_nil, hothers]

/-! ### One message -/

theorem Conforms.populated_fields {message : Message} (h : Conforms pool message) :
    Populated message.fields := by
  obtain ⟨-, -, -, hkind, hset, -⟩ := h
  exact ⟨fun entry hentry => hkind entry (List.mem_append_left _ hentry),
    fun entry hentry => hset entry (List.mem_append_left _ hentry)⟩

theorem Conforms.populated_extensions {message : Message} (h : Conforms pool message) :
    Populated message.extensions := by
  obtain ⟨-, -, -, hkind, hset, -⟩ := h
  exact ⟨fun entry hentry => hkind entry (List.mem_append_right _ hentry),
    fun entry hentry => hset entry (List.mem_append_right _ hentry)⟩

theorem Conforms.of_mem_children {message inner : Message} (h : Conforms pool message)
    (hinner : inner ∈ message.children) : Conforms pool inner := by
  obtain ⟨-, -, -, -, -, hbelow⟩ := h
  exact hbelow inner hinner

theorem Pool.mem_of_resolve {name : Text} {desc : MessageDesc} (h : pool.resolve name = some desc) :
    desc ∈ pool.types := List.mem_of_find?_eq_some h

theorem scrubFields_spec {message after : Message} {changed : Bool}
    (h : scrubFields scrub' message = .ok (some (after, changed)))
    (hconforms : Conforms pool message) (hexact : Exact scrub' message.children) :
    after.desc = message.desc ∧ Kept scrub' message.children after.children ∧
      (changed = true ↔ after ≠ message) := by
  rw [scrubFields] at h
  split at h
  · cases h
  · split at h
    · cases h
    · cases h
    · rename_i fields fieldsChanged hfields
      obtain ⟨⟨extensions, extensionsChanged⟩, hextensions, hresult⟩ := map_map_eq_ok h
      cases hresult
      obtain ⟨hkept, -, hflag⟩ := scrubEntries_spec hfields hconforms.populated_fields
        fun inner hinner => hexact inner (List.mem_append_left _ hinner)
      obtain ⟨hkept', -, hflag'⟩ := scrubEntries_spec hextensions hconforms.populated_extensions
        fun inner hinner => hexact inner (List.mem_append_right _ hinner)
      refine ⟨rfl, hkept.append hkept', ?_⟩
      obtain ⟨desc, ownFields, ownExtensions⟩ := message
      rw [Bool.or_eq_true, hflag, hflag']
      simp only [ne_eq, Message.mk.injEq, Message.desc, true_and, Message.fields, Message.extensions]
      exact not_and_or.symm

/-- What `scrub` leaves has a DebugInfo exactly when one is overlooked, and its flag is exact. -/
def Accounts (pool : Pool) (wire : Wire) (scrub : Message → Scrubbed Message) : Prop :=
  ∀ message, Conforms pool message → ∀ after changed, scrub message = .ok (some (after, changed)) →
    (HasDebugInfo pool wire after ↔ Overlooked pool wire message) ∧ (changed = true ↔ after ≠ message)

theorem anyName_ne_debugInfoName : anyName ≠ debugInfoName := by decide +kernel

section Any

variable {any : Message} {name : Text}

theorem hasDebugInfo_any_iff (hany : any.fullName = anyName) (hname : anyTypeName any.typeUrl = some name)
    (hother : name ≠ debugInfoName) : HasDebugInfo pool wire any ↔
      (∃ inner ∈ any.children, HasDebugInfo pool wire inner) ∨ ∃ desc inner,
        pool.resolve name = some desc ∧ wire.decode desc any.packed = some inner ∧
          HasDebugInfo pool wire inner := by
  constructor
  · intro h
    cases h with
    | itself h => exact absurd (hany.symm.trans h) anyName_ne_debugInfoName
    | named _ h => exact absurd (Option.some.inj (hname.symm.trans h)) hother
    | inside hmem h => exact Or.inl ⟨_, hmem, h⟩
    | packed _ hname' hdesc hdecode h =>
        obtain rfl := Option.some.inj (hname.symm.trans hname')
        exact Or.inr ⟨_, _, hdesc, hdecode, h⟩
  · rintro (⟨inner, hmem, h⟩ | ⟨desc, inner, hdesc, hdecode, h⟩)
    · exact .inside hmem h
    · exact .packed hany hname hdesc hdecode h

theorem overlooked_any_iff (hany : any.fullName = anyName)
    (hname : anyTypeName any.typeUrl = some name) : Overlooked pool wire any ↔
      (∃ inner ∈ any.children, HasDebugInfo pool wire inner) ∨ ∃ desc inner,
        pool.resolve name = some desc ∧ wire.decode desc any.packed = some inner ∧
          Overlooked pool wire inner := by
  constructor
  · intro h
    cases h with
    | beside _ hmem h => exact Or.inl ⟨_, hmem, h⟩
    | packed _ hname' hdesc hdecode h =>
        obtain rfl := Option.some.inj (hname.symm.trans hname')
        exact Or.inr ⟨_, _, hdesc, hdecode, h⟩
    | inside hother => exact absurd hany hother
  · rintro (⟨inner, hmem, h⟩ | ⟨desc, inner, hdesc, hdecode, h⟩)
    · exact .beside hany hmem h
    · exact .packed hany hname hdesc hdecode h

end Any

/-- What becomes of an `Any` that stays: its type does not resolve, or the packed message stays as it
is, or it is packed again. -/
inductive AnyScrubbed (pool : Pool) (wire : Wire) (scrub : Message → Scrubbed Message) (any : Message)
    (name : Text) : Message → Bool → Prop
  | unresolved (hdesc : pool.resolve name = none) : AnyScrubbed pool wire scrub any name any false
  | same {desc : MessageDesc} {inner left : Message} (hdesc : pool.resolve name = some desc)
      (hdecode : wire.decode desc any.packed = some inner)
      (hscrub : scrub inner = .ok (some (left, false))) : AnyScrubbed pool wire scrub any name any false
  | repacked {desc : MessageDesc} {inner left : Message} (hdesc : pool.resolve name = some desc)
      (hdecode : wire.decode desc any.packed = some inner)
      (hscrub : scrub inner = .ok (some (left, true))) :
      AnyScrubbed pool wire scrub any name (any.repack (wire.encode left)) true

theorem scrubAny_eq_ok {any after : Message} {changed : Bool}
    (h : scrubAny pool wire scrub' any = .ok (some (after, changed))) :
    ∃ name, anyTypeName any.typeUrl = some name ∧ name ≠ debugInfoName ∧
      AnyScrubbed pool wire scrub' any name after changed := by
  rw [scrubAny] at h
  split at h
  · cases h
  · rename_i name hname
    split at h
    · cases h
    · rename_i hother
      refine ⟨name, hname, hother, ?_⟩
      split at h
      · rename_i hdesc
        cases h
        exact .unresolved hdesc
      · rename_i desc hdesc
        split at h
        · cases h
        · rename_i inner hdecode
          split at h
          · cases h
          · cases h
          · rename_i left hscrub
            cases h
            exact .same hdesc hdecode hscrub
          · rename_i left hscrub
            cases h
            exact .repacked hdesc hdecode hscrub

theorem scrubAny_accounts (hbytes : pool.PacksBytes) {scrub' : Message → Scrubbed Message}
    (hconforms' : ∀ desc ∈ pool.types, ∀ bytes message, wire.decode desc bytes = some message →
      Conforms pool message)
    (hinverts : ∀ desc bytes inner, wire.decode desc bytes = some inner → ∀ after,
      scrub' inner = .ok (some (after, true)) → wire.decode desc (wire.encode after) = some after)
    (hscrub : Accounts pool wire scrub') {any after : Message} {changed : Bool}
    (hconforms : Conforms pool any) (hany : any.fullName = anyName)
    (h : scrubAny pool wire scrub' any = .ok (some (after, changed))) :
    (HasDebugInfo pool wire after ↔ Overlooked pool wire any) ∧ (changed = true ↔ after ≠ any) := by
  obtain ⟨name, hname, hother, hscrubbed⟩ := scrubAny_eq_ok h
  rw [overlooked_any_iff hany hname]
  cases hscrubbed with
  | unresolved hdesc =>
      rw [hasDebugInfo_any_iff hany hname hother]
      simp [hdesc]
  | @same desc inner left hdesc hdecode hresult =>
      have hinner := hconforms' desc (Pool.mem_of_resolve hdesc) _ _ hdecode
      obtain ⟨hleft, hflag⟩ := hscrub inner hinner left false hresult
      obtain rfl : left = inner := by simpa using hflag
      rw [hasDebugInfo_any_iff hany hname hother]
      simp [hdesc, hdecode, hleft]
  | @repacked desc inner left hdesc hdecode hresult =>
      have hinner := hconforms' desc (Pool.mem_of_resolve hdesc) _ _ hdecode
      obtain ⟨hleft, hflag⟩ := hscrub inner hinner left true hresult
      have hback := hinverts desc _ inner hdecode left hresult
      have hname' := (congrArg anyTypeName (typeUrl_repack any (wire.encode left))).trans hname
      constructor
      · rw [@hasDebugInfo_any_iff pool wire (any.repack (wire.encode left)) name hany hname' hother]
        simp [mem_children_repack hbytes hconforms hany, packed_repack, hdesc, hdecode, hback, hleft]
      · have hne : any.repack (wire.encode left) ≠ any := by
          intro heq
          have hbytes := congrArg Message.packed heq
          rw [packed_repack] at hbytes
          rw [hbytes, hdecode] at hback
          exact hflag.mp rfl (Option.some.inj hback).symm
        simp [hne]

theorem goes_of_scrub (depth : Nat) : ∀ {message : Message},
    scrub pool wire depth message = .ok none → Goes pool wire message := by
  induction depth with
  | zero => intro message h; cases h
  | succ depth ih =>
      intro message h
      rw [scrub] at h
      by_cases hany : message.fullName = anyName
      · rw [if_pos hany, scrubAny] at h
        split at h
        · cases h
        · rename_i name hname
          split at h
          · rename_i heq
            exact .named hany (heq ▸ hname)
          · split at h
            · cases h
            · rename_i desc hdesc
              split at h
              · cases h
              · rename_i inner hdecode
                split at h
                · cases h
                · rename_i hscrub
                  exact .packed hany hname hdesc hdecode (ih hscrub)
                · cases h
                · cases h
      · rw [if_neg hany] at h
        split at h
        · rename_i hdebug
          exact .itself hdebug
        · rw [scrubFields] at h
          split at h
          · cases h
          · split at h
            · cases h
            · rename_i hfields
              obtain ⟨-, field, inner, hmem, hmessage, hrequired, hscrub⟩ := scrubEntries_none hfields
              exact .required hany hmem hmessage hrequired (ih hscrub)
            · obtain ⟨outcome, houtcome, hresult⟩ := map_eq_ok h
              rw [Option.map_eq_none_iff.mp hresult] at houtcome
              cases (scrubEntries_none houtcome).1

theorem not_goes_of_scrub (depth : Nat) : ∀ {message : Message} {left : Message × Bool},
    scrub pool wire depth message = .ok (some left) → ¬ Goes pool wire message := by
  induction depth with
  | zero => intro message left h; cases h
  | succ depth ih =>
      rintro message ⟨after, changed⟩ h hgoes
      rw [scrub] at h
      by_cases hany : message.fullName = anyName
      · rw [if_pos hany] at h
        obtain ⟨name, hname, hother, hscrubbed⟩ := scrubAny_eq_ok h
        cases hgoes with
        | itself hdebug => exact anyName_ne_debugInfoName (hany.symm.trans hdebug)
        | named _ hdebug => exact hother (Option.some.inj (hname.symm.trans hdebug))
        | required hnot => exact hnot hany
        | packed _ hname' hdesc hdecode hinner =>
            obtain rfl := Option.some.inj (hname.symm.trans hname')
            cases hscrubbed with
            | unresolved hnone => rw [hnone] at hdesc; cases hdesc
            | same hdesc' hdecode' hscrub =>
                obtain rfl := Option.some.inj (hdesc.symm.trans hdesc')
                obtain rfl := Option.some.inj (hdecode.symm.trans hdecode')
                exact ih hscrub hinner
            | repacked hdesc' hdecode' hscrub =>
                obtain rfl := Option.some.inj (hdesc.symm.trans hdesc')
                obtain rfl := Option.some.inj (hdecode.symm.trans hdecode')
                exact ih hscrub hinner
      · rw [if_neg hany] at h
        split at h
        · cases h
        · rename_i hdebug
          cases hgoes with
          | itself hdebug' => exact hdebug hdebug'
          | named hany' => exact hany hany'
          | packed hany' => exact hany hany'
          | @required _ inner field _ hmem hmessage hrequired hinner =>
              rw [scrubFields] at h
              split at h
              · cases h
              · split at h
                · cases h
                · cases h
                · rename_i hfields
                  obtain ⟨left, hscrub⟩ :=
                    scrubEntries_required hfields field inner hmem hmessage hrequired
                  exact ih hscrub hinner

theorem scrub_accounts (hbytes : pool.PacksBytes) (hwire : wire.Lawful pool) (depth : Nat) :
    Accounts pool wire (scrub pool wire depth) := by
  induction depth with
  | zero =>
      intro message _ after changed h
      cases h
  | succ depth ih =>
      intro message hconforms after changed h
      rw [scrub] at h
      by_cases hany : message.fullName = anyName
      · rw [if_pos hany] at h
        exact scrubAny_accounts hbytes hwire.conforms
          (fun desc bytes inner hdecode after => hwire.inverts desc bytes inner hdecode depth after)
          ih hconforms hany h
      rw [if_neg hany] at h
      by_cases hdebug : message.fullName = debugInfoName
      · rw [if_pos hdebug] at h
        cases h
      rw [if_neg hdebug] at h
      have hexact : Exact (scrub pool wire depth) message.children := fun inner hinner left flag hleft =>
        (ih inner (hconforms.of_mem_children hinner) left flag hleft).2
      obtain ⟨hdesc, hkept, hflag⟩ := scrubFields_spec h hconforms hexact
      have hname : after.fullName = message.fullName := congrArg MessageDesc.fullName hdesc
      refine ⟨⟨fun hhas => ?_, fun hover => ?_⟩, hflag⟩
      · cases hhas with
        | itself h => exact absurd (hname.symm.trans h) hdebug
        | named h _ => exact absurd (hname.symm.trans h) hany
        | packed h _ _ _ _ => exact absurd (hname.symm.trans h) hany
        | inside hmem h =>
            obtain ⟨inner, hinner, flag, hleft⟩ := hkept.origin _ hmem
            exact .inside hany hinner (not_goes_of_scrub depth hleft)
              ((ih inner (hconforms.of_mem_children hinner) _ flag hleft).1.mp h)
      · cases hover with
        | beside h => exact absurd h hany
        | packed h => exact absurd h hany
        | inside _ hmem hstays h =>
            rcases hkept.fate _ hmem with hgone | ⟨left, hleft, flag, hscrub⟩
            · exact absurd (goes_of_scrub depth hgone) hstays
            · exact .inside hleft ((ih _ (hconforms.of_mem_children hmem) left flag hscrub).1.mpr h)

theorem exists_depth_forall {messages : List Message}
    (h : ∀ inner ∈ messages, ∃ enough, ∀ depth ≥ enough,
      scrub pool wire depth inner = .ok (some (inner, false))) :
    ∃ enough, ∀ depth ≥ enough, ∀ inner ∈ messages,
      scrub pool wire depth inner = .ok (some (inner, false)) := by
  induction messages with
  | nil => exact ⟨0, fun _ _ inner hinner => absurd hinner List.not_mem_nil⟩
  | cons first rest ih =>
      obtain ⟨enough, hfirst⟩ := h first List.mem_cons_self
      obtain ⟨more, hrest⟩ := ih fun inner hinner => h inner (List.mem_cons_of_mem _ hinner)
      refine ⟨max enough more, fun depth hdepth inner hinner => ?_⟩
      rcases List.mem_cons.mp hinner with rfl | hinner
      · exact hfirst depth (by omega)
      · exact hrest depth (by omega) inner hinner

theorem scrub_of_complete (hwire : wire.Lawful pool) {message : Message}
    (hcomplete : Complete pool wire message) (hconforms : Conforms pool message)
    (hclean : ¬ HasDebugInfo pool wire message) :
    ∃ enough, ∀ depth ≥ enough, scrub pool wire depth message = .ok (some (message, false)) := by
  induction hcomplete with
  | @any message inner name desc hany hname hdesc hdecode _ ih =>
      obtain ⟨enough, hinner⟩ := ih (hwire.conforms _ (Pool.mem_of_resolve hdesc) _ _ hdecode)
        fun h => hclean (.packed hany hname hdesc hdecode h)
      refine ⟨enough + 1, fun depth hdepth => ?_⟩
      obtain ⟨below, rfl⟩ : ∃ below, depth = below + 1 := ⟨depth - 1, by omega⟩
      have hother : name ≠ debugInfoName := by
        rintro rfl
        exact hclean (.named hany hname)
      rw [scrub, if_pos hany, scrubAny, hname]
      simp only [if_neg hother, hdesc, hdecode, hinner below (by omega)]
  | @fields message hany hrequired _ ih =>
      obtain ⟨enough, hinner⟩ := exists_depth_forall fun inner hmem =>
        ih inner hmem (hconforms.of_mem_children hmem) fun h => hclean (.inside hmem h)
      refine ⟨enough + 1, fun depth hdepth => ?_⟩
      obtain ⟨below, rfl⟩ : ∃ below, depth = below + 1 := ⟨depth - 1, by omega⟩
      have hsame := hinner below (by omega)
      have hdebug : ¬ message.fullName = debugInfoName := fun h => hclean (.itself h)
      rw [scrub, if_neg hany, if_neg hdebug, scrubFields, if_neg (by simp [hrequired]),
        scrubEntries_same hconforms.populated_fields fun inner hmem =>
          hsame inner (List.mem_append_left _ hmem),
        scrubEntries_same hconforms.populated_extensions fun inner hmem =>
          hsame inner (List.mem_append_right _ hmem)]
      cases message
      rfl

/-- **A DebugInfo survives exactly when one is overlooked.** The flag of `scrub` is true exactly when the
message changed, and a message with nothing to remove comes back unchanged. -/
theorem scrub_removes_debugInfo (hbytes : pool.PacksBytes) (hwire : wire.Lawful pool)
    {message : Message} (hconforms : Conforms pool message) :
    (∀ depth after changed, scrub pool wire depth message = .ok (some (after, changed)) →
        (¬ HasDebugInfo pool wire after ↔ ¬ Overlooked pool wire message) ∧
          (changed = true ↔ after ≠ message)) ∧
      (¬ HasDebugInfo pool wire message → Complete pool wire message →
        ∃ enough, ∀ depth ≥ enough,
          scrub pool wire depth message = .ok (some (message, false))) := by
  constructor
  · intro depth after changed h
    obtain ⟨hhas, hflag⟩ := scrub_accounts hbytes hwire depth message hconforms after changed h
    exact ⟨not_congr hhas, hflag⟩
  · intro hclean hcomplete
    exact scrub_of_complete hwire hcomplete hconforms hclean

/-! ### Reports with an `Any` that has a field of its own -/

def typeUrlField : FieldDesc := ⟨1, str "type_url", false, false⟩
def valueBytesField : FieldDesc := ⟨2, str "value", false, false⟩
def debugField : FieldDesc := ⟨3, str "debug", true, false⟩
def noteField : FieldDesc := ⟨1, str "note", false, false⟩
def extraField : FieldDesc := ⟨4, str "extra", true, false⟩

def anyDesc : MessageDesc := ⟨anyName, [typeUrlField, valueBytesField, debugField], false⟩
def debugInfoDesc : MessageDesc := ⟨debugInfoName, [], false⟩
def reportDesc : MessageDesc := ⟨str "acme.Report", [noteField, debugField, extraField], false⟩

def reportPool : Pool := ⟨[anyDesc, debugInfoDesc, reportDesc]⟩

def debugEntry : FieldDesc × PbValue := (debugField, .single (.message (.mk debugInfoDesc [] [])))
def noteEntry : FieldDesc × PbValue := (noteField, .single (.scalar (.string (str "full disk"))))

def note : Message := .mk reportDesc [noteEntry] []
def noteWithDebug : Message := .mk reportDesc [noteEntry, debugEntry] []

def reportWire : Wire where
  decode := fun desc bytes =>
    if desc = reportDesc then
      if bytes = [1] then some note else if bytes = [2] then some noteWithDebug else none
    else none
  encode := fun _ => [1]

def packedReport (bytes : Text) (own : Entries) : Message :=
  .mk anyDesc ((typeUrlField, .single (.scalar (.string (str "t/acme.Report")))) ::
    (valueBytesField, .single (.scalar (.bytes bytes))) :: own) []

def packingReport (bytes : Text) (own : Entries) : Message :=
  .mk reportDesc (noteEntry :: own ++ [(extraField, .single (.message (packedReport bytes [])))]) []

theorem conforms_debugInfo : Conforms reportPool (.mk debugInfoDesc [] []) := by
  refine .intro (by decide +kernel) ?_ (fun _ => rfl) ?_ ?_ ?_ <;> intro entry hentry <;> cases hentry

theorem conforms_note : Conforms reportPool note := by
  refine .intro (by decide +kernel) (by decide +kernel) (fun _ => rfl) (by decide +kernel)
    (by decide +kernel) ?_
  intro inner hinner
  cases hinner

theorem conforms_noteWithDebug : Conforms reportPool noteWithDebug := by
  refine .intro (by decide +kernel) (by decide +kernel) (fun _ => rfl) (by decide +kernel)
    (by decide +kernel) ?_
  intro inner hinner
  rw [List.mem_singleton.mp hinner]
  exact conforms_debugInfo

theorem conforms_packingReport : Conforms reportPool (packingReport [2] [debugEntry]) := by
  refine .intro (by decide +kernel) (by decide +kernel) (fun _ => rfl) (by decide +kernel)
    (by decide +kernel) ?_
  intro inner hinner
  rcases List.mem_cons.mp hinner with rfl | hinner
  · exact conforms_debugInfo
  · rw [List.mem_singleton.mp hinner]
    refine .intro (by decide +kernel) (by decide +kernel) (fun _ => rfl) (by decide +kernel)
      (by decide +kernel) ?_
    intro inner hinner
    cases hinner

theorem scrub_note (depth : Nat) :
    scrub reportPool reportWire (depth + 1) note = .ok (some (note, false)) := rfl

theorem scrub_noteWithDebug (depth : Nat) :
    scrub reportPool reportWire (depth + 2) noteWithDebug = .ok (some (note, true)) := rfl

theorem reportWire_decode {desc : MessageDesc} {bytes : Text} {message : Message}
    (h : reportWire.decode desc bytes = some message) :
    desc = reportDesc ∧ (message = note ∨ message = noteWithDebug) := by
  simp only [reportWire] at h
  by_cases hdesc : desc = reportDesc
  · rw [if_pos hdesc] at h
    refine ⟨hdesc, ?_⟩
    split at h
    · exact Or.inl (Option.some.inj h).symm
    · split at h
      · exact Or.inr (Option.some.inj h).symm
      · cases h
  · rw [if_neg hdesc] at h
    cases h

theorem reportWire_lawful : reportWire.Lawful reportPool where
  conforms := by
    intro desc _ bytes message h
    rcases (reportWire_decode h).2 with rfl | rfl
    · exact conforms_note
    · exact conforms_noteWithDebug
  inverts := by
    intro desc bytes inner hdecode depth after h
    obtain ⟨rfl, hinner⟩ := reportWire_decode hdecode
    rcases hinner with rfl | rfl
    · cases depth with
      | zero => cases h
      | succ depth =>
          rw [scrub_note] at h
          cases h
    · match depth with
      | 0 => cases h
      | 1 => cases h
      | depth + 2 =>
          rw [scrub_noteWithDebug] at h
          cases h
          rfl

theorem reportPool_packsBytes : reportPool.PacksBytes := by
  rw [Pool.PacksBytes]
  decide +kernel

theorem reportDesc_ne_any : reportDesc.fullName ≠ anyName := by decide +kernel

/-- What a report holds is a DebugInfo, which is removed, or an `Any` with nothing beside the report it
packs. -/
theorem not_overlooked_packingReport :
    ¬ Overlooked reportPool reportWire (packingReport [2] [debugEntry]) := by
  have hnote : ∀ {message : Message}, message = note ∨ message = noteWithDebug →
      ¬ Overlooked reportPool reportWire message := by
    intro message hmessage h
    have hname : message.fullName ≠ anyName := by
      rcases hmessage with rfl | rfl <;> exact reportDesc_ne_any
    have hchildren : message.children ⊆ [.mk debugInfoDesc [] []] := by
      rcases hmessage with rfl | rfl
      · exact List.nil_subset _
      · exact List.Subset.refl _
    cases h with
    | beside hany _ _ => exact hname hany
    | packed hany _ _ _ _ => exact hname hany
    | inside _ hmem hgoes _ =>
        obtain rfl := List.mem_singleton.mp (hchildren hmem)
        exact hgoes (.itself rfl)
  intro h
  cases h with
  | beside hany _ _ => exact reportDesc_ne_any hany
  | packed hany _ _ _ _ => exact reportDesc_ne_any hany
  | inside _ hmem hgoes h =>
      rcases List.mem_cons.mp hmem with rfl | hmem
      · exact hgoes (.itself rfl)
      · obtain rfl := List.mem_singleton.mp hmem
        cases h with
        | beside _ hmem _ => cases hmem
        | packed _ _ _ hdecode h => exact hnote (reportWire_decode hdecode).2 h
        | inside hany _ _ _ => exact hany rfl

theorem packed_report_scrubbed :
    scrub reportPool reportWire 4 (packingReport [2] [debugEntry]) =
        .ok (some (packingReport [1] [], true)) ∧
      ¬ HasDebugInfo reportPool reportWire (packingReport [1] []) ∧
      packingReport [1] [] ≠ packingReport [2] [debugEntry] :=
  have h := (scrub_removes_debugInfo reportPool_packsBytes reportWire_lawful conforms_packingReport).1 4
    (packingReport [1] []) true rfl
  ⟨rfl, h.1.mpr not_overlooked_packingReport, h.2.mp rfl⟩

/-- The DebugInfo of an `Any` that packs a report without one stays. -/
theorem extended_any_keeps_debugInfo :
    reportWire.Lawful reportPool ∧ Conforms reportPool (packedReport [1] [debugEntry]) ∧
      scrub reportPool reportWire 2 (packedReport [1] [debugEntry]) =
        .ok (some (packedReport [1] [debugEntry], false)) ∧
      HasDebugInfo reportPool reportWire (packedReport [1] [debugEntry]) := by
  have hmem : Message.mk debugInfoDesc [] [] ∈ (packedReport [1] [debugEntry]).children :=
    List.mem_singleton_self _
  refine ⟨reportWire_lawful, ?_, rfl, .inside hmem (.itself rfl)⟩
  refine .intro (by decide +kernel) (by decide +kernel) (fun _ => rfl) (by decide +kernel)
    (by decide +kernel) ?_
  intro inner hinner
  rw [List.mem_singleton.mp hinner]
  exact conforms_debugInfo

end StructuredProxy.Status
