import StructuredProxy.Request.Presence
import Mathlib.Algebra.Ring.Nat
import Mathlib.Data.List.Chain
import Mathlib.Data.List.Forall2
import Mathlib.Data.List.TakeWhile

/-!
# The recorded keys as they are stored

The keys are stored back to back, each entry with the span of its key and its depth only. Whoever
records keeps one order: a key comes right after its parent or after something below a sibling before
it. Then the entries are those of trees, and a path is blocked by a chain of keys from a root.
-/

namespace StructuredProxy

open Lib

/-- An entry as it is stored, with the span of its key in the names. -/
structure Span where
  depth : Nat
  start : Nat
  stop : Nat
  held : Held

def Span.entry (names : Text) (span : Span) : Entry :=
  ⟨span.depth, (names.drop span.start).take (span.stop - span.start), span.held⟩

def Span.asObject (span : Span) : Span := { span with held := .object }

def Entry.asObject (entry : Entry) : Entry := { entry with held := .object }

structure Recorder where
  names : Text
  spans : List Span
  /-- Whether each nesting level matched the path checked last. -/
  matched : List Bool
  whole : Bool
  within : ∀ span ∈ spans, span.start ≤ span.stop ∧ span.stop ≤ names.length

namespace Recorder

def new : Recorder := ⟨[], [], [], false, fun _ h => absurd h List.not_mem_nil⟩

def recorded (recorder : Recorder) : Presence where
  entries := recorder.spans.map (Span.entry recorder.names)
  whole := recorder.whole

/-- Depths and positions are 32 bits wide; the source panics on larger ones. -/
def record (depth : Nat) (key : Text) (held : Held) (recorder : Recorder) : Option Recorder :=
  let start := recorder.names.length
  let stop := start + key.length
  if depth < 2 ^ 32 ∧ start < 2 ^ 32 ∧ stop < 2 ^ 32 then
    some { recorder with
      names := recorder.names ++ key
      spans := recorder.spans ++ [{ depth, start, stop, held }]
      within := by
        intro span hspan
        rw [List.length_append]
        rcases List.mem_append.mp hspan with hspan | hspan
        · obtain ⟨hstart, hstop⟩ := recorder.within span hspan
          exact ⟨hstart, Nat.le_add_right_of_le hstop⟩
        · rw [List.mem_singleton.mp hspan]
          exact ⟨Nat.le_add_right _ _, Nat.le_refl _⟩ }
  else none

def recordPathFrom (fields : Bool) : Nat → List Field → Recorder → Option Recorder
  | _, [], recorder => some recorder
  | depth, field :: path, recorder =>
      (recorder.record depth field.name (if fields || !path.isEmpty then .fields else .whole)).bind
        (recordPathFrom fields (depth + 1) path)

def recordPath (path : List Field) (fields : Bool) (recorder : Recorder) : Option Recorder :=
  recordPathFrom fields 0 path recorder

def markObject (recorder : Recorder) : Recorder := { recorder with
  spans := mapLast Span.asObject recorder.spans
  within := by
    refine forall_mem_mapLast (fun span h => ?_) recorder.within
    exact h }

def recordWhole (recorder : Recorder) : Recorder := { recorder with whole := true }

def clear (recorder : Recorder) : Recorder := { new with matched := recorder.matched }

/-- The loop of `blocks`, and the levels it leaves. -/
def scan (types : Types) (path : List Field) (names : Text) :
    List Span → List Bool → Bool × List Bool
  | [], matched => (false, matched)
  | span :: spans, matched =>
      match matchEntry types path matched (span.entry names) with
      | none => (true, matched.take span.depth)
      | some matched => scan types path names spans matched

def blocks (types : Types) (path : List Field) (recorder : Recorder) : Bool × Recorder :=
  if recorder.whole then (true, recorder)
  else
    let (blocked, matched) := scan types path recorder.names recorder.spans []
    (blocked, { recorder with matched })

/-- What writes to the recorder; a body records a key before it knows of an object it holds. -/
inductive Write where
  | record (depth : Nat) (key : Text)
  | markObject
  | recordPath (path : List Field) (fields : Bool)
  | recordWhole
  | clear

def write (recorder : Recorder) : Write → Option Recorder
  | .record depth key => recorder.record depth key .whole
  | .markObject => some recorder.markObject
  | .recordPath path fields => recorder.recordPath path fields
  | .recordWhole => some recorder.recordWhole
  | .clear => some recorder.clear

def Write.apply (entries : List Entry) : Write → List Entry
  | .record depth key => entries ++ [⟨depth, key, .whole⟩]
  | .markObject => mapLast Entry.asObject entries
  | .recordPath path fields => entries ++ pathEntries fields 0 path
  | .recordWhole => entries
  | .clear => []

def entriesOf (writes : List Write) : List Entry := writes.foldl Write.apply []

def nextDepth (entries : List Entry) : Nat := entries.getLast?.elim 0 fun entry => entry.depth + 1

/-- Whether the write keeps the order: a key of a body comes after its parent. -/
def Write.fits (entries : List Entry) : Write → Bool
  | .record depth _ => depth ≤ nextDepth entries
  | _ => true

def inOrder : List Entry → List Write → Bool
  | _, [] => true
  | entries, write :: writes => write.fits entries && inOrder (write.apply entries) writes

variable {recorder recorder' : Recorder}

theorem Span.entry_append {span : Span} {names : Text} (hstart : span.start ≤ span.stop)
    (hstop : span.stop ≤ names.length) (more : Text) :
    span.entry (names ++ more) = span.entry names := by
  have hdrop : (names ++ more).drop span.start = names.drop span.start ++ more :=
    List.drop_append_of_le_length (Nat.le_trans hstart hstop)
  have htake : (names.drop span.start ++ more).take (span.stop - span.start) =
      (names.drop span.start).take (span.stop - span.start) := by
    apply List.take_append_of_le_length
    rw [List.length_drop]
    exact Nat.sub_le_sub_right hstop _
  rw [Span.entry, Span.entry, hdrop, htake]

theorem recorded_record {depth : Nat} {key : Text} {held : Held}
    (h : recorder.record depth key held = some recorder') :
    recorder'.recorded.entries = recorder.recorded.entries ++ [⟨depth, key, held⟩] := by
  rw [record] at h
  split at h
  · obtain rfl := Option.some.inj h
    have hold : recorder.spans.map (Span.entry (recorder.names ++ key)) =
        recorder.spans.map (Span.entry recorder.names) := by
      refine List.map_congr_left fun span hspan => ?_
      obtain ⟨hstart, hstop⟩ := recorder.within span hspan
      exact Span.entry_append hstart hstop key
    rw [recorded, List.map_append, hold, List.map_singleton, Span.entry]
    simp only [List.drop_left, Nat.add_sub_cancel_left, List.take_length]
    rfl
  · cases h

theorem recorded_recordPathFrom (fields : Bool) (path : List Field) :
    ∀ {depth : Nat} {recorder : Recorder},
      recordPathFrom fields depth path recorder = some recorder' →
      recorder'.recorded.entries = recorder.recorded.entries ++ pathEntries fields depth path := by
  induction path with
  | nil =>
      intro depth recorder h
      obtain rfl := Option.some.inj h
      exact (List.append_nil _).symm
  | cons field path ih =>
      intro depth recorder h
      obtain ⟨next, hrecord, hrest⟩ := Option.bind_eq_some_iff.mp h
      rw [ih hrest, recorded_record hrecord, List.append_assoc]
      rfl

theorem recorded_write {write : Write} (h : recorder.write write = some recorder') :
    recorder'.recorded.entries = write.apply recorder.recorded.entries := by
  cases write with
  | record depth key => exact recorded_record h
  | markObject =>
      obtain rfl := Option.some.inj h
      have hcomm : ∀ span : Span, Span.entry recorder.names span.asObject =
          (Span.entry recorder.names span).asObject := fun _ => rfl
      exact map_mapLast hcomm recorder.spans
  | recordPath path fields => exact recorded_recordPathFrom fields path h
  | recordWhole =>
      obtain rfl := Option.some.inj h
      rfl
  | clear =>
      obtain rfl := Option.some.inj h
      rfl

theorem recorded_writes (writes : List Write) : ∀ {recorder : Recorder},
    writes.foldlM write recorder = some recorder' →
    recorder'.recorded.entries = writes.foldl Write.apply recorder.recorded.entries := by
  induction writes with
  | nil =>
      intro recorder h
      obtain rfl := Option.some.inj h
      rfl
  | cons first writes ih =>
      intro recorder h
      rw [List.foldlM_cons] at h
      obtain ⟨next, hfirst, hrest⟩ := Option.bind_eq_some_iff.mp h
      rw [ih hrest, recorded_write hfirst, List.foldl_cons]

theorem scan_fst (types : Types) (path : List Field) (names : Text) (spans : List Span) :
    ∀ matched : List Bool, (scan types path names spans matched).1 =
      ((spans.map (Span.entry names)).foldlM (matchEntry types path) matched).isNone := by
  induction spans with
  | nil => exact fun _ => rfl
  | cons span spans ih =>
      intro matched
      rw [List.map_cons, KeyTree.foldlM_cons_eq, scan]
      cases matchEntry types path matched (span.entry names) with
      | none => rfl
      | some matched => exact ih matched

theorem blocks_fst (types : Types) (path : List Field) :
    (recorder.blocks types path).1 = recorder.recorded.blocks types path := by
  rw [blocks, Presence.blocks]
  split
  · rename_i hwhole
    rw [recorded, hwhole]
    rfl
  · rename_i hwhole
    rw [Bool.not_eq_true] at hwhole
    rw [recorded, hwhole, Bool.false_or]
    exact scan_fst types path recorder.names recorder.spans []

/-! ### The entries are those of trees -/

/-- Depths that start at zero and never go down by more than one level. -/
def Preordered (depths : List Nat) : Prop :=
  (∀ depth ∈ depths.head?, depth = 0) ∧ depths.IsChain fun above below => below ≤ above + 1

theorem Preordered.append {depths more : List Nat} (h : Preordered depths)
    (hmore : more.IsChain fun above below => below ≤ above + 1)
    (hfirst : ∀ depth ∈ more.head?, depth ≤ depths.getLast?.elim 0 (· + 1)) :
    Preordered (depths ++ more) := by
  constructor
  · intro depth hdepth
    cases depths with
    | nil => exact Nat.le_zero.mp (hfirst depth hdepth)
    | cons first rest => exact h.1 depth hdepth
  · refine List.isChain_append.mpr ⟨h.2, hmore, fun last hlast depth hdepth => ?_⟩
    have hle := hfirst depth hdepth
    rw [Option.mem_def.mp hlast] at hle
    exact hle

theorem nextDepth_eq (entries : List Entry) :
    nextDepth entries = (entries.map Entry.depth).getLast?.elim 0 (· + 1) := by
  rw [nextDepth, List.getLast?_map]
  cases entries.getLast? with
  | none => rfl
  | some last => rfl

theorem isChain_pathEntries (fields : Bool) (path : List Field) : ∀ depth,
    ((pathEntries fields depth path).map Entry.depth).IsChain fun above below => below ≤ above + 1 := by
  induction path with
  | nil => exact fun _ => List.IsChain.nil
  | cons field path ih =>
      intro depth
      rw [pathEntries, List.map_cons]
      refine List.isChain_cons.mpr ⟨fun below hbelow => ?_, ih (depth + 1)⟩
      cases path with
      | nil => cases hbelow
      | cons next path =>
          cases hbelow
          exact Nat.le_refl _

theorem preordered_apply {entries : List Entry} (h : Preordered (entries.map Entry.depth))
    {write : Write} (hfits : write.fits entries = true) :
    Preordered ((write.apply entries).map Entry.depth) := by
  cases write with
  | record depth key =>
      rw [Write.apply, List.map_append]
      refine h.append (List.IsChain.singleton _) fun first hfirst => ?_
      cases hfirst
      rw [← nextDepth_eq]
      exact of_decide_eq_true hfits
  | markObject =>
      have hdepths : ∀ entry : Entry, entry.asObject.depth = id entry.depth := fun _ => rfl
      rw [Write.apply, map_mapLast hdepths, mapLast_id]
      exact h
  | recordPath path fields =>
      rw [Write.apply, List.map_append]
      refine h.append (isChain_pathEntries fields path 0) fun first hfirst => ?_
      cases path with
      | nil => cases hfirst
      | cons field path =>
          cases hfirst
          exact Nat.zero_le _
  | recordWhole => exact h
  | clear => exact ⟨fun _ h => absurd h (Option.not_mem_none _), List.IsChain.nil⟩

theorem preordered_writes (writes : List Write) : ∀ {entries : List Entry},
    Preordered (entries.map Entry.depth) → inOrder entries writes = true →
    Preordered ((writes.foldl Write.apply entries).map Entry.depth) := by
  induction writes with
  | nil => exact fun h _ => h
  | cons write writes ih =>
      intro entries h hordered
      obtain ⟨hfits, hrest⟩ := Bool.and_eq_true_iff.mp hordered
      exact ih (preordered_apply h hfits) hrest

/-- Entries at `depth` and below, the first at `depth`, that never go down by more than one level are
those of trees. -/
theorem exists_trees (bound : Nat) : ∀ (depth : Nat) (entries : List Entry), entries.length ≤ bound →
    (∀ entry ∈ entries, depth ≤ entry.depth) → (∀ entry ∈ entries.head?, entry.depth = depth) →
    (entries.IsChain fun above below => below.depth ≤ above.depth + 1) →
    ∃ trees, KeyTree.entries.all depth trees = entries := by
  induction bound with
  | zero =>
      intro depth entries hlength _ _ _
      exact ⟨[], (List.length_eq_zero_iff.mp (Nat.le_zero.mp hlength)).symm⟩
  | succ bound ih =>
      intro depth entries hlength hdeep hfirst hchain
      cases entries with
      | nil => exact ⟨[], rfl⟩
      | cons entry rest =>
          obtain ⟨hnext, hrest⟩ := List.isChain_cons.mp hchain
          have hdepth : entry.depth = depth := hfirst entry rfl
          let below : Entry → Bool := fun other => depth < other.depth
          have hsplit : rest.takeWhile below ++ rest.dropWhile below = rest :=
            List.takeWhile_append_dropWhile
          have hlengths := congrArg List.length hsplit
          rw [List.length_append] at hlengths
          rw [List.length_cons] at hlength
          rw [← hsplit] at hrest
          obtain ⟨hbelow, hafter, -⟩ := List.isChain_append.mp hrest
          have hunder : ∀ other ∈ rest.takeWhile below, depth + 1 ≤ other.depth := by
            intro other hother
            have hother : below other = true := List.mem_takeWhile_imp hother
            exact of_decide_eq_true hother
          have hchild : ∀ other ∈ (rest.takeWhile below).head?, other.depth = depth + 1 := by
            intro other hother
            have hlower := hunder other (List.mem_of_mem_head? hother)
            have hhead : other ∈ rest.head? := by
              rw [← hsplit, List.head?_append]
              exact Option.mem_def.mpr (by rw [Option.mem_def.mp hother]; rfl)
            have hupper := hnext other hhead
            omega
          have hsibling : ∀ other ∈ (rest.dropWhile below).head?, other.depth = depth := by
            intro other hother
            have hmem := List.dropWhile_subset below (List.mem_of_mem_head? hother)
            have hlower := hdeep other (List.mem_cons_of_mem _ hmem)
            have hnot := List.head?_dropWhile_not below rest
            rw [Option.mem_def.mp hother] at hnot
            have hupper := of_decide_eq_false hnot
            omega
          obtain ⟨children, hchildren⟩ := ih (depth + 1) _ (by omega) hunder hchild hbelow
          obtain ⟨trees, htrees⟩ := ih depth (rest.dropWhile below) (by omega)
            (fun other hother => hdeep other
              (List.mem_cons_of_mem _ (List.dropWhile_subset below hother))) hsibling hafter
          refine ⟨.node entry.key entry.held children :: trees, ?_⟩
          rw [KeyTree.entries.all, KeyTree.entries, hchildren, htrees, List.cons_append, hsplit,
            ← hdepth]

end Recorder

/-! ### Chains of keys -/

namespace KeyTree

/-- A chain of keys from a root of the trees down, each with what it set its field to. -/
inductive IsChain : List KeyTree → List (Text × Held) → Prop where
  | root {trees : List KeyTree} {key : Text} {held : Held} {children : List KeyTree}
      (hmem : node key held children ∈ trees) : IsChain trees [(key, held)]
  | under {trees : List KeyTree} {key : Text} {held : Held} {children : List KeyTree}
      {chain : List (Text × Held)} (hmem : node key held children ∈ trees)
      (hchain : IsChain children chain) : IsChain trees ((key, held) :: chain)

/-- The chain names the fields of a path from its first on, and the whole path or a field it set as a
whole. -/
def Reaches (types : Types) (path : List Field) (chain : List (Text × Held)) : Prop :=
  List.Forall₂ (fun field entry => field.named entry.1 = true) (path.take chain.length) chain ∧
    (chain.length = path.length ∨
      ∃ field entry, path[chain.length - 1]? = some field ∧ chain.getLast? = some entry ∧
        entry.2.isWhole types field = true)

variable {types : Types}

theorem reaches_singleton {field : Field} {path : List Field} {key : Text} {held : Held} :
    Reaches types (field :: path) [(key, held)] ↔
      field.named key = true ∧ (path = [] ∨ held.isWhole types field = true) := by
  have hnames : List.Forall₂ (fun field entry => Field.named field entry.1 = true)
      ((field :: path).take 1) [(key, held)] ↔ field.named key = true := by
    rw [List.take_succ_cons, List.take_zero, List.forall₂_cons]
    exact and_iff_left .nil
  have hall : 1 = (field :: path).length ↔ path = [] := by
    rw [List.length_cons, ← List.length_eq_zero_iff]
    omega
  refine and_congr hnames (or_congr hall ⟨?_, fun hwhole => ⟨field, (key, held), rfl, rfl, hwhole⟩⟩)
  rintro ⟨other, entry, hother, hentry, hwhole⟩
  obtain rfl := Option.some.inj hother
  obtain rfl := Option.some.inj hentry
  exact hwhole

theorem reaches_cons {field : Field} {path : List Field} {key : Text} {held : Held}
    {chain : List (Text × Held)} (hne : chain ≠ []) :
    Reaches types (field :: path) ((key, held) :: chain) ↔
      field.named key = true ∧ Reaches types path chain := by
  obtain ⟨next, rest, rfl⟩ := List.exists_cons_of_ne_nil hne
  rw [Reaches, Reaches, List.length_cons, List.take_succ_cons, List.forall₂_cons, and_assoc]
  refine and_congr_right fun _ => and_congr_right fun _ => or_congr ?_ ?_
  · simp only [List.length_cons]
    omega
  · rw [List.getLast?_cons_cons, Nat.add_sub_cancel, List.length_cons, List.getElem?_cons_succ]
    rfl

theorem not_reaches_nil {chain : List (Text × Held)} (hne : chain ≠ []) : ¬ Reaches types [] chain := by
  rintro ⟨hnames, -⟩
  rw [List.take_nil] at hnames
  exact hne (List.forall₂_nil_left_iff.mp hnames)

theorem IsChain.ne_nil {trees : List KeyTree} {chain : List (Text × Held)} (h : IsChain trees chain) :
    chain ≠ [] := by
  cases h with
  | root => exact List.cons_ne_nil _ _
  | under => exact List.cons_ne_nil _ _

theorem any_blocks_iff (types : Types) (path : List Field) : ∀ trees : List KeyTree,
    trees.any (blocks types path) = true ↔ ∃ chain, IsChain trees chain ∧ Reaches types path chain := by
  induction path with
  | nil =>
      intro trees
      constructor
      · intro h
        obtain ⟨tree, -, hblocks⟩ := List.any_eq_true.mp h
        rw [blocks] at hblocks
        cases hblocks
      · rintro ⟨chain, hchain, hreaches⟩
        exact absurd hreaches (not_reaches_nil hchain.ne_nil)
  | cons field path ih =>
      intro trees
      constructor
      · intro h
        obtain ⟨⟨key, held, children⟩, hmem, hblocks⟩ := List.any_eq_true.mp h
        rw [blocks, anyBlocks_eq, Bool.and_eq_true, Bool.or_eq_true, Bool.or_eq_true] at hblocks
        obtain ⟨hnamed, (hlast | hwhole) | hbelow⟩ := hblocks
        · exact ⟨_, .root hmem, reaches_singleton.mpr ⟨hnamed, Or.inl (List.isEmpty_iff.mp hlast)⟩⟩
        · exact ⟨_, .root hmem, reaches_singleton.mpr ⟨hnamed, Or.inr hwhole⟩⟩
        · obtain ⟨chain, hchain, hreaches⟩ := (ih children).mp hbelow
          exact ⟨_, .under hmem hchain, (reaches_cons hchain.ne_nil).mpr ⟨hnamed, hreaches⟩⟩
      · rintro ⟨chain, hchain, hreaches⟩
        cases hchain with
        | @root _ key held children hmem =>
            obtain ⟨hnamed, hends⟩ := reaches_singleton.mp hreaches
            refine List.any_eq_true.mpr ⟨_, hmem, ?_⟩
            rw [blocks, hnamed, Bool.true_and, Bool.or_eq_true, Bool.or_eq_true, List.isEmpty_iff]
            exact Or.inl hends
        | @under _ key held children chain hmem hchain =>
            obtain ⟨hnamed, hreaches⟩ := (reaches_cons hchain.ne_nil).mp hreaches
            refine List.any_eq_true.mpr ⟨_, hmem, ?_⟩
            rw [blocks, hnamed, Bool.true_and, Bool.or_eq_true, anyBlocks_eq]
            exact Or.inr ((ih children).mpr ⟨chain, hchain, hreaches⟩)

end KeyTree

namespace Recorder

/-- **A path is blocked by a chain of recorded keys, and by nothing else.** Whatever is recorded in
order is trees; `blocks` answers as they do, for every path. -/
theorem blocks_iff_chain (types : Types) (writes : List Write) (recorder : Recorder)
    (hordered : inOrder [] writes = true) (hwritten : writes.foldlM write new = some recorder) :
    (∃ trees, KeyTree.entries.all 0 trees = entriesOf writes) ∧
      ∀ trees, KeyTree.entries.all 0 trees = entriesOf writes → ∀ path,
        (recorder.blocks types path).1 = true ↔
          recorder.whole = true ∨
            ∃ chain, KeyTree.IsChain trees chain ∧ KeyTree.Reaches types path chain := by
  constructor
  · have hnone : Preordered (([] : List Entry).map Entry.depth) :=
      ⟨fun _ h => absurd h (Option.not_mem_none _), List.IsChain.nil⟩
    obtain ⟨hfirst, hchain⟩ : Preordered ((entriesOf writes).map Entry.depth) :=
      preordered_writes writes hnone hordered
    refine exists_trees _ 0 (entriesOf writes) (Nat.le_refl _) (fun _ _ => Nat.zero_le _)
      (fun entry hentry => ?_) ((List.isChain_map Entry.depth).mp hchain)
    refine hfirst entry.depth ?_
    rw [List.head?_map, Option.mem_def.mp hentry]
    rfl
  · intro trees htrees path
    have hentries : recorder.recorded.entries = KeyTree.entries.all 0 trees :=
      (recorded_writes writes hwritten).trans htrees.symm
    rw [blocks_fst, Presence.blocks_eq hentries, Bool.or_eq_true, KeyTree.any_blocks_iff]
    rfl

/-! A body with an object, and a path parameter. -/

def idField : Field := { number := 1, name := str "id", jsonName := str "id", kind := .string }

def authorField : Field :=
  { number := 2, name := str "author", jsonName := str "author", kind := .message 0 }

def firstNameField : Field :=
  { number := 1, name := str "first_name", jsonName := str "firstName", kind := .string }

def authorTypes : Types := [{ fullName := str "library.Author", fields := [firstNameField] }]

def authorWrites : List Write :=
  [.record 0 (str "author"), .markObject, .record 1 (str "firstName"), .recordPath [idField] false]

theorem author_blocks :
    inOrder [] authorWrites = true ∧ ∃ recorder, authorWrites.foldlM write new = some recorder ∧
      (recorder.blocks authorTypes [authorField, firstNameField]).1 = true := by
  refine ⟨rfl, _, rfl, ?_⟩
  obtain ⟨-, hblocks⟩ := blocks_iff_chain authorTypes authorWrites _ rfl rfl
  let trees : List KeyTree := [.node (str "author") .object [.node (str "firstName") .whole []],
    .node (str "id") .whole []]
  refine (hblocks trees rfl _).mpr (Or.inr ⟨[(str "author", .object), (str "firstName", .whole)], ?_, ?_⟩)
  · exact .under List.mem_cons_self (.root List.mem_cons_self)
  · exact ⟨.cons rfl (.cons rfl .nil), Or.inl rfl⟩

end Recorder

end StructuredProxy
