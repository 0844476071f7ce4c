import StructuredProxy.Request.Message

/-!
# The fields a request has set

`Presence` records the keys the body, the form and the path set, flat and with their depth, and
`blocks` matches a field path against them in one pass. Read as trees, the entries block a path when a
chain of keys names it, or names a field above it that was set as a whole.
-/

namespace StructuredProxy

/-- What a recorded key set its field to. -/
inductive Held where
  | whole
  | object
  | fields
deriving DecidableEq

structure Entry where
  depth : Nat
  key : Text
  held : Held
deriving DecidableEq

structure Presence where
  entries : List Entry := []
  /-- The body set the whole message at once. -/
  whole : Bool := false
deriving DecidableEq

def pathEntries (fields : Bool) : Nat → List Field → List Entry
  | _, [] => []
  | depth, field :: path =>
      { depth, key := field.name, held := if fields || !path.isEmpty then .fields else .whole } ::
        pathEntries fields (depth + 1) path

def Held.isWhole (types : Types) (field : Field) : Held → Bool
  | whole => true
  | object => (types.typeOf field.kind).any MessageType.hasSpecialJson
  | fields => false

/-- One round of the loop of `blocks`: whether each level matched so far, none once the path is
blocked. -/
def matchEntry (types : Types) (path : List Field) (matched : List Bool) (entry : Entry) :
    Option (List Bool) :=
  let matched := matched.take entry.depth
  let parent := entry.depth = 0 || matched[entry.depth - 1]? = some true
  let field := (path[entry.depth]?).filter fun field => parent && field.named entry.key
  if field.any fun field => entry.depth + 1 = path.length || entry.held.isWhole types field then none
  else some (matched ++ List.replicate (entry.depth - matched.length) false ++ [field.isSome])

namespace Presence

def recordWhole (presence : Presence) : Presence := { presence with whole := true }

def recordPath (presence : Presence) (path : List Field) (fields : Bool) : Presence :=
  { presence with entries := presence.entries ++ pathEntries fields 0 path }

/-- Whether a query parameter for `path` must leave it alone. -/
def blocks (types : Types) (presence : Presence) (path : List Field) : Bool :=
  presence.whole || (presence.entries.foldlM (matchEntry types path) []).isNone

end Presence

/-! ### Recorded keys as trees -/

inductive KeyTree where
  | node (key : Text) (held : Held) (children : List KeyTree)

namespace KeyTree

def entries (depth : Nat) : KeyTree → List Entry
  | node key held children => { depth, key, held } :: all (depth + 1) children
where
  all (depth : Nat) : List KeyTree → List Entry
    | [] => []
    | tree :: trees => entries depth tree ++ all depth trees

/-- Whether the tree has a chain of keys that names `path`, or a field above its end that was set as a
whole. -/
def blocks (types : Types) : List Field → KeyTree → Bool
  | [], _ => false
  | field :: path, node key held children =>
      field.named key && (path.isEmpty || held.isWhole types field || anyBlocks types path children)
where
  anyBlocks (types : Types) (path : List Field) : List KeyTree → Bool
    | [] => false
    | tree :: trees => blocks types path tree || anyBlocks types path trees

theorem anyBlocks_eq (types : Types) (path : List Field) (trees : List KeyTree) :
    blocks.anyBlocks types path trees = trees.any (blocks types path) := by
  induction trees with
  | nil => rfl
  | cons tree trees ih => rw [blocks.anyBlocks, List.any_cons, ih]

theorem all_append (depth : Nat) (trees more : List KeyTree) :
    entries.all depth (trees ++ more) = entries.all depth trees ++ entries.all depth more := by
  induction trees with
  | nil => rfl
  | cons tree trees ih => rw [List.cons_append, entries.all, ih, entries.all, List.append_assoc]

def Live (depth : Nat) (matched : List Bool) : Prop :=
  depth = 0 ∨ matched[depth - 1]? = some true

/-- What the loop does with entries at `depth` or below: it stops when they block, and leaves the
levels above as they were when they do not. -/
structure Scanned (types : Types) (path : List Field) (depth : Nat) (entries : List Entry)
    (matched : List Bool) (blocked : Prop) : Prop where
  stops : Live depth matched → blocked → entries.foldlM (matchEntry types path) matched = none
  goes : ¬(Live depth matched ∧ blocked) → ∃ matched',
    entries.foldlM (matchEntry types path) matched = some matched' ∧ depth ≤ matched'.length ∧
      matched'.take depth = matched.take depth

theorem live_congr {depth : Nat} {matched matched' : List Bool}
    (htake : matched'.take depth = matched.take depth) : Live depth matched' ↔ Live depth matched := by
  unfold Live
  refine or_congr_right' fun hdepth => ?_
  have hlt : depth - 1 < depth := by omega
  rw [← List.getElem?_take_of_lt hlt, htake, List.getElem?_take_of_lt hlt]

instance (depth : Nat) (matched : List Bool) : Decidable (Live depth matched) :=
  inferInstanceAs (Decidable (_ ∨ _))

theorem matchEntry_eq {types : Types} {path : List Field} {depth : Nat} {matched : List Bool}
    (hlength : depth ≤ matched.length) (key : Text) (held : Held) :
    matchEntry types path matched { depth, key, held } =
      match (path[depth]?).filter fun field => Live depth matched ∧ field.named key = true with
      | none => some (matched.take depth ++ [false])
      | some field =>
          if depth + 1 = path.length ∨ held.isWhole types field = true then none
          else some (matched.take depth ++ [true]) := by
  have hparent : (decide (depth = 0) ||
      decide ((matched.take depth)[depth - 1]? = some true)) = decide (Live depth matched) := by
    rw [← Bool.decide_or, decide_eq_decide]
    exact live_congr (by rw [List.take_take, Nat.min_self])
  have hpad : depth - (matched.take depth).length = 0 := by
    rw [List.length_take]
    omega
  unfold matchEntry
  simp only [hparent, hpad, List.replicate_zero, List.append_nil, Bool.decide_eq_true,
    Bool.decide_and]
  cases (path[depth]?).filter fun field =>
      decide (Live depth matched) && field.named key with
  | none => rfl
  | some field => simp

theorem live_concat {depth : Nat} {matched : List Bool} (hlength : depth ≤ matched.length)
    (hit : Bool) : Live (depth + 1) (matched.take depth ++ [hit]) ↔ hit = true := by
  have htake : (matched.take depth).length = depth := List.length_take_of_le hlength
  have hget : (matched.take depth ++ [hit])[depth]? = some hit := by
    rw [List.getElem?_append_right (Nat.le_of_eq htake), htake, Nat.sub_self]
    rfl
  unfold Live
  rw [Nat.add_sub_cancel, hget]
  simp

theorem take_of_take_succ {depth : Nat} {matched matched' : List Bool} {hit : Bool}
    (hlength : depth ≤ matched.length)
    (htake : matched'.take (depth + 1) = (matched.take depth ++ [hit]).take (depth + 1)) :
    matched'.take depth = matched.take depth := by
  have hshort := congrArg (List.take depth) htake
  rw [List.take_take, List.take_take, Nat.min_eq_left (Nat.le_succ depth)] at hshort
  rw [hshort, List.take_append_of_le_length (Nat.le_of_eq (List.length_take_of_le hlength).symm),
    List.take_take, Nat.min_self]

theorem foldlM_cons_eq (types : Types) (path : List Field) (matched : List Bool) (entry : Entry)
    (rest : List Entry) :
    (entry :: rest).foldlM (matchEntry types path) matched =
      (matchEntry types path matched entry).bind fun matched =>
        rest.foldlM (matchEntry types path) matched :=
  List.foldlM_cons

theorem blocks_drop (types : Types) {path : List Field} {depth : Nat} {field : Field} {key : Text}
    {held : Held} {children : List KeyTree} (hget : path[depth]? = some field)
    (hnamed : field.named key = true) :
    (node key held children).blocks types (path.drop depth) =
      (decide (depth + 1 = path.length) || held.isWhole types field ||
        children.any (blocks types (path.drop (depth + 1)))) := by
  obtain ⟨hlt, hfield⟩ := List.getElem?_eq_some_iff.mp hget
  have hlast : (path.drop (depth + 1)).isEmpty = decide (depth + 1 = path.length) := by
    rw [Bool.eq_iff_iff, List.isEmpty_iff, List.drop_eq_nil_iff, decide_eq_true_eq]
    omega
  rw [List.drop_eq_getElem_cons hlt, hfield, blocks, hnamed, hlast, anyBlocks_eq, Bool.true_and]

theorem exists_named_of_blocks {types : Types} {path : List Field} {depth : Nat} {key : Text}
    {held : Held} {children : List KeyTree}
    (h : (node key held children).blocks types (path.drop depth) = true) :
    ∃ field, path[depth]? = some field ∧ field.named key = true := by
  cases hget : path[depth]? with
  | none =>
      rw [List.drop_eq_nil_iff.mpr (List.getElem?_eq_none_iff.mp hget)] at h
      exact absurd h (by simp [blocks])
  | some field =>
      obtain ⟨hlt, hfield⟩ := List.getElem?_eq_some_iff.mp hget
      rw [List.drop_eq_getElem_cons hlt, hfield, blocks, Bool.and_eq_true] at h
      exact ⟨field, rfl, h.1⟩

mutual

theorem scanned_entries (types : Types) (path : List Field) : ∀ (tree : KeyTree) {depth : Nat}
    {matched : List Bool}, depth ≤ matched.length →
    Scanned types path depth (tree.entries depth) matched
      (tree.blocks types (path.drop depth) = true)
  | node key held children, depth, matched, hlength => by
      have hround := @matchEntry_eq types path depth matched hlength key held
      have hconcat : ∀ hit : Bool, depth + 1 ≤ (matched.take depth ++ [hit]).length := by
        intro hit
        rw [List.length_append, List.length_take_of_le hlength]
        exact Nat.le_refl _
      rw [entries]
      cases hfield : (path[depth]?).filter fun field =>
          decide (Live depth matched ∧ field.named key = true) with
      | none =>
          rw [hfield] at hround
          have hunblocked : ¬(Live depth matched ∧
              (node key held children).blocks types (path.drop depth) = true) := by
            rintro ⟨hlive, hblocked⟩
            obtain ⟨field, hget, hnamed⟩ := exists_named_of_blocks hblocked
            rw [hget] at hfield
            exact Option.filter_some_eq_none.mp hfield (decide_eq_true ⟨hlive, hnamed⟩)
          have hchildren := scanned_all types path children (hconcat false)
          refine ⟨fun hlive hblocked => absurd ⟨hlive, hblocked⟩ hunblocked, fun _ => ?_⟩
          obtain ⟨matched', hfold, hlength', htake⟩ := hchildren.goes fun h =>
            absurd ((live_concat hlength false).mp h.1) (by decide)
          refine ⟨matched', ?_, Nat.le_of_succ_le hlength', take_of_take_succ hlength htake⟩
          rw [foldlM_cons_eq, hround]
          exact hfold
      | some field =>
          rw [hfield] at hround
          obtain ⟨hget, hkeep⟩ := Option.filter_eq_some_iff.mp hfield
          obtain ⟨hlive, hnamed⟩ := of_decide_eq_true hkeep
          have hblocks := @blocks_drop types path depth field key held children hget hnamed
          simp only at hround
          by_cases hwhole : depth + 1 = path.length ∨ held.isWhole types field = true
          · rw [if_pos hwhole] at hround
            have hblocked : (node key held children).blocks types (path.drop depth) = true := by
              rw [hblocks, Bool.or_eq_true, Bool.or_eq_true, decide_eq_true_eq]
              exact Or.inl hwhole
            refine ⟨fun _ _ => ?_, fun hnot => absurd ⟨hlive, hblocked⟩ hnot⟩
            rw [foldlM_cons_eq, hround]
            rfl
          · rw [if_neg hwhole] at hround
            obtain ⟨hshort, hheld⟩ := not_or.mp hwhole
            have hlive' := (live_concat hlength true).mpr rfl
            have hchildren := scanned_all types path children (hconcat true)
            rw [hblocks, decide_eq_false hshort, Bool.eq_false_iff.mpr hheld, Bool.false_or,
              Bool.false_or]
            refine ⟨fun _ hblocked => ?_, fun hnot => ?_⟩
            · rw [foldlM_cons_eq, hround]
              exact hchildren.stops hlive' hblocked
            · obtain ⟨matched', hfold, hlength', htake⟩ := hchildren.goes fun h =>
                hnot ⟨hlive, h.2⟩
              refine ⟨matched', ?_, Nat.le_of_succ_le hlength', take_of_take_succ hlength htake⟩
              rw [foldlM_cons_eq, hround]
              exact hfold

theorem scanned_all (types : Types) (path : List Field) : ∀ (trees : List KeyTree) {depth : Nat}
    {matched : List Bool}, depth ≤ matched.length →
    Scanned types path depth (entries.all depth trees) matched
      (trees.any (blocks types (path.drop depth)) = true)
  | [], depth, matched, hlength => by
      refine ⟨fun _ hblocked => absurd hblocked (by simp), fun _ => ⟨matched, rfl, hlength, rfl⟩⟩
  | tree :: trees, depth, matched, hlength => by
      have htree := scanned_entries types path tree hlength
      have hsplit : ∀ matched : List Bool,
          (entries.all depth (tree :: trees)).foldlM (matchEntry types path) matched =
            ((tree.entries depth).foldlM (matchEntry types path) matched).bind fun matched =>
              (entries.all depth trees).foldlM (matchEntry types path) matched := by
        intro matched
        rw [entries.all, List.foldlM_append]
        rfl
      rw [List.any_cons, Bool.or_eq_true]
      constructor
      · intro hlive hblocked
        rw [hsplit]
        by_cases hfirst : tree.blocks types (path.drop depth) = true
        · rw [htree.stops hlive hfirst]
          rfl
        · obtain ⟨matched', hfold, hlength', htake⟩ := htree.goes fun h => hfirst h.2
          have hrest := scanned_all types path trees hlength'
          rw [hfold, Option.bind_some]
          exact hrest.stops ((live_congr htake).mpr hlive) (hblocked.resolve_left hfirst)
      · intro hnot
        obtain ⟨matched', hfold, hlength', htake⟩ := htree.goes fun h => hnot ⟨h.1, Or.inl h.2⟩
        have hrest := scanned_all types path trees hlength'
        obtain ⟨matched'', hfold', hlength'', htake'⟩ := hrest.goes fun h =>
          hnot ⟨(live_congr htake).mp h.1, Or.inr h.2⟩
        refine ⟨matched'', ?_, hlength'', htake'.trans htake⟩
        rw [hsplit, hfold, Option.bind_some, hfold']

end

def chain (fields : Bool) : List Field → List KeyTree
  | [] => []
  | field :: path =>
      [node field.name (if fields || !path.isEmpty then .fields else .whole) (chain fields path)]

theorem all_chain (fields : Bool) (path : List Field) : ∀ depth,
    entries.all depth (chain fields path) = pathEntries fields depth path := by
  induction path with
  | nil => intro depth; rfl
  | cons field path ih =>
      intro depth
      rw [chain, entries.all, entries, ih, entries.all, List.append_nil, pathEntries]

theorem named_name (field : Field) : field.named field.name = true := by simp [Field.named]

theorem chain_blocks_of_isPrefix (types : Types) (fields : Bool) {q : List Field} (hne : q ≠ []) :
    ∀ {p : List Field}, q <+: p → (chain fields p).any (blocks types q) = true := by
  induction q with
  | nil => exact absurd rfl hne
  | cons f q ih =>
      intro p hbegins
      cases p with
      | nil => exact absurd (List.prefix_nil.mp hbegins) (List.cons_ne_nil _ _)
      | cons g p =>
          obtain ⟨rfl, htail⟩ := List.cons_prefix_cons.mp hbegins
          rw [chain, List.any_cons, blocks, named_name, anyBlocks_eq]
          cases q with
          | nil => simp
          | cons next q => simp [ih (List.cons_ne_nil _ _) htail]

theorem chain_blocks_of_above (types : Types) {p : List Field} (hne : p ≠ []) :
    ∀ {q : List Field}, p <+: q → (chain false p).any (blocks types q) = true := by
  induction p with
  | nil => exact absurd rfl hne
  | cons f p ih =>
      intro q hbegins
      cases q with
      | nil => exact absurd (List.prefix_nil.mp hbegins) (List.cons_ne_nil _ _)
      | cons g q =>
          obtain ⟨rfl, htail⟩ := List.cons_prefix_cons.mp hbegins
          rw [chain, List.any_cons, blocks, named_name, anyBlocks_eq]
          cases p with
          | nil => simp [Held.isWhole]
          | cons next p => simp [ih (List.cons_ne_nil _ _) htail]

end KeyTree

namespace Presence

theorem blocks_of_trees {types : Types} {presence : Presence} {before after : List Entry}
    {trees : List KeyTree} {path : List Field}
    (hentries : presence.entries = before ++ KeyTree.entries.all 0 trees ++ after)
    (hblocks : trees.any (KeyTree.blocks types path) = true) : presence.blocks types path = true := by
  rw [blocks, hentries, List.foldlM_append, List.foldlM_append]
  cases before.foldlM (matchEntry types path) [] with
  | none => exact Bool.or_true _
  | some matched =>
      have hstops := (KeyTree.scanned_all types path trees (Nat.zero_le matched.length)).stops
        (Or.inl rfl) hblocks
      rw [Option.bind_eq_bind, Option.bind_some, hstops]
      exact Bool.or_true _

theorem blocks_eq {types : Types} {presence : Presence} {trees : List KeyTree}
    (hentries : presence.entries = KeyTree.entries.all 0 trees) (path : List Field) :
    presence.blocks types path = (presence.whole || trees.any (KeyTree.blocks types path)) := by
  have hscanned := KeyTree.scanned_all types path trees (Nat.zero_le [].length)
  rw [blocks, hentries]
  congr 1
  cases hblocks : trees.any (KeyTree.blocks types path) with
  | true => rw [hscanned.stops (Or.inl rfl) hblocks]; rfl
  | false =>
      obtain ⟨matched, hfold, -, -⟩ := hscanned.goes fun h => by
        rw [List.drop_zero, hblocks] at h
        exact absurd h.2 (by decide)
      rw [hfold]
      rfl

end Presence

end StructuredProxy
