import StructuredProxy.Transcode.Routes

/-!
# What the indexes of `Routes` list

Each index of `Routes` is an index of some of the tables, so it lists the ranking of all of them less
the tables it leaves out: the plain tables for one, the tables binding a verb for the others.
-/

namespace StructuredProxy

namespace PathTable

def bindsVerb (raw : Text) (table : PathTable) : Bool :=
  table.bindings.any fun binding => binding.verb.any (·.raw = raw)

theorem mem_raws_iff {table : PathTable} {raw : Text} :
    raw ∈ (table.bindings.filterMap fun binding => binding.verb.map (·.raw)) ↔
      table.bindsVerb raw = true := by
  rw [List.mem_filterMap, bindsVerb, List.any_eq_true]
  refine exists_congr fun binding => and_congr_right fun _ => ?_
  cases binding.verb <;> simp

end PathTable

namespace Routes

def pathsWhere (keep : PathTable → Bool) (tables : List PathTable) : List (Text × Nat) :=
  (tables.zipIdx.filter fun item => keep item.1).map fun item => (item.1.path, item.2)

def pathsOf (tables : List PathTable) : List (Text × Nat) :=
  tables.zipIdx.map fun item => (item.1.path, item.2)

theorem entriesOf_pathsWhere (keep : PathTable → Bool) (tables : List PathTable) :
    Index.entriesOf (pathsWhere keep tables) =
      (Index.entriesOf (pathsOf tables)).filter fun entry => (tables[entry.2]?).any keep := by
  unfold Index.entriesOf pathsWhere pathsOf
  rw [List.map_map, List.map_map, List.filter_map]
  congr 1
  refine List.filter_congr ?_
  rintro ⟨table, position⟩ hmem
  have hget : tables[position]? = some table := List.mem_zipIdx_iff_getElem?.mp hmem
  simp [hget]

theorem pathsWhere_sublist (keep : PathTable → Bool) (tables : List PathTable) :
    (pathsWhere keep tables).Sublist (pathsOf tables) :=
  List.filter_sublist.map _

/-- An index of some of the tables lists the ranking of all of them, less those it leaves out. -/
theorem found_pathsWhere {emptyLast : Bool} {tables : List PathTable}
    (hshapes : Index.DistinctShapes (pathsOf tables)) {path : Text} {ranking : List (Pattern × Nat)}
    (hranking : IsRanking emptyLast path (Index.entriesOf (pathsOf tables)) ranking)
    (keep : PathTable → Bool) :
    (Index.ofPaths emptyLast (pathsWhere keep tables)).found path =
      ranking.filter fun entry => (tables[entry.2]?).any keep := by
  have hsub : Index.DistinctShapes (pathsWhere keep tables) :=
    hshapes.sublist ((pathsWhere_sublist keep tables).map _)
  have hfound := Index.ofPaths_isRanking emptyLast hsub path
  rw [entriesOf_pathsWhere] at hfound
  exact hfound.unique (hranking.filter _)

/-! ### The indexes `new` builds -/

theorem lookup_insertVerb (emptyLast : Bool) (path : Text) (position : Nat) (raw key : Text)
    (verbs : List (Text × Index)) :
    (insertVerb emptyLast path position raw verbs).lookup key =
      if key = raw then some (((verbs.lookup raw).getD { emptyLast }).insert path position)
      else verbs.lookup key := by
  induction verbs with
  | nil =>
      by_cases hkey : key = raw
      · simp [insertVerb, hkey]
      · have hbeq : (key == raw) = false := beq_eq_false_iff_ne.mpr hkey
        simp [insertVerb, hkey, List.lookup_cons, hbeq]
  | cons entry verbs ih =>
      obtain ⟨first, index⟩ := entry
      by_cases hfirst : first = raw
      · subst hfirst
        by_cases hkey : key = first
        · simp [insertVerb, hkey]
        · have hbeq : (key == first) = false := beq_eq_false_iff_ne.mpr hkey
          simp [insertVerb, hkey, List.lookup_cons, hbeq]
      · have hraw : (raw == first) = false := beq_eq_false_iff_ne.mpr fun heq => hfirst heq.symm
        rw [insertVerb, if_neg hfirst]
        by_cases hkey : key = first
        · subst hkey
          simp [hfirst]
        · have hbeq : (key == first) = false := beq_eq_false_iff_ne.mpr hkey
          simp [List.lookup_cons, hbeq, hraw, ih]

theorem lookup_addVerb (emptyLast : Bool) (path : Text) (position : Nat) (key : Text)
    (raws : List Text) : ∀ (verbs : List (Text × Index)) (seen : List Text),
    (raws.foldl (addVerb emptyLast path position) (verbs, seen)).1.lookup key =
      if key ∈ raws ∧ key ∉ seen then
        some (((verbs.lookup key).getD { emptyLast }).insert path position)
      else verbs.lookup key := by
  induction raws with
  | nil => intro verbs seen; simp
  | cons raw raws ih =>
      intro verbs seen
      rw [List.foldl_cons, addVerb]
      by_cases hseen : raw ∈ seen
      · rw [if_pos hseen, ih]
        by_cases hkey : key = raw
        · simp [hkey, hseen]
        · simp [hkey]
      · rw [if_neg hseen, ih, lookup_insertVerb]
        by_cases hkey : key = raw
        · simp [hkey, hseen]
        · simp [hkey]

theorem foldl_addTable (emptyLast : Bool) (items : List (PathTable × Nat)) : ∀ routes : Routes,
    (items.foldl (addTable emptyLast) routes).tables = routes.tables ∧
    (items.foldl (addTable emptyLast) routes).plain =
      ((items.filter fun item => item.1.plain).map fun item => (item.1.path, item.2)).foldl
        (fun index path => index.insert path.1 path.2) routes.plain ∧
    ∀ key, (items.foldl (addTable emptyLast) routes).verbs.lookup key =
      if (items.any fun item => item.1.bindsVerb key) || (routes.verbs.lookup key).isSome then
        some (((items.filter fun item => item.1.bindsVerb key).map fun item =>
          (item.1.path, item.2)).foldl (fun index path => index.insert path.1 path.2)
            ((routes.verbs.lookup key).getD { emptyLast }))
      else none := by
  induction items with
  | nil =>
      intro routes
      refine ⟨rfl, rfl, fun key => ?_⟩
      cases hlookup : routes.verbs.lookup key <;> simp [hlookup]
  | cons item items ih =>
      intro routes
      obtain ⟨table, position⟩ := item
      obtain ⟨htables, hplain, hverbs⟩ := ih (addTable emptyLast routes (table, position))
      refine ⟨htables, ?_, fun key => ?_⟩
      · rw [List.foldl_cons, hplain, List.filter_cons]
        cases hflag : table.plain with
        | false => simp only [addTable, hflag, Bool.false_eq_true, ↓reduceIte]
        | true => simp only [addTable, hflag, ↓reduceIte, List.map_cons, List.foldl_cons]
      · rw [List.foldl_cons, hverbs, addTable, List.filter_cons, List.any_cons]
        simp only [lookup_addVerb, PathTable.mem_raws_iff, List.not_mem_nil, not_false_eq_true,
          and_true]
        cases hbinds : table.bindsVerb key with
        | false => simp only [Bool.false_eq_true, ↓reduceIte, Bool.false_or]
        | true => simp

variable (emptyLast : Bool) (tables : List PathTable)

@[simp]
theorem tables_new : (new emptyLast tables).tables = tables :=
  (foldl_addTable emptyLast tables.zipIdx _).1

theorem plain_new :
    (new emptyLast tables).plain = Index.ofPaths emptyLast (pathsWhere (·.plain) tables) :=
  (foldl_addTable emptyLast tables.zipIdx _).2.1

theorem lookup_verbs_new (key : Text) :
    (new emptyLast tables).verbs.lookup key =
      if tables.any (·.bindsVerb key) then
        some (Index.ofPaths emptyLast (pathsWhere (·.bindsVerb key) tables))
      else none := by
  have hverbs := (foldl_addTable emptyLast tables.zipIdx
    { tables, verbs := [], plain := { emptyLast } }).2.2 key
  have hany : (tables.zipIdx.any fun item => item.1.bindsVerb key) =
      tables.any (·.bindsVerb key) := by
    conv_rhs => rw [← List.zipIdx_map_fst 0 tables, List.any_map]
    rfl
  rw [hany] at hverbs
  simp only [List.lookup_nil, Option.isSome_none, Bool.or_false, Option.getD_none] at hverbs
  exact hverbs

end Routes

end StructuredProxy
