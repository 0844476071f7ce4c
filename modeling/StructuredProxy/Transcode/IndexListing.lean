import StructuredProxy.Transcode.IndexTree

/-!
# What an index lists

A search lists exactly the entries the request matches, in rank order, whatever order the paths were
inserted in. An index of some of the paths therefore lists the same tables in the same order, less
those it does not hold.
-/

namespace StructuredProxy

namespace Index

def segmentsOf : Option Text → List Text
  | none => []
  | some rest => rest.splitOn slash

theorem segmentsOf_some (rest : Text) :
    segmentsOf (some rest) = (nextSegment rest).1 :: segmentsOf (nextSegment rest).2 := by
  unfold nextSegment
  cases hsplit : Lib.splitOnce slash rest with
  | none => exact Lib.splitOn_of_splitOnce_none hsplit
  | some parts => exact Lib.splitOn_of_splitOnce_some hsplit

theorem isEmpty_segmentsOf (rest : Option Text) : (segmentsOf rest).isEmpty = rest.isNone := by
  cases rest with
  | none => rfl
  | some rest => rw [segmentsOf_some]; rfl

theorem splitOn_eq_singleton_nil_iff (rest : Text) : rest.splitOn slash = [[]] ↔ rest = [] := by
  constructor
  · intro h
    have hjoin : [slash].intercalate (rest.splitOn slash) = rest := List.intercalate_splitOn slash
    rw [h] at hjoin
    simpa using hjoin.symm
  · rintro rfl
    rfl

variable (index : Index)

/-- The entries below `node` that the segments match, with their patterns from `node` on. -/
def walk (node : Nat) : List Text → List (Pattern × Nat)
  | [] => ((nodeAt index.nodes node).table.map fun table => (Pattern.done, table)).toList
  | segment :: rest =>
      (((nodeAt index.nodes node).child (.lit segment)).toList.flatMap fun next =>
          (walk next rest).map fun entry => (.lit segment entry.1, entry.2)) ++
        ((((nodeAt index.nodes node).child .var).filter fun _ =>
          !segment.isEmpty || !rest.isEmpty || index.emptyLast).toList.flatMap fun next =>
          (walk next rest).map fun entry => (.var entry.1, entry.2)) ++
        (((nodeAt index.nodes node).rest.filter fun _ => (segment :: rest) != [[]]).map
          fun table => (Pattern.catchAll, table)).toList

/-- A search hands out the entries of `walk` in order. The recursion of `visit` is on the text, so the
induction is on how much of it is left. -/
theorem visit_eq_forM {m : Type → Type*} [Monad m] [LawfulMonad m] (found : Nat → m Unit)
    (rest : Option Text) : ∀ node : Nat,
    index.visit found node rest =
      forM (index.walk node (segmentsOf rest)) fun entry => found entry.2 := by
  induction hleft : left rest using Nat.strong_induction_on generalizing rest with
  | _ size ih =>
      intro node
      cases rest with
      | none =>
          rw [visit]
          cases htable : (nodeAt index.nodes node).table <;> simp [segmentsOf, walk, htable]
      | some rest =>
          have htail : ∀ next, index.visit found next (nextSegment rest).2 =
              forM (index.walk next (segmentsOf (nextSegment rest).2)) fun entry => found entry.2 :=
            ih _ (hleft ▸ left_nextSegment rest) _ rfl
          have hempty : ((nextSegment rest).1 :: segmentsOf (nextSegment rest).2 != [[]]) =
              !rest.isEmpty := by
            rw [← segmentsOf_some, segmentsOf, Bool.eq_iff_iff]
            simp [splitOn_eq_singleton_nil_iff]
          have hsome : (!(segmentsOf (nextSegment rest).2).isEmpty) = (nextSegment rest).2.isSome := by
            rw [isEmpty_segmentsOf]
            cases (nextSegment rest).2 <;> rfl
          rw [visit, segmentsOf_some, walk]
          simp only [htail, hempty, hsome, List.forM_append, bind_assoc, Node.child]
          congr 1
          · cases (nodeAt index.nodes node).literals.lookup (nextSegment rest).1 <;> simp
          · funext _
            congr 1
            · cases (nodeAt index.nodes node).variableChild with
              | none => simp
              | some next =>
                  cases (!(nextSegment rest).1.isEmpty || (nextSegment rest).2.isSome ||
                    index.emptyLast) <;> simp [Option.filter]
            · funext _
              cases (nodeAt index.nodes node).rest with
              | none => simp
              | some table => cases (!rest.isEmpty) <;> simp [Option.filter]

theorem entryFrom_lit (nodes : List Node) (node : Nat) (text : Text) (tail : Pattern) :
    entryFrom nodes node (.lit text tail) =
      ((nodeAt nodes node).child (.lit text)).bind (entryFrom nodes · tail) := by
  simp only [entryFrom, Pattern.edges, reach, childAt, Pattern.endsInCatchAll]
  cases (nodeAt nodes node).child (.lit text) <;> rfl

theorem entryFrom_var (nodes : List Node) (node : Nat) (tail : Pattern) :
    entryFrom nodes node (.var tail) =
      ((nodeAt nodes node).child .var).bind (entryFrom nodes · tail) := by
  simp only [entryFrom, Pattern.edges, reach, childAt, Pattern.endsInCatchAll]
  cases (nodeAt nodes node).child .var <;> rfl

/-- Each listed entry is one the index holds and the segments match. The proof follows the segments:
one case for each kind of child. -/
theorem mem_walk_iff (segments : List Text) : ∀ (node : Nat) (pattern : Pattern) (table : Nat),
    (pattern, table) ∈ index.walk node segments ↔
      entryFrom index.nodes node pattern = some table ∧
        pattern.accepts index.emptyLast segments = true := by
  induction segments with
  | nil =>
      intro node pattern table
      cases pattern with
      | done => simp [walk, entryFrom, reach, slotValue, Pattern.edges, Pattern.endsInCatchAll,
          Pattern.accepts, Option.map_eq_some_iff]
      | _ => simp [walk, Pattern.accepts]
  | cons segment rest ih =>
      intro node pattern table
      cases pattern with
      | done => simp [walk, Pattern.accepts]
      | catchAll =>
          simp [walk, entryFrom, reach, slotValue, Pattern.edges, Pattern.endsInCatchAll,
            Pattern.accepts, Option.filter_eq_some_iff]
      | lit text tail =>
          rw [entryFrom_lit]
          by_cases htext : text = segment
          · subst htext
            cases hchild : (nodeAt index.nodes node).child (.lit text) with
            | none => simp [walk, hchild]
            | some next => simp [walk, hchild, ih, Pattern.accepts]
          · simp [walk, Pattern.accepts, htext, Ne.symm htext]
      | var tail =>
          rw [entryFrom_var]
          cases hchild : (nodeAt index.nodes node).child .var with
          | none => simp [walk, hchild]
          | some next =>
              cases hempty : (!segment.isEmpty || !rest.isEmpty || index.emptyLast) <;>
                simp [walk, hchild, ih, Pattern.accepts, Option.filter, hempty]

/-- What is found through a literal comes before what is found through a variable, and that before a
catch-all; below one child the order is that of the tails. -/
theorem walk_ordered (segments : List Text) : ∀ node : Nat,
    (index.walk node segments).Pairwise fun a b => a.1.Before b.1 := by
  induction segments with
  | nil =>
      intro node
      cases htable : (nodeAt index.nodes node).table <;> simp [walk, htable]
  | cons segment rest ih =>
      intro node
      rw [walk]
      refine List.pairwise_append.mpr ⟨List.pairwise_append.mpr ⟨?_, ?_, ?_⟩, ?_, ?_⟩
      · cases (nodeAt index.nodes node).child (.lit segment) with
        | none => simp
        | some next =>
            simpa [List.pairwise_map, Pattern.Before] using ih next
      · cases ((nodeAt index.nodes node).child .var).filter fun _ =>
          !segment.isEmpty || !rest.isEmpty || index.emptyLast with
        | none => simp
        | some next =>
            simpa [List.pairwise_map, Pattern.Before] using ih next
      · intro a ha b hb
        simp only [List.mem_flatMap, List.mem_map] at ha hb
        obtain ⟨_, _, _, _, rfl⟩ := ha
        obtain ⟨_, _, _, _, rfl⟩ := hb
        trivial
      · cases (nodeAt index.nodes node).rest.filter fun _ => (segment :: rest) != [[]] <;> simp
      · intro a ha b hb
        have hb : b.1 = Pattern.catchAll := by
          simp only [Option.mem_toList, Option.map_eq_some_iff] at hb
          obtain ⟨_, _, rfl⟩ := hb
          rfl
        simp only [List.mem_append, List.mem_flatMap, List.mem_map] at ha
        rw [hb]
        rcases ha with ⟨_, _, _, _, rfl⟩ | ⟨_, _, _, _, rfl⟩ <;> trivial

def found (path : Text) : List (Pattern × Nat) :=
  match stripPrefix slash path with
  | some rest => index.walk 0 (rest.splitOn slash)
  | none => []

theorem each_eq_forM {m : Type → Type*} [Monad m] [LawfulMonad m] (path : Text)
    (callback : Nat → m Unit) :
    index.each path callback = forM (index.found path) fun entry => callback entry.2 := by
  unfold each Index.found
  cases stripPrefix slash path with
  | none => rfl
  | some rest => exact index.visit_eq_forM callback (some rest) 0

theorem mem_found_iff {path : Text} {pattern : Pattern} {table : Nat} :
    (pattern, table) ∈ index.found path ↔
      index.entry pattern = some table ∧ pattern.acceptsPath index.emptyLast path = true := by
  unfold Index.found Pattern.acceptsPath
  cases stripPrefix slash path with
  | none => simp
  | some rest => exact index.mem_walk_iff _ 0 pattern table

theorem found_ordered (path : Text) :
    (index.found path).Pairwise fun a b => a.1.Before b.1 := by
  unfold Index.found
  cases stripPrefix slash path with
  | none => exact List.Pairwise.nil
  | some rest => exact index.walk_ordered _ 0

theorem forM_modify_run (entries : List (Pattern × Nat)) (kept : List Nat) :
    (forM (m := StateM (List Nat)) entries fun entry => modify (· ++ [entry.2])).run kept =
      ((), kept ++ entries.map Prod.snd) := by
  induction entries generalizing kept with
  | nil => rw [List.map_nil, List.append_nil]; rfl
  | cons entry entries ih =>
      have hstep : (forM (m := StateM (List Nat)) (entry :: entries) fun entry =>
          modify (· ++ [entry.2])).run kept =
          (forM (m := StateM (List Nat)) entries fun entry => modify (· ++ [entry.2])).run
            (kept ++ [entry.2]) := rfl
      rw [hstep, ih]
      simp

theorem listing_eq (path : Text) : index.listing path = (index.found path).map Prod.snd := by
  unfold listing
  rw [each_eq_forM, forM_modify_run, List.nil_append]
  rfl

theorem each_eq_forM_listing {m : Type → Type*} [Monad m] [LawfulMonad m] (path : Text)
    (callback : Nat → m Unit) :
    index.each path callback = forM (index.listing path) callback := by
  rw [each_eq_forM, listing_eq, List.forM_map]

theorem first_eq (path : Text) : index.first path = (index.listing path).head? := by
  unfold first
  rw [listing_eq, each_eq_forM]
  cases index.found path <;> rfl

theorem found_isRanking {entries : List (Pattern × Nat)} (hnodup : entries.Nodup)
    (hentry : ∀ pattern table, index.entry pattern = some table ↔ (pattern, table) ∈ entries)
    (path : Text) : IsRanking index.emptyLast path entries (index.found path) where
  perm := by
    have hfound : (index.found path).Nodup := by
      refine (index.found_ordered path).imp ?_
      rintro a b hbefore rfl
      exact Pattern.before_irrefl _ hbefore
    rw [List.perm_ext_iff_of_nodup hfound (hnodup.filter _)]
    rintro ⟨pattern, table⟩
    rw [mem_found_iff, List.mem_filter, hentry]
  ordered := index.found_ordered path

/-! ### An index of given paths -/

def entriesOf (paths : List (Text × Nat)) : List (Pattern × Nat) :=
  paths.map fun path => (Pattern.ofPath path.1, path.2)

def DistinctShapes (paths : List (Text × Nat)) : Prop :=
  (paths.map fun path => Pattern.ofPath path.1).Nodup

instance (paths : List (Text × Nat)) : Decidable (DistinctShapes paths) :=
  inferInstanceAs (Decidable (List.Nodup _))

theorem DistinctShapes.nodup_entriesOf {paths : List (Text × Nat)} (h : DistinctShapes paths) :
    (entriesOf paths).Nodup := by
  refine List.Nodup.of_map Prod.fst ?_
  rw [entriesOf, List.map_map]
  exact h

theorem foldl_insert_spec {index : Index} (paths : List (Text × Nat)) :
    IsTree index.nodes → DistinctShapes paths →
    IsTree (paths.foldl (fun index path => index.insert path.1 path.2) index).nodes ∧
      (paths.foldl (fun index path => index.insert path.1 path.2) index).emptyLast =
        index.emptyLast ∧
      ∀ pattern table,
        (paths.foldl (fun index path => index.insert path.1 path.2) index).entry pattern =
            some table ↔
          (pattern, table) ∈ entriesOf paths ∨
            (pattern ∉ paths.map (fun path => Pattern.ofPath path.1) ∧
              index.entry pattern = some table) := by
  induction paths generalizing index with
  | nil =>
      intro htree _
      exact ⟨htree, rfl, by simp [entriesOf]⟩
  | cons path paths ih =>
      intro htree hshapes
      obtain ⟨hnew, hrest⟩ := List.nodup_cons.mp hshapes
      obtain ⟨htree', hempty, hentry⟩ := ih (isTree_insert htree path.1 path.2) hrest
      refine ⟨htree', hempty, ?_⟩
      intro pattern table
      rw [List.foldl_cons, hentry, entry_insert htree]
      by_cases hpattern : pattern = Pattern.ofPath path.1
      · subst hpattern
        have hfresh : (Pattern.ofPath path.1, table) ∉ entriesOf paths := by
          intro hmem
          apply hnew
          obtain ⟨other, hother, heq⟩ := List.mem_map.mp hmem
          exact List.mem_map.mpr ⟨other, hother, congrArg Prod.fst heq⟩
        have hcons : (Pattern.ofPath path.1, table) ∈ entriesOf (path :: paths) ↔ path.2 = table := by
          rw [entriesOf, List.map_cons, List.mem_cons]
          refine ⟨?_, fun h => Or.inl (h ▸ rfl)⟩
          rintro (h | h)
          · exact (congrArg Prod.snd h).symm
          · exact absurd h hfresh
        simp [hfresh, hcons, hnew]
      · simp [entriesOf, hpattern]

theorem ofPaths_spec (emptyLast : Bool) {paths : List (Text × Nat)} (hshapes : DistinctShapes paths) :
    IsTree (ofPaths emptyLast paths).nodes ∧ (ofPaths emptyLast paths).emptyLast = emptyLast ∧
      ∀ pattern table, (ofPaths emptyLast paths).entry pattern = some table ↔
        (pattern, table) ∈ entriesOf paths := by
  have hroot : IsTree ({ emptyLast } : Index).nodes := isTree_root
  obtain ⟨htree, hempty, hentry⟩ := foldl_insert_spec paths hroot hshapes
  refine ⟨htree, hempty, ?_⟩
  intro pattern table
  rw [ofPaths, hentry]
  have hnone : ({ emptyLast } : Index).entry pattern = none := by
    cases pattern <;> rfl
  simp [hnone]

theorem ofPaths_isRanking (emptyLast : Bool) {paths : List (Text × Nat)}
    (hshapes : DistinctShapes paths) (request : Text) :
    IsRanking emptyLast request (entriesOf paths) ((ofPaths emptyLast paths).found request) := by
  obtain ⟨-, hempty, hentry⟩ := ofPaths_spec emptyLast hshapes
  have h := (ofPaths emptyLast paths).found_isRanking hshapes.nodup_entriesOf hentry request
  rwa [hempty] at h

theorem DistinctShapes.subset {paths subset : List (Text × Nat)} (hshapes : DistinctShapes paths)
    (hnodup : subset.Nodup) (hsubset : subset ⊆ paths) : DistinctShapes subset := by
  refine List.Nodup.map_on ?_ hnodup
  intro path hpath other hother heq
  exact List.inj_on_of_nodup_map hshapes (hsubset hpath) (hsubset hother) heq

/-- **The index lists the matching paths in rank order.** It hands out the table of each path the
request matches once and no other, ordered by the kind of the first segment where two paths differ; an
index of a subset lists the same, less what it does not hold. -/
theorem each_lists_ranking (emptyLast : Bool) (paths : List (Text × Nat))
    (hshapes : DistinctShapes paths) (request : Text) :
    ∃ ranking : List (Pattern × Nat),
      IsRanking emptyLast request (entriesOf paths) ranking ∧
      (ofPaths emptyLast paths).listing request = ranking.map Prod.snd ∧
      ∀ subset : List (Text × Nat), subset.Nodup → subset ⊆ paths →
        (ofPaths emptyLast subset).listing request =
          (ranking.filter fun entry => entry ∈ entriesOf subset).map Prod.snd := by
  refine ⟨(ofPaths emptyLast paths).found request, ofPaths_isRanking emptyLast hshapes request,
    listing_eq _ request, ?_⟩
  intro subset hnodup hsubset
  have hsub := hshapes.subset hnodup hsubset
  have hentries : ((entriesOf paths).filter fun entry => entry ∈ entriesOf subset).Perm
      (entriesOf subset) := by
    rw [List.perm_ext_iff_of_nodup (hshapes.nodup_entriesOf.filter _) hsub.nodup_entriesOf]
    intro entry
    rw [List.mem_filter, decide_eq_true_eq]
    refine ⟨fun h => h.2, fun h => ⟨?_, h⟩⟩
    obtain ⟨path, hpath, rfl⟩ := List.mem_map.mp h
    exact List.mem_map.mpr ⟨path, hsubset hpath, rfl⟩
  have hfiltered := ((ofPaths_isRanking emptyLast hshapes request).filter fun entry =>
    entry ∈ entriesOf subset).of_perm hentries
  rw [listing_eq, (ofPaths_isRanking emptyLast hsub request).unique hfiltered]

theorem each_lists_ranking_of_three :
    DistinctShapes [(str "/a/\x7bx\x7d", 0), (str "/a/b", 1), (str "/\x7b*rest\x7d", 2)] ∧
      ∃ ranking : List (Pattern × Nat),
        IsRanking false (str "/a/b")
          (entriesOf [(str "/a/\x7bx\x7d", 0), (str "/a/b", 1), (str "/\x7b*rest\x7d", 2)]) ranking ∧
        (ofPaths false [(str "/a/\x7bx\x7d", 0), (str "/a/b", 1),
          (str "/\x7b*rest\x7d", 2)]).listing (str "/a/b") = ranking.map Prod.snd := by
  have hshapes : DistinctShapes
      [(str "/a/\x7bx\x7d", 0), (str "/a/b", 1), (str "/\x7b*rest\x7d", 2)] := by decide
  obtain ⟨ranking, hranking, hlisting, -⟩ := each_lists_ranking false _ hshapes (str "/a/b")
  exact ⟨hshapes, ranking, hranking, hlisting⟩

end Index

end StructuredProxy
