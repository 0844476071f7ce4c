import StructuredProxy.Transcode.Choose

/-!
# The transcoded paths among every route of the proxy

`Ranked` ranks the tables and the proxy's other routes in one index. A request goes to the best-ranked
table only when no other route stands before it, and `ranks_first` asks the same of each table a
refused request falls back to.
-/

namespace StructuredProxy

/-- Another route of the proxy: the method it answers, none for every method, and its router path. -/
abbrev OtherRoute := Option Method × Text

structure Ranked where
  index : Index
  /-- The positions below this are tables; the one at it, another route. -/
  tables : Nat
  /-- For each table, the methods another route answers at the very same path. -/
  shared : List (List Method)
  /-- For each table, whether a binding of it answers HEAD itself. -/
  head : List Bool

namespace Ranked

def addOther (tables : Nat) (state : Index × List (List Method)) (other : OtherRoute) :
    Option (Index × List (List Method)) :=
  let (index, shared) := state
  let (method, path) := other
  if !Index.holds path then none
  else
    let (index, slot) := index.slot path
    match slot.read index.nodes, method with
    | none, _ => some ({ index with nodes := slot.write index.nodes (some tables) }, shared)
    | some table, some method =>
        if table < tables then some (index, shared.modify table (· ++ [method]))
        else some (index, shared)
    | some table, none => if table < tables then none else some (index, shared)

/-- `routes` among `others`, none when a path or a pair of routes cannot be ranked. -/
def new (emptyLast : Bool) (routes : Routes) (others : List OtherRoute) : Option Ranked :=
  let tables := routes.tables.length
  let index := Index.ofPaths emptyLast (Routes.pathsOf routes.tables)
  (others.foldlM (addOther tables) (index, List.replicate tables [])).map fun (index, shared) =>
    { index, tables, shared, head := routes.tables.map PathTable.bindsHead }

variable (ranked : Ranked)

/-- Whether another route at the path of `table` takes `method` from it. -/
def theirs (table : Nat) (method : Method) : Bool :=
  let shared := ranked.shared.getD table []
  shared.contains method ||
    (method = Method.HEAD && !ranked.head.getD table false && shared.contains Method.GET)

/-- The table a request is routed to, none when it is another route's or no route's. -/
def table (method : Method) (path : Text) : Option Nat :=
  (ranked.index.first path).filter fun table =>
    table < ranked.tables && !ranked.theirs table method

def standsFirst (table : Nat) (method : Method) (id : Nat) : Except Bool Unit :=
  if id ≥ ranked.tables || ranked.theirs id method then throw false
  else if id = table then throw true
  else pure ()

def ranksFirst (table : Nat) (method : Method) (path : Text) : Bool :=
  match ranked.index.each path (ranked.standsFirst table method) with
  | .error first => first
  | .ok () => false

def splitCommaSpace : Text → List Text
  | first :: second :: rest =>
      if [first, second] = PathTable.commaSpace then [] :: splitCommaSpace rest
      else (splitCommaSpace (second :: rest)).modifyHead (first :: ·)
  | short => [short]

/-! ### The joint ranking -/

section Joint

variable (tables : List PathTable) (others : List OtherRoute)

def otherShapes : List Pattern :=
  ((others.map fun other => Pattern.ofPath other.2).filter fun shape =>
    shape ∉ tables.map fun table => Pattern.ofPath table.path).eraseDups

def jointEntries : List (Pattern × Option Nat) :=
  (Index.entriesOf (Routes.pathsOf tables)).map (fun entry => (entry.1, some entry.2)) ++
    (otherShapes tables others).map (·, none)

/-- Another route at the very path of `table` answers `method`, or a HEAD with its GET when the table
binds no HEAD itself. -/
def TakenByOther (table : PathTable) (method : Method) : Prop :=
  ∃ bound path, (some bound, path) ∈ others ∧ Pattern.ofPath path = Pattern.ofPath table.path ∧
    (bound = method ∨ method = Method.HEAD ∧ bound = Method.GET ∧ table.bindsHead = false)

/-- What `new` has built from the tables and the other routes `done`. -/
structure Holds (emptyLast : Bool) (done : List OtherRoute)
    (state : Index × List (List Method)) : Prop where
  tree : IsTree state.1.nodes
  emptyLast_eq : state.1.emptyLast = emptyLast
  entry : ∀ pattern id, state.1.entry pattern = some id ↔
    (pattern, id) ∈ Index.entriesOf (Routes.pathsOf tables) ∨
      id = tables.length ∧ pattern ∈ otherShapes tables done
  length : state.2.length = tables.length
  shared : ∀ position method, method ∈ state.2.getD position [] ↔
    ∃ path, (some method, path) ∈ done ∧
      (Pattern.ofPath path, position) ∈ Index.entriesOf (Routes.pathsOf tables)

variable {tables others}

theorem mem_otherShapes_iff {shape : Pattern} :
    shape ∈ otherShapes tables others ↔
      (∃ other ∈ others, Pattern.ofPath other.2 = shape) ∧
        shape ∉ tables.map fun table => Pattern.ofPath table.path := by
  rw [otherShapes, List.mem_eraseDups, List.mem_filter, List.mem_map, decide_eq_true_eq]

theorem mem_entriesOf_iff {shape : Pattern} {position : Nat} :
    (shape, position) ∈ Index.entriesOf (Routes.pathsOf tables) ↔
      ∃ table, tables[position]? = some table ∧ Pattern.ofPath table.path = shape := by
  simp only [Index.entriesOf, Routes.pathsOf, List.map_map, List.mem_map, Prod.exists,
    List.mem_zipIdx_iff_getElem?, Function.comp, Prod.mk.injEq]
  constructor
  · rintro ⟨table, i, htable, hshape, rfl⟩
    exact ⟨table, htable, hshape⟩
  · rintro ⟨table, htable, hshape⟩
    exact ⟨table, position, htable, hshape, rfl⟩

theorem shape_mem_of_mem_entriesOf {shape : Pattern} {position : Nat}
    (hmem : (shape, position) ∈ Index.entriesOf (Routes.pathsOf tables)) :
    position < tables.length ∧ shape ∈ tables.map fun table => Pattern.ofPath table.path := by
  obtain ⟨table, htable, rfl⟩ := mem_entriesOf_iff.mp hmem
  exact ⟨(List.getElem?_eq_some_iff.mp htable).1,
    List.mem_map.mpr ⟨table, List.mem_of_getElem? htable, rfl⟩⟩

theorem holds_start {emptyLast : Bool}
    (hshapes : Index.DistinctShapes (Routes.pathsOf tables)) :
    Holds tables emptyLast [] (Index.ofPaths emptyLast (Routes.pathsOf tables),
      List.replicate tables.length []) := by
  obtain ⟨htree, hempty, hentry⟩ := Index.ofPaths_spec emptyLast hshapes
  refine ⟨htree, hempty, ?_, List.length_replicate, ?_⟩
  · intro pattern id
    rw [hentry, mem_otherShapes_iff]
    simp
  · intro position method
    rw [List.getD_eq_getElem?_getD, List.getElem?_replicate]
    split <;> simp

theorem mem_otherShapes_concat {done : List OtherRoute} {other : OtherRoute} {shape : Pattern} :
    shape ∈ otherShapes tables (done ++ [other]) ↔
      shape ∈ otherShapes tables done ∨
        shape = Pattern.ofPath other.2 ∧
          shape ∉ tables.map fun table => Pattern.ofPath table.path := by
  simp only [mem_otherShapes_iff, List.mem_append, List.mem_singleton]
  constructor
  · rintro ⟨⟨route, hmem | rfl, hshape⟩, hnot⟩
    · exact Or.inl ⟨⟨route, hmem, hshape⟩, hnot⟩
    · exact Or.inr ⟨hshape.symm, hnot⟩
  · rintro (⟨⟨route, hmem, hshape⟩, hnot⟩ | ⟨rfl, hnot⟩)
    · exact ⟨⟨route, Or.inl hmem, hshape⟩, hnot⟩
    · exact ⟨⟨other, Or.inr rfl, rfl⟩, hnot⟩

namespace Holds

variable {emptyLast : Bool} {done : List OtherRoute} {state : Index × List (List Method)}
  {method : Option Method} {path : Text} (hholds : Holds tables emptyLast done state)
include hholds

theorem concat_new {index : Index} (htree : IsTree index.nodes)
    (hempty : index.emptyLast = emptyLast) (hnone : state.1.entry (Pattern.ofPath path) = none)
    (hentry : ∀ pattern, index.entry pattern =
      if pattern = Pattern.ofPath path then some tables.length else state.1.entry pattern) :
    Holds tables emptyLast (done ++ [(method, path)]) (index, state.2) := by
  have hnot : ∀ position, (Pattern.ofPath path, position) ∉
      Index.entriesOf (Routes.pathsOf tables) := by
    intro position hmem
    have hsome := (hholds.entry _ _).mpr (Or.inl hmem)
    rw [hnone] at hsome
    exact Option.some_ne_none _ hsome.symm
  have hshape : Pattern.ofPath path ∉ tables.map fun table => Pattern.ofPath table.path := by
    intro hmem
    obtain ⟨table, htable, heq⟩ := List.mem_map.mp hmem
    obtain ⟨position, hposition⟩ := List.mem_iff_getElem?.mp htable
    exact hnot position (mem_entriesOf_iff.mpr ⟨table, hposition, heq⟩)
  refine ⟨htree, hempty, ?_, hholds.length, ?_⟩
  · intro pattern id
    rw [hentry, mem_otherShapes_concat]
    by_cases hpattern : pattern = Pattern.ofPath path
    · subst hpattern
      simp [hnot, hshape, eq_comm]
    · simp [hpattern, hholds.entry]
  · intro position bound
    rw [hholds.shared]
    refine exists_congr fun other => ?_
    rw [List.mem_append, List.mem_singleton, or_and_right]
    refine (or_iff_left ?_).symm
    rintro ⟨heq, hmem⟩
    cases heq
    exact hnot position hmem

theorem concat_other {index : Index} (htree : IsTree index.nodes)
    (hempty : index.emptyLast = emptyLast) (hentry : index.entry = state.1.entry) {id : Nat}
    (hsome : state.1.entry (Pattern.ofPath path) = some id) (hid : ¬ id < tables.length) :
    Holds tables emptyLast (done ++ [(method, path)]) (index, state.2) := by
  have hother : Pattern.ofPath path ∈ otherShapes tables done := by
    rcases (hholds.entry _ _).mp hsome with hmem | ⟨-, hmem⟩
    · exact absurd (shape_mem_of_mem_entriesOf hmem).1 hid
    · exact hmem
  refine ⟨htree, hempty, ?_, hholds.length, ?_⟩
  · intro pattern id
    rw [hentry, hholds.entry, mem_otherShapes_concat]
    refine or_congr_right (and_congr_right fun _ => ⟨Or.inl, ?_⟩)
    rintro (hmem | ⟨rfl, -⟩)
    · exact hmem
    · exact hother
  · intro position bound
    rw [hholds.shared]
    refine exists_congr fun other => ?_
    rw [List.mem_append, List.mem_singleton, or_and_right]
    refine (or_iff_left ?_).symm
    rintro ⟨heq, hmem⟩
    cases heq
    exact (mem_otherShapes_iff.mp hother).2 (shape_mem_of_mem_entriesOf hmem).2

theorem concat_shared {index : Index} (htree : IsTree index.nodes)
    (hempty : index.emptyLast = emptyLast) (hentry : index.entry = state.1.entry) {table : Nat}
    (hsome : state.1.entry (Pattern.ofPath path) = some table) (htable : table < tables.length)
    (bound : Method) :
    Holds tables emptyLast (done ++ [(some bound, path)])
      (index, state.2.modify table (· ++ [bound])) := by
  have hmem : (Pattern.ofPath path, table) ∈ Index.entriesOf (Routes.pathsOf tables) := by
    rcases (hholds.entry _ _).mp hsome with hmem | ⟨rfl, -⟩
    · exact hmem
    · exact absurd htable (Nat.lt_irrefl _)
  have honly : ∀ position, (Pattern.ofPath path, position) ∈
      Index.entriesOf (Routes.pathsOf tables) ↔ position = table := by
    intro position
    refine ⟨fun hposition => ?_, fun heq => heq ▸ hmem⟩
    have hsome' := (hholds.entry _ _).mpr (Or.inl hposition)
    exact Option.some.inj (hsome'.symm.trans hsome)
  refine ⟨htree, hempty, ?_, by rw [List.length_modify, hholds.length], ?_⟩
  · intro pattern id
    rw [hentry, hholds.entry, mem_otherShapes_concat]
    refine or_congr_right (and_congr_right fun _ => ⟨Or.inl, ?_⟩)
    rintro (hother | ⟨rfl, hnot⟩)
    · exact hother
    · exact absurd (shape_mem_of_mem_entriesOf hmem).2 hnot
  · intro position m
    have hget : m ∈ (state.2.modify table (· ++ [bound])).getD position [] ↔
        m ∈ state.2.getD position [] ∨ position = table ∧ m = bound := by
      rw [List.getD_eq_getElem?_getD, List.getD_eq_getElem?_getD, List.getElem?_modify]
      by_cases hposition : table = position
      · subst hposition
        rw [List.getElem?_eq_getElem (by rw [hholds.length]; exact htable)]
        simp
      · have hne : position ≠ table := fun heq => hposition heq.symm
        simp [hposition, hne]
    rw [hget, hholds.shared]
    constructor
    · rintro (⟨other, hother, hposition⟩ | ⟨rfl, rfl⟩)
      · exact ⟨other, List.mem_append_left _ hother, hposition⟩
      · exact ⟨path, List.mem_append_right _ (List.mem_singleton_self _), hmem⟩
    · rintro ⟨other, hother, hposition⟩
      rcases List.mem_append.mp hother with hother | hother
      · exact Or.inl ⟨other, hother, hposition⟩
      · obtain ⟨heq, rfl⟩ := Prod.mk.inj (List.mem_singleton.mp hother)
        exact Or.inr ⟨(honly position).mp hposition, Option.some.inj heq⟩

theorem addOther {state' : Index × List (List Method)}
    (hadd : Ranked.addOther tables.length state (method, path) = some state') :
    Holds tables emptyLast (done ++ [(method, path)]) state' := by
  obtain ⟨htree, hentry, hread, hwrite⟩ := Index.slot_spec hholds.tree path
  have hempty : (state.1.slot path).1.emptyLast = emptyLast := hholds.emptyLast_eq
  unfold Ranked.addOther at hadd
  simp only [hread] at hadd
  split at hadd
  · exact absurd hadd (by simp)
  · cases hslot : state.1.entry (Pattern.ofPath path) with
    | none =>
        rw [hslot] at hadd
        obtain rfl := Option.some.inj hadd
        obtain ⟨htree', hentry'⟩ := hwrite (some tables.length)
        exact hholds.concat_new htree' hempty hslot hentry'
    | some id =>
        rw [hslot] at hadd
        by_cases hid : id < tables.length
        · cases method with
          | none => simp [hid] at hadd
          | some bound =>
              simp only [hid, ↓reduceIte, Option.some.injEq] at hadd
              subst hadd
              exact hholds.concat_shared htree hempty hentry hslot hid bound
        · have hstate : state' = ((state.1.slot path).1, state.2) := by
            cases method <;> simpa [hid, eq_comm] using hadd
          subst hstate
          exact hholds.concat_other htree hempty hentry hslot hid

end Holds

theorem holds_foldlM {emptyLast : Bool} (others : List OtherRoute) :
    ∀ {done : List OtherRoute} {state state' : Index × List (List Method)},
      Holds tables emptyLast done state →
      others.foldlM (addOther tables.length) state = some state' →
      Holds tables emptyLast (done ++ others) state' := by
  induction others with
  | nil =>
      intro done state state' hholds hfold
      obtain rfl := Option.some.inj hfold
      rwa [List.append_nil]
  | cons other others ih =>
      intro done state state' hholds hfold
      rw [List.foldlM_cons, Option.bind_eq_bind, Option.bind_eq_some_iff] at hfold
      obtain ⟨middle, hmiddle, hfold⟩ := hfold
      have hrest := ih (hholds.addOther hmiddle) hfold
      rwa [List.append_assoc, List.singleton_append] at hrest

theorem nodup_jointEntries (others : List OtherRoute)
    (hshapes : Index.DistinctShapes (Routes.pathsOf tables)) :
    ((jointEntries tables others).map fun entry =>
      (entry.1, entry.2.getD tables.length)).Nodup := by
  refine List.Nodup.of_map Prod.fst ?_
  have hfirst : ((jointEntries tables others).map fun entry =>
      (entry.1, entry.2.getD tables.length)).map Prod.fst =
      (Routes.pathsOf tables).map (fun path => Pattern.ofPath path.1) ++
        otherShapes tables others := by
    simp only [jointEntries, Index.entriesOf, List.map_append, List.map_map]
    congr 1
    exact List.map_id _
  rw [hfirst]
  refine List.nodup_append.mpr ⟨hshapes, Lib.nodup_eraseDups _, ?_⟩
  rintro shape hmem other hother rfl
  obtain ⟨path, hpath, rfl⟩ := List.mem_map.mp hmem
  have hentry : (Pattern.ofPath path.1, path.2) ∈ Index.entriesOf (Routes.pathsOf tables) :=
    List.mem_map.mpr ⟨path, hpath, rfl⟩
  exact (mem_otherShapes_iff.mp hother).2 (shape_mem_of_mem_entriesOf hentry).2

/-- The joint index lists the joint ranking, every other route under one id. -/
theorem listing_eq_joint {emptyLast : Bool} {path : Text} {ranking : List (Pattern × Option Nat)}
    {state : Index × List (List Method)} (hholds : Holds tables emptyLast others state)
    (hshapes : Index.DistinctShapes (Routes.pathsOf tables))
    (hranking : IsRanking emptyLast path (jointEntries tables others) ranking) :
    state.1.listing path = ranking.map fun entry => entry.2.getD tables.length := by
  have hfound := state.1.found_isRanking (nodup_jointEntries others hshapes) ?_ path
  · rw [hholds.emptyLast_eq] at hfound
    rw [Index.listing_eq, hfound.unique (hranking.map fun id => id.getD tables.length), List.map_map]
    rfl
  · intro pattern id
    rw [hholds.entry, jointEntries, List.map_append, List.mem_append, List.map_map, List.map_map]
    refine or_congr ?_ ?_
    · simp [Function.comp_def]
    · simp [Function.comp_def, and_comm, eq_comm]

end Joint

def ours (method : Method) (id : Nat) : Bool := id < ranked.tables && !ranked.theirs id method

variable {ranked} {method : Method} {path : Text} {table : Nat}

theorem exists_split_of_ranksFirst (h : ranked.ranksFirst table method path = true) :
    ∃ before after, ranked.index.listing path = before ++ table :: after ∧
      ∀ id ∈ before ++ [table], ranked.ours method id = true := by
  unfold ranksFirst at h
  rw [Index.each_eq_forM_listing] at h
  generalize ranked.index.listing path = listing at h ⊢
  induction listing with
  | nil => exact absurd h Bool.false_ne_true
  | cons id rest ih =>
      rw [List.forM_cons, standsFirst] at h
      by_cases htheirs : (decide (id ≥ ranked.tables) || ranked.theirs id method) = true
      · rw [if_pos htheirs] at h
        exact absurd h Bool.false_ne_true
      · have hours : ranked.ours method id = true := by
          simpa [ours, Nat.not_le] using htheirs
        rw [if_neg htheirs] at h
        by_cases hid : id = table
        · subst hid
          exact ⟨[], rest, rfl, by simpa using hours⟩
        · rw [if_neg hid] at h
          obtain ⟨before, after, hrest, hall⟩ := ih h
          refine ⟨id :: before, after, by rw [hrest]; rfl, ?_⟩
          intro other hmem
          rcases List.mem_cons.mp hmem with rfl | hmem
          · exact hours
          · exact hall other hmem

theorem exists_split_of_table (h : ranked.table method path = some table) :
    ∃ before after, ranked.index.listing path = before ++ table :: after ∧
      ∀ id ∈ before ++ [table], ranked.ours method id = true := by
  rw [Ranked.table, Index.first_eq, Option.filter_eq_some_iff] at h
  obtain ⟨after, hafter⟩ := List.head?_eq_some_iff.mp h.1
  exact ⟨[], after, hafter, by simpa [ours] using h.2⟩

end Ranked

/-! ### The table a choice names -/

namespace Choice

def table? : Choice → Option Nat
  | route table _ => some table
  | methodNotAllowed table _ => some table
  | notFound => none

end Choice

namespace Routes

variable {routes : Routes} {method : Method} {admits : Binding → Bool} {path : Text}
  {ranks : Nat → Bool} {table : Nat}

theorem table?_choose {position : Nat} {choice : Choice}
    (h : (routes.table position).choose position method admits = some choice) :
    choice.table? = some position := by
  rw [PathTable.choose_eq] at h
  cases hserved : (routes.table position).served method admits with
  | some index =>
      rw [hserved] at h
      obtain rfl := Option.some.inj h
      rfl
  | none =>
      rw [hserved] at h
      simp only [Option.ite_none_right_eq_some, Option.some.injEq] at h
      rw [← h.2]
      rfl

theorem table?_answerFrom (positions : List Nat) : ∀ {notAllowed : Option Choice} {choice : Choice},
    routes.answerFrom method admits positions notAllowed = some choice →
      notAllowed = some choice ∨ ∃ position ∈ positions, choice.table? = some position := by
  induction positions with
  | nil =>
      intro notAllowed choice h
      exact Or.inl h
  | cons position rest ih =>
      intro notAllowed choice h
      rw [answerFrom] at h
      cases hchoose : (routes.table position).choose position method admits with
      | none =>
          rw [hchoose] at h
          rcases ih h with hnot | ⟨other, hmem, hother⟩
          · exact Or.inl hnot
          · exact Or.inr ⟨other, List.mem_cons_of_mem _ hmem, hother⟩
      | some found =>
          have htable := table?_choose hchoose
          have hhere : some found = some choice →
              ∃ other ∈ position :: rest, choice.table? = some other := by
            intro heq
            exact ⟨position, List.mem_cons_self, Option.some.inj heq ▸ htable⟩
          rw [hchoose] at h
          cases found with
          | methodNotAllowed other allow =>
              rcases ih h with hnot | ⟨other, hmem, hother⟩
              · rcases Option.or_eq_some_iff.mp hnot with hnot | ⟨-, heq⟩
                · exact Or.inl hnot
                · exact Or.inr (hhere heq)
              · exact Or.inr ⟨other, List.mem_cons_of_mem _ hmem, hother⟩
          | route other index => exact Or.inr (hhere h)
          | notFound => exact Or.inr (hhere h)

def NamesAdmitted (position : Nat) (ranks : Nat → Bool) (choice : Choice) : Prop :=
  ∀ table, choice.table? = some table → table = position ∨ ranks table = true

variable {position : Nat}

theorem namesAdmitted_answer {index : Index} {first : Nat} {choice : Choice}
    (hfirst : first = position ∨ ranks first = true)
    (h : routes.answer method admits index first path ranks = some choice) :
    NamesAdmitted position ranks choice := by
  intro table htable
  rw [answer_eq] at h
  rcases table?_answerFrom _ h with hnone | ⟨other, hmem, hother⟩
  · exact absurd hnone.symm (Option.some_ne_none _)
  · obtain rfl := Option.some.inj (htable.symm.trans hother)
    rcases List.mem_cons.mp hmem with rfl | hmem
    · exact hfirst
    · exact Or.inr (List.mem_takeWhile_imp hmem)

theorem namesAdmitted_chooseVerb {choice : Choice}
    (h : routes.chooseVerb position method path ranks = some choice) :
    NamesAdmitted position ranks choice := by
  simp only [chooseVerb, Option.bind_eq_bind, Option.bind_eq_some_iff] at h
  obtain ⟨⟨rest, verb⟩, -, index, -, first, hfirst, hanswer⟩ := h
  have hranks := (Option.filter_eq_some_iff.mp hfirst).2
  rw [Bool.or_eq_true, decide_eq_true_eq] at hranks
  exact namesAdmitted_answer hranks hanswer

theorem namesAdmitted_choosePlain :
    NamesAdmitted position ranks (routes.choosePlain position method path ranks) := by
  have hfirst : ∀ first, (if (routes.table position).plain then some position
      else (routes.plain.first path).filter ranks) = some first →
      first = position ∨ ranks first = true := by
    intro first hfirst
    split at hfirst
    · exact Or.inl (Option.some.inj hfirst).symm
    · exact Or.inr (Option.filter_eq_some_iff.mp hfirst).2
  unfold choosePlain
  cases hpick : (if (routes.table position).plain then some position
      else (routes.plain.first path).filter ranks) with
  | none => exact fun table htable => absurd htable.symm (Option.some_ne_none _)
  | some first =>
      change NamesAdmitted position ranks
        ((routes.answer method (isPlain path) routes.plain first path ranks).getD .notFound)
      cases hanswer : routes.answer method (isPlain path) routes.plain first path ranks with
      | none => exact fun table htable => absurd htable.symm (Option.some_ne_none _)
      | some choice => exact namesAdmitted_answer (hfirst first hpick) hanswer

theorem namesAdmitted_chooseRanked :
    NamesAdmitted position ranks (routes.chooseRanked position method path ranks) := by
  unfold chooseRanked
  cases hliteral : (if (routes.table position).literalEnd then
      (routes.table position).choose position method (isPlain path) else none) with
  | some choice =>
      rw [Option.ite_none_right_eq_some] at hliteral
      intro table htable
      exact Or.inl (Option.some.inj (htable.symm.trans (table?_choose hliteral.2)))
  | none =>
      cases hverb : routes.chooseVerb position method path ranks with
      | some choice => exact namesAdmitted_chooseVerb hverb
      | none => exact namesAdmitted_choosePlain

end Routes

namespace Ranked

variable {emptyLast : Bool} {tables : List PathTable} {others : List OtherRoute} {ranked : Ranked}
  {method : Method} {path : Text}

theorem theirs_iff (hshared : ∀ position bound, bound ∈ ranked.shared.getD position [] ↔
      ∃ path, (some bound, path) ∈ others ∧
        (Pattern.ofPath path, position) ∈ Index.entriesOf (Routes.pathsOf tables))
    (hhead : ranked.head = tables.map PathTable.bindsHead) {position : Nat} {table : PathTable}
    (htable : tables[position]? = some table) :
    ranked.theirs position method = true ↔ TakenByOther others table method := by
  have hbound : ∀ bound, bound ∈ ranked.shared.getD position [] ↔
      ∃ path, (some bound, path) ∈ others ∧ Pattern.ofPath path = Pattern.ofPath table.path := by
    intro bound
    rw [hshared]
    refine exists_congr fun path => and_congr_right fun _ => ?_
    rw [mem_entriesOf_iff, htable]
    simp [eq_comm]
  have hbinds : ranked.head.getD position false = table.bindsHead := by
    rw [hhead, List.getD_eq_getElem?_getD, List.getElem?_map, htable]
    rfl
  simp only [theirs, Bool.or_eq_true, Bool.and_eq_true, List.contains_iff_mem, hbound, hbinds,
    decide_eq_true_eq, Bool.not_eq_true', TakenByOther]
  constructor
  · rintro (⟨path, hmem, hshape⟩ | ⟨⟨hmethod, hnone⟩, path, hmem, hshape⟩)
    · exact ⟨method, path, hmem, hshape, Or.inl rfl⟩
    · exact ⟨Method.GET, path, hmem, hshape, Or.inr ⟨hmethod, rfl, hnone⟩⟩
  · rintro ⟨bound, path, hmem, hshape, rfl | ⟨hmethod, rfl, hnone⟩⟩
    · exact Or.inl ⟨path, hmem, hshape⟩
    · exact Or.inr ⟨⟨hmethod, hnone⟩, path, hmem, hshape⟩

theorem new_spec (hshapes : Index.DistinctShapes (Routes.pathsOf tables))
    (hnew : Ranked.new emptyLast (Routes.new emptyLast tables) others = some ranked) :
    Holds tables emptyLast others (ranked.index, ranked.shared) ∧ ranked.tables = tables.length ∧
      ranked.head = tables.map PathTable.bindsHead := by
  simp only [Ranked.new, Routes.tables_new, Option.map_eq_some_iff, Prod.exists] at hnew
  obtain ⟨index, shared, hfold, rfl⟩ := hnew
  exact ⟨holds_foldlM others (holds_start hshapes) hfold, rfl, rfl⟩

/-- **A request another route ranks first for is never taken from it.** When the choice started at the
table the request is routed to names a table, every entry of the joint ranking up to that table is a
table that no other route at its path takes the method from. -/
theorem chooseRanked_before_others (hshapes : Index.DistinctShapes (Routes.pathsOf tables))
    (hnew : Ranked.new emptyLast (Routes.new emptyLast tables) others = some ranked)
    {ranking : List (Pattern × Option Nat)}
    (hranking : IsRanking emptyLast path (jointEntries tables others) ranking) {start table : Nat}
    (hstart : ranked.table method path = some start)
    (hchoice : ((Routes.new emptyLast tables).chooseRanked start method path
      fun other => ranked.ranksFirst other method path).table? = some table) :
    ∃ before after, ranking.map Prod.snd = before ++ some table :: after ∧
      ∀ entry ∈ before ++ [some table], ∃ position pathTable, entry = some position ∧
        tables[position]? = some pathTable ∧ ¬ TakenByOther others pathTable method := by
  obtain ⟨hholds, htables, hhead⟩ := new_spec hshapes hnew
  have hlisting : ranked.index.listing path = (ranking.map Prod.snd).map (·.getD tables.length) := by
    rw [List.map_map]
    exact listing_eq_joint hholds hshapes hranking
  have hsplit : ∃ before after, ranked.index.listing path = before ++ table :: after ∧
      ∀ id ∈ before ++ [table], ranked.ours method id = true := by
    rcases Routes.namesAdmitted_chooseRanked table hchoice with rfl | hranks
    · exact exists_split_of_table hstart
    · exact exists_split_of_ranksFirst hranks
  obtain ⟨before, after, hbefore, hours⟩ := hsplit
  rw [hlisting, List.map_eq_append_iff] at hbefore
  obtain ⟨first, second, hjoint, hfirst, hsecond⟩ := hbefore
  obtain ⟨own, rest, rfl, hown, hrest⟩ := List.map_eq_cons_iff.mp hsecond
  have hentry : ∀ entry : Option Nat, entry.getD tables.length ∈ before ++ [table] →
      ∃ position pathTable, entry = some position ∧ tables[position]? = some pathTable ∧
        ¬ TakenByOther others pathTable method := by
    intro entry hmem
    have hkept := hours _ hmem
    rw [ours, Bool.and_eq_true, decide_eq_true_eq, Bool.not_eq_true', htables] at hkept
    cases entry with
    | none => exact absurd hkept.1 (Nat.lt_irrefl _)
    | some position =>
        rw [Option.getD_some] at hkept
        have hget : tables[position]? = some tables[position] := List.getElem?_eq_getElem hkept.1
        refine ⟨position, tables[position], rfl, hget, ?_⟩
        rw [← theirs_iff hholds.shared hhead hget]
        exact Bool.eq_false_iff.mp hkept.2
  obtain ⟨position, -, rfl, -, -⟩ :=
    hentry own (hown ▸ List.mem_append_right _ (List.mem_singleton_self _))
  rw [Option.getD_some] at hown
  subst hown
  refine ⟨first, rest, hjoint, ?_⟩
  intro entry hmem
  refine hentry entry ?_
  rcases List.mem_append.mp hmem with hmem | hmem
  · exact List.mem_append_left _ (hfirst ▸ List.mem_map_of_mem hmem)
  · rw [List.mem_singleton.mp hmem]
    exact List.mem_append_right _ (List.mem_singleton_self _)

/-- A request its own table refuses falls back past no other route. -/
theorem chooseRanked_before_others_fallback :
    let tables := [
      PathTable.new percentDecoder (MountedPath.new (str "/a/\x7bx\x7d"))
        ⟨str "/a/\x7bx\x7d", .one .GET, str "/p.S/Get"⟩,
      PathTable.new percentDecoder (MountedPath.new (str "/\x7by\x7d/b"))
        ⟨str "/\x7by\x7d/b", .one .POST, str "/p.S/Post"⟩]
    let others : List OtherRoute := [(none, str "/\x7b*rest\x7d")]
    ∃ ranked, Ranked.new false (Routes.new false tables) others = some ranked ∧
      ranked.table .POST (str "/a/b") = some 0 ∧
      (Routes.new false tables).chooseRanked 0 .POST (str "/a/b")
        (fun other => ranked.ranksFirst other .POST (str "/a/b")) = .route 1 0 ∧
      ∃ before after, [some 0, some 1, none] = before ++ some 1 :: after ∧
        ∀ entry ∈ before ++ [some 1], ∃ position pathTable, entry = some position ∧
          tables[position]? = some pathTable ∧ ¬ TakenByOther others pathTable .POST := by
  intro tables others
  have hshapes : Index.DistinctShapes (Routes.pathsOf tables) := by decide
  have hranking : IsRanking false (str "/a/b") (jointEntries tables others)
      [(Pattern.ofPath (str "/a/\x7bx\x7d"), some 0), (Pattern.ofPath (str "/\x7by\x7d/b"), some 1),
        (.catchAll, none)] := by decide
  have hrun : (Ranked.new false (Routes.new false tables) others).any (fun ranked =>
      ranked.table .POST (str "/a/b") = some 0 ∧
        (Routes.new false tables).chooseRanked 0 .POST (str "/a/b")
          (fun other => ranked.ranksFirst other .POST (str "/a/b")) = .route 1 0) = true := by
    decide +kernel
  cases hnew : Ranked.new false (Routes.new false tables) others with
  | none => rw [hnew] at hrun; exact absurd hrun Bool.false_ne_true
  | some ranked =>
      rw [hnew, Option.any_some, decide_eq_true_eq] at hrun
      exact ⟨ranked, rfl, hrun.1, hrun.2,
        chooseRanked_before_others hshapes hnew hranking hrun.1 (by rw [hrun.2]; rfl)⟩

end Ranked

end StructuredProxy
