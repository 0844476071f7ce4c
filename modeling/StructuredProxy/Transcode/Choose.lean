import StructuredProxy.Transcode.RoutesIndex
import Mathlib.Data.List.TakeWhile

/-!
# Which binding answers a request

The reference for `Routes::choose` is stated over the ranking of the tables a request matches: which
kind of binding answers, then the first table in rank order that serves the method, then the first
that answers at all. The shortcuts of the source (its separate indexes, the table of the router taken
first and skipped later, the remembered 405) do not show in it.
-/

namespace StructuredProxy

namespace Routes

variable (routes : Routes) (method : Method) (admits : Binding → Bool)

def answerFrom : List Nat → Option Choice → Option Choice
  | [], notAllowed => notAllowed
  | position :: rest, notAllowed =>
      match (routes.table position).choose position method admits with
      | some (.methodNotAllowed table allow) =>
          answerFrom rest (notAllowed.or (some (.methodNotAllowed table allow)))
      | some choice => some choice
      | none => answerFrom rest notAllowed

def walked : Except (Option Choice) Unit × Option Choice → Option Choice
  | (.error (some choice), _) => some choice
  | (_, notAllowed) => notAllowed

variable {routes method admits}

theorem walked_forM {first : Nat} {ranks : Nat → Bool} (positions : List Nat) : ∀ notAllowed,
    walked (Id.run ((forM positions (routes.tryTable method admits first ranks)).run.run
      notAllowed)) = routes.answerFrom method admits
        ((positions.filter (· ≠ first)).takeWhile ranks) notAllowed := by
  induction positions with
  | nil => intro notAllowed; rfl
  | cons position rest ih =>
      intro notAllowed
      rw [List.forM_cons, List.filter_cons]
      by_cases hfirst : position = first
      · have hstep : routes.tryTable method admits first ranks position = pure () := by
          simp [tryTable, hfirst]
        rw [hstep, pure_bind, if_neg (by simpa using hfirst)]
        exact ih notAllowed
      · rw [if_pos (by simpa using hfirst), List.takeWhile_cons]
        cases hranks : ranks position with
        | false =>
            have hstep : routes.tryTable method admits first ranks position = throw none := by
              simp [tryTable, hfirst, hranks]
            rw [hstep]
            rfl
        | true =>
            simp only [↓reduceIte, answerFrom]
            cases hchoose : (routes.table position).choose position method admits with
            | none =>
                have hstep : routes.tryTable method admits first ranks position = pure () := by
                  simp [tryTable, hfirst, hranks, hchoose]
                rw [hstep, pure_bind]
                exact ih notAllowed
            | some choice =>
                cases choice with
                | methodNotAllowed table allow =>
                    have hstep : routes.tryTable method admits first ranks position =
                        modify (·.or (some (.methodNotAllowed table allow))) := by
                      simp [tryTable, hfirst, hranks, hchoose]
                    rw [hstep]
                    exact ih (notAllowed.or (some (.methodNotAllowed table allow)))
                | route table index =>
                    have hstep : routes.tryTable method admits first ranks position =
                        throw (some (.route table index)) := by
                      simp [tryTable, hfirst, hranks, hchoose]
                    rw [hstep]
                    rfl
                | notFound =>
                    have hstep : routes.tryTable method admits first ranks position =
                        throw (some .notFound) := by
                      simp [tryTable, hfirst, hranks, hchoose]
                    rw [hstep]
                    rfl

/-- `answer` tries the index's own pick and then the others it lists, as far as `ranks` goes. -/
theorem answer_eq (index : Index) (first : Nat) (path : Text) (ranks : Nat → Bool) :
    routes.answer method admits index first path ranks =
      routes.answerFrom method admits
        (first :: ((index.listing path).filter (· ≠ first)).takeWhile ranks) none := by
  have hwalk : ∀ notAllowed,
      walked (Id.run ((index.each path (routes.tryTable method admits first ranks)).run.run
        notAllowed)) = routes.answerFrom method admits
          (((index.listing path).filter (· ≠ first)).takeWhile ranks) notAllowed := by
    intro notAllowed
    rw [Index.each_eq_forM_listing]
    exact walked_forM _ notAllowed
  unfold answer
  rw [answerFrom]
  cases (routes.table first).choose first method admits with
  | none => exact hwalk none
  | some choice =>
      cases choice with
      | methodNotAllowed table allow => exact hwalk (some (.methodNotAllowed table allow))
      | route table index => rfl
      | notFound => rfl

theorem answerFrom_filter (keep : Nat → Bool) (positions : List Nat)
    (hkeep : ∀ position ∈ positions, keep position = false →
      (routes.table position).bindings.any admits = false) :
    ∀ notAllowed, routes.answerFrom method admits (positions.filter keep) notAllowed =
      routes.answerFrom method admits positions notAllowed := by
  induction positions with
  | nil => intro notAllowed; rfl
  | cons position rest ih =>
      intro notAllowed
      have hrest := ih fun other hother => hkeep other (List.mem_cons_of_mem _ hother)
      cases hposition : keep position with
      | true => simp only [List.filter_cons, hposition, ↓reduceIte, answerFrom, hrest]
      | false =>
          have hany := hkeep position List.mem_cons_self hposition
          have hchoose : (routes.table position).choose position method admits = none := by
            rw [PathTable.choose_eq, PathTable.served_eq_none_of_any _ hany, hany]
            rfl
          simp only [List.filter_cons, hposition, Bool.false_eq_true, ↓reduceIte, answerFrom, hchoose,
            hrest]

variable (routes method admits)

/-- The answer of the admitted bindings of `ranked`: of the first table that serves the method, or
else the methods of the first table with an admitted binding. -/
def firstServing (ranked : List Nat) : Option Choice :=
  (ranked.findSome? fun position =>
      ((routes.table position).served method admits).map (Choice.route position)).or
    ((ranked.find? fun position => (routes.table position).bindings.any admits).map fun position =>
      .methodNotAllowed position (PathTable.commaSpace.intercalate (PathTable.allowTokens
        (PathTable.admittedMethods admits (routes.table position).bindings))))

def isBoundFor (path : Text) (binding : Binding) : Bool :=
  match splitVerb path with
  | some (rest, verb) => isBound path rest (normalizeEscapes verb) binding
  | none => false

/-- Which bindings answer a request, and of which tables: the plain ones of the best table when it ends
in a literal and has some, else those of the request's verb when a table has some, else the plain
ones. -/
def answering (ranked : List Nat) (position : Nat) (path : Text) : (Binding → Bool) × List Nat :=
  if (routes.table position).literalEnd &&
      (routes.table position).bindings.any (isPlain path) then (isPlain path, [position])
  else if ranked.any fun other => (routes.table other).bindings.any (isBoundFor path) then
    (isBoundFor path, ranked)
  else (isPlain path, ranked)

variable {routes method admits}

theorem choose_table_eq (position : Nat) :
    (routes.table position).choose position method admits =
      routes.firstServing method admits [position] := by
  rw [PathTable.choose_eq, firstServing, PathTable.allow_eq]
  cases hserved : (routes.table position).served method admits with
  | some index => simp [hserved]
  | none => cases hany : (routes.table position).bindings.any admits <;> simp [hserved, hany]

theorem answerFrom_eq (positions : List Nat) : ∀ notAllowed,
    routes.answerFrom method admits positions notAllowed =
      ((positions.findSome? fun position =>
        ((routes.table position).served method admits).map (Choice.route position)).or
          notAllowed).or (routes.firstServing method admits positions) := by
  induction positions with
  | nil => intro notAllowed; cases notAllowed <;> rfl
  | cons position rest ih =>
      intro notAllowed
      rw [answerFrom, PathTable.choose_eq, PathTable.allow_eq]
      cases hserved : (routes.table position).served method admits with
      | some index => simp [hserved]
      | none =>
          cases hany : (routes.table position).bindings.any admits with
          | true =>
              simp only [↓reduceIte, ih, firstServing, List.findSome?_cons, hserved, Option.map_none,
                List.find?_cons, hany, Option.map_some]
              cases (rest.findSome? fun position =>
                ((routes.table position).served method admits).map (Choice.route position)) with
              | some choice => rfl
              | none => cases notAllowed <;> simp
          | false =>
              simp only [Bool.false_eq_true, ↓reduceIte, ih, firstServing, List.findSome?_cons,
                hserved, Option.map_none, List.find?_cons, hany]

theorem answerFrom_none (positions : List Nat) :
    routes.answerFrom method admits positions none =
      routes.firstServing method admits positions := by
  rw [answerFrom_eq, Option.or_none, firstServing]
  cases (positions.findSome? fun position =>
    ((routes.table position).served method admits).map (Choice.route position)) <;> rfl

theorem firstServing_eq_none_iff {ranked : List Nat} :
    routes.firstServing method admits ranked = none ↔
      ∀ position ∈ ranked, (routes.table position).bindings.any admits = false := by
  rw [firstServing, Option.or_eq_none_iff, List.findSome?_eq_none_iff, Option.map_eq_none_iff,
    List.find?_eq_none]
  constructor
  · intro h position hmem
    exact Bool.eq_false_iff.mpr (h.2 position hmem)
  · intro h
    refine ⟨fun position hmem => ?_, fun position hmem => Bool.eq_false_iff.mp (h position hmem)⟩
    rw [PathTable.served_eq_none_of_any _ (h position hmem)]
    rfl

theorem isSome_firstServing (routes : Routes) (method : Method) (admits : Binding → Bool)
    (ranked : List Nat) :
    (routes.firstServing method admits ranked).isSome =
      ranked.any fun position => (routes.table position).bindings.any admits := by
  rw [← Bool.not_inj_iff, Option.not_isSome, Bool.eq_iff_iff, Option.isNone_iff_eq_none,
    firstServing_eq_none_iff]
  simp

section Ranking

variable {emptyLast : Bool} {tables : List PathTable} {path : Text} {ranking : List (Pattern × Nat)}

theorem any_table_new (position : Nat) :
    ((new emptyLast tables).table position).bindings.any admits =
      (tables[position]?).any fun table => table.bindings.any admits := by
  rw [table, tables_new, List.getD_eq_getElem?_getD]
  cases tables[position]? <;> rfl

theorem nodup_ranked (hranking : IsRanking emptyLast path (Index.entriesOf (pathsOf tables)) ranking) :
    (ranking.map Prod.snd).Nodup := by
  have hpositions : ((Index.entriesOf (pathsOf tables)).map Prod.snd).Nodup := by
    have heq : (Index.entriesOf (pathsOf tables)).map Prod.snd = List.range' 0 tables.length := by
      rw [Index.entriesOf, pathsOf, List.map_map, List.map_map, ← List.zipIdx_map_snd 0 tables]
      rfl
    rw [heq]
    exact List.nodup_range'
  exact (hranking.perm.map Prod.snd).nodup_iff.mpr (hpositions.sublist (List.filter_sublist.map _))

variable (hshapes : Index.DistinctShapes (pathsOf tables))
  (hranking : IsRanking emptyLast path (Index.entriesOf (pathsOf tables)) ranking)
include hshapes hranking

theorem listing_pathsWhere (keep : PathTable → Bool) :
    (Index.ofPaths emptyLast (pathsWhere keep tables)).listing path =
      (ranking.map Prod.snd).filter fun position => (tables[position]?).any keep := by
  rw [Index.listing_eq, found_pathsWhere hshapes hranking keep, List.filter_map]
  rfl

/-- An index of tables that holds every one with an admitted binding gives the answer of the whole
ranking. -/
theorem answer_pathsWhere {keep : PathTable → Bool}
    (hkeep : ∀ table : PathTable, table.bindings.any admits = true → keep table = true) {first : Nat}
    (hfirst : (Index.ofPaths emptyLast (pathsWhere keep tables)).first path = some first) :
    (new emptyLast tables).answer method admits (Index.ofPaths emptyLast (pathsWhere keep tables))
        first path (fun _ => true) =
      (new emptyLast tables).firstServing method admits (ranking.map Prod.snd) := by
  have hlisting := listing_pathsWhere hshapes hranking keep
  rw [Index.first_eq] at hfirst
  obtain ⟨rest, hrest⟩ := List.head?_eq_some_iff.mp hfirst
  have hnodup : (first :: rest).Nodup := by
    rw [← hrest, hlisting]
    exact (nodup_ranked hranking).filter _
  have hskip : (first :: rest).filter (· ≠ first) = rest := by
    rw [List.filter_cons, if_neg (by simp), List.filter_eq_self]
    intro other hmem
    have hne : other ≠ first := fun heq => (List.nodup_cons.mp hnodup).1 (heq ▸ hmem)
    simpa using hne
  have hall : first :: ((first :: rest).filter (· ≠ first)).takeWhile (fun _ => true) =
      (ranking.map Prod.snd).filter fun position => (tables[position]?).any keep := by
    rw [← hlisting, hrest, hskip, List.takeWhile_eq_self_iff.mpr fun _ _ => rfl]
  rw [answer_eq, hrest, hall, answerFrom_filter _ _ ?_, answerFrom_none]
  intro position _ hout
  rw [any_table_new]
  cases htable : tables[position]? with
  | none => rfl
  | some table =>
      rw [htable, Option.any_some] at hout
      rw [Option.any_some]
      exact Bool.eq_false_iff.mpr fun hany => Bool.eq_false_iff.mp hout (hkeep table hany)

theorem firstServing_of_first_none {keep : PathTable → Bool}
    (hkeep : ∀ table : PathTable, table.bindings.any admits = true → keep table = true)
    (hfirst : (Index.ofPaths emptyLast (pathsWhere keep tables)).first path = none) :
    (new emptyLast tables).firstServing method admits (ranking.map Prod.snd) = none := by
  have hlisting := listing_pathsWhere hshapes hranking keep
  rw [Index.first_eq, List.head?_eq_none_iff, hlisting, List.filter_eq_nil_iff] at hfirst
  rw [firstServing_eq_none_iff]
  intro position hmem
  have hout := hfirst position hmem
  rw [any_table_new]
  cases htable : tables[position]? with
  | none => rfl
  | some table =>
      rw [htable, Option.any_some] at hout
      rw [Option.any_some]
      exact Bool.eq_false_iff.mpr fun hany => hout (hkeep table hany)

/-! ### The two kinds of binding -/

theorem chooseVerb_eq (method : Method) (position : Nat) :
    (new emptyLast tables).chooseVerb position method path (fun _ => true) =
      (new emptyLast tables).firstServing method (isBoundFor path) (ranking.map Prod.snd) := by
  unfold chooseVerb
  cases hsplit : splitVerb path with
  | none =>
      refine (firstServing_eq_none_iff.mpr ?_).symm
      intro position _
      simp [isBoundFor, hsplit]
  | some parts =>
      obtain ⟨rest, verb⟩ := parts
      have hbound : isBoundFor path = isBound path rest (normalizeEscapes verb) := by
        funext binding
        simp [isBoundFor, hsplit]
      have hkeep : ∀ table : PathTable,
          table.bindings.any (isBound path rest (normalizeEscapes verb)) = true →
          table.bindsVerb (normalizeEscapes verb) = true := by
        intro table hany
        obtain ⟨binding, hmem, hbinding⟩ := List.any_eq_true.mp hany
        refine List.any_eq_true.mpr ⟨binding, hmem, ?_⟩
        rw [isBound, Bool.and_eq_true] at hbinding
        cases hverb : binding.verb with
        | none => simp [hverb] at hbinding
        | some own =>
            rw [hverb] at hbinding
            simp only [Option.any_some, Bool.and_eq_true] at hbinding ⊢
            exact hbinding.1.1
      rw [hbound]
      simp only [Option.bind_eq_bind, Option.bind_some, lookup_verbs_new]
      by_cases hany : tables.any (·.bindsVerb (normalizeEscapes verb)) = true
      · rw [if_pos hany, Option.bind_some]
        cases hfirst : (Index.ofPaths emptyLast
            (pathsWhere (·.bindsVerb (normalizeEscapes verb)) tables)).first path with
        | none => exact (firstServing_of_first_none hshapes hranking hkeep hfirst).symm
        | some first =>
            simp only [Bool.or_true, Option.filter_some, ↓reduceIte, Option.bind_some]
            exact answer_pathsWhere hshapes hranking hkeep hfirst
      · rw [if_neg hany, Option.bind_none]
        refine (firstServing_eq_none_iff.mpr ?_).symm
        intro position _
        rw [any_table_new]
        cases htable : tables[position]? with
        | none => rfl
        | some table =>
            refine Bool.eq_false_iff.mpr fun hadmits => hany ?_
            exact List.any_eq_true.mpr ⟨table, List.mem_of_getElem? htable, hkeep table hadmits⟩

theorem choosePlain_eq {position : Nat} (hbest : (ranking.map Prod.snd).head? = some position)
    (method : Method) :
    (new emptyLast tables).choosePlain position method path (fun _ => true) =
      ((new emptyLast tables).firstServing method (isPlain path)
        (ranking.map Prod.snd)).getD .notFound := by
  have hkeep : ∀ table : PathTable, table.bindings.any (isPlain path) = true →
      table.plain = true := by
    intro table hany
    obtain ⟨binding, hmem, hbinding⟩ := List.any_eq_true.mp hany
    rw [table.plain_eq]
    exact List.any_eq_true.mpr ⟨binding, hmem, (Bool.and_eq_true_iff.mp hbinding).1⟩
  have hown : ((new emptyLast tables).table position).plain = true →
      (Index.ofPaths emptyLast (pathsWhere (·.plain) tables)).first path = some position := by
    intro hplain
    obtain ⟨rest, hrest⟩ := List.head?_eq_some_iff.mp hbest
    rw [Index.first_eq, listing_pathsWhere hshapes hranking, hrest, List.filter_cons, if_pos]
    · rfl
    · rw [table, tables_new, List.getD_eq_getElem?_getD] at hplain
      cases htable : tables[position]? with
      | none => simp [htable] at hplain
      | some table => simpa [htable] using hplain
  have hfirst : (if ((new emptyLast tables).table position).plain then some position
      else ((new emptyLast tables).plain.first path).filter fun _ => true) =
      (Index.ofPaths emptyLast (pathsWhere (·.plain) tables)).first path := by
    by_cases hplain : ((new emptyLast tables).table position).plain = true
    · rw [if_pos hplain, hown hplain]
    · rw [if_neg hplain, plain_new]
      cases (Index.ofPaths emptyLast (pathsWhere (·.plain) tables)).first path <;> rfl
  unfold choosePlain
  simp only [hfirst]
  rw [plain_new]
  cases hindex : (Index.ofPaths emptyLast (pathsWhere (·.plain) tables)).first path with
  | none => rw [firstServing_of_first_none hshapes hranking hkeep hindex]; rfl
  | some first => simp only [answer_pathsWhere hshapes hranking hkeep hindex]

/-- The choice is the answer of the bindings that answer, whatever index the source finds them
through. -/
theorem choose_eq_firstServing {position : Nat}
    (hbest : (ranking.map Prod.snd).head? = some position) (method : Method) :
    (new emptyLast tables).choose position method path =
      ((new emptyLast tables).firstServing method
        ((new emptyLast tables).answering (ranking.map Prod.snd) position path).1
        ((new emptyLast tables).answering (ranking.map Prod.snd) position path).2).getD .notFound := by
  have hverb := chooseVerb_eq hshapes hranking method position
  have hplain := choosePlain_eq hshapes hranking hbest method
  have hfits := isSome_firstServing (new emptyLast tables) method (isPlain path) [position]
  have hbound := isSome_firstServing (new emptyLast tables) method (isBoundFor path)
    (ranking.map Prod.snd)
  rw [List.any_cons, List.any_nil, Bool.or_false] at hfits
  unfold choose chooseRanked answering
  simp only [choose_table_eq, hverb, hplain]
  rw [← hfits, ← hbound]
  cases ((new emptyLast tables).table position).literalEnd <;>
    cases hown : (new emptyLast tables).firstServing method (isPlain path) [position] <;>
    cases hverbs : (new emptyLast tables).firstServing method (isBoundFor path)
      (ranking.map Prod.snd) <;>
    simp [hown, hverbs]

/-- What answers a request whose matching tables are `ranked`, best first, and `position` the best. -/
def reference (routes : Routes) (ranked : List Nat) (position : Nat) (method : Method)
    (path : Text) : Choice :=
  let answer := fun admits tables => (routes.firstServing method admits tables).getD .notFound
  if (routes.table position).literalEnd ∧
      ∃ binding ∈ (routes.table position).bindings, isPlain path binding then
    answer (isPlain path) [position]
  else if ∃ other ∈ ranked, ∃ binding ∈ (routes.table other).bindings, isBoundFor path binding then
    answer (isBoundFor path) ranked
  else answer (isPlain path) ranked

/-- **The choice is the reference's.** Whatever the tables, of distinct shapes, and the request, whose
best-ranked table the router found, the shortcuts of `choose` do not change the answer. -/
theorem choose_eq_reference {position : Nat}
    (hbest : (ranking.map Prod.snd).head? = some position) (method : Method) :
    (new emptyLast tables).choose position method path =
      reference (new emptyLast tables) (ranking.map Prod.snd) position method path := by
  rw [choose_eq_firstServing hshapes hranking hbest, reference, answering]
  simp only [Bool.and_eq_true, List.any_eq_true]
  split
  · rfl
  · split <;> rfl

omit hshapes hranking

/-- A verb bound on a lower-ranked path owns the URL. -/
theorem choose_eq_reference_cancel :
    let tables := [
      PathTable.new percentDecoder (MountedPath.new (str "/v1/\x7bname\x7d"))
        ⟨str "/v1/\x7bname\x7d", .one .GET, str "/p.S/Get"⟩,
      PathTable.new percentDecoder (MountedPath.new (str "/v1/\x7bname=**\x7d:cancel"))
        ⟨str "/v1/\x7bname=**\x7d:cancel", .one .POST, str "/p.S/Cancel"⟩]
    Index.DistinctShapes (pathsOf tables) ∧
      (new false tables).choose 0 .POST (str "/v1/a:cancel") = .route 1 0 := by
  intro tables
  have hshapes : Index.DistinctShapes (pathsOf tables) := by decide
  have hranking := Index.ofPaths_isRanking false hshapes (str "/v1/a:cancel")
  have hbest : (((Index.ofPaths false (pathsOf tables)).found (str "/v1/a:cancel")).map
      Prod.snd).head? = some 0 := by decide
  refine ⟨hshapes, ?_⟩
  rw [choose_eq_reference hshapes hranking hbest .POST]
  decide

end Ranking

/-! ### The methods a 405 lists -/

variable {table : Nat} {allow : Text} {ranked : List Nat}

theorem asStr_eq_token_iff {bound : RouteMethod} (hany : bound ≠ .any) {m : Method} :
    bound.asStr = m.token ↔ bound = .one m := by
  cases bound with
  | any => exact absurd rfl hany
  | one bound =>
      rw [RouteMethod.one.injEq, Method.eq_iff]
      rfl

theorem findIdx?_isSome_iff (bindings : List Binding) (p : Binding → Bool) :
    (bindings.findIdx? fun binding => admits binding && p binding).isSome = true ↔
      ∃ binding ∈ bindings, admits binding = true ∧ p binding = true := by
  rw [List.findIdx?_isSome, List.any_eq_true]
  simp only [Bool.and_eq_true]

theorem ne_any_of_served {pathTable : PathTable} (hserved : pathTable.served method admits = none) :
    ∀ binding ∈ pathTable.bindings, admits binding = true → binding.entry.httpMethod ≠ .any := by
  intro binding hmem hadmits heq
  have hnone := (Option.or_eq_none_iff.mp hserved).1
  have hfalse := List.findIdx?_eq_none_iff.mp hnone binding hmem
  simp [hadmits, Binding.serves, heq] at hfalse

theorem mem_allowTokens_iff_served {pathTable : PathTable}
    (hserved : pathTable.served method admits = none) (m : Method) :
    m.token ∈ PathTable.allowTokens (PathTable.admittedMethods admits pathTable.bindings) ↔
      (pathTable.served m admits).isSome = true := by
  have hnotAny := ne_any_of_served hserved
  have hmem : ∀ n : Method, n.token ∈ PathTable.admittedMethods admits pathTable.bindings ↔
      ∃ binding ∈ pathTable.bindings, admits binding = true ∧
        binding.entry.httpMethod = .one n := by
    intro n
    simp only [PathTable.admittedMethods, List.mem_map, List.mem_filter, and_assoc]
    refine exists_congr fun binding => and_congr_right fun hmem => and_congr_right fun hadmits => ?_
    exact asStr_eq_token_iff (hnotAny binding hmem hadmits)
  have hhead : m.token = Method.HEAD.token ↔ m = Method.HEAD := Method.eq_iff.symm
  have hserves : (∃ binding ∈ pathTable.bindings, admits binding = true ∧
      binding.serves m = true) ↔ ∃ binding ∈ pathTable.bindings, admits binding = true ∧
        binding.entry.httpMethod = .one m := by
    refine exists_congr fun binding => and_congr_right fun hmem => and_congr_right fun hadmits => ?_
    simp [Binding.serves, hnotAny binding hmem hadmits]
  rw [PathTable.mem_allowTokens_iff, hmem, PathTable.served, Option.isSome_or, Bool.or_eq_true,
    findIdx?_isSome_iff, hserves]
  refine or_congr_right ?_
  rw [show str "HEAD" = Method.HEAD.token from rfl, hhead, show str "GET" = Method.GET.token from rfl,
    hmem]
  by_cases hm : m = Method.HEAD
  · simp only [hm, true_and, ↓reduceIte, findIdx?_isSome_iff, Binding.isGet, decide_eq_true_eq]
  · simp [hm]

theorem exists_method_of_mem_allowTokens {pathTable : PathTable}
    (hserved : pathTable.served method admits = none) {token : Text}
    (hmem : token ∈ PathTable.allowTokens
      (PathTable.admittedMethods admits pathTable.bindings)) : ∃ m : Method, m.token = token := by
  rcases PathTable.mem_allowTokens_iff.mp hmem with hmem | ⟨rfl, -⟩
  · obtain ⟨binding, hbinding, rfl⟩ := List.mem_map.mp hmem
    obtain ⟨hbinding, hadmits⟩ := List.mem_filter.mp hbinding
    cases hbound : binding.entry.httpMethod with
    | any => exact absurd hbound (ne_any_of_served hserved binding hbinding hadmits)
    | one m => exact ⟨m, rfl⟩
  · exact ⟨Method.HEAD, rfl⟩

theorem served_of_firstServing {index : Nat}
    (hroute : routes.firstServing method admits ranked = some (.route table index)) :
    ((routes.table table).served method admits).isSome = true := by
  rw [firstServing, Option.or_eq_some_iff] at hroute
  rcases hroute with hfound | ⟨-, hother⟩
  · obtain ⟨position, -, hserved⟩ := List.exists_of_findSome?_eq_some hfound
    obtain ⟨i, hi, heq⟩ := Option.map_eq_some_iff.mp hserved
    cases heq
    rw [hi]
    rfl
  · obtain ⟨position, -, heq⟩ := Option.map_eq_some_iff.mp hother
    cases heq

/-- A 405 names the first table with an admitted binding, which does not serve the method, and the
methods of its admitted bindings. -/
theorem firstServing_eq_methodNotAllowed
    (hanswer : routes.firstServing method admits ranked = some (.methodNotAllowed table allow)) :
    (routes.table table).served method admits = none ∧
      ranked.find? (fun position => (routes.table position).bindings.any admits) = some table ∧
      allow = PathTable.commaSpace.intercalate (PathTable.allowTokens
        (PathTable.admittedMethods admits (routes.table table).bindings)) := by
  rw [firstServing, Option.or_eq_some_iff] at hanswer
  rcases hanswer with hfound | ⟨hnone, hother⟩
  · obtain ⟨position, -, hserved⟩ := List.exists_of_findSome?_eq_some hfound
    obtain ⟨i, -, heq⟩ := Option.map_eq_some_iff.mp hserved
    cases heq
  · obtain ⟨position, hfind, heq⟩ := Option.map_eq_some_iff.mp hother
    cases heq
    have hserved := List.findSome?_eq_none_iff.mp hnone table (List.mem_of_find?_eq_some hfind)
    exact ⟨Option.map_eq_none_iff.mp hserved, hfind, rfl⟩

theorem firstServing_of_find?
    (hfind : ranked.find? (fun position => (routes.table position).bindings.any admits) = some table)
    {index : Nat} (hserved : (routes.table table).served method admits = some index) :
    routes.firstServing method admits ranked = some (.route table index) := by
  obtain ⟨-, before, after, rfl, hbefore⟩ := List.find?_eq_some_iff_append.mp hfind
  have hnone : before.findSome? (fun position =>
      ((routes.table position).served method admits).map (Choice.route position)) = none := by
    refine List.findSome?_eq_none_iff.mpr fun position hmem => ?_
    have hany := hbefore position hmem
    rw [Bool.not_eq_true'] at hany
    rw [PathTable.served_eq_none_of_any _ hany]
    rfl
  rw [firstServing, List.findSome?_append, hnone, Option.none_or, List.findSome?_cons, hserved]
  rfl

theorem getD_notFound_eq_iff {answer : Option Choice} {choice : Choice}
    (hchoice : choice ≠ .notFound) : answer.getD .notFound = choice ↔ answer = some choice := by
  cases answer with
  | none => simpa using hchoice.symm
  | some answer => simp

section NotAllowed

variable {emptyLast : Bool} {tables : List PathTable} {path : Text} {ranking : List (Pattern × Nat)}

/-- **A 405 lists the methods of its table.** Its `Allow` value lists each method once, and exactly
those the table it names would answer on the same URL. -/
theorem choose_methodNotAllowed_lists (hshapes : Index.DistinctShapes (pathsOf tables))
    (hranking : IsRanking emptyLast path (Index.entriesOf (pathsOf tables)) ranking) {position : Nat}
    (hbest : (ranking.map Prod.snd).head? = some position) {method : Method}
    (hchoose : (new emptyLast tables).choose position method path = .methodNotAllowed table allow) :
    ∃ tokens : List Text, tokens.Nodup ∧ (∀ token ∈ tokens, ∃ m : Method, m.token = token) ∧
      allow = PathTable.commaSpace.intercalate tokens ∧
      ∀ m : Method, m.token ∈ tokens ↔
        ∃ index, (new emptyLast tables).choose position m path = .route table index := by
  have hfirst := choose_eq_firstServing hshapes hranking hbest
  generalize (new emptyLast tables).answering (ranking.map Prod.snd) position path = kind at hfirst
  rw [hfirst, getD_notFound_eq_iff Choice.noConfusion] at hchoose
  obtain ⟨hserved, hfind, rfl⟩ := firstServing_eq_methodNotAllowed hchoose
  refine ⟨_, PathTable.nodup_allowTokens _,
    fun token => exists_method_of_mem_allowTokens hserved, rfl, fun m => ?_⟩
  rw [mem_allowTokens_iff_served hserved, hfirst]
  constructor
  · intro hsome
    obtain ⟨index, hindex⟩ := Option.isSome_iff_exists.mp hsome
    exact ⟨index, by rw [firstServing_of_find? hfind hindex, Option.getD_some]⟩
  · rintro ⟨index, hroute⟩
    exact served_of_firstServing ((getD_notFound_eq_iff Choice.noConfusion).mp hroute)

/-- A method the best-ranked table lacks is refused with that table's methods alone, though a
lower-ranked table answers another method. -/
theorem choose_methodNotAllowed_omits_post :
    let tables := [
      PathTable.new percentDecoder (MountedPath.new (str "/a/\x7bx\x7d"))
        ⟨str "/a/\x7bx\x7d", .one .GET, str "/p.S/Get"⟩,
      PathTable.new percentDecoder (MountedPath.new (str "/\x7by\x7d/b"))
        ⟨str "/\x7by\x7d/b", .one .POST, str "/p.S/Post"⟩]
    (new false tables).choose 0 .DELETE (str "/a/b") = .methodNotAllowed 0 (str "GET, HEAD") ∧
      (new false tables).choose 0 .POST (str "/a/b") = .route 1 0 := by
  intro tables
  have hshapes : Index.DistinctShapes (pathsOf tables) := by decide
  have hranking := Index.ofPaths_isRanking false hshapes (str "/a/b")
  have hbest : (((Index.ofPaths false (pathsOf tables)).found (str "/a/b")).map
      Prod.snd).head? = some 0 := by decide
  rw [choose_eq_firstServing hshapes hranking hbest, choose_eq_firstServing hshapes hranking hbest]
  decide

theorem choose_methodNotAllowed_lists_get :
    let tables := [PathTable.new percentDecoder (MountedPath.new (str "/a/\x7bx\x7d"))
      ⟨str "/a/\x7bx\x7d", .one .GET, str "/p.S/Get"⟩]
    ∃ allow tokens, (new false tables).choose 0 .POST (str "/a/b") = .methodNotAllowed 0 allow ∧
      allow = PathTable.commaSpace.intercalate tokens ∧
      ∀ m : Method, m.token ∈ tokens ↔
        ∃ index, (new false tables).choose 0 m (str "/a/b") = .route 0 index := by
  intro tables
  have hshapes : Index.DistinctShapes (pathsOf tables) := by decide
  have hranking := Index.ofPaths_isRanking false hshapes (str "/a/b")
  have hbest : (((Index.ofPaths false (pathsOf tables)).found (str "/a/b")).map
      Prod.snd).head? = some 0 := by decide
  have hchoose : (new false tables).choose 0 .POST (str "/a/b") =
      .methodNotAllowed 0 (str "GET, HEAD") := by
    rw [choose_eq_firstServing hshapes hranking hbest]
    decide
  obtain ⟨tokens, -, -, hallow, hlists⟩ :=
    choose_methodNotAllowed_lists hshapes hranking hbest hchoose
  exact ⟨_, tokens, hchoose, hallow, hlists⟩

end NotAllowed

end Routes

end StructuredProxy
