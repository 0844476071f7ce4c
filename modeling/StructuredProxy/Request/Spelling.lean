import StructuredProxy.Request.Outcome

/-!
# The spelling of a key

A key may name a field by its proto name or its JSON name. Keys that use a JSON name are bound in the
second pass, after every key that does not, so the spelling decides the order of a field and a field
inside it. Where it leaves that order as it is, it does not matter.
-/

namespace StructuredProxy

variable {types : Types}

def keyPath (types : Types) (start : Start) (key : Text) : Option (List Field) :=
  (resolve types start key).map Resolved.path

theorem keyPath_of_resolve {start : Start} {key : Text} {found : Resolved}
    (h : resolve types start key = some found) : keyPath types start key = some found.path :=
  congrArg (Option.map Resolved.path) h

theorem names_of_unaliased {segments : List Text} : ∀ {type : MessageType} {found : Resolved},
    resolveSegments types type segments = some found → found.aliased = false →
    found.path.map Field.name = segments := by
  have hname : ∀ {type : MessageType} {segment : Text} {field : Field},
      fieldNamed type segment = some (field, false) → field.name = segment := by
    intro type segment field h
    unfold fieldNamed at h
    split at h
    · rename_i other hother
      obtain ⟨rfl, -⟩ := Prod.mk.inj (Option.some.inj h)
      exact (MessageType.mem_of_getFieldByName hother).2
    · obtain ⟨other, -, heq⟩ := Option.map_eq_some_iff.mp h
      cases (Prod.mk.inj heq).2
  induction segments with
  | nil => intro type found h; cases h
  | cons segment segments ih =>
      intro type found h haliased
      cases segments with
      | nil =>
          obtain ⟨field, aliased, hfield, rfl⟩ := resolveSegments_singleton h
          obtain rfl : aliased = false := haliased
          rw [List.map_cons, hname hfield, List.map_nil]
      | cons next segments =>
          obtain ⟨field, aliased, inner, rest, hfield, -, -, -, hrest, rfl⟩ :=
            resolveSegments_cons_cons h
          obtain ⟨rfl, hrestAliased⟩ := Bool.or_eq_false_iff.mp haliased
          rw [List.map_cons, hname hfield, ih hrest hrestAliased]

theorem key_of_unaliased {start : Start} {key : Text} {found : Resolved}
    (h : resolve types start key = some found) (haliased : found.aliased = false) :
    canonicalKey (start.own found.path) = key := by
  unfold resolve at h
  cases hwithin : start.within with
  | none =>
      rw [hwithin] at h
      obtain ⟨rest, hrest, rfl⟩ := Option.map_eq_some_iff.mp h
      simp only [Start.own, hwithin, Option.isSome_none, Bool.false_eq_true, if_false, canonicalKey,
        names_of_unaliased hrest haliased, List.intercalate_splitOn]
  | some field =>
      rw [hwithin] at h
      obtain ⟨inner, hinner, h⟩ := Option.bind_eq_some_iff.mp h
      obtain ⟨rest, hrest, h⟩ := Option.bind_eq_some_iff.mp h
      obtain rfl := Option.some.inj h
      simp only [Start.own, hwithin, Option.isSome_some, if_true, List.drop_succ_cons, List.drop_zero,
        canonicalKey, names_of_unaliased hrest haliased, List.intercalate_splitOn]

theorem keyPath_canonicalKey {start : Start} {key : Text} {path : List Field}
    (h : keyPath types start key = some path) :
    keyPath types start (canonicalKey (start.own path)) = some path := by
  obtain ⟨found, hfound, rfl⟩ := Option.map_eq_some_iff.mp h
  obtain ⟨inside, hcanonical⟩ := resolve_canonicalKey hfound
  rw [keyPath, hcanonical]
  rfl

theorem own_ne_nil {start : Start} {key : Text} {path : List Field}
    (h : keyPath types start key = some path) : start.own path ≠ [] := by
  obtain ⟨found, hfound, rfl⟩ := Option.map_eq_some_iff.mp h
  unfold resolve at hfound
  cases hwithin : start.within with
  | none =>
      rw [hwithin] at hfound
      obtain ⟨rest, hrest, rfl⟩ := Option.map_eq_some_iff.mp hfound
      simp only [Start.own, hwithin, Option.isSome_none, Bool.false_eq_true, if_false]
      exact (resolveSegments_pathIn hrest).ne_nil
  | some field =>
      rw [hwithin] at hfound
      obtain ⟨inner, hinner, hfound⟩ := Option.bind_eq_some_iff.mp hfound
      obtain ⟨rest, hrest, hfound⟩ := Option.bind_eq_some_iff.mp hfound
      obtain rfl := Option.some.inj hfound
      simp only [Start.own, hwithin, Option.isSome_some, if_true, List.drop_succ_cons, List.drop_zero]
      exact (resolveSegments_pathIn hrest).ne_nil

/-- The proto-name key of a field above another comes before that of the other. -/
theorem canonicalKey_le {start : Start} {p q : List Field} (hne : start.own p ≠ []) (hbegins : p <+: q) :
    canonicalKey (start.own p) ≤ canonicalKey (start.own q) := by
  have hown : start.own p <+: start.own q := by
    unfold Start.own
    split
    · obtain ⟨rest, rfl⟩ := hbegins
      cases p with
      | nil => exact List.nil_prefix
      | cons field p => exact List.prefix_append _ _
    · exact hbegins
  obtain ⟨rest, hrest⟩ := hown
  have hkey : canonicalKey (start.own p) <+: canonicalKey (start.own q) := by
    rw [← hrest, canonicalKey, canonicalKey, List.map_append]
    exact Lib.intercalate_prefix _ _ (by simpa using hne)
  exact hkey.le

/-! ### The paths of the two passes -/

theorem pairwise_sorted (keys : List Text) :
    (keys.eraseDups.mergeSort fun a b => decide (a ≤ b)).Pairwise fun a b => a ≤ b ∧ a ≠ b := by
  have hsorted := Lib.pairwise_mergeSort_le List.le_trans List.le_total keys.eraseDups
  have hnodup : (keys.eraseDups.mergeSort fun a b => decide (a ≤ b)).Nodup :=
    (List.mergeSort_perm _ _).nodup_iff.mpr (Lib.nodup_eraseDups keys)
  exact hsorted.and hnodup

theorem pairwise_of_keys (start : Start) {keys : List Text} {path : Text → Option (List Field)}
    (hpath : ∀ key ∈ keys, ∀ p, path key = some p →
      canonicalKey (start.own p) = key ∧ start.own p ≠ []) :
    ((keys.eraseDups.mergeSort fun a b => decide (a ≤ b)).filterMap path).Pairwise
      fun p q => p ≠ q ∧ ¬q <+: p := by
  rw [List.pairwise_filterMap]
  refine (pairwise_sorted keys).imp_of_mem ?_
  rintro a b ha hb ⟨hle, hne⟩ p hp q hq
  rw [List.mem_mergeSort, List.mem_eraseDups] at ha hb
  obtain ⟨hkeyP, -⟩ := hpath a ha p hp
  obtain ⟨hkeyQ, hown⟩ := hpath b hb q hq
  refine ⟨fun heq => hne (by rw [← hkeyP, ← hkeyQ, heq]), fun hbegins => hne ?_⟩
  have hge : b ≤ a := by
    rw [← hkeyP, ← hkeyQ]
    exact canonicalKey_le hown hbegins
  exact List.le_antisymm hle hge

section Paths

variable {start : Start} {pairs : List (Text × Text)}

def directPath (types : Types) (start : Start) (key : Text) : Option (List Field) :=
  (resolve types start key).bind fun found => if found.aliased then none else some found.path

def directPaths (types : Types) (start : Start) (pairs : List (Text × Text)) : List (List Field) :=
  (runs pairs).filterMap fun run => directPath types start run.1

def mergedPaths (types : Types) (start : Start) (pairs : List (Text × Text)) : List (List Field) :=
  (mergedGroups pairs (aliases types pairs start)).filterMap fun run => keyPath types start run.1

theorem directPath_eq_some {key : Text} {path : List Field} :
    directPath types start key = some path ↔
      ∃ found, resolve types start key = some found ∧ found.aliased = false ∧ found.path = path := by
  unfold directPath
  constructor
  · intro h
    obtain ⟨found, hfound, h⟩ := Option.bind_eq_some_iff.mp h
    split at h
    · cases h
    · rename_i haliased
      exact ⟨found, hfound, by simpa using haliased, Option.some.inj h⟩
  · rintro ⟨found, hfound, haliased, rfl⟩
    rw [hfound, Option.bind_some, haliased]
    rfl

theorem directPaths_eq : directPaths types start pairs =
    ((pairs.map Prod.fst).eraseDups.mergeSort fun a b => decide (a ≤ b)).filterMap
      (directPath types start) := by
  rw [directPaths, runs, List.filterMap_map]
  rfl

theorem mergedPaths_eq : mergedPaths types start pairs =
    (((aliases types pairs start).map Prod.fst).eraseDups.mergeSort fun a b => decide (a ≤ b)).filterMap
      (keyPath types start) := by
  rw [mergedPaths, mergedGroups, List.filterMap_map]
  rfl

theorem mem_directPaths {path : List Field} : path ∈ directPaths types start pairs ↔
    ∃ key ∈ pairs.map Prod.fst, ∃ found, resolve types start key = some found ∧
      found.aliased = false ∧ found.path = path := by
  rw [directPaths_eq, List.mem_filterMap]
  simp only [List.mem_mergeSort, List.mem_eraseDups, directPath_eq_some]

theorem mem_aliases {key : Text} : key ∈ (aliases types pairs start).map Prod.fst ↔
    ∃ other ∈ pairs.map Prod.fst, ∃ found, resolve types start other = some found ∧
      found.aliased = true ∧ canonicalKey (start.own found.path) = key := by
  unfold aliases
  constructor
  · intro h
    obtain ⟨entry, halias, rfl⟩ := List.mem_map.mp h
    obtain ⟨⟨other, positions⟩, hrun, halias⟩ := List.mem_filterMap.mp halias
    obtain ⟨found, hfound, halias⟩ := Option.bind_eq_some_iff.mp halias
    obtain ⟨other', hother, heq⟩ := List.mem_map.mp hrun
    obtain ⟨rfl, -⟩ := Prod.mk.inj heq
    rw [List.mem_mergeSort, List.mem_eraseDups] at hother
    split at halias
    · rename_i haliased
      obtain rfl := Option.some.inj halias
      exact ⟨other', hother, found, hfound, haliased, rfl⟩
    · cases halias
  · rintro ⟨other, hother, found, hfound, haliased, rfl⟩
    obtain ⟨pair, hpair, rfl⟩ := List.mem_map.mp hother
    refine List.mem_map.mpr ⟨(canonicalKey (start.own found.path), pairs.findIdxs (·.1 = pair.1)),
      List.mem_filterMap.mpr ⟨_, mem_runs hpair, ?_⟩, rfl⟩
    simp only [aliasOf, hfound, Option.bind_some, haliased, if_true]

theorem mem_mergedPaths {path : List Field} : path ∈ mergedPaths types start pairs ↔
    ∃ key ∈ pairs.map Prod.fst, ∃ found, resolve types start key = some found ∧
      found.aliased = true ∧ found.path = path := by
  rw [mergedPaths_eq, List.mem_filterMap]
  simp only [List.mem_mergeSort, List.mem_eraseDups, mem_aliases]
  constructor
  · rintro ⟨key, ⟨other, hother, found, hfound, haliased, rfl⟩, hpath⟩
    have hfoundPath := keyPath_of_resolve hfound
    have heq := (keyPath_canonicalKey hfoundPath).symm.trans hpath
    exact ⟨other, hother, found, hfound, haliased, Option.some.inj heq⟩
  · rintro ⟨other, hother, found, hfound, haliased, rfl⟩
    have hfoundPath := keyPath_of_resolve hfound
    exact ⟨_, ⟨other, hother, found, hfound, haliased, rfl⟩, keyPath_canonicalKey hfoundPath⟩

theorem pairwise_directPaths :
    (directPaths types start pairs).Pairwise fun p q => p ≠ q ∧ ¬q <+: p := by
  rw [directPaths_eq]
  refine pairwise_of_keys start fun key _ p hp => ?_
  obtain ⟨found, hfound, haliased, rfl⟩ := directPath_eq_some.mp hp
  have hpath := keyPath_of_resolve hfound
  exact ⟨key_of_unaliased hfound haliased, own_ne_nil hpath⟩

theorem pairwise_mergedPaths :
    (mergedPaths types start pairs).Pairwise fun p q => p ≠ q ∧ ¬q <+: p := by
  rw [mergedPaths_eq]
  refine pairwise_of_keys start fun key hkey p hp => ?_
  obtain ⟨other, -, found, hfound, -, rfl⟩ := mem_aliases.mp hkey
  have hpath := keyPath_of_resolve hfound
  obtain rfl : found.path = p := Option.some.inj ((keyPath_canonicalKey hpath).symm.trans hp)
  exact ⟨rfl, own_ne_nil hpath⟩

/-! ### The values of a path -/

def valuesOf (types : Types) (start : Start) (pairs : List (Text × Text)) (path : List Field) :
    List Text :=
  (pairs.filter fun pair => keyPath types start pair.1 = some path).map Prod.snd

theorem valuesAt_findIdxs (p : Text × Text → Bool) : ∀ pairs : List (Text × Text),
    valuesAt pairs (pairs.findIdxs p) = (pairs.filter p).map Prod.snd := by
  intro pairs
  induction pairs with
  | nil => rfl
  | cons pair pairs ih =>
      have hrest : valuesAt (pair :: pairs) (pairs.findIdxs p 1) = (pairs.filter p).map Prod.snd := by
        rw [List.findIdxs_start, valuesAt, List.filterMap_map, ← ih]
        rfl
      rw [List.findIdxs_cons]
      split
      · rename_i hpair
        rw [List.filter_cons_of_pos hpair, List.map_cons, ← hrest]
        rfl
      · rename_i hpair
        rw [List.filter_cons_of_neg hpair, ← hrest]

def respells (types : Types) (start : Start) (key other : Text) : Bool :=
  (resolve types start other).any fun found =>
    found.aliased && canonicalKey (start.own found.path) = key

theorem respells_iff {key other : Text} : respells types start key other = true ↔
    ∃ found, resolve types start other = some found ∧ found.aliased = true ∧
      canonicalKey (start.own found.path) = key := by
  rw [respells, Option.any_eq_true]
  simp only [Bool.and_eq_true, decide_eq_true_eq]

theorem positions_of_aliases (key : Text) :
    ((aliases types pairs start).filter (·.1 = key)).flatMap Prod.snd =
      (((pairs.map Prod.fst).eraseDups.mergeSort fun a b => decide (a ≤ b)).filter
        (respells types start key)).flatMap fun other => pairs.findIdxs (·.1 = other) := by
  rw [aliases, runs, List.filterMap_map]
  induction (pairs.map Prod.fst).eraseDups.mergeSort fun a b => decide (a ≤ b) with
  | nil => rfl
  | cons other keys ih =>
      cases hresolve : resolve types start other with
      | none =>
          have hspells : ¬respells types start key other = true := by simp [respells, hresolve]
          have halias : (aliasOf types start ∘ fun key => (key, pairs.findIdxs (·.1 = key))) other =
              none := by simp [aliasOf, hresolve]
          rw [List.filterMap_cons_none halias, List.filter_cons_of_neg hspells, ih]
      | some found =>
          cases haliased : found.aliased with
          | false =>
              have hspells : ¬respells types start key other = true := by
                simp [respells, hresolve, haliased]
              have halias : (aliasOf types start ∘ fun key => (key, pairs.findIdxs (·.1 = key))) other =
                  none := by simp [aliasOf, hresolve, haliased]
              rw [List.filterMap_cons_none halias, List.filter_cons_of_neg hspells, ih]
          | true =>
              have halias : (aliasOf types start ∘ fun key => (key, pairs.findIdxs (·.1 = key))) other =
                  some (canonicalKey (start.own found.path), pairs.findIdxs (·.1 = other)) := by
                simp [aliasOf, hresolve, haliased]
              rw [List.filterMap_cons_some halias]
              by_cases hkey : canonicalKey (start.own found.path) = key
              · have hspells : respells types start key other = true := by
                  simp [respells, hresolve, haliased, hkey]
                rw [List.filter_cons_of_pos hspells, List.filter_cons_of_pos (by simpa using hkey),
                  List.flatMap_cons, List.flatMap_cons, ih]
              · have hspells : ¬respells types start key other = true := by
                  simp [respells, hresolve, haliased, hkey]
                rw [List.filter_cons_of_neg hspells, List.filter_cons_of_neg (by simpa using hkey), ih]

def spelledAt (types : Types) (start : Start) (pairs : List (Text × Text)) (key : Text) : List Nat :=
  (((pairs.map Prod.fst).eraseDups.mergeSort fun a b => decide (a ≤ b)).filter
    (respells types start key)).flatMap (fun other => pairs.findIdxs (·.1 = other)) ++
      pairs.findIdxs (·.1 = key)

theorem mem_spelledAt {path : List Field} {key : Text} (hkey : canonicalKey (start.own path) = key)
    (hpath : keyPath types start key = some path) (position : Nat) :
    position ∈ spelledAt types start pairs key ↔
      position ∈ pairs.findIdxs fun pair => keyPath types start pair.1 = some path := by
  simp only [spelledAt, List.mem_append, List.mem_flatMap, List.mem_filter, List.mem_mergeSort,
    List.mem_eraseDups, List.mem_findIdxs_iff_exists_getElem_pos, decide_eq_true_eq, respells_iff]
  constructor
  · rintro (⟨other, ⟨-, found, hfound, haliased, hcanonical⟩, hlt, rfl⟩ | ⟨hlt, rfl⟩)
    · refine ⟨hlt, ?_⟩
      have hfoundPath := keyPath_of_resolve hfound
      rw [hfoundPath, ← keyPath_canonicalKey hfoundPath, hcanonical, hpath]
    · exact ⟨hlt, hpath⟩
  · rintro ⟨hlt, hnamed⟩
    obtain ⟨found, hfound, hfoundPath⟩ := Option.map_eq_some_iff.mp hnamed
    cases haliased : found.aliased with
    | false =>
        refine Or.inr ⟨hlt, ?_⟩
        rw [← key_of_unaliased hfound haliased, hfoundPath, hkey]
    | true =>
        refine Or.inl ⟨pairs[position].1, ⟨List.mem_map_of_mem (List.getElem_mem hlt), found, hfound,
          haliased, by rw [hfoundPath, hkey]⟩, hlt, rfl⟩

theorem nodup_spelledAt {key : Text} {own : Resolved} (hown : resolve types start key = some own)
    (hunaliased : own.aliased = false) : (spelledAt types start pairs key).Nodup := by
  refine List.nodup_append'.mpr ⟨List.nodup_flatMap.mpr ⟨fun _ _ => List.nodup_findIdxs, ?_⟩,
    List.nodup_findIdxs, ?_⟩
  · refine ((pairwise_sorted _).filter _).imp ?_
    rintro a b ⟨-, hne⟩ position ha hb
    simp only [List.mem_findIdxs_iff_exists_getElem_pos, decide_eq_true_eq] at ha hb
    obtain ⟨hlt, ha⟩ := ha
    obtain ⟨_, hb⟩ := hb
    exact hne (ha.symm.trans hb)
  · intro position hposition hown'
    simp only [List.mem_flatMap, List.mem_filter, List.mem_findIdxs_iff_exists_getElem_pos,
      decide_eq_true_eq, respells_iff] at hposition hown'
    obtain ⟨other, ⟨-, found, hfound, haliased, -⟩, hlt, rfl⟩ := hposition
    obtain ⟨_, hsame⟩ := hown'
    rw [hsame, hown] at hfound
    rw [← Option.some.inj hfound, hunaliased] at haliased
    cases haliased

theorem positions_of_group {path : List Field} {key : Text}
    (hkey : canonicalKey (start.own path) = key) (hpath : keyPath types start key = some path) :
    ((((aliases types pairs start).filter (·.1 = key)).flatMap Prod.snd ++
        pairs.findIdxs (·.1 = key)).mergeSort fun a b => decide (a ≤ b)) =
      pairs.findIdxs fun pair => keyPath types start pair.1 = some path := by
  have hmem := @mem_spelledAt types start pairs path key hkey hpath
  obtain ⟨own, hown, rfl⟩ := Option.map_eq_some_iff.mp hpath
  have hunaliased : own.aliased = false := by
    obtain ⟨inside, hresolve⟩ := resolve_canonicalKey hown
    rw [hkey, hown] at hresolve
    rw [Option.some.inj hresolve]
  have hperm := (List.perm_ext_iff_of_nodup (nodup_spelledAt hown hunaliased) List.nodup_findIdxs).mpr hmem
  rw [positions_of_aliases]
  exact Lib.mergeSort_eq_of_perm Nat.le_trans Nat.le_total Nat.le_antisymm hperm
    (List.pairwise_findIdxs.imp Nat.le_of_lt)

end Paths

section Order

variable {start : Start} {pairs : List (Text × Text)}

def boundPaths (types : Types) (start : Start) (pairs : List (Text × Text)) : List (List Field) :=
  (directPaths types start pairs).filter (· ∉ mergedPaths types start pairs) ++
    mergedPaths types start pairs

/-- A field is bound after another one in the second pass: a key with a JSON name names it, and the
other one came only under proto names. -/
def Late (types : Types) (start : Start) (pairs : List (Text × Text)) (p q : List Field) : Prop :=
  p ∈ mergedPaths types start pairs ∧ q ∈ directPaths types start pairs ∧
    q ∉ mergedPaths types start pairs

instance (p q : List Field) : Decidable (Late types start pairs p q) :=
  inferInstanceAs (Decidable (_ ∧ _))

theorem mem_boundPaths {path : List Field} : path ∈ boundPaths types start pairs ↔
    ∃ key ∈ pairs.map Prod.fst, keyPath types start key = some path := by
  have hmem : path ∈ boundPaths types start pairs ↔
      path ∈ directPaths types start pairs ∨ path ∈ mergedPaths types start pairs := by
    simp only [boundPaths, List.mem_append, List.mem_filter, decide_eq_true_eq]
    tauto
  rw [hmem, mem_directPaths, mem_mergedPaths]
  constructor
  · rintro (⟨key, hkey, found, hfound, -, rfl⟩ | ⟨key, hkey, found, hfound, -, rfl⟩)
    · exact ⟨key, hkey, keyPath_of_resolve hfound⟩
    · exact ⟨key, hkey, keyPath_of_resolve hfound⟩
  · rintro ⟨key, hkey, hpath⟩
    obtain ⟨found, hfound, hsame⟩ := Option.map_eq_some_iff.mp hpath
    cases haliased : found.aliased with
    | false => exact Or.inl ⟨key, hkey, found, hfound, haliased, hsame⟩
    | true => exact Or.inr ⟨key, hkey, found, hfound, haliased, hsame⟩

theorem pathIn_of_boundPaths (hstart : start.Sound) {path : List Field}
    (h : path ∈ boundPaths types start pairs) : PathIn types start.root path := by
  obtain ⟨key, -, hpath⟩ := mem_boundPaths.mp h
  obtain ⟨found, hfound, rfl⟩ := Option.map_eq_some_iff.mp hpath
  exact resolve_pathIn hstart hfound

/-- A field is bound before the fields inside it, unless it is late. -/
theorem pairwise_boundPaths : (boundPaths types start pairs).Pairwise fun p q =>
    p ≠ q ∧ (q <+: p → Late types start pairs q p) ∧ ¬Late types start pairs p q := by
  refine List.pairwise_append.mpr ⟨?_, ?_, ?_⟩
  · refine (pairwise_directPaths.sublist List.filter_sublist).imp_of_mem fun {p q} hp _ h => ?_
    have hnot : p ∉ mergedPaths types start pairs := by simpa using (List.mem_filter.mp hp).2
    exact ⟨h.1, fun hbegins => absurd hbegins h.2, fun hlate => hnot hlate.1⟩
  · refine pairwise_mergedPaths.imp_of_mem fun {p q} _ hq h => ?_
    exact ⟨h.1, fun hbegins => absurd hbegins h.2, fun hlate => hlate.2.2 hq⟩
  · intro p hp q hq
    obtain ⟨hdirect, hnot⟩ := List.mem_filter.mp hp
    have hnot : p ∉ mergedPaths types start pairs := by simpa using hnot
    exact ⟨fun heq => hnot (heq ▸ hq), fun _ => ⟨hq, hdirect, hnot⟩, fun hlate => hnot hlate.1⟩

end Order

/-! ### Each field bound once -/

section Once

variable {readers : StringReaders} {start : Start} {pairs : List (Text × Text)}

def bindAll (types : Types) (readers : StringReaders) (skips : List Field → Bool) (start : Start)
    (pairs : List (Text × Text)) (path : List Field) : Fields → Option Fields :=
  bindStep readers skips (valuesOf types start pairs path) path

def attemptOwn (readers : StringReaders) (skips : List Field → Bool) (start : Start)
    (pairs : List (Text × Text)) (path : List Field) (fields : Fields) : Fields :=
  (bindStep readers skips (valuesAt pairs (pairs.findIdxs (·.1 = canonicalKey (start.own path)))) path
    fields).getD fields

theorem repeated_iff {key : Text} {path : List Field} (h : directPath types start key = some path) :
    ((aliases types pairs start).any (·.1 = key)) = true ↔ path ∈ mergedPaths types start pairs := by
  obtain ⟨found, hfound, haliased, rfl⟩ := directPath_eq_some.mp h
  have hkey := key_of_unaliased hfound haliased
  have hmem : ((aliases types pairs start).any (·.1 = key)) = true ↔
      key ∈ (aliases types pairs start).map Prod.fst := by
    simp [List.any_eq_true]
  rw [hmem, mem_aliases, mem_mergedPaths]
  constructor
  · rintro ⟨other, hother, found', hfound', haliased', hcanonical⟩
    have hpath := keyPath_of_resolve hfound'
    have hcanonicalPath := keyPath_canonicalKey hpath
    rw [hcanonical, keyPath, hfound] at hcanonicalPath
    exact ⟨other, hother, found', hfound', haliased', (Option.some.inj hcanonicalPath).symm⟩
  · rintro ⟨other, hother, found', hfound', haliased', hpath⟩
    exact ⟨other, hother, found', hfound', haliased', by rw [hpath, hkey]⟩

theorem valuesOf_direct {key : Text} {path : List Field} (h : directPath types start key = some path)
    (hmerged : path ∉ mergedPaths types start pairs) :
    valuesAt pairs (pairs.findIdxs (·.1 = key)) = valuesOf types start pairs path := by
  obtain ⟨found, hfound, haliased, rfl⟩ := directPath_eq_some.mp h
  rw [valuesAt_findIdxs, valuesOf]
  congr 1
  refine List.filter_congr fun pair hpair => ?_
  rw [decide_eq_decide]
  constructor
  · rintro rfl
    exact keyPath_of_resolve hfound
  · intro hpath
    obtain ⟨other, hother, hsame⟩ := Option.map_eq_some_iff.mp hpath
    cases hotherAliased : other.aliased with
    | false => rw [← key_of_unaliased hother hotherAliased, hsame, key_of_unaliased hfound haliased]
    | true =>
        exact absurd (mem_mergedPaths.mpr ⟨pair.1, List.mem_map_of_mem hpair, other, hother,
          hotherAliased, hsame⟩) hmerged

theorem runs_eq (skips : List Field → Bool) (fields : Fields) :
    Lib.runSteps (attemptRun types readers skips pairs start
        fun key => (aliases types pairs start).any (·.1 = key)) (runs pairs) fields =
      Lib.runSteps (fun path fields => if path ∈ mergedPaths types start pairs then
          some (attemptOwn readers skips start pairs path fields)
        else bindAll types readers skips start pairs path fields)
        (directPaths types start pairs) fields := by
  refine Lib.runSteps_filterMap ?_ ?_ fields
  · rintro ⟨key, positions⟩ - hnone fields
    unfold directPath at hnone
    unfold attemptRun
    cases hresolve : resolve types start key with
    | none => rfl
    | some found =>
        rw [hresolve, Option.bind_some] at hnone
        cases haliased : found.aliased with
        | true => simp only [if_true, haliased]
        | false => rw [haliased] at hnone; cases hnone
  · rintro ⟨key, positions⟩ hrun path hpath fields
    obtain ⟨key', -, heq⟩ := List.mem_map.mp hrun
    obtain ⟨rfl, rfl⟩ := Prod.mk.inj heq
    have hrepeated := @repeated_iff types start pairs key' path hpath
    obtain ⟨found, hfound, haliased, rfl⟩ := directPath_eq_some.mp hpath
    simp only [attemptRun, hfound, haliased, Bool.false_eq_true, if_false, hrepeated]
    split
    · rw [attemptOwn, key_of_unaliased hfound haliased]
    · rename_i hmerged
      rw [bindAll, valuesOf_direct hpath hmerged]

theorem groups_eq (skips : List Field → Bool) (fields : Fields) :
    Lib.runSteps (groupRun types readers skips pairs start)
        (mergedGroups pairs (aliases types pairs start)) fields =
      Lib.runSteps (bindAll types readers skips start pairs) (mergedPaths types start pairs) fields := by
  refine Lib.runSteps_filterMap ?_ ?_ fields
  · rintro ⟨key, positions⟩ - hnone fields
    rw [groupRun, Option.map_eq_none_iff.mp hnone]
  · rintro ⟨key, positions⟩ hgroup path hpath fields
    obtain ⟨key', hkey', heq⟩ := List.mem_map.mp hgroup
    obtain ⟨rfl, rfl⟩ := Prod.mk.inj heq
    rw [List.mem_mergeSort, List.mem_eraseDups] at hkey'
    obtain ⟨other, -, found, hfound, -, hcanonical⟩ := mem_aliases.mp hkey'
    have hotherPath := keyPath_of_resolve hfound
    have hsame := keyPath_canonicalKey hotherPath
    rw [hcanonical, hpath] at hsame
    obtain rfl := Option.some.inj hsame
    obtain ⟨own, hown, hownPath⟩ := Option.map_eq_some_iff.mp hpath
    simp only [groupRun, hown, hownPath]
    rw [positions_of_group hcanonical hpath, valuesAt_findIdxs, bindAll, valuesOf]

/-- A path is above another when binding it overwrites what binding the other leaves. -/
def Above (skips : List Field → Bool) (p q : List Field) : Prop :=
  p ≠ [] ∧ p <+: q ∧ skips p = false

theorem bindAll_swaps {skips : List Field → Bool} {p q : List Field} {type : MessageType}
    (hp : PathIn types type p) (hq : PathIn types type q) (hpq : ¬Above skips p q)
    (hqp : ¬Above skips q p) :
    Lib.Swaps (bindAll types readers skips start pairs) p q := by
  intro fields
  have hskipped : ∀ {path : List Field}, skips path = true →
      bindAll types readers skips start pairs path = some := by
    intro path hskips
    funext fields
    exact if_pos hskips
  cases hskipsP : skips p with
  | true => rw [hskipped hskipsP, Option.bind_some, Option.bind_fun_some]
  | false =>
      cases hskipsQ : skips q with
      | true => rw [hskipped hskipsQ, Option.bind_some, Option.bind_fun_some]
      | false =>
          exact bindStep_swaps hp hq ⟨fun h => hpq ⟨hp.ne_nil, h, hskipsP⟩,
            fun h => hqp ⟨hq.ne_nil, h, hskipsQ⟩⟩ fields

/-- What a late field takes the place of has no field of a oneof on the way. -/
def LateGivesWay (types : Types) (start : Start) (skips : List Field → Bool)
    (pairs : List (Text × Text)) : Prop :=
  ∀ p q, p <+: q → skips p = false → skips q = false → Late types start pairs p q → GivesWay q p

theorem bindAll_yields (hstart : start.Sound) {skips : List Field → Bool}
    (hway : LateGivesWay types start skips pairs) : (boundPaths types start pairs).Pairwise fun p q =>
      ¬Above skips p q → Lib.Yields (bindAll types readers skips start pairs) p q := by
  refine pairwise_boundPaths.imp_of_mem ?_
  rintro p q hp hq ⟨-, hlate, -⟩ hpq
  have hpin := pathIn_of_boundPaths hstart hp
  have hqin := pathIn_of_boundPaths hstart hq
  by_cases hqp : Above skips q p
  swap
  · exact (bindAll_swaps hpin hqin hpq hqp).yields
  obtain ⟨-, hbegins, hskips⟩ := hqp
  cases hskipped : skips p with
  | true =>
      have hidle : bindAll types readers skips start pairs p = some := funext fun _ => if_pos hskipped
      exact ⟨some, fun fields => by rw [hidle, Option.bind_some, Option.bind_fun_some]⟩
  | false =>
      exact bindStep_yields hpin.ne_nil hqin.ne_nil hskips hbegins
        (hway q p hbegins hskips hskipped (hlate hbegins))

theorem bindPairs_eq {mode : BindingMode} {pathParams : Option (List (Text × Text))} {draft : Draft} :
    outcome (bindPairs types readers pairs start mode pathParams draft) =
      (Lib.runSteps (fun path fields => if path ∈ mergedPaths types start pairs then
          some (attemptOwn readers (skipsPath types mode pathParams draft.presence) start pairs path fields)
        else bindAll types readers (skipsPath types mode pathParams draft.presence) start pairs path fields)
        (directPaths types start pairs) draft.fields).bind
      (Lib.runSteps (bindAll types readers (skipsPath types mode pathParams draft.presence) start pairs)
        (mergedPaths types start pairs)) := by
  rw [bindPairs_outcome, runs_eq]
  congr 1
  funext fields
  exact groups_eq _ fields

theorem bindPairs_once (hstart : start.Sound) {mode : BindingMode}
    {pathParams : Option (List (Text × Text))} {draft : Draft}
    (hway : LateGivesWay types start (skipsPath types mode pathParams draft.presence) pairs) :
    outcome (bindPairs types readers pairs start mode pathParams draft) =
      Lib.runSteps (bindAll types readers (skipsPath types mode pathParams draft.presence) start pairs)
        (boundPaths types start pairs) draft.fields := by
  rw [bindPairs_eq]
  generalize skipsPath types mode pathParams draft.presence = skips at hway ⊢
  refine @Lib.runSteps_first_round _ _ _ (Above skips) _ _ _ ?_ ?_ ?_ _ _ (bindAll_yields hstart hway)
  · rintro i j k ⟨-, hbegins, -⟩ ⟨hne, hbegins', hskips⟩
    exact ⟨hne, hbegins'.trans hbegins, hskips⟩
  · intro path
    by_cases habove : Above skips path path
    · exact Or.inl habove
    · refine Or.inr fun fields => ?_
      unfold attemptOwn bindStep
      cases hskips : skips path with
      | true => rfl
      | false =>
          have hnil : path = [] := Classical.byContradiction fun hne =>
            habove ⟨hne, List.prefix_rfl, hskips⟩
          subst hnil
          rfl
  · rintro q p ⟨hne, hbegins, hskips⟩ fields
    have hq : q ≠ [] := fun h => hne (List.prefix_nil.mp (h ▸ hbegins))
    exact bindStep_attempt hne hq hskips hbegins fields

/-- A field that is bound has values it cannot take, whatever the message. -/
def PairsRefused (types : Types) (readers : StringReaders) (start : Start) (skips : List Field → Bool)
    (pairs : List (Text × Text)) : Prop :=
  ∃ path ∈ boundPaths types start pairs, ∀ fields,
    bindAll types readers skips start pairs path fields = none

theorem PairsRefused.outcome_eq {mode : BindingMode} {pathParams : Option (List (Text × Text))}
    {draft : Draft} (h : PairsRefused types readers start
      (skipsPath types mode pathParams draft.presence) pairs) :
    outcome (bindPairs types readers pairs start mode pathParams draft) = none := by
  rw [bindPairs_eq]
  obtain ⟨path, hmem, hrefused⟩ := h
  rcases List.mem_append.mp hmem with hmem | hmem
  · obtain ⟨hdirect, hnot⟩ := List.mem_filter.mp hmem
    have hnot : path ∉ mergedPaths types start pairs := by simpa using hnot
    rw [Lib.runSteps_refused ⟨path, hdirect, fun fields => by rw [if_neg hnot, hrefused]⟩]
    rfl
  · rw [funext (Lib.runSteps_refused ⟨path, hmem, hrefused⟩), Option.bind_fun_none]

/-- The same fields are late in both, and what they take the place of has no field of a oneof on the
way. Fields that are left alone do not count. -/
structure SameOrder (types : Types) (start : Start) (skips : List Field → Bool)
    (pairs pairs' : List (Text × Text)) : Prop where
  late : ∀ p q, p <+: q → skips p = false → skips q = false →
    (Late types start pairs p q ↔ Late types start pairs' p q)
  way : LateGivesWay types start skips pairs

variable {pairs' : List (Text × Text)}

theorem valuesOf_eq_of_keyPaths (hsame : List.Forall₂ (fun pair pair' => pair'.2 = pair.2 ∧
      keyPath types start pair'.1 = keyPath types start pair.1) pairs pairs') :
    valuesOf types start pairs' = valuesOf types start pairs := by
  funext path
  unfold valuesOf
  induction hsame with
  | nil => rfl
  | cons hpair _ ih =>
      obtain ⟨hvalue, hpath⟩ := hpair
      rw [List.filter_cons, List.filter_cons, hpath]
      split
      · rw [List.map_cons, List.map_cons, hvalue, ih]
      · exact ih

theorem mem_boundPaths_of_keyPaths (hsame : List.Forall₂ (fun pair pair' => pair'.2 = pair.2 ∧
      keyPath types start pair'.1 = keyPath types start pair.1) pairs pairs') (path : List Field) :
    path ∈ boundPaths types start pairs' ↔ path ∈ boundPaths types start pairs := by
  rw [mem_boundPaths, mem_boundPaths]
  induction hsame with
  | nil => rfl
  | cons hpair _ ih =>
      obtain ⟨-, hpath⟩ := hpair
      simp only [List.map_cons, List.mem_cons, exists_eq_or_imp, hpath, ih]

/-- Steps that are in another order in the two lists may change places. -/
theorem SameOrder.swaps {skips : List Field → Bool}
    (horder : SameOrder types start skips pairs pairs') {p q : List Field}
    (hp : PathIn types start.root p) (hq : PathIn types start.root q)
    (hbefore : (q <+: p → Late types start pairs q p) ∧ ¬Late types start pairs p q)
    (hafter : (p <+: q → Late types start pairs' p q) ∧ ¬Late types start pairs' q p) :
    Lib.Swaps (bindAll types readers skips start pairs) q p := by
  have hidle : ∀ {path : List Field}, skips path = true →
      bindAll types readers skips start pairs path = some := fun hskips => funext fun _ => if_pos hskips
  intro fields
  cases hskipsP : skips p with
  | true => rw [hidle hskipsP, Option.bind_some, Option.bind_fun_some]
  | false =>
      cases hskipsQ : skips q with
      | true => rw [hidle hskipsQ, Option.bind_some, Option.bind_fun_some]
      | false =>
          refine bindStep_swaps hq hp ⟨fun hbegins => ?_, fun hbegins => ?_⟩ fields
          · exact hafter.2 ((horder.late q p hbegins hskipsQ hskipsP).mp (hbefore.1 hbegins))
          · exact hbefore.2 ((horder.late p q hbegins hskipsP hskipsQ).mpr (hafter.1 hbegins))

/-- Pairs that name the same fields with the same values have the same outcome. -/
theorem outcome_eq_of_keyPaths (hstart : start.Sound) {mode : BindingMode}
    {pathParams : Option (List (Text × Text))} {draft : Draft}
    (hsame : List.Forall₂ (fun pair pair' => pair'.2 = pair.2 ∧
      keyPath types start pair'.1 = keyPath types start pair.1) pairs pairs')
    (horder : PairsRefused types readers start (skipsPath types mode pathParams draft.presence) pairs ∨
      SameOrder types start (skipsPath types mode pathParams draft.presence) pairs pairs') :
    outcome (bindPairs types readers pairs' start mode pathParams draft) =
      outcome (bindPairs types readers pairs start mode pathParams draft) := by
  have hbind : ∀ skips, bindAll types readers skips start pairs' =
      bindAll types readers skips start pairs := by
    intro skips
    funext path
    rw [bindAll, bindAll, valuesOf_eq_of_keyPaths hsame]
  have hmem := @mem_boundPaths_of_keyPaths types start pairs pairs' hsame
  rcases horder with hrefused | horder
  · rw [hrefused.outcome_eq]
    obtain ⟨path, hpath, hnone⟩ := hrefused
    refine PairsRefused.outcome_eq ⟨path, (hmem path).mpr hpath, ?_⟩
    rwa [hbind]
  have hway' : LateGivesWay types start (skipsPath types mode pathParams draft.presence) pairs' :=
    fun p q hbegins hp hq hlate =>
      horder.way p q hbegins hp hq ((horder.late p q hbegins hp hq).mpr hlate)
  rw [bindPairs_once hstart horder.way, bindPairs_once hstart hway', hbind]
  have hnodup : ∀ pairs, (boundPaths types start pairs).Nodup := fun pairs =>
    pairwise_boundPaths.imp And.left
  have hperm := (List.perm_ext_iff_of_nodup (hnodup pairs') (hnodup pairs)).mpr hmem
  refine (Lib.runSteps_eq_of_pairwise hperm.symm (hnodup pairs) pairwise_boundPaths pairwise_boundPaths
    ?_ draft.fields).symm
  intro p hp q hq hbefore hafter
  exact horder.swaps (pathIn_of_boundPaths hstart hp) (pathIn_of_boundPaths hstart hq) hbefore.2
    hafter.2

end Once

end StructuredProxy
