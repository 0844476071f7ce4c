import StructuredProxy.Request.Respelled

/-!
# The order of the pairs

A query or form is sorted by key before it is bound, and the values of a field are taken in request
order. So only the order of the pairs of one field counts. Keys that fail in the first pass are tried
again in the second, which is sound because an assignment that fails leaves the draft as it was.
-/

namespace StructuredProxy

variable {types : Types} {readers : StringReaders} {mode : BindingMode}

/-- **An assignment that fails leaves no trace**: no parent on the way and nothing recorded. -/
theorem assign_error_leaves_draft {path : List Field} {values : List Text} {draft draft' : Draft}
    {error : Text} (h : assign types readers mode path values draft = (.error error, draft')) :
    draft' = draft := by
  by_cases hne : path = []
  · subst hne
    unfold assign at h
    split at h <;> cases h
  · have hcases := assign_cases types readers mode hne values draft
    rw [h] at hcases
    cases hcases
    rfl

def contactOneof : Oneof := { name := str "contact", members := [1, 2] }

def emailField : Field :=
  { number := 1, name := str "email", jsonName := str "email", kind := .string,
    oneof := some contactOneof }

def phoneField : Field :=
  { number := 2, name := str "phone", jsonName := str "phone", kind := .string,
    oneof := some contactOneof }

def ownerField : Field :=
  { number := 3, name := str "owner", jsonName := str "owner", kind := .message 0 }

def contactType : MessageType :=
  { fullName := str "library.Contact", fields := [emailField, phoneField] }

def mailedOwner : Draft :=
  { fields := [(3, .message 0 [(1, .string (str "a@b"))])], presence := some {} }

theorem second_contact_leaves_draft : ∃ draft',
    assign [contactType] titleLibraries.strings .set [ownerField, phoneField] [str "123"] mailedOwner =
        (.error (str "multiple fields provided for oneof 'contact'"), draft') ∧
      draft' = mailedOwner := by
  have hassign : assign [contactType] titleLibraries.strings .set [ownerField, phoneField] [str "123"]
      mailedOwner = (.error (str "multiple fields provided for oneof 'contact'"),
        (assign [contactType] titleLibraries.strings .set [ownerField, phoneField] [str "123"]
          mailedOwner).2) := rfl
  exact ⟨_, hassign, assign_error_leaves_draft hassign⟩

/-! ### Pairs in another order -/

section Reordered

variable {start : Start} {pathParams : Option (List (Text × Text))} {pairs pairs' : List (Text × Text)}

/-- The same pairs in another order, those of one field in the same one. -/
structure Reordered (types : Types) (start : Start) (pairs pairs' : List (Text × Text)) : Prop where
  perm : pairs.Perm pairs'
  field : ∀ path, (pairs.filter fun pair => keyPath types start pair.1 = some path) =
    pairs'.filter fun pair => keyPath types start pair.1 = some path

theorem sortedKeys_perm {keys keys' : List Text} (h : keys.Perm keys') :
    (keys.eraseDups.mergeSort fun a b => decide (a ≤ b)) =
      keys'.eraseDups.mergeSort fun a b => decide (a ≤ b) := by
  have hmem : ∀ key, key ∈ keys.eraseDups ↔ key ∈ keys'.eraseDups := by
    intro key
    rw [List.mem_eraseDups, List.mem_eraseDups]
    exact h.mem_iff
  have hperm := (List.perm_ext_iff_of_nodup (Lib.nodup_eraseDups keys)
    (Lib.nodup_eraseDups keys')).mpr hmem
  exact Lib.mergeSort_eq_of_perm List.le_trans List.le_total List.le_antisymm
    (hperm.trans (List.mergeSort_perm _ _).symm) ((pairwise_sorted keys').imp And.left)

namespace Reordered

theorem valuesAt_key (h : Reordered types start pairs pairs') {key : Text} {found : Resolved}
    (hfound : resolve types start key = some found) :
    valuesAt pairs (pairs.findIdxs (·.1 = key)) = valuesAt pairs' (pairs'.findIdxs (·.1 = key)) := by
  have hpath := keyPath_of_resolve hfound
  have hnarrow : ∀ list : List (Text × Text), list.filter (fun pair => pair.1 = key) =
      (list.filter fun pair => keyPath types start pair.1 = some found.path).filter
        fun pair => pair.1 = key := by
    intro list
    rw [List.filter_filter]
    refine List.filter_congr fun pair _ => ?_
    by_cases hkey : pair.1 = key
    · simp [hkey, hpath]
    · simp [hkey]
  rw [valuesAt_findIdxs, valuesAt_findIdxs, hnarrow pairs, hnarrow pairs', h.field]

structure Alike (state state' : FirstPass) : Prop where
  draft : state.draft = state'.draft
  inside : state.inside = state'.inside
  aliased : state.aliased.map Prod.fst = state'.aliased.map Prod.fst
  failed : state.failed = state'.failed

theorem firstPassStep_alike (h : Reordered types start pairs pairs') (key : Text)
    {state state' : FirstPass} (hstate : Alike state state') :
    Alike (firstPassStep types readers pairs start mode pathParams state
        (key, pairs.findIdxs (·.1 = key)))
      (firstPassStep types readers pairs' start mode pathParams state'
        (key, pairs'.findIdxs (·.1 = key))) := by
  cases hfound : resolve types start key with
  | none =>
      simp only [firstPassStep, hfound]
      exact hstate
  | some found =>
      simp only [firstPassStep, hfound]
      split
      · refine ⟨hstate.draft, hstate.inside, ?_, hstate.failed⟩
        rw [List.map_append, List.map_append, hstate.aliased]
        rfl
      · rw [h.valuesAt_key hfound, hstate.draft]
        generalize bindResolved types readers pathParams found.path
          (valuesAt pairs' (pairs'.findIdxs (·.1 = key))) mode state'.draft = result
        obtain ⟨result, draft⟩ := result
        cases result with
        | error error => exact ⟨rfl, hstate.inside, hstate.aliased, by simp only [hstate.failed]⟩
        | ok assigned => exact ⟨rfl, by simp only [hstate.inside], hstate.aliased, hstate.failed⟩

theorem firstPass_alike (h : Reordered types start pairs pairs') (draft : Draft) :
    Alike ((runs pairs).foldl (firstPassStep types readers pairs start mode pathParams) { draft })
      ((runs pairs').foldl (firstPassStep types readers pairs' start mode pathParams) { draft }) := by
  have hrun : ∀ (keys : List Text) {state state' : FirstPass}, Alike state state' →
      Alike ((keys.map fun key => (key, pairs.findIdxs (·.1 = key))).foldl
          (firstPassStep types readers pairs start mode pathParams) state)
        ((keys.map fun key => (key, pairs'.findIdxs (·.1 = key))).foldl
          (firstPassStep types readers pairs' start mode pathParams) state') := by
    intro keys
    induction keys with
    | nil => intro state state' hstate; exact hstate
    | cons key keys ih => intro state state' hstate; exact ih (h.firstPassStep_alike key hstate)
  rw [runs, runs, sortedKeys_perm (h.perm.map Prod.fst)]
  exact hrun _ ⟨rfl, rfl, rfl, rfl⟩

theorem valuesAt_group (h : Reordered types start pairs pairs') {key : Text}
    (hkey : key ∈ (aliases types pairs start).map Prod.fst) :
    valuesAt pairs ((((aliases types pairs start).filter (·.1 = key)).flatMap Prod.snd ++
        pairs.findIdxs (·.1 = key)).mergeSort fun a b => decide (a ≤ b)) =
      valuesAt pairs' ((((aliases types pairs' start).filter (·.1 = key)).flatMap Prod.snd ++
        pairs'.findIdxs (·.1 = key)).mergeSort fun a b => decide (a ≤ b)) := by
  obtain ⟨other, -, found, hfound, -, hcanonical⟩ := mem_aliases.mp hkey
  have hother := keyPath_of_resolve hfound
  have hpath : keyPath types start key = some found.path := by
    rw [← hcanonical]
    exact keyPath_canonicalKey hother
  rw [positions_of_group hcanonical hpath, positions_of_group hcanonical hpath, valuesAt_findIdxs,
    valuesAt_findIdxs, h.field]

theorem secondPass_eq {positions positions' : Text → List Nat} {keys : List Text}
    (hvalues : ∀ key ∈ keys, valuesAt pairs (positions key) = valuesAt pairs' (positions' key)) :
    ∀ (inside : Bool) (draft : Draft),
    secondPass types readers pairs start mode pathParams (keys.map fun key => (key, positions key))
        inside draft =
      secondPass types readers pairs' start mode pathParams
        (keys.map fun key => (key, positions' key)) inside draft := by
  induction keys with
  | nil => intro inside draft; rfl
  | cons key keys ih =>
      intro inside draft
      have hrest := ih fun other hother => hvalues other (List.mem_cons_of_mem _ hother)
      rw [List.map_cons, List.map_cons, secondPass, secondPass, hvalues key List.mem_cons_self]
      cases resolve types start key with
      | none => exact hrest inside draft
      | some found =>
          simp only
          generalize bindResolved types readers pathParams found.path (valuesAt pairs' (positions' key))
            mode draft = result
          obtain ⟨result, next⟩ := result
          cases result with
          | error error => rfl
          | ok assigned => exact hrest _ next

end Reordered

/-- **Only the order of the pairs of one field counts**: the error, the message, what is recorded and
the flag are those of the pairs in any other order. -/
theorem bindPairs_reordered (h : Reordered types start pairs pairs') (draft : Draft) :
    bindPairs types readers pairs start mode pathParams draft =
      bindPairs types readers pairs' start mode pathParams draft := by
  have haliases : ∀ list : List (Text × Text), ((runs list).foldl
      (firstPassStep types readers list start mode pathParams) { draft }).aliased =
        aliases types list start := fun list => firstPass_aliased_eq _ _
  have hfirst := @Reordered.firstPass_alike types readers mode start pathParams pairs pairs' h draft
  have hkeys : (aliases types pairs start).map Prod.fst = (aliases types pairs' start).map Prod.fst := by
    rw [← haliases pairs, ← haliases pairs', hfirst.aliased]
  have hcovered : ∀ key, ((aliases types pairs start).any (·.1 = key)) =
      (aliases types pairs' start).any (·.1 = key) := by
    intro key
    have hany := congrArg (List.any · fun other => decide (other = key)) hkeys
    rwa [List.any_map, List.any_map] at hany
  unfold bindPairs
  simp only [haliases, hfirst.failed, hcovered]
  split
  · rw [hfirst.draft]
  · rw [hfirst.inside, hfirst.draft, mergedGroups, mergedGroups, ← hkeys]
    refine Reordered.secondPass_eq (fun key hkey => h.valuesAt_group ?_) _ _
    rwa [List.mem_mergeSort, List.mem_eraseDups] at hkey

end Reordered

theorem title_pairs_reordered :
    bindPairs [bookType, updateType] titleLibraries.strings
        [(str "the_book.title", str "a"), (str "name", str "n"), (str "theBook.title", str "b")]
        (rootStart updateType) .fill none ⟨[], some {}⟩ =
      bindPairs [bookType, updateType] titleLibraries.strings
        [(str "the_book.title", str "a"), (str "theBook.title", str "b"), (str "name", str "n")]
        (rootStart updateType) .fill none ⟨[], some {}⟩ := by
  refine bindPairs_reordered ⟨.cons _ (.swap _ _ _), fun path => ?_⟩ _
  by_cases hname : keyPath [bookType, updateType] (rootStart updateType) (str "name") = some path
  · have htitle : keyPath [bookType, updateType] (rootStart updateType) (str "theBook.title") ≠
        some path := by
      rw [← hname]
      decide +kernel
    simp [List.filter_cons, hname, htitle]
  · simp [List.filter_cons, hname]

end StructuredProxy
