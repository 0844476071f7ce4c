import StructuredProxy.Lib.Fallible
import StructuredProxy.Transcode.Bindings
import Mathlib.Logic.Function.Basic

/-!
# The check of the mounted routes before the proxy starts

The startup loop refuses a method registered twice on one shape, and `*` beside any other method. The
bindings it lets pass are held by the tables: a binding the tables would refuse is listed twice.
-/

namespace StructuredProxy

def normalizeRouteShape (path : Text) : Text :=
  [slash].intercalate ((path.splitOn slash).map fun segment =>
    if [openBrace, star].isPrefixOf segment && segment.getLast? = some closeBrace then
      [openBrace, star, closeBrace]
    else if segment.head? = some openBrace && segment.getLast? = some closeBrace then
      [openBrace, closeBrace]
    else segment)

inductive RouteError where
  | mustStartWithSlash (path : Text)
  | registeredTwice (path : Text)
  | conflicts (path error : Text)
deriving DecidableEq

def anyMethod : Text := str "*"

def methodConflict (methods : List Text) (method : Text) : Bool :=
  if method = anyMethod then !methods.isEmpty
  else methods.contains anyMethod || methods.contains method

/-- One round of the startup loop; the state holds the methods of each shape. -/
def registerRoute (methodsByShape : Text → List Text) (route : Text × Text) :
    Except RouteError (Text → List Text) :=
  let (method, path) := route
  if path.head? ≠ some slash then .error (.mustStartWithSlash path)
  else
    let methods := methodsByShape (normalizeRouteShape path)
    if methodConflict methods method then .error (.registeredTwice path)
    else .ok (Function.update methodsByShape (normalizeRouteShape path) (methods ++ [method]))

def checkCollisions (mounted : List (Text × Text)) : Except RouteError Unit := do
  discard (mounted.foldlM registerRoute fun _ => [])

def checkRouter (router : Matchit) (mounted : List (Text × Text)) : Except RouteError Unit := do
  discard <| (mounted.map Prod.snd).eraseDups.foldlM (fun held path =>
    match router.insert held path with
    | some error => .error (RouteError.conflicts path error)
    | none => .ok (held ++ [path])) []

def mountedRoutes (endpoints transcoded : List (Text × Text)) (verifyPath : Option Text) :
    List (Text × Text) :=
  endpoints ++ transcoded ++ verifyPath.toList.map fun path => (anyMethod, path)

def checkMounted (router : Matchit) (endpoints transcoded : List (Text × Text))
    (verifyPath : Option Text) : Except RouteError Unit := do
  checkCollisions (mountedRoutes endpoints transcoded verifyPath)
  checkRouter router (mountedRoutes endpoints transcoded verifyPath)

def Compatible (route other : Text × Text) : Prop :=
  normalizeRouteShape route.2 = normalizeRouteShape other.2 →
    route.1 ≠ anyMethod ∧ other.1 ≠ anyMethod ∧ route.1 ≠ other.1

def Registered (methodsByShape : Text → List Text) (before : List (Text × Text)) : Prop :=
  ∀ shape, methodsByShape shape =
    (before.filter fun route => normalizeRouteShape route.2 = shape).map Prod.fst

theorem registerRoute_ok {state state' : Text → List Text} {before : List (Text × Text)}
    {route : Text × Text} (hregistered : Registered state before)
    (hstep : registerRoute state route = .ok state') :
    Registered state' (before ++ [route]) ∧ ∀ earlier ∈ before, Compatible earlier route := by
  obtain ⟨method, path⟩ := route
  rw [registerRoute] at hstep
  split at hstep
  · exact absurd hstep (by simp)
  simp only at hstep
  split at hstep
  · exact absurd hstep (by simp)
  rename_i hconflict
  obtain rfl := Except.ok.inj hstep
  refine ⟨fun shape => ?_, fun earlier hearlier hshape => ?_⟩
  · by_cases hshape : normalizeRouteShape path = shape
    · subst hshape
      rw [Function.update_self, hregistered]
      simp
    · rw [Function.update_of_ne (Ne.symm hshape), hregistered]
      simp [hshape]
  · have hmem : earlier.1 ∈ state (normalizeRouteShape path) := by
      rw [hregistered]
      exact List.mem_map.mpr ⟨earlier, List.mem_filter.mpr ⟨hearlier, decide_eq_true hshape⟩, rfl⟩
    rw [methodConflict] at hconflict
    split at hconflict
    · have hnil : state (normalizeRouteShape path) = [] := by simpa using hconflict
      rw [hnil] at hmem
      exact absurd hmem List.not_mem_nil
    · rename_i hmethod
      simp only [Bool.or_eq_true, List.contains_iff_mem, not_or] at hconflict
      refine ⟨fun heq => hconflict.1 (heq ▸ hmem), hmethod, fun heq => hconflict.2 ?_⟩
      change earlier.1 = method at heq
      rwa [← heq]

theorem foldlM_registerRoute_ok (mounted : List (Text × Text)) :
    ∀ {state state' : Text → List Text} {before : List (Text × Text)}, Registered state before →
    before.Pairwise Compatible → mounted.foldlM registerRoute state = .ok state' →
    (before ++ mounted).Pairwise Compatible := by
  induction mounted with
  | nil =>
      intro state state' before _ hpairwise _
      rwa [List.append_nil]
  | cons route mounted ih =>
      intro state state' before hregistered hpairwise hfold
      rw [List.foldlM_cons] at hfold
      obtain ⟨middle, hstep, hfold⟩ := Lib.bind_eq_ok.mp hfold
      obtain ⟨hmiddle, hcompatible⟩ := registerRoute_ok hregistered hstep
      have hbefore : (before ++ [route]).Pairwise Compatible := by
        rw [List.pairwise_append]
        refine ⟨hpairwise, List.pairwise_singleton _ _, fun earlier hearlier other hother => ?_⟩
        rw [List.mem_singleton.mp hother]
        exact hcompatible earlier hearlier
      have hrest := ih hmiddle hbefore hfold
      rwa [List.append_assoc, List.singleton_append] at hrest

/-- Why the loop stops at a route after the ones before it: the error names its path, which has no leading
slash, or whose shape has its method already, or `*` beside another. -/
inductive StopsAt (before : List (Text × Text)) (method path : Text) : RouteError → Prop where
  | slashless : path.head? ≠ some slash → StopsAt before method path (.mustStartWithSlash path)
  | twice {earlier : Text × Text} : earlier ∈ before →
      normalizeRouteShape earlier.2 = normalizeRouteShape path →
      method = anyMethod ∨ earlier.1 = anyMethod ∨ earlier.1 = method →
      StopsAt before method path (.registeredTwice path)

theorem registerRoute_error {state : Text → List Text} {before : List (Text × Text)}
    {method path : Text} {error : RouteError} (hregistered : Registered state before)
    (hstep : registerRoute state (method, path) = .error error) : StopsAt before method path error := by
  have hearlier : ∀ {other}, other ∈ state (normalizeRouteShape path) → ∃ earlier ∈ before,
      normalizeRouteShape earlier.2 = normalizeRouteShape path ∧ earlier.1 = other := by
    intro other hother
    rw [hregistered] at hother
    obtain ⟨earlier, hmem, rfl⟩ := List.mem_map.mp hother
    obtain ⟨hmem, hshape⟩ := List.mem_filter.mp hmem
    exact ⟨earlier, hmem, of_decide_eq_true hshape, rfl⟩
  rw [registerRoute] at hstep
  split at hstep
  · rename_i hslash
    cases hstep
    exact .slashless hslash
  dsimp only at hstep
  split at hstep
  · rename_i hconflict
    cases hstep
    rw [methodConflict] at hconflict
    split at hconflict
    · rename_i hany
      have hne : state (normalizeRouteShape path) ≠ [] := by simpa using hconflict
      obtain ⟨earlier, hmem, hshape, -⟩ := hearlier (List.head_mem hne)
      exact .twice hmem hshape (Or.inl hany)
    · rw [Bool.or_eq_true, List.contains_iff_mem, List.contains_iff_mem] at hconflict
      rcases hconflict with hmem | hmem
      · obtain ⟨earlier, hmem, hshape, hmethod⟩ := hearlier hmem
        exact .twice hmem hshape (Or.inr (Or.inl hmethod))
      · obtain ⟨earlier, hmem, hshape, hmethod⟩ := hearlier hmem
        exact .twice hmem hshape (Or.inr (Or.inr hmethod))
  · cases hstep

theorem foldlM_registerRoute_error (mounted : List (Text × Text)) :
    ∀ {state : Text → List Text} {before : List (Text × Text)} {error : RouteError},
    Registered state before → mounted.foldlM registerRoute state = .error error →
    ∃ passed method path rest, mounted = passed ++ (method, path) :: rest ∧
      StopsAt (before ++ passed) method path error := by
  induction mounted with
  | nil => intro state before error _ hfold; cases hfold
  | cons route mounted ih =>
      intro state before error hregistered hfold
      rw [List.foldlM_cons] at hfold
      cases hstep : registerRoute state route with
      | error e =>
          rw [hstep] at hfold
          cases hfold
          refine ⟨[], route.1, route.2, mounted, rfl, ?_⟩
          rw [List.append_nil]
          exact registerRoute_error hregistered hstep
      | ok middle =>
          rw [hstep] at hfold
          obtain ⟨passed, method, path, rest, rfl, hstops⟩ :=
            ih (registerRoute_ok hregistered hstep).1 hfold
          refine ⟨route :: passed, method, path, rest, rfl, ?_⟩
          rwa [List.append_cons]

theorem checkCollisions_error {mounted : List (Text × Text)} {error : RouteError}
    (hcheck : checkCollisions mounted = .error error) :
    ∃ passed method path rest, mounted = passed ++ (method, path) :: rest ∧
      StopsAt passed method path error := by
  unfold checkCollisions at hcheck
  cases hfold : mounted.foldlM registerRoute fun _ => [] with
  | error e =>
      rw [hfold] at hcheck
      obtain rfl : e = error := Except.error.inj hcheck
      have hstart : Registered (fun _ => []) [] := fun _ => rfl
      exact foldlM_registerRoute_error mounted hstart hfold
  | ok state =>
      rw [hfold] at hcheck
      cases hcheck

theorem pairwise_compatible {mounted : List (Text × Text)} (hcheck : checkCollisions mounted = .ok ()) :
    mounted.Pairwise Compatible := by
  unfold checkCollisions at hcheck
  cases hfold : mounted.foldlM registerRoute fun _ => [] with
  | error e =>
      rw [hfold] at hcheck
      exact absurd hcheck (by simp [discard, Functor.discard, Functor.mapConst, Except.map])
  | ok state =>
      exact foldlM_registerRoute_ok mounted (fun _ => rfl) List.Pairwise.nil hfold

/-! ### What the tables hold -/

theorem clash_ofMount {decoder : PercentDecoder} (binding : RouteBinding) (names : Option (List Text))
    (claim : Claim) :
    clash (Binding.ofMount decoder binding.mount binding.entry names).claim claim =
      clash binding.claim claim := by
  have hverb : ((Binding.ofMount decoder binding.mount binding.entry names).claim.verb.map
      normalizeEscapes) = binding.claim.verb.map normalizeEscapes := by
    simp only [Binding.claim, Binding.ofMount, Option.map_map, RouteBinding.claim,
      MountedPath.claim]
    cases binding.mount.verb with
    | none => rfl
    | some raw => exact congrArg some (normalizeEscapes_idem raw)
  have htemplate : (Binding.ofMount decoder binding.mount binding.entry names).claim.template =
      binding.claim.template := by
    simp only [Binding.claim, Binding.ofMount, Template.of, Option.map_map, RouteBinding.claim,
      MountedPath.claim]
    cases binding.mount.lastTemplate <;> rfl
  have hliterals : (Binding.ofMount decoder binding.mount binding.entry names).claim.literals =
      normalizedLiterals binding.claim.literals := rfl
  have hmethod : (Binding.ofMount decoder binding.mount binding.entry names).claim.method =
      binding.claim.method := rfl
  simp only [clash, hverb, htemplate, hliterals, hmethod, normalizedLiterals, List.length_map,
    List.zip_map_left, List.all_map]
  congr 3
  funext pair
  simp only [Function.comp, Prod.map, id, normalizeEscapes_idem]

structure Kept (decoder : PercentDecoder) (table : PathTable) (bindings : List RouteBinding) : Prop where
  path : table.path = firstPath bindings
  sound : ∀ kept ∈ table.bindings, ∃ binding ∈ bindings, ∃ names,
    kept = Binding.ofMount decoder binding.mount binding.entry names
  complete : (bindings.Pairwise fun earlier later => clash earlier.claim later.claim = false) →
    ∀ binding ∈ bindings, ∃ names,
      Binding.ofMount decoder binding.mount binding.entry names ∈ table.bindings

namespace Kept

variable {decoder : PercentDecoder} {table : PathTable} {bindings : List RouteBinding}

theorem start (binding : RouteBinding) : Kept decoder (tableOf decoder binding) [binding] where
  path := rfl
  sound kept hkept := ⟨binding, List.mem_singleton_self _, none, List.mem_singleton.mp hkept⟩
  complete _ other hother := by
    rw [List.mem_singleton.mp hother]
    exact ⟨none, List.mem_singleton_self _⟩

theorem exists_clash (hkept : Kept decoder table bindings) {binding : RouteBinding}
    (htaken : table.taken binding.mount binding.entry = true) :
    ∃ earlier ∈ bindings, clash earlier.claim binding.claim = true := by
  obtain ⟨existing, hexisting, hclash⟩ := List.any_eq_true.mp htaken
  obtain ⟨earlier, hearlier, names, rfl⟩ := hkept.sound existing hexisting
  rw [clash_ofMount] at hclash
  exact ⟨earlier, hearlier, hclash⟩

theorem add (hkept : Kept decoder table bindings) (hne : bindings ≠ []) (binding : RouteBinding) :
    Kept decoder (addTo decoder table binding) (bindings ++ [binding]) := by
  have hpath : firstPath (bindings ++ [binding]) = firstPath bindings := by
    cases bindings with
    | nil => exact absurd rfl hne
    | cons first bindings => rfl
  rw [addTo, PathTable.add]
  split
  · rename_i htaken
    obtain ⟨earlier, hearlier, hclash⟩ := hkept.exists_clash htaken
    refine ⟨hkept.path.trans hpath.symm, fun kept hmem => ?_, fun hpairwise => ?_⟩
    · obtain ⟨other, hother, hnames⟩ := hkept.sound kept hmem
      exact ⟨other, List.mem_append_left _ hother, hnames⟩
    · have hfalse := (List.pairwise_append.mp hpairwise).2.2 earlier hearlier binding
        List.mem_cons_self
      rw [hclash] at hfalse
      exact absurd hfalse (by decide)
  · refine ⟨hkept.path.trans hpath.symm, fun kept hmem => ?_, fun hpairwise other hother => ?_⟩
    · rcases (List.mem_insertIdx (PathTable.place_le _ _)).mp hmem with rfl | hmem
      · exact ⟨binding, List.mem_append_right _ List.mem_cons_self, _, rfl⟩
      · obtain ⟨other, hother, hnames⟩ := hkept.sound kept hmem
        exact ⟨other, List.mem_append_left _ hother, hnames⟩
    · rcases List.mem_append.mp hother with hother | hother
      · obtain ⟨names, hnames⟩ := hkept.complete (List.pairwise_append.mp hpairwise).1 other hother
        exact ⟨names, (List.mem_insertIdx (PathTable.place_le _ _)).mpr (Or.inr hnames)⟩
      · rw [List.mem_singleton.mp hother]
        exact ⟨_, (List.mem_insertIdx (PathTable.place_le _ _)).mpr (Or.inl rfl)⟩

theorem of_build {group : List RouteBinding}
    (hbuild : Lib.Grouping.build (tableOf decoder) (addTo decoder) group = some table) :
    Kept decoder table group :=
  Lib.Grouping.build_induct Kept.start (fun _ binding _ hne hkept => hkept.add hne binding) hbuild

end Kept

/-! ### The listing and the tables of one set of bindings -/

theorem forall₂_retainMountable {σ τ : Type*} {related : σ → τ → Prop} (router : Matchit)
    {path : σ → Text} {path' : τ → Text}
    (hpath : ∀ {item item'}, related item item' → path item = path' item') {items : List σ}
    {items' : List τ} (hall : List.Forall₂ related items items') : ∀ kept : List Text,
    List.Forall₂ related (retainMountableFrom router path kept items)
      (retainMountableFrom router path' kept items') := by
  induction hall with
  | nil => intro kept; exact List.Forall₂.nil
  | cons hitem _ ih =>
      intro kept
      rw [retainMountableFrom, retainMountableFrom, hpath hitem]
      split
      · exact List.Forall₂.cons hitem (ih _)
      · exact ih _

theorem mem_of_mem_retainMountable {τ : Type*} {router : Matchit} {path : τ → Text} {items : List τ}
    {item : τ} : ∀ {kept : List Text}, item ∈ retainMountableFrom router path kept items →
    item ∈ items := by
  induction items with
  | nil => intro kept hmem; exact hmem
  | cons first items ih =>
      intro kept hmem
      rw [retainMountableFrom] at hmem
      split at hmem
      · rcases List.mem_cons.mp hmem with rfl | hmem
        · exact List.mem_cons_self
        · exact List.mem_cons_of_mem _ (ih hmem)
      · exact List.mem_cons_of_mem _ (ih hmem)

section

variable (decoder : PercentDecoder) (router : Matchit) (uri : UriParser) (pool : DescriptorPool)
  (aliases : List AliasConfig)
  (selection : RpcSelection)

theorem forall₂_pathTables :
    List.Forall₂
      (fun group table => Lib.Grouping.build (tableOf decoder) (addTo decoder) group = some table)
      (shapeBindings router uri pool aliases selection)
      (pathTables decoder router uri pool aliases selection) := by
  refine forall₂_retainMountable router ?_ (Lib.forall₂_grouped _ _ _ _) []
  intro group table hbuild
  exact (Kept.of_build hbuild).path.symm

variable {decoder router uri pool aliases selection}

theorem eq_filter_of_mem_shapeBindings {group : List RouteBinding}
    (hgroup : group ∈ shapeBindings router uri pool aliases selection) {binding : RouteBinding}
    (hbinding : binding ∈ group) :
    group = (routeBindings router uri pool aliases selection).filter fun other =>
      other.mount.shape = binding.mount.shape := by
  have hmem := mem_of_mem_retainMountable hgroup
  rw [Lib.grouped_lists] at hmem
  obtain ⟨shape, -, rfl⟩ := List.mem_map.mp hmem
  have hshape := (List.mem_filter.mp hbinding).2
  rw [of_decide_eq_true hshape]

/-- A binding that clashes with an earlier one of its shape is listed beside a method it conflicts
with. -/
theorem not_pairwise_listed {before after : List RouteBinding} {earlier binding : RouteBinding}
    (hearlier : earlier ∈ before) (hclash : clash earlier.claim binding.claim = true) (path : Text) :
    ¬((listedMethods (before ++ binding :: after)).map fun method => (method, path)).Pairwise
      Compatible := by
  intro hpairwise
  rw [List.pairwise_map, listedMethods] at hpairwise
  have hlisted : binding.entry.httpMethod.asStr ∈ clashingMethods (before ++ binding :: after) := by
    refine List.mem_filterMap.mpr ⟨(binding, before.length), ?_, ?_⟩
    · exact List.mem_zipIdx_iff_getElem?.mpr (by simp)
    · have hany : (before.any fun earlier => clash earlier.claim binding.claim) = true :=
        List.any_eq_true.mpr ⟨earlier, hearlier, hclash⟩
      simp [hany]
  have hcross := (List.pairwise_append.mp hpairwise).2.2
  rw [sharedMethods] at hcross
  split at hcross
  · exact (hcross anyMethod List.mem_cons_self _ hlisted rfl).1 rfl
  · have hshared : binding.entry.httpMethod.asStr ∈
        ((before ++ binding :: after).map (·.entry.httpMethod.asStr)).eraseDups := by
      refine List.mem_eraseDups.mpr (List.mem_map.mpr ⟨binding, ?_, rfl⟩)
      exact List.mem_append_right _ List.mem_cons_self
    exact (hcross _ hshared _ hlisted rfl).2.2 rfl

theorem pairwise_clash_of_check {endpoints : List (Text × Text)} {verifyPath : Option Text}
    (hcheck : checkCollisions (mountedRoutes endpoints
      (routePaths router uri pool aliases selection) verifyPath) = .ok ())
    {group : List RouteBinding} (hgroup : group ∈ shapeBindings router uri pool aliases selection) :
    group.Pairwise fun earlier later => clash earlier.claim later.claim = false := by
  have hall := pairwise_compatible hcheck
  have hlisting := (List.pairwise_append.mp (List.pairwise_append.mp hall).1).2.1
  have hlisted := (List.pairwise_flatMap.mp hlisting).1 group hgroup
  rw [List.pairwise_iff_getElem]
  intro i j hi hj hij
  by_contra hclash
  have hearlier : group[i] ∈ group.take j := List.mem_take_iff_getElem.mpr ⟨i, by omega, rfl⟩
  have hnot := @not_pairwise_listed (group.take j) (group.drop (j + 1)) _ group[j] hearlier
    (by simpa using hclash) (firstPath group)
  rw [List.getElem_cons_drop, List.take_append_drop] at hnot
  exact hnot hlisted

def MountedShape (router : Matchit) (uri : UriParser) (pool : DescriptorPool)
    (aliases : List AliasConfig) (selection : RpcSelection) (shape : Text) : Prop :=
  ∃ group ∈ shapeBindings router uri pool aliases selection,
    ∃ binding ∈ group, binding.mount.shape = shape

/-- Whether `add` refuses `binding` when `path_tables` comes to it after `before`. -/
def refuses (decoder : PercentDecoder) (before : List RouteBinding) (binding : RouteBinding) : Bool :=
  ((tablesOf decoder before).group? binding.mount.shape).any fun table =>
    table.taken binding.mount binding.entry

theorem filter_mem_shapeBindings {shape : Text}
    (hshape : MountedShape router uri pool aliases selection shape) :
    ((routeBindings router uri pool aliases selection).filter fun other =>
      other.mount.shape = shape) ∈ shapeBindings router uri pool aliases selection := by
  obtain ⟨group, hgroup, binding, hbinding, rfl⟩ := hshape
  rwa [← eq_filter_of_mem_shapeBindings hgroup hbinding]

theorem group?_tablesOf (bindings : List RouteBinding) (shape : Text) :
    (tablesOf decoder bindings).group? shape = Lib.Grouping.build (tableOf decoder) (addTo decoder)
      (bindings.filter fun other => other.mount.shape = shape) :=
  (Lib.Grouping.holds_foldl bindings).group?_eq shape

theorem not_refuses_of_check {endpoints : List (Text × Text)} {verifyPath : Option Text}
    (hcheck : checkCollisions (mountedRoutes endpoints
      (routePaths router uri pool aliases selection) verifyPath) = .ok ())
    {before after : List RouteBinding} {binding : RouteBinding}
    (hsplit : routeBindings router uri pool aliases selection = before ++ binding :: after)
    (hshape : MountedShape router uri pool aliases selection binding.mount.shape) :
    refuses decoder before binding = false := by
  have hpairwise := pairwise_clash_of_check hcheck (filter_mem_shapeBindings hshape)
  have hbinding : binding ∈ (binding :: after).filter fun other =>
      other.mount.shape = binding.mount.shape :=
    List.mem_filter.mpr ⟨List.mem_cons_self, decide_eq_true rfl⟩
  rw [hsplit, List.filter_append, List.pairwise_append] at hpairwise
  rw [refuses, group?_tablesOf]
  cases hbuild : Lib.Grouping.build (tableOf decoder) (addTo decoder)
      (before.filter fun other => other.mount.shape = binding.mount.shape) with
  | none => rfl
  | some table =>
      rw [Option.any_some, Bool.eq_false_iff]
      intro htaken
      obtain ⟨earlier, hearlier, hclash⟩ := (Kept.of_build hbuild).exists_clash htaken
      rw [hpairwise.2.2 earlier hearlier binding hbinding] at hclash
      exact absurd hclash (by decide)

/-- **No binding of a mounted shape is lost.** Where the startup loop lets the routes pass, `add`
refuses none of them and the table of their shape holds each; one it would refuse fails startup, with
the path of the route at which the loop stops. -/
theorem startup_holds_bindings (decoder : PercentDecoder) (router : Matchit) (uri : UriParser)
    (pool : DescriptorPool) (aliases : List AliasConfig) (selection : RpcSelection)
    (endpoints : List (Text × Text)) (verifyPath : Option Text) :
    let bindings := routeBindings router uri pool aliases selection
    let transcoded := routePaths router uri pool aliases selection
    (checkCollisions (mountedRoutes endpoints transcoded verifyPath) = .ok () →
      (∀ before binding after, bindings = before ++ binding :: after →
        MountedShape router uri pool aliases selection binding.mount.shape →
        refuses decoder before binding = false) ∧
      ∀ binding ∈ bindings, MountedShape router uri pool aliases selection binding.mount.shape →
        ∃ table ∈ pathTables decoder router uri pool aliases selection,
          table.path = firstPath (bindings.filter fun other =>
            other.mount.shape = binding.mount.shape) ∧
          ∃ names, Binding.ofMount decoder binding.mount binding.entry names ∈ table.bindings) ∧
    ∀ before binding after, bindings = before ++ binding :: after →
      MountedShape router uri pool aliases selection binding.mount.shape →
      refuses decoder before binding = true →
      ∃ error, checkCollisions (mountedRoutes endpoints transcoded verifyPath) = .error error ∧
        checkMounted router endpoints transcoded verifyPath = .error error ∧
        ∃ passed method path rest,
          mountedRoutes endpoints transcoded verifyPath = passed ++ (method, path) :: rest ∧
            StopsAt passed method path error := by
  intro bindings transcoded
  refine ⟨fun hcheck => ⟨fun before binding after hsplit hshape => ?_, fun binding hbinding hshape => ?_⟩,
    fun before binding after hsplit hshape hrefuses => ?_⟩
  · exact not_refuses_of_check hcheck hsplit hshape
  · have hgroup := filter_mem_shapeBindings hshape
    obtain ⟨table, htable, hbuild⟩ := Lib.exists_of_mem_forall₂
      (forall₂_pathTables decoder router uri pool aliases selection) hgroup
    have hkept := Kept.of_build hbuild
    refine ⟨table, htable, hkept.path, ?_⟩
    exact hkept.complete (pairwise_clash_of_check hcheck hgroup) binding
      (List.mem_filter.mpr ⟨hbinding, decide_eq_true rfl⟩)
  · cases hcheck : checkCollisions (mountedRoutes endpoints transcoded verifyPath) with
    | ok =>
        rw [not_refuses_of_check hcheck hsplit hshape] at hrefuses
        exact absurd hrefuses (by decide)
    | error error =>
        refine ⟨error, rfl, ?_, checkCollisions_error hcheck⟩
        rw [checkMounted, hcheck]
        rfl

end

/-- Two router paths of one shape, or with a variable and a catch-all at one position. -/
def routesConflict : List Text → List Text → Bool
  | [], [] => true
  | segment :: segments, other :: others =>
      if segment.head? = some openBrace && other.head? = some openBrace then
        isCatchAll segment != isCatchAll other || routesConflict segments others
      else segment = other && routesConflict segments others
  | _, _ => false

def shapeRouter : Matchit where
  insert held path :=
    if held.any fun other => routesConflict (other.splitOn slash) (path.splitOn slash) then
      some (str "conflict with previously registered route")
    else none

def threePaths : DescriptorPool where
  httpExtension := true
  services := [{
    fullName := str "acme.Files"
    methods := [{
      name := str "Get"
      http := some {
        get := str "/v1/\x7bname=**\x7d"
        additionalBindings :=
          [{ get := str "/v1/\x7bid\x7d" }, { get := str "/v1/\x7bkey\x7d" }] } }] }]

/-- The first binding of the three is held by the table of its shape. -/
theorem startup_holds_first_of_three :
    checkCollisions (mountedRoutes [] (routePaths shapeRouter ⟨some⟩ threePaths [] {}) none) =
        .ok () ∧
      ∃ table ∈ pathTables percentDecoder shapeRouter ⟨some⟩ threePaths [] {}, ∃ names,
        Binding.ofMount percentDecoder (MountedPath.new (str "/v1/\x7bname=**\x7d"))
          ⟨str "/v1/\x7bname=**\x7d", .one Method.GET, str "/acme.Files/Get"⟩ names ∈
            table.bindings := by
  have hcheck : checkCollisions (mountedRoutes []
      (routePaths shapeRouter ⟨some⟩ threePaths [] {}) none) = .ok () := by decide +kernel
  have hshape : ∃ group ∈ shapeBindings shapeRouter ⟨some⟩ threePaths [] {},
      ∃ binding ∈ group, binding.mount.shape = str "/v1/\x7b*\x7d" := by decide +kernel
  obtain ⟨table, htable, -, hnames⟩ :=
    ((startup_holds_bindings percentDecoder shapeRouter ⟨some⟩ threePaths [] {} [] none).1 hcheck).2
      ⟨⟨str "/v1/\x7bname=**\x7d", .one Method.GET, str "/acme.Files/Get"⟩,
        MountedPath.new (str "/v1/\x7bname=**\x7d")⟩ (by decide +kernel) hshape
  exact ⟨hcheck, table, htable, hnames⟩

/-- The third binding is refused though the loop reports nothing: the router refuses the shape, so
neither the listing nor the tables have it. -/
theorem add_refuses_unmounted_shape :
    checkCollisions (mountedRoutes [] (routePaths shapeRouter ⟨some⟩ threePaths [] {}) none) =
        .ok () ∧
      ∃ before binding after,
        routeBindings shapeRouter ⟨some⟩ threePaths [] {} = before ++ binding :: after ∧
        refuses percentDecoder before binding = true := by
  refine ⟨by decide +kernel, ?_⟩
  have hrefuses : ∃ binding ∈ (routeBindings shapeRouter ⟨some⟩ threePaths [] {})[2]?,
      refuses percentDecoder ((routeBindings shapeRouter ⟨some⟩ threePaths [] {}).take 2) binding =
        true := by
    decide +kernel
  obtain ⟨binding, hget, hbinding⟩ := hrefuses
  obtain ⟨hlt, hget⟩ := List.getElem?_eq_some_iff.mp hget
  refine ⟨_, binding, (routeBindings shapeRouter ⟨some⟩ threePaths [] {}).drop 3, ?_, hbinding⟩
  rw [← hget, List.getElem_cons_drop, List.take_append_drop]

end StructuredProxy
