import StructuredProxy.Transcode.Rule
import StructuredProxy.Lib.Group

/-!
# The tables and the listing of one set of bindings

`path_tables` builds the tables that serve, `route_paths` lists what they will answer for the startup
check. Both start from `route_bindings` and group it by shape.
-/

namespace StructuredProxy

structure AliasConfig where
  from_ : Text
  to_ : Text

structure RouteBinding where
  entry : RouteEntry
  mount : MountedPath
deriving DecidableEq

def RouteBinding.claim (binding : RouteBinding) : Claim :=
  binding.mount.claim binding.entry.httpMethod

def pathSuffix : Text := str "/\x7bpath\x7d"

/-- A text without the `/{path}`s it ends in. -/
def trimPathSuffix (text : Text) : Text :=
  if _ : pathSuffix.isSuffixOf text then
    trimPathSuffix (text.take (text.length - pathSuffix.length))
  else text
termination_by text.length
decreasing_by
  rename_i hsuffix
  have hle : pathSuffix.length ≤ text.length :=
    (List.isSuffixOf_iff_suffix.mp hsuffix).length_le
  have hpos : 0 < pathSuffix.length := by decide
  rw [List.length_take]
  omega

def aliasedPaths (aliases : List AliasConfig) (entry : RouteEntry) : List MountedPath :=
  aliases.filterMap fun config =>
    (config.to_.isPrefixOf? entry.httpPath).bind fun suffix =>
      if pathSuffix.isSuffixOf config.from_ then
        some (MountedPath.new (trimPathSuffix config.from_ ++ suffix))
      else none

section

variable (decoder : PercentDecoder) (router : Matchit)

/-- Keep the items whose router path a router holding the ones kept before accepts. -/
def retainMountableFrom {τ : Type*} (path : τ → Text) (kept : List Text) : List τ → List τ
  | [] => []
  | item :: items =>
      match router.insert kept (path item) with
      | none => item :: retainMountableFrom path (kept ++ [path item]) items
      | some _ => retainMountableFrom path kept items

def retainMountable {τ : Type*} (path : τ → Text) (items : List τ) : List τ :=
  retainMountableFrom router path [] items

variable (uri : UriParser) (pool : DescriptorPool) (aliases : List AliasConfig)
  (selection : RpcSelection)

/-- Every binding of every entry, at its aliases and at its own path, less the templates the router
cannot match. -/
def routeBindings : List RouteBinding :=
  (extractRoutes uri pool selection).flatMap fun entry =>
    ((aliasedPaths aliases entry ++ [MountedPath.new entry.httpPath]).filter fun mount =>
      (mount.routable router).toBool).map fun mount => { entry, mount }

def tableOf (binding : RouteBinding) : PathTable := PathTable.new decoder binding.mount binding.entry

def addTo (table : PathTable) (binding : RouteBinding) : PathTable :=
  table.add decoder binding.mount binding.entry

def tablesOf (bindings : List RouteBinding) : Lib.Grouping Text PathTable :=
  bindings.foldl (Lib.Grouping.push (·.mount.shape) (tableOf decoder) (addTo decoder)) {}

def pathTables : List PathTable :=
  retainMountable router (·.path)
    (tablesOf decoder (routeBindings router uri pool aliases selection)).groups

def firstPath (bindings : List RouteBinding) : Text :=
  match bindings with
  | [] => []
  | binding :: _ => binding.mount.axum

def shapeBindings : List (List RouteBinding) :=
  retainMountable router firstPath
    (Lib.grouped (·.mount.shape) ([·]) (fun bindings binding => bindings ++ [binding])
      (routeBindings router uri pool aliases selection))

def sharedMethods (bindings : List RouteBinding) : List Text :=
  if bindings.any fun binding => binding.entry.httpMethod = .any || binding.mount.verb.isSome then
    [str "*"]
  else (bindings.map (·.entry.httpMethod.asStr)).eraseDups

def clashingMethods (bindings : List RouteBinding) : List Text :=
  bindings.zipIdx.filterMap fun (binding, at_) =>
    if (bindings.take at_).any fun earlier => clash earlier.claim binding.claim then
      some binding.entry.httpMethod.asStr
    else none

def listedMethods (bindings : List RouteBinding) : List Text :=
  sharedMethods bindings ++ clashingMethods bindings

def routePaths : List (Text × Text) :=
  (shapeBindings router uri pool aliases selection).flatMap fun bindings =>
    (listedMethods bindings).map fun method => (method, firstPath bindings)

end

end StructuredProxy
