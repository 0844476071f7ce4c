import StructuredProxy.OpenApi.Operation
import StructuredProxy.Transcode.Bindings

/-!
# The OpenAPI document

`generate` walks the services, methods and bindings of a selection, builds one operation for each
binding, and lists it under every path and method it is mounted at, each time with an `operationId` no
other one has.
-/

namespace StructuredProxy.OpenApi

open Lib

inductive HttpOperation where
  | get | put | post | delete | options | head | patch | trace
deriving DecidableEq

namespace HttpOperation

def all : List HttpOperation := [get, put, post, delete, options, head, patch, trace]

def name : HttpOperation → Text
  | get => str "get"
  | put => str "put"
  | post => str "post"
  | delete => str "delete"
  | options => str "options"
  | head => str "head"
  | patch => str "patch"
  | trace => str "trace"

def token : HttpOperation → Text
  | get => str "GET"
  | put => str "PUT"
  | post => str "POST"
  | delete => str "DELETE"
  | options => str "OPTIONS"
  | head => str "HEAD"
  | patch => str "PATCH"
  | trace => str "TRACE"

end HttpOperation

/-- The operations of a binding; none for a method OpenAPI has no operation for. -/
def operationMethods : RouteMethod → List HttpOperation
  | .any => HttpOperation.all
  | .one method => HttpOperation.all.filter fun operation => operation.token = method.token

/-- `base`, then `base_2`, `base_3` and so on. -/
def candidateId (base : Text) (n : Nat) : Text :=
  if n = 1 then base else base ++ str "_" ++ decimal n

/-- The first candidate from the `n`th on that is not taken, among the next `tries` ones. -/
def uniqueIdFrom (ids : List Text) (base : Text) : Nat → Nat → Option Text
  | 0, _ => none
  | tries + 1, n =>
      if candidateId base n ∈ ids then uniqueIdFrom ids base tries (n + 1)
      else some (candidateId base n)

def uniqueId (ids : List Text) (base : Text) : Option Text :=
  uniqueIdFrom ids base (ids.length + 1) 1

abbrev PathItem := KeyMap HttpOperation Operation

abbrev Paths := KeyMap Text PathItem

def addPathOperation (paths : Paths) (path : Text) (method : HttpOperation) (operation : Operation) :
    Paths :=
  paths.set path (((paths.get path).getD .empty).set method operation)

def targets (aliases : List AliasConfig) (path : Text) : List Text :=
  path :: aliases.filterMap fun config =>
    (config.to_.isPrefixOf? path).bind fun suffix =>
      if pathSuffix.isSuffixOf config.from_ then some (trimPathSuffix config.from_ ++ suffix) else none

section

variable (router : Matchit) (uri : UriParser) (aliases : List AliasConfig) (selection : RpcSelection)

def firstMounts (bindings : List RouteBinding) : List MountedPath :=
  bindings.foldl (fun mounts binding =>
    if mounts.any fun mount => mount.shape = binding.mount.shape then mounts
    else mounts ++ [binding.mount]) []

def mountedShapes (pool : DescriptorPool) : List Text :=
  (retainMountable router (·.axum) (firstMounts (routeBindings router uri pool aliases selection))).map
    (·.shape)

/-! ### The document -/

structure OpenApiConfig where
  title : Option Text := none
  version : Option Text := none

structure Document where
  title : Text
  version : Text
  paths : Paths
  tags : List Text
  schemas : Schemas

structure Draft where
  paths : Paths := .empty
  schemas : Schemas := .empty
  tags : List Text := []
  operationIds : List Text := []

/-- One path an operation is listed under, unless the router does not mount it. -/
def addTarget (mounted : List Text) (operation : Operation) (method : HttpOperation) (base : Text)
    (draft : Draft) (path : Text) : Option Draft :=
  let mount := MountedPath.new path
  if !(mount.routable router).toBool || !mounted.contains mount.shape then some draft
  else do
    let operation := if method = .head then stripResponseContent operation else operation
    let id ← uniqueId draft.operationIds base
    return { draft with
      operationIds := id :: draft.operationIds
      paths := addPathOperation draft.paths path method { operation with operationId := id } }

def baseId (service method : Text) (expanded : Bool) (operation : HttpOperation) : Text :=
  service ++ str "." ++ method ++ if expanded then str "_" ++ operation.name else []

variable (types : Types) (fuel : Nat) (mounted : List Text)

def addBinding (service : ApiService) (method : ApiMethod) (draft : Draft) (binding : HttpBinding) :
    Option Draft :=
  let operations := operationMethods binding.method
  if operations.isEmpty then some draft
  else do
    let (operation, schemas) ← buildOperation types fuel service.name method binding draft.schemas
    operations.foldlM (fun draft httpMethod =>
      (targets aliases binding.path).foldlM
        (addTarget router mounted operation httpMethod
          (baseId service.name method.name (operations.length > 1) httpMethod)) draft)
      { draft with schemas }

def addMethod (service : ApiService) (draft : Draft) (method : ApiMethod) : Option Draft :=
  if method.clientStreaming || !selection.selects service.descriptor method.toMethodDescriptor then
    some draft
  else
    (httpBindings method.toMethodDescriptor).foldlM
      (addBinding router aliases types fuel mounted service method) draft

def addService (httpExtension : Bool) (draft : Draft) (service : ApiService) : Option Draft :=
  if !selection.isAll && !service.methods.any fun method =>
      selection.selects service.descriptor method.toMethodDescriptor then some draft
  else
    let draft := { draft with tags := draft.tags ++ [service.name] }
    if !httpExtension then some draft
    else service.methods.foldlM (addMethod router aliases selection types fuel mounted service) draft

def generate (fuel : Nat) (descriptors : Descriptors) (config : OpenApiConfig) : Option Document := do
  let mounted := mountedShapes router uri aliases selection descriptors.pool
  let draft ← descriptors.services.foldlM (addService router aliases selection descriptors.types fuel
    mounted descriptors.httpExtension) {}
  return {
    title := config.title.getD (str "API")
    version := config.version.getD (str "1.0.0")
    paths := draft.paths
    tags := draft.tags
    schemas := draft.schemas }

end

end StructuredProxy.OpenApi
