import StructuredProxy.Transcode.Table

/-!
# The bindings of the annotated RPCs

What `google.api.http` rules bind: the rule of every selected RPC and its additional bindings, each a
method, a path template and the mapping of the body.
-/

namespace StructuredProxy

/-- How the HTTP request body maps onto the gRPC request message. -/
inductive BodyMapping where
  | none
  | root
  | field (name : Text)
deriving DecidableEq

def BodyMapping.parse (raw : Text) : BodyMapping :=
  if raw = [] then .none else if raw = str "*" then .root else .field raw

/-- The fields of an `HttpRule` that make one binding. A field that is not set reads as empty. -/
structure HttpPattern where
  get : Text := []
  put : Text := []
  post : Text := []
  delete : Text := []
  patch : Text := []
  customKind : Text := []
  customPath : Text := []
  body : Text := []
  responseBody : Text := []

structure HttpRule extends HttpPattern where
  additionalBindings : List HttpPattern := []

structure HttpBinding where
  method : RouteMethod
  path : Text
  body : BodyMapping
  responseBody : Option Text
deriving DecidableEq

def stringField (text : Text) : Option Text := if text.isEmpty then none else some text

def Method.fromBytes (token : Text) : Option Method :=
  if valid : (!token.isEmpty && token.all isTokenChar) = true then some ⟨token, valid⟩ else none

namespace HttpPattern

def standardPattern (rule : HttpPattern) : Option (RouteMethod × Text) :=
  [(rule.get, Method.GET), (rule.put, Method.PUT), (rule.post, Method.POST),
    (rule.delete, Method.DELETE), (rule.patch, Method.PATCH)].findSome? fun (field, method) =>
      (stringField field).map fun path => (.one method, path)

def customPattern (rule : HttpPattern) : Option (RouteMethod × Text) := do
  let kind ← stringField rule.customKind
  let path ← stringField rule.customPath
  if kind = str "*" then return (.any, path)
  let method ← Method.fromBytes kind
  return (.one method, path)

def parseHttpRule (rule : HttpPattern) : Option HttpBinding := do
  let (method, path) ← rule.standardPattern.or rule.customPattern
  return {
    method
    path
    body := ((stringField rule.body).map BodyMapping.parse).getD .none
    responseBody := stringField rule.responseBody }

end HttpPattern

def collectBindings (rule : HttpRule) : List HttpBinding :=
  rule.parseHttpRule.toList ++ rule.additionalBindings.filterMap HttpPattern.parseHttpRule

structure MethodDescriptor where
  name : Text
  clientStreaming : Bool := false
  http : Option HttpRule := none

structure ServiceDescriptor where
  fullName : Text
  methods : List MethodDescriptor

structure DescriptorPool where
  /-- Whether the pool holds the extension `google.api.http`. -/
  httpExtension : Bool
  services : List ServiceDescriptor

def httpBindings (method : MethodDescriptor) : List HttpBinding :=
  match method.http with
  | none => []
  | some rule => collectBindings rule

structure SelectedName where
  service : Text
  method : Option Text

structure RpcSelection where
  names : List SelectedName := []

namespace RpcSelection

def isAll (selection : RpcSelection) : Bool := selection.names.isEmpty

def selects (selection : RpcSelection) (service : ServiceDescriptor) (method : MethodDescriptor) :
    Bool :=
  selection.isAll || selection.names.any fun name =>
    name.service = service.fullName && name.method.all (· = method.name)

end RpcSelection

/-- The HTTP library's parsing of a path and query. -/
structure UriParser where
  pathAndQuery : Text → Option Text

/-- The entries of every binding of every selected RPC that does not stream its requests. -/
def extractRoutes (uri : UriParser) (pool : DescriptorPool) (selection : RpcSelection) :
    List RouteEntry :=
  if !pool.httpExtension then []
  else
    pool.services.flatMap fun service =>
      service.methods.flatMap fun method =>
        if method.clientStreaming || !selection.selects service method then []
        else
          match uri.pathAndQuery (slash :: service.fullName ++ slash :: method.name) with
          | none => []
          | some grpcPath =>
              (httpBindings method).map fun binding =>
                { httpPath := binding.path, httpMethod := binding.method, grpcPath }

end StructuredProxy
