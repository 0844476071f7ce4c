import StructuredProxy.Guard.Stack
import StructuredProxy.Guard.Grpc
import StructuredProxy.Cors.Policy
import StructuredProxy.ClientAddress.OneList

/-!
# Native gRPC

A request that speaks gRPC goes to the upstream, behind the guards that cover gRPC, and a browser's
preflight for such a call goes where the call goes. The paths are built once, boxed where a guard or the
translation of gRPC-Web is in between, plain otherwise; the choice between them makes no difference to
an answer. Whatever a guard or a failing upstream says reaches the client as a status in the protocol of
its call.
-/

namespace StructuredProxy.Guard

open Lib Addressing

variable {τ σ : Type}

/-- The gRPC service behind the proxy: its response, or the status it failed with. -/
abbrev Upstream (τ σ : Type) := Request → Shared σ → Except τ Response × Shared σ

/-- `PassThrough`, and `Forward` around it. -/
def forward (wire : Wire τ) (upstream : Upstream τ σ) (protocol : GrpcProtocol) : Service σ :=
  fun request shared =>
    match upstream request shared with
    | (.ok response, shared) => (response, shared)
    | (.error status, shared) => (trailersOnly wire status protocol, shared)

def grpcRejections (wire : Wire τ) (protocol : GrpcProtocol) (inner : Service σ) : Service σ :=
  fun request shared =>
    let (response, shared) := inner request shared
    (inGrpc wire protocol response, shared)

def Request.forCors (request : Request) : Cors.Request := ⟨request.method.token, request.headers⟩

def corsLayer (policy : Cors.Policy) (inner : Service σ) : Service σ := fun request shared =>
  if request.forCors.isPreflight then
    ({ status := 200, headers := policy.preflight request.headers, body := .empty, rejection := none },
      shared)
  else
    let (response, shared) := inner request shared
    let allowOrigin := policy.allowOrigin (Cors.get Cors.origin request.headers)
    ({ response with headers := policy.answer response.headers allowOrigin }, shared)

/-- A preflight that announces the header every gRPC-Web call carries. -/
def isGrpcWebPreflight (request : Request) : Bool :=
  request.forCors.isPreflight &&
    ((request.headers.getAll Cors.requestHeaders).flatMap fun value => value.splitOn comma).any
      fun name => Metadata.eqIgnoreAsciiCase (Metadata.trimAscii name) (str "x-grpc-web")

/-! ### The service -/

structure ProxyConfig (τ σ : Type) where
  wire : Wire τ
  upstream : Upstream τ σ
  /-- The upstream behind tonic-web's translation. -/
  translated : Service σ
  routes : Service σ
  grpcWebCors : Option Cors.Policy
  guards : Guards σ
  translateGrpcWeb : Bool
  resolver : Resolver
  forms : AddressText

structure BoxedGrpc (σ : Type) where
  grpc : Option (Service σ)
  web : Option (Service σ)
  webText : Option (Service σ)

structure GrpcWebCors (σ : Type) where
  web : Service σ
  webText : Service σ

structure ProxyService (τ σ : Type) where
  config : ProxyConfig τ σ
  grpcWeb : Option (GrpcWebCors σ)
  boxed : BoxedGrpc σ

namespace ProxyConfig

variable (config : ProxyConfig τ σ)

/-- The stack of one protocol: CORS outermost, so a rejected gRPC-Web call still carries it. -/
def stack (protocol : GrpcProtocol) : Service σ :=
  let web := decide (protocol ≠ .grpc)
  let service :=
    if web && config.translateGrpcWeb then config.translated
    else forward config.wire config.upstream protocol
  let service :=
    if config.guards.cover .grpc then
      grpcRejections config.wire protocol (config.guards.service .grpc service)
    else service
  match config.grpcWebCors with
  | some cors => if web then corsLayer cors service else service
  | none => service

/-- `ProxyService::new`. -/
def build : ProxyService τ σ :=
  let guardGrpc := config.guards.cover .grpc
  let boxedWeb := guardGrpc || config.translateGrpcWeb
  { config
    grpcWeb := config.grpcWebCors.map fun cors =>
      { web := corsLayer cors (forward config.wire config.upstream .web)
        webText := corsLayer cors (forward config.wire config.upstream .webText) }
    boxed :=
      { grpc := if guardGrpc then some (config.stack .grpc) else none
        web := if boxedWeb then some (config.stack .web) else none
        webText := if boxedWeb then some (config.stack .webText) else none } }

def resolved (peer : Option SocketAddr) (request : Request) : Request :=
  let applied := config.resolver.apply config.forms ⟨request.headers, request.client⟩ peer
  { request with headers := applied.headers, client := applied.client }

end ProxyConfig

namespace ProxyService

def boxedFor (proxy : ProxyService τ σ) : GrpcProtocol → Option (Service σ)
  | .grpc => proxy.boxed.grpc
  | .web => proxy.boxed.web
  | .webText => proxy.boxed.webText

def corsFor (proxy : ProxyService τ σ) : GrpcProtocol → Option (Service σ)
  | .grpc => none
  | .web => proxy.grpcWeb.map (·.web)
  | .webText => proxy.grpcWeb.map (·.webText)

def call (proxy : ProxyService τ σ) (peer : Option SocketAddr) : Service σ := fun request shared =>
  let call := grpcProtocol request.headers
  let protocol := call.or (if isGrpcWebPreflight request then some .web else none)
  -- a preflight is not a call: it skips the guards and the translation
  let boxed := call.bind proxy.boxedFor
  match protocol with
  | some protocol =>
      let request := proxy.config.resolved peer request
      match boxed with
      | some service => service request shared
      | none =>
          match proxy.corsFor protocol with
          | some cors => cors request shared
          | none => forward proxy.config.wire proxy.config.upstream protocol request shared
  | none => proxy.config.routes request shared

end ProxyService

namespace ProxyConfig

variable (config : ProxyConfig τ σ) {peer : Option SocketAddr} {request : Request} {protocol : GrpcProtocol}

def target (protocol : GrpcProtocol) : Service σ :=
  if protocol ≠ .grpc && config.translateGrpcWeb then config.translated
  else forward config.wire config.upstream protocol

/-- The CORS layer in front of a protocol. -/
def corsOf (protocol : GrpcProtocol) : Option Cors.Policy :=
  if protocol ≠ .grpc then config.grpcWebCors else none

theorem stack_eq (protocol : GrpcProtocol) :
    config.stack protocol =
      (config.corsOf protocol).elim id corsLayer
        (if config.guards.cover .grpc then
          grpcRejections config.wire protocol (config.guards.service .grpc (config.target protocol))
        else config.target protocol) := by
  rw [stack, target, corsOf]
  by_cases hweb : protocol = .grpc
  · cases config.grpcWebCors <;> simp [hweb]
  · cases config.grpcWebCors <;> simp [hweb]

/-- A protocol is boxed where its stack is more than a pass-through. -/
theorem boxedFor_build (protocol : GrpcProtocol) :
    config.build.boxedFor protocol = some (config.stack protocol) ∨
      config.build.boxedFor protocol = none ∧ config.guards.cover .grpc = false ∧
        config.target protocol = forward config.wire config.upstream protocol := by
  rw [target, build]
  cases hcover : config.guards.cover .grpc with
  | true => cases protocol <;> exact Or.inl rfl
  | false =>
      cases htranslate : config.translateGrpcWeb with
      | true =>
          cases protocol with
          | grpc => exact Or.inr ⟨rfl, rfl, rfl⟩
          | web => exact Or.inl rfl
          | webText => exact Or.inl rfl
      | false => cases protocol <;> exact Or.inr ⟨rfl, rfl, rfl⟩

theorem corsFor_build (protocol : GrpcProtocol) :
    config.build.corsFor protocol = (config.corsOf protocol).map fun cors =>
      corsLayer cors (forward config.wire config.upstream protocol) := by
  rw [build, corsOf]
  cases protocol with
  | grpc => rfl
  | web => cases config.grpcWebCors <;> rfl
  | webText => cases config.grpcWebCors <;> rfl

/-- **A call takes its protocol's stack**, whether that stack was built or the plain path serves it. -/
theorem call_of_grpcProtocol (h : grpcProtocol request.headers = some protocol) (shared : Shared σ) :
    config.build.call peer request shared =
      config.stack protocol (config.resolved peer request) shared := by
  have hconfig : config.build.config = config := rfl
  rw [ProxyService.call, h]
  dsimp only [Option.or, Option.bind]
  rw [hconfig]
  obtain hboxed | ⟨hplain, hcover, htarget⟩ := config.boxedFor_build protocol
  · rw [hboxed]
  · rw [hplain, corsFor_build, stack_eq, hcover, htarget]
    cases config.corsOf protocol with
    | none => rfl
    | some cors => rfl

/-! ### Answers -/

/-- An answer that reaches the client as the upstream or the guards gave it. -/
def passesAs (response : Response) : Bool :=
  !config.guards.cover .grpc || (response.rejection.isNone && (grpcProtocol response.headers).isSome)

end ProxyConfig

def codeOf (response : Response) : Code :=
  response.rejection.elim (httpToGrpcCode response.status) (·.code)

def messageOf (wire : Wire τ) (response : Response) : Text :=
  response.rejection.elim ((wire.canonicalReason response.status).getD []) (·.message)

def corsHeaders : List Text :=
  [Cors.exposeHeaders, Cors.allowOriginName, Cors.vary, Cors.allowCredentials]

theorem getAll_cors_answer {policy : Cors.Policy} {name : Text} (h : name ∉ corsHeaders)
    (headers : Headers) (allowed : Option Text) :
    (policy.answer headers allowed).getAll name = headers.getAll name := by
  simp only [corsHeaders, List.mem_cons, List.not_mem_nil, or_false, not_or] at h
  obtain ⟨hexpose, horigin, hvary, hcredentials⟩ := h
  rw [Cors.Policy.answer]
  split
  · rw [HeaderMap.getAll_insert_of_ne horigin, HeaderMap.getAll_insert_of_ne hexpose]
  · rw [Cors.getAll_insertSome_of_ne hexpose, Cors.getAll_insertSome_of_ne horigin,
      HeaderMap.getAll_insert_of_ne hcredentials, HeaderMap.getAll_append_of_ne hvary]

/-- The headers CORS may write to an answer; none where there is no such layer. -/
def corsTouches (cors : Option Cors.Policy) : List Text := if cors.isSome then corsHeaders else []

theorem corsLayer_of_ordinary (cors : Option Cors.Policy) (inner : Service σ) {request : Request}
    (h : request.forCors.isPreflight = false) (shared : Shared σ) :
    ∃ headers : Headers, (∀ name, name ∉ corsTouches cors →
        headers.getAll name = (inner request shared).1.headers.getAll name) ∧
      (cors.elim id corsLayer) inner request shared =
        ({ (inner request shared).1 with headers }, (inner request shared).2) := by
  cases cors with
  | none => exact ⟨(inner request shared).1.headers, fun _ _ => rfl, rfl⟩
  | some policy =>
      refine ⟨policy.answer (inner request shared).1.headers
        (policy.allowOrigin (Cors.get Cors.origin request.headers)),
        fun name hname => getAll_cors_answer hname _ _, ?_⟩
      rw [Option.elim, corsLayer, h]
      rfl

theorem inGrpc_of_native {wire : Wire τ} {protocol : GrpcProtocol} {response : Response}
    (h : (response.rejection.isNone && (grpcProtocol response.headers).isSome) = true) :
    inGrpc wire protocol response = response := by
  rw [Bool.and_eq_true, Option.isNone_iff_eq_none] at h
  rw [inGrpc, h.1]
  exact if_pos h.2

theorem inGrpc_of_rejection (wire : Wire τ) (protocol : GrpcProtocol) {response : Response}
    (h : (response.rejection.isNone && (grpcProtocol response.headers).isSome) = false) :
    inGrpc wire protocol response =
      carrying wire (wire.newStatus (codeOf response) (messageOf wire response)) protocol
        (wire.parts response.headers) := by
  rw [inGrpc, codeOf, messageOf]
  cases hmark : response.rejection with
  | some rejection => rfl
  | none =>
      rw [hmark, Option.isNone_none, Bool.true_and] at h
      dsimp only [Option.elim]
      rw [h]
      rfl

/-- A rejection as the client of a call in `protocol` reads it: a status in that protocol, and behind its
headers those of the rejection that do not describe a body. -/
structure ReadsRejection (wire : Wire τ) (protocol : GrpcProtocol) (touched : List Text)
    (asked answer : Response) : Prop where
  status : answer.status = 200
  body : answer.body = .empty
  speaks : grpcProtocol answer.headers = some protocol
  headers : ∀ name, name ∉ touched → answer.headers.getAll name =
    statusHeader wire protocol (codeOf asked) (messageOf wire asked) name ++
      if bodyHeaders.contains name then [] else asked.headers.getAll name

/-- An answer that was gRPC's own already, as its client reads it. -/
structure ReadsNative (touched : List Text) (asked answer : Response) : Prop where
  status : answer.status = asked.status
  body : answer.body = asked.body
  headers : ∀ name, name ∉ touched → answer.headers.getAll name = asked.headers.getAll name

theorem contentType_not_mem_corsTouches (cors : Option Cors.Policy) :
    contentType ∉ corsTouches cors := by
  cases cors with
  | none => exact List.not_mem_nil
  | some policy =>
      rw [corsTouches, Option.isSome_some, if_pos rfl]
      decide

theorem readsRejection_of_carrying {wire : Wire τ} {protocol : GrpcProtocol} {cors : Option Cors.Policy}
    {asked : Response} {headers : Headers}
    (h : ∀ name, name ∉ corsTouches cors → headers.getAll name =
      (carrying wire (wire.newStatus (codeOf asked) (messageOf wire asked)) protocol
        (wire.parts asked.headers)).headers.getAll name) :
    ReadsRejection wire protocol (corsTouches cors) asked
      { carrying wire (wire.newStatus (codeOf asked) (messageOf wire asked)) protocol
          (wire.parts asked.headers) with headers } where
  status := by
    rw [carrying, trailersOnly]
    split <;> exact wire.status_intoHttp _
  body := by
    rw [carrying, trailersOnly]
    split <;> exact wire.body_intoHttp _
  speaks := grpcProtocol_of_contentType
    ((h contentType (contentType_not_mem_corsTouches cors)).trans (contentType_carrying _))
  headers := fun name hname => by rw [h name hname, getAll_carrying, getAll_trailersOnly]

namespace ProxyConfig

variable (config : ProxyConfig τ σ) {peer : Option SocketAddr} {request : Request}
  {protocol : GrpcProtocol}

def encodeSpaces (message : Text) : Text :=
  message.flatMap fun byte => if byte = 32 then str "%20" else [byte]

/-- A status without metadata, as tonic writes it. -/
def plainHttp (status : Code × Text) : Response where
  status := 200
  headers :=
    let headers := (HeaderMap.empty.insert contentType (str "application/grpc")).insert grpcStatus
      (decimal status.1.number)
    if status.2.isEmpty then headers else headers.insert grpcMessage (encodeSpaces status.2)
  body := .empty
  rejection := none

theorem getAll_plainHttp (status : Code × Text) (name : Text) : (plainHttp status).headers.getAll name =
    if name = grpcMessage && !status.2.isEmpty then [encodeSpaces status.2]
    else if name = grpcStatus then [decimal status.1.number]
    else if name = contentType then [str "application/grpc"] else [] := by
  have hempty : (HeaderMap.empty : Headers).getAll name = [] := rfl
  rw [plainHttp]
  cases status.2.isEmpty <;> simp [HeaderMap.getAll_insert, hempty]

def plainWire : Wire (Code × Text) where
  newStatus := Prod.mk
  intoHttp := plainHttp
  percentEncode := encodeSpaces
  canonicalReason := fun _ => none
  parts := HeaderMap.stream
  parts_yields := HeaderMap.yields_stream
  status_intoHttp := fun _ => rfl
  body_intoHttp := fun _ => rfl
  contentType_intoHttp := by
    have hmessage : contentType ≠ grpcMessage := by decide
    have hstatus : contentType ≠ grpcStatus := by decide
    intro status
    rw [getAll_plainHttp]
    simp [hmessage, hstatus]
  getAll_newStatus := by
    have hapart : grpcStatus ≠ grpcMessage := by decide
    intro code message name htype
    rw [getAll_plainHttp, if_neg htype]
    by_cases hstatus : name = grpcStatus
    · simp [hstatus, hapart]
    · simp [hstatus]

def maintained : ProxyConfig (Code × Text) Unit where
  wire := plainWire
  upstream := fun _ shared => (.error (.unavailable, str "tcp connect error"), shared)
  translated := fun _ shared => (reject .unimplemented [], shared)
  routes := fun _ shared => (reject .notFound [], shared)
  grpcWebCors := some (Cors.Policy.any none)
  guards :=
    { requireClient := none
      maintenance := some (⟨[], str "back at noon"⟩, ⟨grpcBit, none, none⟩)
      concurrency := none
      shield := none
      auth := none
      authz := none
      decider := none }
  translateGrpcWeb := false
  resolver := behindProxies .remove
  forms := dottedForms

def webCall : Request where
  method := .POST
  path := str "/library.Library/GetBook"
  headers := ⟨[(contentType, str "Application/grpc-web; charset=utf-8")]⟩
  client := none
  claims := none

end ProxyConfig

end StructuredProxy.Guard
