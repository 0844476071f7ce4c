import StructuredProxy.Guard.Rejection
import StructuredProxy.Metadata.Forward
import StructuredProxy.Transcode.Number
import StructuredProxy.Response.Upstream

/-!
# gRPC answers

The protocol a request or an answer speaks is read off its content type. A guard on the gRPC path
answers over HTTP like any other, and what it says becomes a status in the protocol of the call, with
its headers as metadata; an answer that already speaks gRPC is left alone.
-/

namespace StructuredProxy.Guard

open Lib Metadata

inductive GrpcProtocol where
  | grpc
  | web
  | webText
  deriving DecidableEq

def GrpcProtocol.contentType : GrpcProtocol → Text
  | .grpc => str "application/grpc"
  | .web => str "application/grpc-web+proto"
  | .webText => str "application/grpc-web-text+proto"

def semicolon : UInt8 := 59

/-- `bytes` after `start`, compared without ASCII case. -/
def stripPrefixIgnoreCase (bytes start : Text) : Option Text :=
  if start.length ≤ bytes.length && eqIgnoreAsciiCase (bytes.take start.length) start then
    some (bytes.drop start.length)
  else none

def opensCodec : Text → Bool
  | [] => true
  | byte :: _ => byte = plus

def webProtocol (rest : Text) : Option GrpcProtocol :=
  let (protocol, rest) :=
    match stripPrefixIgnoreCase rest (str "-text") with
    | some rest => (GrpcProtocol.webText, rest)
    | none => (GrpcProtocol.web, rest)
  if opensCodec rest then some protocol else none

def mediaType (value : Text) : Text := trimAscii (value.takeWhile (· ≠ semicolon))

def mediaProtocol (media : Text) : Option GrpcProtocol := do
  let rest ← stripPrefixIgnoreCase media (str "application/grpc")
  if opensCodec rest then some .grpc
  else webProtocol (← stripPrefixIgnoreCase rest (str "-web"))

def grpcProtocol (headers : Headers) : Option GrpcProtocol := do
  let value ← (headers.getAll contentType).head?
  mediaProtocol (mediaType value)

def GrpcProtocol.base : GrpcProtocol → Text
  | .grpc => str "application/grpc"
  | .web => str "application/grpc-web"
  | .webText => str "application/grpc-web-text"

def lower (bytes : Text) : Text := bytes.map toAsciiLowercase

section Strip

variable {bytes start rest tail : Text}

theorem stripPrefixIgnoreCase_eq_some_iff (hstart : lower start = start) :
    stripPrefixIgnoreCase bytes start = some rest ↔
      ∃ head, bytes = head ++ rest ∧ lower head = start := by
  rw [stripPrefixIgnoreCase, Option.ite_none_right_eq_some, Bool.and_eq_true, decide_eq_true_eq,
    eqIgnoreAsciiCase, decide_eq_true_eq]
  constructor
  · rintro ⟨⟨-, hhead⟩, hrest⟩
    refine ⟨bytes.take start.length, ?_, hhead.trans hstart⟩
    rw [← Option.some.inj hrest, List.take_append_drop]
  · rintro ⟨head, rfl, rfl⟩
    have hlength : (lower head).length = head.length := List.length_map _
    rw [hlength, List.length_append, List.take_left, List.drop_left]
    exact ⟨⟨Nat.le_add_right _ _, hstart.symm⟩, rfl⟩

theorem lower_eq_of_strip (hstart : lower start = start)
    (h : stripPrefixIgnoreCase bytes start = some rest) : lower bytes = start ++ lower rest := by
  obtain ⟨head, rfl, hhead⟩ := (stripPrefixIgnoreCase_eq_some_iff hstart).mp h
  rw [lower, List.map_append, ← lower, ← lower, hhead]

theorem exists_strip_of_lower_eq (hstart : lower start = start) (h : lower bytes = start ++ tail) :
    ∃ rest, stripPrefixIgnoreCase bytes start = some rest ∧ lower rest = tail := by
  obtain ⟨head, rest, rfl, hhead, hrest⟩ := List.map_eq_append_iff.mp h
  exact ⟨rest, (stripPrefixIgnoreCase_eq_some_iff hstart).mpr ⟨head, rfl, hhead⟩, hrest⟩

end Strip

theorem toAsciiLowercase_eq_plus (byte : UInt8) : toAsciiLowercase byte = plus ↔ byte = plus := by
  rw [toAsciiLowercase]
  split
  · rename_i hupper
    rw [Bool.and_eq_true, decide_eq_true_eq, decide_eq_true_eq, UInt8.le_iff_toNat_le,
      UInt8.le_iff_toNat_le] at hupper
    have hlow : 65 ≤ byte.toNat := hupper.1
    have hhigh : byte.toNat ≤ 90 := hupper.2
    have hplus : plus.toNat = 43 := rfl
    rw [← UInt8.toNat_inj, ← UInt8.toNat_inj, UInt8.toNat_add, hplus]
    have hshift : (32 : UInt8).toNat = 32 := rfl
    omega
  · exact Iff.rfl

theorem opensCodec_lower (rest : Text) : opensCodec (lower rest) = opensCodec rest := by
  cases rest with
  | nil => rfl
  | cons byte rest =>
      rw [lower, List.map_cons, opensCodec, opensCodec, decide_eq_decide]
      exact toAsciiLowercase_eq_plus byte

theorem not_opensCodec_dash (rest : Text) : opensCodec (dash :: rest) = false := by
  rw [opensCodec]
  decide

theorem strip_dash_eq_none {rest start : Text} (hstart : lower (dash :: start) = dash :: start)
    (hcodec : opensCodec rest = true) : stripPrefixIgnoreCase rest (dash :: start) = none := by
  cases hstrip : stripPrefixIgnoreCase rest (dash :: start) with
  | none => rfl
  | some tail =>
      have hlower := lower_eq_of_strip hstart hstrip
      rw [← opensCodec_lower, hlower, List.cons_append, not_opensCodec_dash] at hcodec
      cases hcodec

theorem webProtocol_eq_some_iff {rest : Text} {protocol : GrpcProtocol} :
    webProtocol rest = some protocol ↔ ∃ codec, opensCodec codec = true ∧
      ((protocol = .web ∧ lower rest = codec) ∨
        (protocol = .webText ∧ lower rest = str "-text" ++ codec)) := by
  have htext : lower (str "-text") = str "-text" := by decide
  rw [webProtocol]
  constructor
  · cases hstrip : stripPrefixIgnoreCase rest (str "-text") with
    | some tail =>
        intro h
        dsimp only at h
        split at h
        · rename_i hcodec
          cases h
          exact ⟨lower tail, by rw [opensCodec_lower, hcodec],
            Or.inr ⟨rfl, lower_eq_of_strip htext hstrip⟩⟩
        · cases h
    | none =>
        intro h
        dsimp only at h
        split at h
        · rename_i hcodec
          cases h
          exact ⟨lower rest, by rw [opensCodec_lower, hcodec], Or.inl ⟨rfl, rfl⟩⟩
        · cases h
  · rintro ⟨codec, hcodec, ⟨rfl, hrest⟩ | ⟨rfl, hrest⟩⟩
    · rw [← hrest, opensCodec_lower] at hcodec
      have hnone : stripPrefixIgnoreCase rest (str "-text") = none := strip_dash_eq_none htext hcodec
      rw [hnone]
      exact if_pos hcodec
    · obtain ⟨tail, hstrip, htail⟩ := exists_strip_of_lower_eq htext hrest
      rw [← htail, opensCodec_lower] at hcodec
      rw [hstrip]
      exact if_pos hcodec

theorem base_web : GrpcProtocol.web.base = str "application/grpc" ++ str "-web" := by decide

theorem base_webText :
    GrpcProtocol.webText.base = str "application/grpc" ++ (str "-web" ++ str "-text") := by decide

theorem mediaProtocol_eq_some_iff {media : Text} {protocol : GrpcProtocol} :
    mediaProtocol media = some protocol ↔
      ∃ codec, opensCodec codec = true ∧ lower media = protocol.base ++ codec := by
  have hgrpc : lower (str "application/grpc") = str "application/grpc" := by decide
  have hweb : lower (str "-web") = str "-web" := by decide
  constructor
  · intro h
    obtain ⟨rest, hrest, h⟩ := Option.bind_eq_some_iff.mp h
    have hmedia := lower_eq_of_strip hgrpc hrest
    split at h
    · rename_i hcodec
      cases h
      exact ⟨lower rest, by rw [opensCodec_lower, hcodec], hmedia⟩
    · obtain ⟨inner, hinner, h⟩ := Option.bind_eq_some_iff.mp h
      rw [lower_eq_of_strip hweb hinner] at hmedia
      obtain ⟨codec, hcodec, ⟨rfl, htail⟩ | ⟨rfl, htail⟩⟩ := webProtocol_eq_some_iff.mp h
      · exact ⟨codec, hcodec, by rw [hmedia, htail, base_web, List.append_assoc]⟩
      · exact ⟨codec, hcodec, by rw [hmedia, htail, base_webText, List.append_assoc, List.append_assoc]⟩
  · rintro ⟨codec, hcodec, hmedia⟩
    -- the two web protocols go on behind `-web`, which no codec starts with
    have hbehind : ∀ tail, lower media = str "application/grpc" ++ (str "-web" ++ tail) →
        ∃ inner, mediaProtocol media = webProtocol inner ∧ lower inner = tail := by
      intro tail htail
      obtain ⟨rest, hrest, hlower⟩ := exists_strip_of_lower_eq hgrpc htail
      obtain ⟨inner, hinner, htail⟩ := exists_strip_of_lower_eq hweb hlower
      have hopens : opensCodec rest = false := by
        rw [← opensCodec_lower, hlower]
        exact not_opensCodec_dash _
      refine ⟨inner, ?_, htail⟩
      rw [mediaProtocol, hrest, Option.bind_eq_bind, Option.bind_some, hopens,
        if_neg Bool.false_ne_true, hinner]
      rfl
    cases protocol with
    | grpc =>
        obtain ⟨rest, hrest, rfl⟩ := exists_strip_of_lower_eq hgrpc hmedia
        rw [opensCodec_lower] at hcodec
        rw [mediaProtocol, hrest]
        exact if_pos hcodec
    | web =>
        rw [base_web, List.append_assoc] at hmedia
        obtain ⟨inner, heq, hinner⟩ := hbehind codec hmedia
        rw [heq]
        exact webProtocol_eq_some_iff.mpr ⟨codec, hcodec, Or.inl ⟨rfl, hinner⟩⟩
    | webText =>
        rw [base_webText, List.append_assoc, List.append_assoc] at hmedia
        obtain ⟨inner, heq, hinner⟩ := hbehind _ hmedia
        rw [heq]
        exact webProtocol_eq_some_iff.mpr ⟨codec, hcodec, Or.inr ⟨rfl, hinner⟩⟩

/-- **Headers announce a protocol by their first content type alone**, exactly when its media type,
whatever its case and its parameters, is the protocol's with or without a codec. -/
theorem grpcProtocol_eq_some_iff {headers : Headers} {protocol : GrpcProtocol} :
    grpcProtocol headers = some protocol ↔
      ∃ value, (headers.getAll contentType).head? = some value ∧
        ∃ codec, opensCodec codec = true ∧ lower (mediaType value) = protocol.base ++ codec := by
  rw [grpcProtocol]
  constructor
  · intro h
    obtain ⟨value, hvalue, h⟩ := Option.bind_eq_some_iff.mp h
    exact ⟨value, hvalue, mediaProtocol_eq_some_iff.mp h⟩
  · rintro ⟨value, hvalue, hmedia⟩
    rw [hvalue]
    exact mediaProtocol_eq_some_iff.mpr hmedia

def grpcStatus : Text := str "grpc-status"
def grpcMessage : Text := str "grpc-message"

/-- What the libraries beneath settle: a type of statuses with `Status::new` and `Status::into_http`, how a
message travels in a header, the reason phrase of an HTTP status, and the order in which a header map is
taken apart. -/
structure Wire (τ : Type) where
  newStatus : Code → Text → τ
  intoHttp : τ → Response
  percentEncode : Text → Text
  canonicalReason : Nat → Option Text
  parts : Headers → Response.Stream
  parts_yields : ∀ headers : Headers, HeaderMap.Yields headers (parts headers)
  status_intoHttp : ∀ status, (intoHttp status).status = 200
  body_intoHttp : ∀ status, (intoHttp status).body = .empty
  contentType_intoHttp : ∀ status,
    (intoHttp status).headers.getAll contentType = [str "application/grpc"]
  /-- A new status has no metadata and no details: its code and, unless it is empty, its message. -/
  getAll_newStatus : ∀ code message name, name ≠ contentType →
    (intoHttp (newStatus code message)).headers.getAll name =
      if name = grpcStatus then [decimal code.number]
      else if name = grpcMessage && !message.isEmpty then [percentEncode message] else []

variable {τ : Type}

def trailersOnly (wire : Wire τ) (status : τ) (protocol : GrpcProtocol) : Response :=
  let response := wire.intoHttp status
  if protocol ≠ .grpc then response.insertHeader contentType protocol.contentType else response

def bodyHeaders : List Text := [contentType, str "content-length", str "transfer-encoding"]

def carryItem (state : Headers × Option Text) (item : Option Text × Text) : Headers × Option Text :=
  let (headers, previous) := state
  let previous := item.1.or previous
  match previous with
  | none => (headers, previous)
  | some name =>
      if bodyHeaders.contains name then (headers, previous)
      else (headers.append name item.2, previous)

def carrying (wire : Wire τ) (status : τ) (protocol : GrpcProtocol) (parts : Response.Stream) :
    Response :=
  let answer := trailersOnly wire status protocol
  { answer with headers := (parts.foldl carryItem (answer.headers, none)).1 }

def inGrpc (wire : Wire τ) (protocol : GrpcProtocol) (response : Response) : Response :=
  match response.rejection with
  | some rejection =>
      carrying wire (wire.newStatus rejection.code rejection.message) protocol
        (wire.parts response.headers)
  | none =>
      if (grpcProtocol response.headers).isSome then response
      else
        carrying wire (wire.newStatus (httpToGrpcCode response.status)
          ((wire.canonicalReason response.status).getD [])) protocol (wire.parts response.headers)

variable {wire : Wire τ} {status : τ} {protocol : GrpcProtocol}

/-! ### What a rejection carries -/

def carryKey (state : Headers × Option Text) (name : Text) (values : List Text) :
    Headers × Option Text :=
  (if bodyHeaders.contains name then state.1 else state.1.appendAll name values, some name)

theorem carryItem_of_name {state : Headers × Option Text} {item : Option Text × Text} {name : Text}
    (h : item.1.or state.2 = some name) :
    carryItem state item =
      (if bodyHeaders.contains name then state.1 else state.1.append name item.2, some name) := by
  rw [carryItem]
  simp only [h]
  split <;> rfl

theorem carry_rest (name : Text) (rest : List Text) : ∀ headers : Headers,
    (rest.map fun value => (none, value)).foldl carryItem (headers, some name) =
      carryKey (headers, none) name rest := by
  induction rest with
  | nil =>
      intro headers
      rw [carryKey]
      split <;> rfl
  | cons value rest ih =>
      intro headers
      have hname : (none : Option Text).or (some name) = some name := rfl
      rw [List.map_cons, List.foldl_cons, carryItem_of_name hname, ih, carryKey, carryKey]
      split <;> rfl

theorem carry_block (state : Headers × Option Text) (name value : Text) (rest : List Text) :
    ((some name, value) :: rest.map fun value => (none, value)).foldl carryItem state =
      carryKey state name (value :: rest) := by
  have hname : (some name).or state.2 = some name := rfl
  rw [List.foldl_cons, carryItem_of_name hname, carry_rest, carryKey, carryKey]
  split <;> rfl

theorem getAll_carryKey (name : Text) (state : Headers × Option Text) (key : Text)
    (values : List Text) : (carryKey state key values).1.getAll name =
      if key = name then
        state.1.getAll name ++ if bodyHeaders.contains name = true then [] else values
      else state.1.getAll name := by
  rw [carryKey]
  by_cases hname : key = name
  · subst hname
    rw [if_pos rfl]
    split
    · rw [List.append_nil]
    · rw [HeaderMap.getAll_appendAll, if_pos rfl]
  · rw [if_neg hname]
    split
    · rfl
    · rw [HeaderMap.getAll_appendAll, if_neg (Ne.symm hname), List.append_nil]

/-- The status's own headers, then the answer's where they do not describe its body. -/
theorem getAll_carrying (headers : Headers) (name : Text) :
    (carrying wire status protocol (wire.parts headers)).headers.getAll name =
      (trailersOnly wire status protocol).headers.getAll name ++
        if bodyHeaders.contains name = true then [] else headers.getAll name :=
  (wire.parts_yields headers).foldl_view (fun state => state.1.getAll name)
    (fun present values => present ++ if bodyHeaders.contains name = true then [] else values)
    carry_block (getAll_carryKey name) (fun present => by rw [ite_self, List.append_nil])
    ((trailersOnly wire status protocol).headers, none)

/-- The headers of a status: its content type, its code and, unless it is empty, its message. -/
def statusHeader (wire : Wire τ) (protocol : GrpcProtocol) (code : Code) (message name : Text) :
    List Text :=
  if name = contentType then [protocol.contentType]
  else if name = grpcStatus then [decimal code.number]
  else if name = grpcMessage && !message.isEmpty then [wire.percentEncode message] else []

theorem contentType_trailersOnly :
    (trailersOnly wire status protocol).headers.getAll contentType = [protocol.contentType] := by
  rw [trailersOnly]
  split
  · rw [Response.insertHeader, HeaderMap.getAll_insert, if_pos rfl]
  · rename_i hgrpc
    rw [wire.contentType_intoHttp, not_not.mp hgrpc]
    rfl

theorem getAll_trailersOnly (code : Code) (message name : Text) :
    (trailersOnly wire (wire.newStatus code message) protocol).headers.getAll name =
      statusHeader wire protocol code message name := by
  rw [statusHeader]
  split
  · rename_i htype
    rw [htype, contentType_trailersOnly]
  · rename_i htype
    have hnew := wire.getAll_newStatus code message name htype
    rw [trailersOnly]
    split
    · rw [Response.insertHeader, HeaderMap.getAll_insert, if_neg htype, hnew]
    · exact hnew

theorem grpcProtocol_of_contentType {headers : Headers}
    (h : headers.getAll contentType = [protocol.contentType]) :
    grpcProtocol headers = some protocol := by
  rw [grpcProtocol, h]
  cases protocol with
  | grpc => decide
  | web => decide
  | webText => decide

theorem contentType_carrying (headers : Headers) :
    (carrying wire status protocol (wire.parts headers)).headers.getAll contentType =
      [protocol.contentType] := by
  have hbody : bodyHeaders.contains contentType = true := by decide
  rw [getAll_carrying, if_pos hbody, List.append_nil, contentType_trailersOnly]

end StructuredProxy.Guard
