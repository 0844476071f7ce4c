import StructuredProxy.Lib.Fallible
import StructuredProxy.Lib.Placement
import StructuredProxy.Request.Json
import StructuredProxy.Status.Scrubbed

/-!
# The details of an error response

`render` sorts the details of an upstream status into the two lists of the error body: the ones whose
type is known, in their JSON form, and the others as bytes with their position. A detail that is a
`google.rpc.DebugInfo`, or an `Any` that holds one, is withheld and takes no position. The two lists put
together by position are the forwarded details in their order, and nothing in them depends on what was
withheld.
-/

namespace StructuredProxy.Status

open Lib

structure Detail where
  typeUrl : Text
  value : Text
  deriving DecidableEq

structure Trailer where
  code : Int
  message : Text
  details : List Detail

/-- The status of a call, with the bytes of its `grpc-status-details-bin`. -/
structure GrpcStatus where
  code : Int
  message : Text
  details : Text

/-- The object with the keys `index`, `typeUrl` and `bytes`. -/
structure OpaqueEntry where
  index : Nat
  typeUrl : Text
  bytes : Text

/-- The standard base64 of the library. -/
structure Base64 where
  encode : Text → Text
  decode : Text → Option Text
  decode_encode : ∀ bytes, decode (encode bytes) = some bytes

def opaqueEntry (base64 : Base64) (index : Nat) (typeUrl value : Text) : OpaqueEntry :=
  { index, typeUrl, bytes := base64.encode value }

structure RenderedDetails where
  details : List Json := []
  opaqueDetails : List OpaqueEntry := []

/-- How the libraries read a trailer, and write a message as JSON and bytes as text. -/
structure Reflection extends Wire where
  decodeStatus : Text → Option Trailer
  serialize : Message → Option Json
  base64 : Base64

structure StatusDetails where
  pool : Pool
  withOpaque : Bool

variable (reflection : Reflection) (depth : Nat)

namespace StatusDetails

/-- The entry of a detail whose type resolved; none when the detail must go. `scrub` goes through at
most `depth` messages below one another. -/
def typedEntry (self : StatusDetails) (typeUrl : Text) (desc : MessageDesc) (value : Text) :
    Except Failure (Option Json) :=
  let wrapped := MessageType.specialNames.contains desc.fullName
  match reflection.decode desc value with
  | none => .error .malformed
  | some message =>
      match scrub self.pool reflection.toWire depth message with
      | .error failure => .error failure
      | .ok none => .ok none
      | .ok (some (message, _)) =>
          match reflection.serialize message with
          | none => .error .malformed
          | some (.object fields) =>
              if wrapped then
                .ok (some (.object [(str "@type", .string typeUrl), (str "value", .object fields)]))
              else if fields.any fun field => field.1 = str "@type" then .error .malformed
              else .ok (some (.object ((str "@type", .string typeUrl) :: fields)))
          | some other => .ok (some (.object [(str "@type", .string typeUrl), (str "value", other)]))

/-- The loop of `render`, the details before `index` forwarded already. -/
def renderFrom (self : StatusDetails) :
    Nat → List Detail → RenderedDetails → Except Failure RenderedDetails
  | _, [], rendered => .ok rendered
  | index, any :: rest, rendered =>
      match anyTypeName any.typeUrl with
      | none => .error .malformed
      | some typeName =>
          if typeName = debugInfoName then self.renderFrom index rest rendered
          else
            match self.pool.resolve typeName with
            | some desc =>
                match self.typedEntry reflection depth any.typeUrl desc any.value with
                | .error failure => .error failure
                | .ok (some entry) =>
                    self.renderFrom (index + 1) rest
                      { rendered with details := rendered.details ++ [entry] }
                | .ok none => self.renderFrom index rest rendered
            | none =>
                if self.withOpaque then
                  self.renderFrom (index + 1) rest
                    { rendered with
                      opaqueDetails := rendered.opaqueDetails ++
                        [opaqueEntry reflection.base64 index any.typeUrl any.value] }
                else self.renderFrom index rest rendered

end StatusDetails

/-- The details of the trailer, which must describe the same error as the status itself. -/
def upstreamDetails (status : GrpcStatus) : Option (List Detail) :=
  if status.details.isEmpty then some []
  else
    (reflection.decodeStatus status.details).bind fun decoded =>
      if decoded.code ≠ status.code || decoded.message ≠ status.message then none
      else some decoded.details

def StatusDetails.render (self : StatusDetails) (status : GrpcStatus) :
    Except Failure RenderedDetails :=
  match upstreamDetails reflection status with
  | none => .error .malformed
  | some details => self.renderFrom reflection depth 0 details {}

/-! ### What becomes of one detail -/

def RenderedDetails.push (base64 : Base64) (rendered : RenderedDetails) (index : Nat) :
    Json ⊕ Detail → RenderedDetails
  | .inl entry => { rendered with details := rendered.details ++ [entry] }
  | .inr any =>
      { rendered with
        opaqueDetails := rendered.opaqueDetails ++ [opaqueEntry base64 index any.typeUrl any.value] }

namespace StatusDetails

/-- The form a detail is forwarded in, none when it is withheld. -/
def forwarded (self : StatusDetails) (any : Detail) : Except Failure (Option (Json ⊕ Detail)) :=
  match anyTypeName any.typeUrl with
  | none => .error .malformed
  | some typeName =>
      if typeName = debugInfoName then .ok none
      else
        match self.pool.resolve typeName with
        | some desc =>
            (self.typedEntry reflection depth any.typeUrl desc any.value).map fun entry =>
              entry.map .inl
        | none => if self.withOpaque then .ok (some (.inr any)) else .ok none

def shown (self : StatusDetails) (any : Detail) : Option (Json ⊕ Detail) :=
  (self.forwarded reflection depth any).toOption.join

/-- The detail is a DebugInfo, or scrubbing takes it away as a whole. -/
def withheld (self : StatusDetails) (any : Detail) : Bool :=
  (anyTypeName any.typeUrl).any fun typeName =>
    typeName = debugInfoName ||
      (self.pool.resolve typeName).any fun desc =>
        (self.typedEntry reflection depth any.typeUrl desc any.value).toOption.any Option.isNone

variable {reflection depth} {self : StatusDetails}

theorem renderFrom_cons (index : Nat) (any : Detail) (rest : List Detail)
    (rendered : RenderedDetails) :
    self.renderFrom reflection depth index (any :: rest) rendered =
      (self.forwarded reflection depth any).bind fun item =>
        item.elim (self.renderFrom reflection depth index rest rendered) fun item =>
          self.renderFrom reflection depth (index + 1) rest
            (rendered.push reflection.base64 index item) := by
  rw [renderFrom, forwarded]
  cases anyTypeName any.typeUrl with
  | none => rfl
  | some typeName =>
      dsimp only
      split
      · rfl
      · cases self.pool.resolve typeName with
        | none =>
            dsimp only
            split
            · rfl
            · rfl
        | some desc =>
            dsimp only
            cases self.typedEntry reflection depth any.typeUrl desc any.value with
            | error failure => rfl
            | ok entry =>
                cases entry with
                | none => rfl
                | some entry => rfl

theorem withheld_eq (hwith : self.withOpaque = true) (any : Detail) :
    self.withheld reflection depth any =
      (self.forwarded reflection depth any).toOption.any Option.isNone := by
  rw [withheld, forwarded]
  cases anyTypeName any.typeUrl with
  | none => rfl
  | some typeName =>
      rw [Option.any_some]
      dsimp only
      by_cases hdebug : typeName = debugInfoName
      · rw [if_pos hdebug, decide_eq_true hdebug]
        rfl
      · rw [if_neg hdebug, decide_eq_false hdebug, Bool.false_or]
        cases self.pool.resolve typeName with
        | none =>
            dsimp only
            rw [if_pos hwith]
            rfl
        | some desc =>
            rw [Option.any_some]
            dsimp only
            cases self.typedEntry reflection depth any.typeUrl desc any.value with
            | error failure => rfl
            | ok entry =>
                cases entry with
                | none => rfl
                | some entry => rfl

/-- The two lists after the loop: the forwarded details, split by kind and numbered from `index` on. -/
theorem renderFrom_ok {details : List Detail} : ∀ {index : Nat} {rendered out : RenderedDetails},
    self.renderFrom reflection depth index details rendered = .ok out →
    out.details = rendered.details ++
        (details.filterMap (self.shown reflection depth)).filterMap Sum.getLeft? ∧
      out.opaqueDetails = rendered.opaqueDetails ++
        (numbered index (details.filterMap (self.shown reflection depth))).map fun placed =>
          opaqueEntry reflection.base64 placed.1 placed.2.typeUrl placed.2.value := by
  induction details with
  | nil =>
      intro index rendered out h
      rw [renderFrom, Except.ok.injEq] at h
      rw [← h]
      simp [numbered]
  | cons any rest ih =>
      intro index rendered out h
      rw [renderFrom_cons] at h
      obtain ⟨item, hitem, hrest⟩ := bind_eq_ok.mp h
      have hshown : self.shown reflection depth any = item := by
        rw [shown, hitem]
        rfl
      cases item with
      | none =>
          rw [List.filterMap_cons_none hshown]
          exact ih hrest
      | some item =>
          rw [List.filterMap_cons_some hshown]
          obtain ⟨hdetails, hentries⟩ := ih hrest
          cases item with
          | inl entry =>
              rw [hdetails, hentries, List.filterMap_cons_some (by rfl), numbered]
              simp [RenderedDetails.push]
          | inr opaqueDetail =>
              rw [hdetails, hentries, List.filterMap_cons_none (by rfl), numbered]
              simp [RenderedDetails.push]

theorem renderFrom_filter (hwith : self.withOpaque = true) (details : List Detail) :
    ∀ (index : Nat) (rendered : RenderedDetails),
      self.renderFrom reflection depth index (details.filter (!self.withheld reflection depth ·))
        rendered = self.renderFrom reflection depth index details rendered := by
  induction details with
  | nil => intro index rendered; rfl
  | cons any rest ih =>
      intro index rendered
      rw [renderFrom_cons]
      cases hforwarded : self.forwarded reflection depth any with
      | error failure =>
          rw [List.filter_cons_of_pos (by rw [withheld_eq hwith, hforwarded]; rfl), renderFrom_cons,
            hforwarded]
          rfl
      | ok item =>
          cases item with
          | none =>
              rw [List.filter_cons_of_neg (by rw [withheld_eq hwith, hforwarded]; decide), ih]
              rfl
          | some item =>
              rw [List.filter_cons_of_pos (by rw [withheld_eq hwith, hforwarded]; rfl), renderFrom_cons,
                hforwarded]
              exact ih (index + 1) (rendered.push reflection.base64 index item)

theorem forwarded_of_renderFrom {details : List Detail} : ∀ {index : Nat}
    {rendered out : RenderedDetails},
    self.renderFrom reflection depth index details rendered = .ok out →
    ∀ any ∈ details, ∃ item, self.forwarded reflection depth any = .ok item := by
  induction details with
  | nil => intro index rendered out _ any hany; exact absurd hany (by simp)
  | cons first rest ih =>
      intro index rendered out h any hany
      rw [renderFrom_cons] at h
      obtain ⟨item, hitem, hrest⟩ := bind_eq_ok.mp h
      obtain rfl | hany := List.mem_cons.mp hany
      · exact ⟨item, hitem⟩
      · cases item with
        | none => exact ih hrest any hany
        | some item => exact ih hrest any hany

end StatusDetails

/-- A type URL and bytes that name a DebugInfo, or an `Any` that does so in turn. -/
inductive PacksDebugInfo (pool : Pool) (wire : Wire) : Text → Text → Prop
  | direct {typeUrl value : Text} (hname : anyTypeName typeUrl = some debugInfoName) :
      PacksDebugInfo pool wire typeUrl value
  | packed {typeUrl value name : Text} {desc : MessageDesc} {any : Message}
      (hname : anyTypeName typeUrl = some name) (hresolve : pool.resolve name = some desc)
      (hdecode : wire.decode desc value = some any) (hany : any.fullName = anyName)
      (hinner : PacksDebugInfo pool wire any.typeUrl any.packed) :
      PacksDebugInfo pool wire typeUrl value

theorem scrub_of_packsDebugInfo {pool : Pool} {wire : Wire} {typeUrl value : Text}
    (h : PacksDebugInfo pool wire typeUrl value) : ∀ {depth : Nat} {any : Message}
    {outcome : Option (Message × Bool)}, any.fullName = anyName → any.typeUrl = typeUrl →
    any.packed = value → scrub pool wire depth any = .ok outcome → outcome = none := by
  induction h with
  | direct hname =>
      intro depth any outcome hany hurl _ hscrub
      cases depth with
      | zero => exact absurd hscrub (by simp [scrub])
      | succ depth =>
          rw [scrub, if_pos hany, scrubAny, hurl, hname] at hscrub
          simpa using hscrub.symm
  | @packed typeUrl value name desc inner hname hresolve hdecode hinner _ ih =>
      intro depth any outcome hany hurl hvalue hscrub
      cases depth with
      | zero => exact absurd hscrub (by simp [scrub])
      | succ depth =>
          rw [scrub, if_pos hany, scrubAny, hurl, hname] at hscrub
          dsimp only at hscrub
          split at hscrub
          · simpa using hscrub.symm
          · rw [hresolve] at hscrub
            dsimp only at hscrub
            rw [hvalue, hdecode] at hscrub
            dsimp only at hscrub
            cases hinnerScrub : scrub pool wire depth inner with
            | error failure =>
                rw [hinnerScrub] at hscrub
                exact absurd hscrub (by simp)
            | ok innerOutcome =>
                have hnone := ih hinner rfl rfl hinnerScrub
                rw [hinnerScrub, hnone] at hscrub
                simpa using hscrub.symm

variable {reflection depth} {self : StatusDetails}

/-- A detail that packs a DebugInfo is withheld, at whatever depth it does. -/
theorem StatusDetails.withheld_of_packsDebugInfo (hwith : self.withOpaque = true) {any : Detail}
    {item : Option (Json ⊕ Detail)}
    (hpacks : PacksDebugInfo self.pool reflection.toWire any.typeUrl any.value)
    (hforwarded : self.forwarded reflection depth any = .ok item) :
    self.withheld reflection depth any = true := by
  have hnone : item = none := by
    rw [forwarded] at hforwarded
    cases hpacks with
    | direct hname =>
        rw [hname] at hforwarded
        simpa using hforwarded.symm
    | @packed _ _ name desc inner hname hresolve hdecode hany hinner =>
        rw [hname] at hforwarded
        dsimp only at hforwarded
        split at hforwarded
        · simpa using hforwarded.symm
        · rw [hresolve] at hforwarded
          dsimp only at hforwarded
          rw [typedEntry, hdecode] at hforwarded
          dsimp only at hforwarded
          cases hscrub : scrub self.pool reflection.toWire depth inner with
          | error failure =>
              rw [hscrub] at hforwarded
              exact absurd hforwarded (by simp [Except.map])
          | ok outcome =>
              have houtcome := scrub_of_packsDebugInfo hinner hany rfl rfl hscrub
              rw [hscrub, houtcome] at hforwarded
              simpa [Except.map] using hforwarded.symm
  rw [withheld_eq hwith, hforwarded, hnone]
  rfl

def OpaqueEntry.placed (base64 : Base64) (entry : OpaqueEntry) : Nat × Detail :=
  (entry.index, { typeUrl := entry.typeUrl, value := (base64.decode entry.bytes).getD [] })

theorem placed_opaqueEntry (base64 : Base64) (index : Nat) (any : Detail) :
    (opaqueEntry base64 index any.typeUrl any.value).placed base64 = (index, any) := by
  rw [OpaqueEntry.placed, opaqueEntry, base64.decode_encode, Option.getD_some]

def debugInfoUrl : Text := str "t/google.rpc.DebugInfo"

/-- Two encodings as they are; others start with a byte that base64 never has. -/
def twoEncodings : Base64 where
  encode := fun bytes =>
    if bytes = [7] then str "Bw==" else if bytes = [8, 8] then str "CAg=" else 0 :: bytes
  decode := fun text =>
    if text = str "Bw==" then some [7] else if text = str "CAg=" then some [8, 8] else text.tail?
  decode_encode := by
    intro bytes
    have hfirst : (0 : UInt8) :: bytes ≠ str "Bw==" := fun h => absurd (List.cons.inj h).1 (by decide)
    have hsecond : (0 : UInt8) :: bytes ≠ str "CAg=" := fun h => absurd (List.cons.inj h).1 (by decide)
    by_cases hseven : bytes = [7]
    · simp [hseven]
    · by_cases height : bytes = [8, 8]
      · subst height
        decide +kernel
      · simp [hseven, height, hfirst, hsecond]

def mixedReflection : Reflection where
  decode := fun desc bytes =>
    if desc = anyDesc then
      some (.mk anyDesc [(typeUrlField, .single (.scalar (.string debugInfoUrl)))] [])
    else reportWire.decode desc bytes
  encode := reportWire.encode
  decodeStatus := fun _ =>
    some {
      code := 5
      message := []
      details := [
        { typeUrl := str "t/acme.Unknown", value := [7] },
        { typeUrl := debugInfoUrl, value := [] },
        { typeUrl := str "t/acme.Report", value := [1] },
        { typeUrl := str "t/google.protobuf.Any", value := [9] },
        { typeUrl := str "t/acme.Other", value := [8, 8] }] }
  serialize := fun _ => some (.object [])
  base64 := twoEncodings

def mixedStatus : GrpcStatus := { code := 5, message := [], details := [1] }

def mixedDetails : StatusDetails := { pool := reportPool, withOpaque := true }

def mixedRendered : RenderedDetails where
  details := [.object [(str "@type", .string (str "t/acme.Report"))]]
  opaqueDetails := [
    { index := 0, typeUrl := str "t/acme.Unknown", bytes := str "Bw==" },
    { index := 2, typeUrl := str "t/acme.Other", bytes := str "CAg=" }]

theorem render_mixedStatus :
    mixedDetails.render mixedReflection 3 mixedStatus = .ok mixedRendered := by
  rfl

end StructuredProxy.Status
