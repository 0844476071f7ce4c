import StructuredProxy.Request.Json

/-!
# Streaming responses line by line

`jsonFrames` turns the upstream's messages into frames and drops the upstream with the first failure, be
it a status or a message that has no JSON form. `ndjsonLine` writes each frame as a line. In the envelope
every line says by its first key which of the two it is, so that the data texts and the terminal error
can be read back from the body.
-/

namespace StructuredProxy.Response.Ndjson

open Lib

def newline : UInt8 := 10

inductive StreamFrame where
  | data (text : Text)
  | error (body : Json)

def statusTypeUrl : Text := str "type.googleapis.com/google.rpc.Status"

/-- `Map::insert`, whose keys are sorted. -/
def insertField (key : Text) (value : Json) : List (Text × Json) → List (Text × Json)
  | [] => [(key, value)]
  | entry :: rest =>
      if entry.1 = key then (key, value) :: rest
      else if key < entry.1 then (key, value) :: entry :: rest
      else entry :: insertField key value rest

/-- The body of an error with the marker of its line, when it is an object. -/
def withStatusType : Json → Json
  | .object fields => .object (insertField (str "@type") (.string statusTypeUrl) fields)
  | body => body

section Frames

-- the messages and the statuses of the upstream
variable {M S : Type}

/-- How a message is serialized, how a failure to do so becomes a status, and how a status is rendered. -/
structure Rendering (M S : Type) where
  serialize : M → Except Text Text
  internal : Text → S
  renderError : S → Json

/-- The state of the stream of frames: what the upstream has still to give, and whether it is held. -/
structure FrameState (M S : Type) where
  unread : List (Except S M)
  held : Bool

variable (rendering : Rendering M S)

def nextFrame (state : FrameState M S) : Option (StreamFrame × FrameState M S) :=
  if !state.held then none
  else
    match state.unread with
    | [] => none
    | .ok message :: unread =>
        match rendering.serialize message with
        | .ok text => some (.data text, { unread, held := true })
        | .error error =>
            let status := rendering.internal (str "serialization error: " ++ error)
            some (.error (rendering.renderError status), { unread, held := false })
    | .error status :: unread =>
        some (.error (rendering.renderError status), { unread, held := false })

/-- The frames and the state after them, none when `polls` were not enough. -/
def jsonFrames : Nat → FrameState M S → Option (List StreamFrame × FrameState M S)
  | 0, _ => none
  | polls + 1, state =>
      match nextFrame rendering state with
      | none => some ([], state)
      | some (frame, state) =>
          (jsonFrames polls state).map fun (frames, last) => (frame :: frames, last)

end Frames

section Lines

-- how serde_json writes a value
variable (write : Json → Text)

def ndjsonLine (envelope : Bool) : StreamFrame → Text
  | .data text =>
      (if envelope then str "\x7b\"result\":" ++ text ++ str "\x7d" else text) ++ [newline]
  | .error body =>
      (if envelope then write (.object [(str "error", body)]) else write (withStatusType body)) ++
        [newline]

def ndjsonBody (envelope : Bool) (frames : List StreamFrame) : Text :=
  frames.flatMap (ndjsonLine write envelope)

end Lines

section Spec

variable {M S : Type} (rendering : Rendering M S)

/-- The status an item ends the stream with, none for a message that serializes. -/
def failure : Except S M → Option S
  | .ok message =>
      match rendering.serialize message with
      | .ok _ => none
      | .error error => some (rendering.internal (str "serialization error: " ++ error))
  | .error status => some status

def succeeds (item : Except S M) : Bool := (failure rendering item).isNone

def itemText : Except S M → Option Text
  | .ok message => (rendering.serialize message).toOption
  | .error _ => none

/-- The texts of the longest beginning whose items are messages that all serialize. -/
def dataTexts (items : List (Except S M)) : List Text :=
  (items.takeWhile (succeeds rendering)).filterMap (itemText rendering)

def terminal (items : List (Except S M)) : Option S :=
  (items.dropWhile (succeeds rendering)).head?.bind (failure rendering)

def afterTerminal (items : List (Except S M)) : List (Except S M) :=
  (items.dropWhile (succeeds rendering)).tail

variable {rendering}

theorem nextFrame_data {item : Except S M} {unread : List (Except S M)}
    (h : failure rendering item = none) :
    ∃ text, itemText rendering item = some text ∧
      nextFrame rendering { unread := item :: unread, held := true } =
        some (.data text, { unread, held := true }) := by
  unfold nextFrame itemText
  cases item with
  | error status => exact absurd h (by simp [failure])
  | ok message =>
      rw [failure] at h
      cases hserialize : rendering.serialize message with
      | error error =>
          rw [hserialize] at h
          exact absurd h (by simp)
      | ok text => exact ⟨text, by simp [hserialize, Except.toOption], by simp [hserialize]⟩

theorem nextFrame_error {item : Except S M} {unread : List (Except S M)} {status : S}
    (h : failure rendering item = some status) :
    nextFrame rendering { unread := item :: unread, held := true } =
      some (.error (rendering.renderError status), { unread, held := false }) := by
  unfold nextFrame
  cases item with
  | error own =>
      rw [failure, Option.some.injEq] at h
      simp [h]
  | ok message =>
      rw [failure] at h
      cases hserialize : rendering.serialize message with
      | error error =>
          rw [hserialize, Option.some.injEq] at h
          simp [hserialize, h]
      | ok text =>
          rw [hserialize] at h
          exact absurd h (by simp)

def frames (rendering : Rendering M S) (items : List (Except S M)) : List StreamFrame :=
  (dataTexts rendering items).map .data ++
    (terminal rendering items).toList.map fun status => .error (rendering.renderError status)

/-- **One data frame for each message up to the first failure, one error frame for that, and nothing
after it is read.** -/
theorem jsonFrames_eq {items : List (Except S M)} : ∀ {polls : Nat}, items.length < polls →
    jsonFrames rendering polls { unread := items, held := true } =
      some (frames rendering items,
        { unread := afterTerminal rendering items, held := (terminal rendering items).isNone }) := by
  induction items with
  | nil =>
      intro polls hpolls
      obtain ⟨polls, rfl⟩ := Nat.exists_eq_succ_of_ne_zero (Nat.ne_of_gt hpolls)
      rfl
  | cons item items ih =>
      intro polls hpolls
      obtain ⟨polls, rfl⟩ := Nat.exists_eq_succ_of_ne_zero (Nat.ne_of_gt (Nat.zero_lt_of_lt hpolls))
      rw [List.length_cons] at hpolls
      cases hfailure : failure rendering item with
      | none =>
          obtain ⟨text, htext, hnext⟩ := @nextFrame_data M S rendering item items hfailure
          have hgood : succeeds rendering item = true := by rw [succeeds, hfailure]; rfl
          have hdrop : (item :: items).dropWhile (succeeds rendering) =
              items.dropWhile (succeeds rendering) := List.dropWhile_cons_of_pos hgood
          have htexts : dataTexts rendering (item :: items) = text :: dataTexts rendering items := by
            rw [dataTexts, List.takeWhile_cons_of_pos hgood, List.filterMap_cons_some htext, dataTexts]
          rw [jsonFrames, hnext]
          dsimp only
          rw [ih (by omega), Option.map_some, frames, frames, htexts, afterTerminal, afterTerminal,
            terminal, terminal, hdrop]
          rfl
      | some status =>
          have hbad : ¬ succeeds rendering item = true := by simp [succeeds, hfailure]
          have htexts : dataTexts rendering (item :: items) = [] := by
            rw [dataTexts, List.takeWhile_cons_of_neg hbad, List.filterMap_nil]
          have hterminal : terminal rendering (item :: items) = some status := by
            rw [terminal, List.dropWhile_cons_of_neg hbad, List.head?_cons, Option.bind_some, hfailure]
          have hafter : afterTerminal rendering (item :: items) = items := by
            rw [afterTerminal, List.dropWhile_cons_of_neg hbad, List.tail_cons]
          obtain ⟨polls, rfl⟩ := Nat.exists_eq_succ_of_ne_zero (show polls ≠ 0 by omega)
          rw [jsonFrames, nextFrame_error hfailure, frames, htexts, hterminal, hafter]
          rfl

end Spec

/-! ### Reading the envelope back -/

def resultOpen : Text := str "\x7b\"result\":"
def errorOpen : Text := str "\x7b\"error\":"

def unwrap (opening line : Text) : Option Text :=
  if opening.isPrefixOf line then some (line.drop opening.length).dropLast else none

def recover (body : Text) : List Text × Option Text :=
  ((body.splitOn newline).filterMap (unwrap resultOpen),
    (body.splitOn newline).findSome? (unwrap errorOpen))

theorem unwrap_wrapped (opening text : Text) :
    unwrap opening (opening ++ text ++ str "\x7d") = some text := by
  have hclose : str "\x7d" = [125] := by decide +kernel
  have hopens : opening.isPrefixOf (opening ++ text ++ str "\x7d") = true := by
    rw [List.append_assoc]
    exact List.isPrefixOf_iff_prefix.mpr (List.prefix_append _ _)
  rw [unwrap, if_pos hopens, List.append_assoc, List.drop_left, hclose, List.dropLast_concat]

theorem unwrap_other (text : Text) : unwrap errorOpen (resultOpen ++ text) = none ∧
    unwrap resultOpen (errorOpen ++ text) = none := by
  have hresult : resultOpen = [123, 34, 114, 101, 115, 117, 108, 116, 34, 58] := by decide +kernel
  have herror : errorOpen = [123, 34, 101, 114, 114, 111, 114, 34, 58] := by decide +kernel
  rw [unwrap, unwrap, hresult, herror]
  simp [List.isPrefixOf]

theorem splitOn_lines {lines : List Text} (h : ∀ line ∈ lines, newline ∉ line) :
    (lines.flatMap fun line => line ++ [newline]).splitOn newline = lines ++ [[]] := by
  induction lines with
  | nil => rfl
  | cons line lines ih =>
      have hline : line.splitOn newline = [line] :=
        splitOn_of_splitOnce_none (splitOnce_eq_none_iff.mpr (h line List.mem_cons_self))
      rw [List.flatMap_cons, List.append_assoc, List.singleton_append, splitOn_append_cons, hline,
        ih fun other hother => h other (List.mem_cons_of_mem _ hother)]
      rfl

section Recovery

variable {M S : Type} {rendering : Rendering M S} {write : Json → Text}

def envelopeLines (write : Json → Text) (rendering : Rendering M S) (items : List (Except S M)) :
    List Text :=
  (dataTexts rendering items).map (fun text => resultOpen ++ text ++ str "\x7d") ++
    (terminal rendering items).toList.map fun status =>
      errorOpen ++ write (rendering.renderError status) ++ str "\x7d"

theorem serialize_of_mem_dataTexts {items : List (Except S M)} {text : Text}
    (h : text ∈ dataTexts rendering items) : ∃ message, rendering.serialize message = .ok text := by
  obtain ⟨item, -, hitem⟩ := List.mem_filterMap.mp h
  cases item with
  | error status => exact absurd hitem (by simp [itemText])
  | ok message =>
      refine ⟨message, ?_⟩
      rw [itemText] at hitem
      cases hserialize : rendering.serialize message with
      | error error =>
          rw [hserialize] at hitem
          exact absurd hitem (by simp [Except.toOption])
      | ok own =>
          rw [hserialize] at hitem
          rw [Option.some.inj hitem]

theorem filterMap_envelopeLines (items : List (Except S M)) :
    (envelopeLines write rendering items).filterMap (unwrap resultOpen) =
      dataTexts rendering items := by
  have hresults : ∀ text,
      (unwrap resultOpen ∘ fun text => resultOpen ++ text ++ str "\x7d") text = some text :=
    unwrap_wrapped resultOpen
  have herrors : ∀ status, (unwrap resultOpen ∘ fun status =>
      errorOpen ++ write (rendering.renderError status) ++ str "\x7d") status = none := by
    intro status
    rw [Function.comp_apply, List.append_assoc]
    exact (unwrap_other _).2
  rw [envelopeLines, List.filterMap_append, List.filterMap_map, List.filterMap_map,
    List.filterMap_congr fun text _ => hresults text,
    List.filterMap_congr fun status _ => herrors status]
  simp

theorem findSome_envelopeLines (items : List (Except S M)) :
    (envelopeLines write rendering items).findSome? (unwrap errorOpen) =
      (terminal rendering items).map fun status => write (rendering.renderError status) := by
  have hskip : ((dataTexts rendering items).map fun text =>
      resultOpen ++ text ++ str "\x7d").findSome? (unwrap errorOpen) = none := by
    apply List.findSome?_eq_none_iff.mpr
    intro line hline
    obtain ⟨text, -, rfl⟩ := List.mem_map.mp hline
    rw [List.append_assoc]
    exact (unwrap_other _).1
  rw [envelopeLines, List.findSome?_append, hskip, Option.none_or]
  cases terminal rendering items with
  | none => rfl
  | some status =>
      rw [Option.toList_some, List.map_singleton, List.findSome?_singleton, Option.map_some]
      exact unwrap_wrapped errorOpen _

theorem notMem_envelopeLines
    (hserialize : ∀ message text, rendering.serialize message = .ok text → newline ∉ text)
    (hwrite : ∀ status, newline ∉ write (rendering.renderError status)) (items : List (Except S M)) :
    ∀ line ∈ envelopeLines write rendering items, newline ∉ line := by
  have hresult : newline ∉ resultOpen := by decide +kernel
  have herror : newline ∉ errorOpen := by decide +kernel
  have hclose : newline ∉ str "\x7d" := by decide +kernel
  intro line hline
  obtain hline | hline := List.mem_append.mp hline
  · obtain ⟨text, htext, rfl⟩ := List.mem_map.mp hline
    obtain ⟨message, hmessage⟩ := serialize_of_mem_dataTexts htext
    simp [hresult, hclose, hserialize message text hmessage]
  · obtain ⟨status, -, rfl⟩ := List.mem_map.mp hline
    simp [herror, hclose, hwrite status]

theorem ndjsonBody_frames (envelope : Bool) (items : List (Except S M)) :
    ndjsonBody write envelope (frames rendering items) =
      ((dataTexts rendering items).flatMap fun text => ndjsonLine write envelope (.data text)) ++
        (terminal rendering items).toList.flatMap fun status =>
          ndjsonLine write envelope (.error (rendering.renderError status)) := by
  rw [ndjsonBody, frames, List.flatMap_append, List.flatMap_map, List.flatMap_map]

end Recovery

def digitRendering : Rendering Nat Nat where
  serialize := fun n => if n < 10 then .ok (decimal n) else .error (str "too large")
  internal := fun _ => 13
  renderError := fun code => .object [(str "code", .number (decimal code))]

def writeSmall : Json → Text
  | .number token => token
  | .object [(key, .number token)] => str "\x7b\"" ++ key ++ str "\":" ++ token ++ str "\x7d"
  | .object [(key, .object [(inner, .number token)])] =>
      str "\x7b\"" ++ key ++ str "\":" ++
        (str "\x7b\"" ++ inner ++ str "\":" ++ token ++ str "\x7d") ++ str "\x7d"
  | _ => []

theorem newline_notMem_decimal (n : Nat) : newline ∉ decimal n := by
  intro hmem
  have hdigit := (mem_decimal hmem).1
  exact absurd hdigit (by decide)

def digitItems : List (Except Nat Nat) := [.ok 1, .ok 2, .ok 30, .error 5, .ok 3]

end StructuredProxy.Response.Ndjson
