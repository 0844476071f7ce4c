import StructuredProxy.Transcode.Text

/-!
# Path templates in the form the router mounts them

`MountedPath::new` turns a `google.api.http` path template into a router path, with what the router
cannot hold kept beside it: a verb after a variable, the literals of a spelled-out field template that
carry an escape, the field template of a last capture. The loop over the template's segments is a fold
of `Mounting.step`.
-/

namespace StructuredProxy

inductive Part where
  | literal (text : Text)
  | capture (position : Nat)
deriving DecidableEq

/-- A field whose template the path spells out segment by segment. -/
structure Composite where
  field : Text
  parts : List Part
deriving DecidableEq

structure MountedPath where
  /-- The router path, without a verb that follows a variable. -/
  axum : Text
  /-- `axum` with every capture unnamed. -/
  shape : Text
  captures : List Text
  unbound : List Bool
  multiSegment : List Bool
  /-- The custom verb after the last segment's variable, `:` included. -/
  verb : Option Text
  emptyLast : Bool
  lastTemplate : Option (List Text)
  /-- The index of the last segment, the one the last capture starts at. -/
  lastSegment : Nat
  unsupported : Option Text
  composites : List Composite
  literals : List (Nat × Text)
deriving DecidableEq

def splitTopLevelFrom : Nat → Text → List Text
  | _, [] => [[]]
  | depth, byte :: rest =>
      if byte = openBrace then (splitTopLevelFrom (depth + 1) rest).modifyHead (byte :: ·)
      else if byte = closeBrace && 0 < depth then
        (splitTopLevelFrom (depth - 1) rest).modifyHead (byte :: ·)
      else if byte = slash && depth = 0 then [] :: splitTopLevelFrom depth rest
      else (splitTopLevelFrom depth rest).modifyHead (byte :: ·)

/-- Split a path at each `/` that is not inside a brace span. -/
def splitTopLevel (path : Text) : List Text := splitTopLevelFrom 0 path

def closingBraceFrom : Nat → Nat → Text → Option Nat
  | _, _, [] => none
  | depth, i, byte :: rest =>
      if byte = openBrace then closingBraceFrom (depth + 1) (i + 1) rest
      else if byte = closeBrace then
        if depth = 0 then none
        else if depth - 1 = 0 then some i
        else closingBraceFrom (depth - 1) (i + 1) rest
      else closingBraceFrom depth (i + 1) rest

def closingBrace (segment : Text) : Option Nat := closingBraceFrom 0 0 segment

def fieldTemplate (segment : Text) : Option Text :=
  ((braced segment).bind (Lib.splitOnce equals)).map Prod.snd

def wildcard : Text := [star]

def doubleWildcard : Text := [star, star]

def isDoubleWildcard (segment : Text) : Bool :=
  segment == doubleWildcard || fieldTemplate segment == some doubleWildcard

def endsInDoubleWildcard (segment : Text) : Bool :=
  isDoubleWildcard segment ||
    (fieldTemplate segment).any fun template => (slash :: doubleWildcard).isSuffixOf template

def spansSegments (segment : Text) : Bool :=
  segment == doubleWildcard ||
    (fieldTemplate segment).any fun template =>
      template.contains slash || template == doubleWildcard

/-- The custom verb split off a template when its last segment is a variable or a wildcard. -/
def MountedPath.splitVerb (template : Text) : Text × Option Text :=
  let last := (splitTopLevel template).getLastD []
  let start := template.length - last.length
  let colonAt :=
    if last.head? = some openBrace then (closingBrace last).map (· + 1)
    else if doubleWildcard.isPrefixOf last then some 2
    else if last.head? = some star then some 1
    else none
  match colonAt with
  | some at_ =>
      if (last.drop at_).head? = some colon && at_ + 1 < last.length then
        (template.take (start + at_), some (template.drop (start + at_)))
      else (template, none)
  | none => (template, none)

inductive Segment where
  | literal (text : Text)
  | capture (name : Text) (catchAll : Bool)
deriving DecidableEq

def convertSegment (segment : Text) (idx : Nat) (isLast : Bool) : Segment :=
  match braced segment with
  | some inner =>
      match Lib.splitOnce equals inner with
      | some (name, template) =>
          if template = wildcard then .capture name false
          else if template = doubleWildcard then .capture name isLast
          else if !template.contains slash then .capture name false
          else .capture name isLast
      | none => .capture inner false
  | none =>
      if segment = doubleWildcard then .capture (decimal idx) isLast
      else if segment = wildcard then .capture (decimal idx) false
      else .literal segment

/-! ### The loop over the segments -/

structure Mounting where
  axum : Text := []
  shape : Text := []
  captures : List Text := []
  unbound : List Bool := []
  multiSegment : List Bool := []
  composites : List Composite := []
  literals : List (Nat × Text) := []
  unsupported : Option Text := none
  written : Nat := 0
  lastSegment : Nat := 0
deriving DecidableEq

namespace Mounting

def pushSegment (m : Mounting) : Mounting :=
  { m with
    axum := if 0 < m.written then m.axum ++ [slash] else m.axum
    shape := if 0 < m.written then m.shape ++ [slash] else m.shape
    written := m.written + 1 }

def pushCapture (m : Mounting) (opening name : Text) (unbound multi : Bool) : Mounting :=
  { m with
    axum := m.axum ++ opening ++ name ++ [closeBrace]
    shape := m.shape ++ opening ++ [closeBrace]
    captures := m.captures ++ [name]
    unbound := m.unbound ++ [unbound]
    multiSegment := m.multiSegment ++ [multi] }

def pushLiteral (m : Mounting) (text : Text) : Mounting :=
  { m with axum := m.axum ++ text, shape := m.shape ++ text }

/-- One segment of a field template spelled out in the path: a literal with an escape is a capture to
the router, and its text is compared by the transcoded routes. -/
def pushPart (field : Text) (multi : Bool) (state : Mounting × List Part) (part : Text × Nat) :
    Mounting × List Part :=
  let (m, parts) := state
  let (part, k) := part
  let m := m.pushSegment
  let escaped := part.contains percent
  let captured := part = wildcard || escaped
  let m :=
    if captured then m.pushCapture [openBrace] (field ++ [dot] ++ decimal k) true multi
    else m.pushLiteral part
  let m :=
    if escaped then { m with literals := m.literals ++ [(m.axum.count slash, part)] } else m
  (m, parts ++ [if captured then .capture (m.captures.length - 1) else .literal part])

def pushComposite (m : Mounting) (field template : Text) : Mounting :=
  let multi := template.contains slash
  let (m, parts) := (template.splitOn slash).zipIdx.foldl (pushPart field multi) (m, [])
  { m with composites := m.composites ++ [{ field, parts }] }

def pushConverted (m : Mounting) (segment : Text) (idx : Nat) (isLast : Bool) : Mounting :=
  let m := m.pushSegment
  match convertSegment segment idx isLast with
  | .literal text => m.pushLiteral text
  | .capture name catchAll =>
      m.pushCapture (if catchAll then [openBrace, star] else [openBrace]) name
        (segment == wildcard || segment == doubleWildcard) (catchAll && spansSegments segment)

def backtick : Text := str "`"

def refuse (m : Mounting) (segment : Text) (before after : String) : Mounting :=
  { m with unsupported := some (str before ++ backtick ++ segment ++ backtick ++ str after) }

/-- What a round notes before it writes: where the last segment starts, and a field template that
nests a variable or puts `**` before another segment. -/
def note (last : Nat) (m : Mounting) (segment : Text) (idx : Nat) : Mounting :=
  let m := if idx = last then { m with lastSegment := m.written } else m
  let m :=
    if (fieldTemplate segment).any hasBrace then
      m.refuse segment "" " nests a variable in a field template, which holds none"
    else m
  if idx = last && (fieldTemplate segment).any fun template =>
      ((template.splitOn slash).reverse.drop 1).contains doubleWildcard then
    m.refuse segment "" " puts `**` before another segment; it must be the last one"
  else m

def step (last : Nat) (m : Mounting) (item : Text × Nat) : Mounting :=
  let (segment, idx) := item
  let m := m.note last segment idx
  match ((braced segment).bind (Lib.splitOnce equals)).filter fun (_, template) =>
      idx ≠ last && template ≠ wildcard with
  | some (field, template) =>
      if (template.splitOn slash).contains doubleWildcard then
        (m.refuse segment "`**` in " (" before the last segment matches any number of " ++
          "segments, which the router cannot hold there")).pushConverted segment idx (idx = last)
      else m.pushComposite field template
  | none =>
      let m :=
        if idx ≠ last && isDoubleWildcard segment then
          m.refuse segment "" (" before the last segment matches any number of segments, " ++
            "which the router cannot hold there")
        else m
      m.pushConverted segment idx (idx = last)

end Mounting

namespace MountedPath

/-- Mount `template`, a `google.api.http` path template. -/
def new (template : Text) : MountedPath :=
  let (base, verb) := splitVerb template
  let segments := splitTopLevel base
  let last := segments.length - 1
  let lastText := segments.getLastD []
  let m := segments.zipIdx.foldl (Mounting.step last) {}
  { axum := m.axum
    shape := m.shape
    captures := m.captures
    unbound := m.unbound
    multiSegment := m.multiSegment
    verb
    emptyLast := endsInDoubleWildcard lastText
    lastTemplate := ((fieldTemplate lastText).filter fun template =>
      template ≠ wildcard && template ≠ doubleWildcard).map splitTopLevel
    lastSegment := m.lastSegment
    unsupported := m.unsupported
    composites := m.composites
    literals := m.literals }

end MountedPath

/-- The router crate, by what it answers to an insertion: the routes it holds, in the order they were
inserted, and the new route give its refusal or none. -/
structure Matchit where
  insert : List Text → Text → Option Text

section Mountable

variable (router : Matchit)

def mountableSegments : List Text → Nat → Except Text Nat
  | [], captures => .ok captures
  | segment :: segments, captures =>
      match segment.findIdx? fun byte => byte = openBrace || byte = closeBrace with
      | none => mountableSegments segments captures
      | some at_ =>
          if at_ ≠ 0 || (braced segment).all hasBrace then
            .error (Mounting.backtick ++ segment ++ Mounting.backtick ++
              str " is not a whole-segment variable")
          else
            mountableSegments segments
              (if [openBrace, star].isPrefixOf segment then captures else captures + 1)

def mountable (axumPath : Text) : Except Text Unit := do
  if axumPath.head? ≠ some slash then
    throw (str "a path template must start with '/'")
  if (axumPath.splitOn slash).any fun segment =>
      segment.head? = some colon || segment.head? = some star then
    throw (str "a path segment must not start with ':' or '*'")
  let captures ← mountableSegments (axumPath.splitOn slash) 0
  if captures > 25 then
    throw (decimal captures ++
      str " variables; the router holds at most 25 before the last")
  match router.insert [] axumPath with
  | some error => throw error
  | none => pure ()

namespace MountedPath

def routable (mount : MountedPath) : Except Text Unit :=
  match mount.unsupported with
  | some reason => .error reason
  | none => mountable router mount.axum

end MountedPath

end Mountable

end StructuredProxy
