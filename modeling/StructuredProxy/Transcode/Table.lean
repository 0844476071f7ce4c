import StructuredProxy.Transcode.Path
import StructuredProxy.Transcode.Decode
import StructuredProxy.Transcode.Index

/-!
# The bindings mounted at one router path

A `PathTable` holds the bindings that share a router path. `choose` scans them once for a request,
remembering the admitted ones among the first 64 in a word, and `allow` lists the methods of the
admitted ones when none serves the request's.
-/

namespace StructuredProxy

def isTokenChar (byte : UInt8) : Bool :=
  (48 ≤ byte && byte ≤ 57) || (65 ≤ byte && byte ≤ 90) || (97 ≤ byte && byte ≤ 122) ||
    (str "!#$%&'*+-.^_`|~").contains byte

/-- An HTTP method: a token, compared byte for byte. -/
structure Method where
  token : Text
  valid : (!token.isEmpty && token.all isTokenChar) = true
deriving DecidableEq

namespace Method

def GET : Method := ⟨str "GET", by decide⟩
def HEAD : Method := ⟨str "HEAD", by decide⟩
def PUT : Method := ⟨str "PUT", by decide⟩
def POST : Method := ⟨str "POST", by decide⟩
def DELETE : Method := ⟨str "DELETE", by decide⟩
def PATCH : Method := ⟨str "PATCH", by decide⟩

theorem eq_iff {m n : Method} : m = n ↔ m.token = n.token := by
  cases m
  cases n
  simp

end Method

inductive RouteMethod where
  | one (method : Method)
  | any
deriving DecidableEq

namespace RouteMethod

def asStr : RouteMethod → Text
  | one method => method.token
  | any => str "*"

end RouteMethod

structure RouteEntry where
  httpPath : Text
  httpMethod : RouteMethod
  grpcPath : Text
deriving DecidableEq

structure Verb where
  raw : Text
  decoded : Text
  multiSegment : Text
  emptyOk : Bool
  normal : normalizeEscapes raw = raw
deriving DecidableEq

def Verb.new (decoder : PercentDecoder) (raw : Text) (emptyOk : Bool) : Verb where
  raw := normalizeEscapes raw
  decoded := fromUtf8Lossy (decoder.decode raw)
  multiSegment := normalizeEscapes (fromUtf8Lossy (decodeMultiSegment decoder raw))
  emptyOk := emptyOk
  normal := normalizeEscapes_idem raw

/-- The field template of a last capture the router does not hold. -/
structure Template where
  raw : List Text
  segments : List Text
  start : Nat
  normal : segments = raw.map normalizeEscapes
deriving DecidableEq

def Template.of (mount : MountedPath) : Option Template :=
  mount.lastTemplate.map fun raw =>
    { raw, segments := raw.map normalizeEscapes, start := mount.lastSegment, normal := rfl }

structure Binding where
  entry : RouteEntry
  names : Option (List Text)
  verb : Option Verb
  template : Option Template
  unbound : List Nat
  multiSegment : List Nat
  composites : List Composite
  literals : List (Nat × Text)
deriving DecidableEq

/-- The request path without its custom verb, and the verb: the last segment from its first colon. -/
def splitVerb (path : Text) : Option (Text × Text) :=
  let start := match path.reverse.findIdx? (· = slash) with
    | some i => path.length - i
    | none => 0
  ((path.drop start).findIdx? (· = colon)).map fun i => path.splitAt (start + i)

/-- What is left of a value as a `**` takes one segment more each time. -/
def leftovers : Option Text → List (Option Text)
  | none => [none]
  | some value => some value :: tails value ++ [none]
where
  tails : Text → List (Option Text)
    | [] => []
    | byte :: rest => if byte = slash then some rest :: tails rest else tails rest

def follows : List Text → Option Text → Bool
  | [], value => value.isNone
  | first :: rest, value =>
      if first = doubleWildcard then (leftovers value).any (follows rest)
      else
        match value with
        | none => false
        | some segments =>
            let (segment, tail) := Index.nextSegment segments
            (if first = wildcard then !segment.isEmpty else sameOctets segment first) &&
              follows rest tail

def fitsLiterals : List (Nat × Text) → List Text → Nat → Bool
  | [], _, _ => true
  | (at_, literal) :: literals, segments, next =>
      match segments.drop (at_ - next) with
      | [] => false
      | segment :: segments =>
          sameOctets segment literal && fitsLiterals literals segments (at_ + 1)

def afterSlashes (path : Text) : Nat → Nat → Option Nat
  | 0, at_ => some at_
  | count + 1, at_ =>
      match (path.drop at_).findIdx? (· = slash) with
      | some i => afterSlashes path count (at_ + i + 1)
      | none => none

namespace Binding

def constrained (binding : Binding) : Bool := !binding.literals.isEmpty || binding.template.isSome

def valueEnd (binding : Binding) (path : Text) : Option Nat :=
  match binding.verb, splitVerb path with
  | some _, some (rest, _) => some rest.length
  | some _, none => none
  | none, _ => some path.length

def fitsTemplate (binding : Binding) (path : Text) (template : Template) : Bool :=
  match afterSlashes path template.start 0, binding.valueEnd path with
  | some at_, some end_ =>
      if at_ ≤ end_ then
        follows template.segments
          ((some ((path.take end_).drop at_)).filter fun value => !value.isEmpty)
      else false
  | _, _ => false

/-- Whether a request this binding's path matched has its escaped literals, and a last value that
follows its field template. -/
def fits (binding : Binding) (path : Text) : Bool :=
  fitsLiterals binding.literals (path.splitOn slash) 0 &&
    match binding.template with
    | none => true
    | some template => binding.fitsTemplate path template

end Binding

inductive Choice where
  | route (table index : Nat)
  | methodNotAllowed (table : Nat) (allow : Text)
  | notFound
deriving DecidableEq

structure PathTable where
  path : Text
  captures : List Text
  bindings : List Binding
  plain : Bool
  plain_eq : plain = bindings.any (·.verb.isNone)
deriving DecidableEq

namespace PathTable

def literalEnd (table : PathTable) : Bool := table.path.getLast? ≠ some closeBrace

def bindsHead (table : PathTable) : Bool :=
  table.bindings.any (·.entry.httpMethod = .one Method.HEAD)

structure Allow where
  value : Text := []
  get : Bool := false
  head : Bool := false

def allowStep (bindings : List Binding) (admitted : Nat → Bool) (state : Allow)
    (item : Binding × Nat) : Allow :=
  let (binding, index) := item
  let method := binding.entry.httpMethod.asStr
  let listed := (bindings.take index).zipIdx.any fun (b, earlier) =>
    b.entry.httpMethod.asStr = method && admitted earlier
  if !admitted index || listed then state
  else
    { value := (if state.value.isEmpty then state.value else state.value ++ str ", ") ++ method
      get := state.get || method = str "GET"
      head := state.head || method = str "HEAD" }

/-- The methods of the bindings at the indexes `admitted` takes, with HEAD after them when a GET
binding answers it. -/
def allow (table : PathTable) (admitted : Nat → Bool) : Text :=
  let state := table.bindings.zipIdx.foldl (allowStep table.bindings admitted) {}
  if state.get && !state.head then state.value ++ str ", HEAD" else state.value

/-- What the loop of `choose` keeps: the first GET binding that may answer HEAD, the admitted bindings
among the first 64, and whether any was admitted. -/
structure Scan where
  head : Option Nat := none
  admitted : BitVec 64 := 0#64
  answered : Bool := false

def Scan.mark (state : Scan) (index : Nat) : Scan :=
  { state with
    answered := true
    admitted := if index < 64 then state.admitted ||| 1#64 <<< index else state.admitted }

/-- One round of the loop of `choose`; an error is its early return. -/
def scan (method : Method) (answers : Binding → Bool) (state : Scan) (item : Binding × Nat) :
    Except Nat Scan :=
  let (binding, index) := item
  if !answers binding then .ok state
  else
    let state := state.mark index
    match binding.entry.httpMethod with
    | .any => .error index
    | .one bound =>
        if bound = method then .error index
        else if bound = Method.GET && method = Method.HEAD then
          .ok { state with head := state.head.or (some index) }
        else .ok state

def choose (pathTable : PathTable) (table : Nat) (method : Method) (answers : Binding → Bool) :
    Option Choice :=
  match pathTable.bindings.zipIdx.foldlM (scan method answers) {} with
  | .error index => some (.route table index)
  | .ok state =>
      match state.head with
      | some index => some (.route table index)
      | none =>
          if state.answered then
            some (.methodNotAllowed table (pathTable.allow fun index =>
              if index < 64 then state.admitted &&& 1#64 <<< index ≠ 0#64
              else (pathTable.bindings[index]?).any answers))
          else none

end PathTable

/-! ### Building a table -/

structure Claim where
  method : RouteMethod
  verb : Option Text
  template : Option (List Text)
  literals : List (Nat × Text)
deriving DecidableEq

def normalized (template : Option (List Text)) : Option (List Text) :=
  template.map fun segments => segments.map normalizeEscapes

def normalizedLiterals (literals : List (Nat × Text)) : List (Nat × Text) :=
  literals.map fun (at_, literal) => (at_, normalizeEscapes literal)

def positions (marked : List Bool) : List Nat :=
  marked.zipIdx.filterMap fun (bare, position) => if bare then some position else none

def clash (claim other : Claim) : Bool :=
  claim.verb.map normalizeEscapes = other.verb.map normalizeEscapes &&
    normalized claim.template = normalized other.template &&
    claim.literals.length = other.literals.length &&
    (claim.literals.zip other.literals).all (fun ((at_, a), (otherAt, b)) =>
      at_ = otherAt && normalizeEscapes a = normalizeEscapes b) &&
    (claim.method = other.method || claim.method = .any || other.method = .any)

def MountedPath.claim (mount : MountedPath) (method : RouteMethod) : Claim where
  method := method
  verb := mount.verb
  template := mount.lastTemplate
  literals := mount.literals

namespace Binding

def claim (binding : Binding) : Claim where
  method := binding.entry.httpMethod
  verb := binding.verb.map (·.raw)
  template := binding.template.map (·.raw)
  literals := binding.literals

/-- The binding of `entry` mounted at `mount`, with `names` for the captures of its table. -/
def ofMount (decoder : PercentDecoder) (mount : MountedPath) (entry : RouteEntry)
    (names : Option (List Text)) : Binding where
  entry := entry
  names := names
  verb := mount.verb.map fun raw => Verb.new decoder raw mount.emptyLast
  template := Template.of mount
  unbound := positions mount.unbound
  multiSegment := positions mount.multiSegment
  composites := mount.composites
  literals := normalizedLiterals mount.literals

end Binding

namespace PathTable

def new (decoder : PercentDecoder) (mount : MountedPath) (entry : RouteEntry) : PathTable where
  path := mount.axum
  captures := mount.captures
  bindings := [Binding.ofMount decoder mount entry none]
  plain := mount.verb.isNone
  plain_eq := by simp [Binding.ofMount]

def taken (table : PathTable) (mount : MountedPath) (entry : RouteEntry) : Bool :=
  table.bindings.any fun existing => clash existing.claim (mount.claim entry.httpMethod)

/-- Where a binding is inserted: one with a literal or a field template to follow goes before the open
ones. -/
def place (bindings : List Binding) (binding : Binding) : Nat :=
  if binding.constrained then
    (bindings.findIdx? fun existing => !existing.constrained).getD bindings.length
  else bindings.length

theorem place_le (bindings : List Binding) (binding : Binding) :
    place bindings binding ≤ bindings.length := by
  unfold place
  split
  · cases hfind : bindings.findIdx? fun existing => !existing.constrained with
    | none => exact Nat.le_refl _
    | some i => exact Nat.le_of_lt (List.findIdx?_eq_some_iff_findIdx_eq.mp hfind).1
  · exact Nat.le_refl _

theorem any_insertIdx (p : Binding → Bool) (bindings : List Binding) (binding : Binding) :
    (bindings.insertIdx (place bindings binding) binding).any p =
      (bindings.any p || p binding) := by
  rw [(List.perm_insertIdx binding bindings (place_le bindings binding)).any_eq, List.any_cons,
    Bool.or_comm]

/-- Add `entry` mounted at `mount`, a path of this table's shape, unless it clashes with a binding
already there. -/
def add (decoder : PercentDecoder) (table : PathTable) (mount : MountedPath) (entry : RouteEntry) :
    PathTable :=
  if table.taken mount entry then table
  else
    let names := if mount.captures ≠ table.captures then some mount.captures else none
    let binding := Binding.ofMount decoder mount entry names
    { table with
      bindings := table.bindings.insertIdx (place table.bindings binding) binding
      plain := table.plain || mount.verb.isNone
      plain_eq := by
        rw [any_insertIdx, ← table.plain_eq]
        simp [binding, Binding.ofMount] }

end PathTable

end StructuredProxy
