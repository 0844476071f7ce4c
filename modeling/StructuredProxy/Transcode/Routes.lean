import StructuredProxy.Transcode.Served
import StructuredProxy.Transcode.IndexListing

/-!
# The choice among the transcoded routes

`Routes` indexes the tables with a plain binding and those binding each verb. `choose_ranked` picks the
kind of binding that answers a request, and `answer` walks one index for the first table that serves the
method, keeping the first 405 on the way.
-/

namespace StructuredProxy

structure Routes where
  tables : List PathTable
  verbs : List (Text × Index)
  plain : Index

namespace Routes

/-- `verbs.entry(raw).or_default().insert(path, table)`. -/
def insertVerb (emptyLast : Bool) (path : Text) (table : Nat) (raw : Text) :
    List (Text × Index) → List (Text × Index)
  | [] => [(raw, ({ emptyLast } : Index).insert path table)]
  | (key, index) :: verbs =>
      if key = raw then (key, index.insert path table) :: verbs
      else (key, index) :: insertVerb emptyLast path table raw verbs

def addVerb (emptyLast : Bool) (path : Text) (table : Nat)
    (state : List (Text × Index) × List Text) (raw : Text) : List (Text × Index) × List Text :=
  if raw ∈ state.2 then state
  else (insertVerb emptyLast path table raw state.1, state.2 ++ [raw])

def addTable (emptyLast : Bool) (routes : Routes) (item : PathTable × Nat) : Routes :=
  let (table, index) := item
  let raws := table.bindings.filterMap fun binding => binding.verb.map (·.raw)
  { routes with
    plain := if table.plain then routes.plain.insert table.path index else routes.plain
    verbs := (raws.foldl (addVerb emptyLast table.path index) (routes.verbs, [])).1 }

def new (emptyLast : Bool) (tables : List PathTable) : Routes :=
  tables.zipIdx.foldl (addTable emptyLast)
    { tables, verbs := [], plain := { emptyLast } }

variable (routes : Routes)

/-- The table at a position; a position out of range is never asked for. -/
def table (position : Nat) : PathTable :=
  routes.tables.getD position
    { path := [], captures := [], bindings := [], plain := false, plain_eq := rfl }

section Answer

variable (method : Method) (admits : Binding → Bool)

/-- The callback of `answer`: its state is the first 405 met, its error what it breaks with. -/
def tryTable (first : Nat) (ranks : Nat → Bool) (position : Nat) :
    ExceptT (Option Choice) (StateM (Option Choice)) Unit := do
  if position = first then
    pure ()
  else if !ranks position then
    throw none
  else
    match (routes.table position).choose position method admits with
    | some (.methodNotAllowed table allow) =>
        modify (·.or (some (.methodNotAllowed table allow)))
    | some choice => throw (some choice)
    | none => pure ()

/-- What answers `method` among the tables of `index`, starting from `first`, the index's own pick. -/
def answer (index : Index) (first : Nat) (path : Text) (ranks : Nat → Bool) : Option Choice :=
  let walk (notAllowed : Option Choice) : Option Choice :=
    match Id.run ((index.each path (routes.tryTable method admits first ranks)).run.run notAllowed) with
    | (.error (some choice), _) => some choice
    | (_, notAllowed) => notAllowed
  match (routes.table first).choose first method admits with
  | some (.methodNotAllowed table allow) => walk (some (.methodNotAllowed table allow))
  | some choice => some choice
  | none => walk none

end Answer

def isPlain (path : Text) (binding : Binding) : Bool :=
  binding.verb.isNone && binding.fits path

def isBound (path rest verb : Text) (binding : Binding) : Bool :=
  (binding.verb.any fun own =>
    own.raw = verb && (own.emptyOk || rest.getLast? ≠ some slash)) && binding.fits path

def chooseVerb (position : Nat) (method : Method) (path : Text) (ranks : Nat → Bool) :
    Option Choice := do
  let (rest, verb) ← splitVerb path
  let verb := normalizeEscapes verb
  let index ← routes.verbs.lookup verb
  let first ← (index.first path).filter fun first => first = position || ranks first
  routes.answer method (isBound path rest verb) index first path ranks

def choosePlain (position : Nat) (method : Method) (path : Text) (ranks : Nat → Bool) : Choice :=
  let first :=
    if (routes.table position).plain then some position
    else (routes.plain.first path).filter ranks
  match first with
  | some first =>
      (routes.answer method (isPlain path) routes.plain first path ranks).getD .notFound
  | none => .notFound

/-- Which binding answers `method` on `path`, a request the router matched to the table at `position`,
among the tables `ranks` admits. -/
def chooseRanked (position : Nat) (method : Method) (path : Text) (ranks : Nat → Bool) : Choice :=
  let literal :=
    if (routes.table position).literalEnd then
      (routes.table position).choose position method (isPlain path)
    else none
  match literal with
  | some choice => choice
  | none =>
      match routes.chooseVerb position method path ranks with
      | some choice => choice
      | none => routes.choosePlain position method path ranks

def choose (position : Nat) (method : Method) (path : Text) : Choice :=
  routes.chooseRanked position method path fun _ => true

end Routes

end StructuredProxy
