import StructuredProxy.Request.Presence
import StructuredProxy.Request.Scalar
import StructuredProxy.Lib.Lists

/-!
# Binding string values to fields

A dotted key of a path, a query or a form resolves to a path of fields, and its values are assigned at
the end of it. `bind_pairs` binds every key of a query or form: keys spelled with proto names in a
first pass, keys that use a JSON name in a second one, merged with the proto spelling of the field.
-/

namespace StructuredProxy

/-- Which source a string value comes from, and so whether it overwrites. -/
inductive BindingMode where
  | set
  | fill
deriving DecidableEq

/-- The message being built and what was recorded as set; nothing is recorded without a query. -/
structure Draft where
  fields : Fields
  presence : Option Presence

/-- What `resolve` finds: the fields on the way, whether the field lies inside a well-known type, and
whether a segment used a JSON name that is not the proto name. -/
structure Resolved where
  path : List Field
  inside : Bool
  aliased : Bool
deriving DecidableEq

/-- The field named `name`, by its proto name or else its JSON name, which is an alias. -/
def fieldNamed (type : MessageType) (name : Text) : Option (Field × Bool) :=
  match type.getFieldByName name with
  | some field => some (field, false)
  | none => (type.getFieldByJsonName name).map fun field => (field, true)

section

variable (types : Types)

def resolveSegments : MessageType → List Text → Option Resolved
  | _, [] => none
  | type, [leaf] => (fieldNamed type leaf).map fun (field, aliased) =>
      { path := [field], inside := false, aliased }
  | type, segment :: next :: segments => do
      let (field, aliased) ← fieldNamed type segment
      let inner ← types.typeOf field.kind
      if field.isList || field.isMap then none
      else
        let rest ← resolveSegments inner (next :: segments)
        some {
          path := field :: rest.path
          inside := inner.hasSpecialJson || rest.inside
          aliased := aliased || rest.aliased }

/-- Where the keys of a query or form start: the root, or its message field `within`; `inside` when
that message is a well-known type. -/
structure Start where
  root : MessageType
  inside : Bool
  within : Option Field

def resolve (start : Start) (key : Text) : Option Resolved :=
  match start.within with
  | none => (resolveSegments types start.root (key.splitOn dot)).map fun found =>
      { found with inside := start.inside || found.inside }
  | some field => do
      let inner ← types.typeOf field.kind
      let found ← resolveSegments types inner (key.splitOn dot)
      some { found with path := field :: found.path, inside := start.inside || found.inside }

/-- Whether the dotted path key `bound` names the field at the end of `path` or one above it. -/
def covers (bound : Text) (path : List Field) : Bool :=
  go (bound.splitOn dot) path
where
  go : List Text → List Field → Bool
    | [], _ => true
    | _ :: _, [] => false
    | segment :: segments, field :: path => field.named segment && go segments path

variable (readers : StringReaders)

def assign (mode : BindingMode) (path : List Field) (values : List Text) (draft : Draft) :
    Except Text Unit × Draft :=
  if mode = .fill && draft.presence.any (·.blocks types path) then (.ok (), draft)
  else
    match path.getLast? with
    | none => (.ok (), draft)
    | some field =>
        match fieldValue readers field values with
        | .error error => (.error error, draft)
        | .ok value =>
            match assignAt value path draft.fields with
            | (.error error, fields) => (.error error, { draft with fields })
            | (.ok (), fields) =>
                let recorded := draft.presence.map fun presence =>
                  if mode = .set then presence.recordPath path false else presence
                (.ok (), { fields, presence := recorded })

/-- Set the field `key` names, if any, and tell whether it lies inside a well-known type. -/
def bind (start : Start) (key : Text) (values : List Text) (mode : BindingMode) (draft : Draft) :
    Except Text Bool × Draft :=
  match resolve types start key with
  | none => (.ok false, draft)
  | some found =>
      match assign types readers mode found.path values draft with
      | (.error error, draft) => (.error error, draft)
      | (.ok (), draft) => (.ok found.inside, draft)

def bindResolved (pathParams : Option (List (Text × Text))) (path : List Field) (values : List Text)
    (mode : BindingMode) (draft : Draft) : Except Text Bool × Draft :=
  if pathParams.any fun params => params.any fun (key, _) => covers key path then (.ok false, draft)
  else
    match assign types readers mode path values draft with
    | (.error error, draft) => (.error error, draft)
    | (.ok (), draft) => (.ok true, draft)

/-! ### The pairs of a query or form -/

/-- The keys of the pairs in order, each with the positions of its pairs in request order: the runs
of equal keys after the stable sort. -/
def runs (pairs : List (Text × Text)) : List (Text × List Nat) :=
  ((pairs.map Prod.fst).eraseDups.mergeSort fun a b => decide (a ≤ b)).map fun key =>
    (key, pairs.findIdxs (·.1 = key))

def valuesAt (pairs : List (Text × Text)) (positions : List Nat) : List Text :=
  positions.filterMap fun position => (pairs[position]?).map Prod.snd

def Start.own (start : Start) (path : List Field) : List Field :=
  if start.within.isSome then path.drop 1 else path

def canonicalKey (path : List Field) : Text := [dot].intercalate (path.map Field.name)

/-- What the first pass keeps: the draft, whether a field inside a well-known type was set, the
positions of the keys that used a JSON name under their proto-name key, and the keys whose own values
failed to bind. -/
structure FirstPass where
  draft : Draft
  inside : Bool := false
  aliased : List (Text × List Nat) := []
  failed : List (Text × Text) := []

variable (pairs : List (Text × Text)) (start : Start) (mode : BindingMode)
  (pathParams : Option (List (Text × Text)))

def firstPassStep (state : FirstPass) (run : Text × List Nat) : FirstPass :=
  let (key, positions) := run
  match resolve types start key with
  | none => state
  | some found =>
      if found.aliased then
        { state with aliased := state.aliased ++ [(canonicalKey (start.own found.path), positions)] }
      else
        match bindResolved types readers pathParams found.path (valuesAt pairs positions) mode
            state.draft with
        | (.ok assigned, draft) =>
            { state with draft, inside := state.inside || assigned && found.inside }
        | (.error error, draft) => { state with draft, failed := state.failed ++ [(key, error)] }

/-- The groups of the second pass: the proto-name keys in order, each with the positions of all its
pairs in request order. -/
def mergedGroups (aliased : List (Text × List Nat)) : List (Text × List Nat) :=
  ((aliased.map Prod.fst).eraseDups.mergeSort fun a b => decide (a ≤ b)).map fun key =>
    let own := (aliased.filter (·.1 = key)).flatMap Prod.snd
    (key, (own ++ pairs.findIdxs (·.1 = key)).mergeSort fun a b => decide (a ≤ b))

def secondPass : List (Text × List Nat) → Bool → Draft → Except Text Bool × Draft
  | [], inside, draft => (.ok inside, draft)
  | (key, positions) :: groups, inside, draft =>
      match resolve types start key with
      | none => secondPass groups inside draft
      | some found =>
          match bindResolved types readers pathParams found.path (valuesAt pairs positions) mode
              draft with
          | (.error error, draft) => (.error error, draft)
          | (.ok assigned, draft) => secondPass groups (inside || assigned && found.inside) draft

/-- Bind every key of the pairs to its field, with all the values of the field in request order, and
tell whether a field inside a well-known type was set. -/
def bindPairs (draft : Draft) : Except Text Bool × Draft :=
  let state := (runs pairs).foldl (firstPassStep types readers pairs start mode pathParams) { draft }
  match state.failed.find? fun (key, _) => !state.aliased.any (·.1 = key) with
  | some (_, error) => (.error error, state.draft)
  | none =>
      secondPass types readers pairs start mode pathParams (mergedGroups pairs state.aliased)
        state.inside state.draft

end

end StructuredProxy
