import StructuredProxy.Guard.Rejection
import StructuredProxy.ClientAddress.Resolver
import StructuredProxy.Transcode.Rule

/-!
# Scopes

A guard covers classes of traffic, kept as the bits of a byte, and within them the paths and methods its
scope is narrowed to.
-/

namespace StructuredProxy.Guard

open Addressing

structure Request where
  method : Method
  path : Text
  headers : Headers
  /-- The resolved client address, and the verified claims: extensions no client sets. -/
  client : Option ClientAddress
  claims : Option Json

/-- A class of traffic a guard stack is built for; `verify` is the forward-auth endpoint. -/
inductive Class where
  | transcoded
  | endpoints
  | verify
  | grpc
  | fallback
  deriving DecidableEq

def transcodedBit : BitVec 8 := 1
def endpointsBit : BitVec 8 := 1 <<< 1
def grpcBit : BitVec 8 := 1 <<< 2
def fallbackBit : BitVec 8 := 1 <<< 3

def Class.bit : Class → BitVec 8
  | .transcoded => transcodedBit
  | .endpoints | .verify => endpointsBit
  | .grpc => grpcBit
  | .fallback => fallbackBit

/-- The forward-auth endpoint answers the authenticating guards, so it is never behind them. -/
def Class.authenticates (cls : Class) : Bool := cls ≠ .verify

/-- `paths` and `methods` narrow the guard where they are given. -/
structure Scope where
  classes : BitVec 8
  paths : Option (List (Text → Bool))
  methods : Option (List Method)

namespace Scope

def covers (scope : Scope) (cls : Class) : Bool := scope.classes &&& cls.bit ≠ 0

def narrows (scope : Scope) : Bool := scope.paths.isSome || scope.methods.isSome

def matchesRequest (scope : Scope) (request : Request) : Bool :=
  (match scope.methods with
    | none => true
    | some methods => methods.contains request.method) &&
  (match scope.paths with
    | none => true
    | some globs => globs.any fun glob => glob request.path)

/-- Whether a guard whose scope covers the request's class applies to it. -/
def applies (scope : Scope) (request : Request) : Bool := !scope.narrows || scope.matchesRequest request

end Scope

end StructuredProxy.Guard
