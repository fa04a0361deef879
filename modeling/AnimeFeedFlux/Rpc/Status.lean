import AnimeFeedFlux.Store.Schema
import AnimeFeedFlux.Lib.GoStrings

/-!
# RPC errors

What a control-plane method returns when it fails: the gRPC status code, its message, and
the store error behind it when there is one.
-/

namespace AnimeFeedFlux

/-- `codes.Code`, as far as the modelled methods use it. -/
inductive Code
  | invalidArgument
  | notFound
  | alreadyExists
  | permissionDenied
  | failedPrecondition
  | aborted
  | resourceExhausted
  | unavailable
  | unauthenticated
  | internal
  deriving DecidableEq, Repr

/-- A `status.Error`. -/
structure RpcError where
  code : Code
  message : String
  cause : Option StoreError := none
  deriving DecidableEq, Repr

/-- What a control-plane write hands back: the database afterwards and the answer. -/
abbrev Reply (α : Type) := DB × Except RpcError α

end AnimeFeedFlux
