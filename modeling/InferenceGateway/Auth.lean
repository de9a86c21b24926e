import InferenceGateway.Config

/-!
# Principals

`gateway/auth/__init__.py`: who is making a request, however they authenticated.
-/

namespace InferenceGateway

open Py

/-- `Principal`. -/
structure Principal where
  subject : Str
  scopes : List Str
  method : String
  keyid : Option Str := none
  tokenBudget : Option ℤ := none
  maxConcurrency : Option ℤ := none

/-- `has_scope`. -/
def Principal.hasScope (p : Principal) (scope : Str) : Bool :=
  p.scopes.contains scope || p.scopes.contains (str "*")

end InferenceGateway
