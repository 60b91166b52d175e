/-!
# Limits

How deep a selection may nest: the list of fields of the root counts as depth 1 and every list of
fields inside another one adds 1.
-/

namespace Shapewise

/-- The greatest depth of a selection, at least 1. -/
structure Limits where
  maxDepth : Nat
  positive : 1 ≤ maxDepth
  deriving DecidableEq

namespace Limits

/-- The limit that holds where none is given. -/
def standard : Limits := ⟨32, by decide⟩

/-- A depth that is no limit. -/
structure Fault where
  given : Int
  deriving DecidableEq, Repr

/-- The message for a depth that is no limit. -/
def Fault.message (f : Fault) : String :=
  s!"max_depth must be at least 1, got {f.given}"

/-- The limit of a given depth. -/
def ofDepth (n : Int) : Except Fault Limits :=
  if h : 1 ≤ n then .ok ⟨n.toNat, by omega⟩ else .error ⟨n⟩

end Limits

end Shapewise
