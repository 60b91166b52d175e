import Shapewise.Selection.Project

/-!
# Describing a selection

The result type of a selection: it is checked first and projected only where the check passes.
-/

namespace Shapewise.Selection

/-- Why a selection has no result type. -/
inductive DescribeFault
  | refused (f : SelectionFault)
  | unprojected (f : ProjectionFault)
  deriving DecidableEq

/-- The shape of one record of an entity under a selection. -/
def describe (g : Graph) (limits : Limits) (id : EntityId) (selection : Value) :
    Except DescribeFault Shape := do
  (check g limits id selection).mapError .refused
  (project g id selection).mapError .unprojected

/-- The shape of a list of records under a selection. -/
def describeCollection (g : Graph) (limits : Limits) (id : EntityId) (selection : Value) :
    Except DescribeFault Shape := do
  return .array (← describe g limits id selection)

end Shapewise.Selection
