import Shapewise.Text.Quoted
import Shapewise.Value.Display

/-!
# Faults of a selection

Why a selection or a page parameter is refused: a cause and the path to the node that has it. A
client gets the code of the cause, its message, the path and the names to look at.
-/

namespace Shapewise

/-- What is wrong with the arguments of a calculation. -/
inductive ArgumentFault
  | notObject (typeName : String)
  | notAccepted (calculation : String)
  | unknown (name : String)
  | mismatch (name expected : String) (got : Value)
  | missing (name : String)
  deriving DecidableEq

/-- What is wrong with a page parameter. -/
inductive PageFault
  | notObject (typeName : String)
  | unknownKeys (keys : List String)
  | mixed
  | required
  | notPaginated
  | noFlavor
  | singleRecord (action : String)
  deriving DecidableEq

/-- What is wrong with the form of a selection node. -/
inductive FormFault
  | notList (typeName : String)
  | notElement (typeName : String)
  | notVariant (typeName : String)
  | emptyObject
  | emptyVariants
  | notCalculation (name : String)
  | calculationKeys (keys : List String)
  | noEntity
  deriving DecidableEq

/-- Why a selection is refused. -/
inductive SelectionCause
  | unknownPrimitive (name entity : String)
  | unknownComplex (name entity : String)
  | unknownVariant (tag union : String)
  | missingArguments (required : List String)
  | invalidArguments (fault : ArgumentFault)
  | pagination (fault : PageFault)
  | tooDeep (maxDepth : Nat)
  | form (fault : FormFault)
  | needsSelection (name : Option String)
  | takesNoSelection (name : String)
  | duplicate (name : String)
  deriving DecidableEq

/-- A refused selection: the names that lead from the root to the node at fault, and the cause. -/
structure SelectionFault where
  path : List String
  cause : SelectionCause
  deriving DecidableEq

/-! ## Messages -/

/-- The message for faulty arguments. -/
def ArgumentFault.message : ArgumentFault → String
  | .notObject typeName => s!"expected an object, got {typeName}"
  | .notAccepted calculation => s!"'{calculation}' does not accept arguments"
  | .unknown name => s!"unknown argument '{name}'"
  | .mismatch name expected got => s!"argument '{name}' expects {expected}, got {got.display}"
  | .missing name => s!"missing required argument '{name}'"

/-- The argument that is at fault. -/
def ArgumentFault.argument? : ArgumentFault → Option String
  | .unknown name => some name
  | .mismatch name _ _ => some name
  | .missing name => some name
  | _ => none

/-- The message for a faulty page parameter. -/
def PageFault.message : PageFault → String
  | .notObject typeName => s!"expected an object, got {typeName}"
  | .unknownKeys keys => s!"unknown keys {Text.Quoted.encodeList keys}"
  | .mixed => "offset and keyset parameters cannot be combined"
  | .required => "this action requires a page parameter"
  | .notPaginated => "this action does not paginate"
  | .noFlavor =>
    "pass limit/offset/count for offset paging or after/before for keyset paging"
  | .singleRecord action => s!"'{action}' returns a single record"

/-- The message for a node of the wrong form. -/
def FormFault.message : FormFault → String
  | .notList typeName => s!"Expected a list of fields, got {typeName}"
  | .notElement typeName => s!"Selection elements must be strings or objects, got {typeName}"
  | .notVariant typeName => s!"Union selections must be tags or objects, got {typeName}"
  | .emptyObject => "Empty selection object"
  | .emptyVariants => "Empty union selection object"
  | .notCalculation name => s!"Calculation '{name}' expects an object with args/fields"
  | .calculationKeys keys =>
    s!"Unexpected keys in calculation selection: {Text.Quoted.encodeList keys}"
  | .noEntity => "Selection does not lead to an entity"

/-- The message for a cause. -/
def SelectionCause.message : SelectionCause → String
  | .unknownPrimitive name entity => s!"Unknown field '{name}' on '{entity}'"
  | .unknownComplex name entity => s!"Unknown complex field '{name}' on '{entity}'"
  | .unknownVariant tag union => s!"Unknown variant '{tag}' on union '{union}'"
  | .missingArguments required =>
    "Calculation requires arguments: " ++ String.intercalate ", " required
  | .invalidArguments fault => "Invalid calculation arguments: " ++ fault.message
  | .pagination fault => "Invalid page parameters: " ++ fault.message
  | .tooDeep maxDepth => s!"Selection exceeds maximum depth of {maxDepth}"
  | .form fault => fault.message
  | .needsSelection none => "Selection must name at least one field"
  | .needsSelection (some name) => s!"Field '{name}' requires a nested field selection"
  | .takesNoSelection name => s!"Field '{name}' does not accept a nested field selection"
  | .duplicate name => s!"Field '{name}' is selected more than once"

/-- The code of a cause. -/
def SelectionCause.code : SelectionCause → String
  | .unknownPrimitive _ _ => "unknown_primitive_field"
  | .unknownComplex _ _ => "unknown_complex_field"
  | .unknownVariant _ _ => "invalid_union_variant"
  | .missingArguments _ => "missing_calculation_args"
  | .invalidArguments _ => "invalid_calculation_args"
  | .pagination _ => "invalid_pagination"
  | .tooDeep _ => "selection_too_deep"
  | .form _ => "invalid_selection_format"
  | .needsSelection _ => "requires_field_selection"
  | .takesNoSelection _ => "invalid_field_selection"
  | .duplicate _ => "duplicate_field"

/-- The names that a client should look at; a name without characters is not told. -/
def SelectionCause.names : SelectionCause → List String
  | .unknownPrimitive name _ => [name]
  | .unknownComplex name _ => [name]
  | .unknownVariant tag _ => [tag]
  | .missingArguments required => required
  | .invalidArguments fault => fault.argument?.toList.filter (· ≠ "")
  | .needsSelection name => name.toList.filter (· ≠ "")
  | .takesNoSelection name => [name]
  | .duplicate name => [name]
  | _ => []

namespace SelectionFault

/-- The path with dots between its names. -/
def location (f : SelectionFault) : String :=
  if f.path.isEmpty then "<root>" else String.intercalate "." f.path

/-- The message for a fault: that of its cause, and the location. -/
def message (f : SelectionFault) : String :=
  s!"{f.cause.message} (at {f.location})"

/-- What a client is told about a fault. -/
def payload (f : SelectionFault) : Value :=
  .obj [("code", .str f.cause.code), ("message", .str f.cause.message),
    ("path", .list (f.path.map .str)), ("fields", .list (f.cause.names.map .str))]

end SelectionFault

/-- Puts a name in front of the path of a fault. -/
def within {α : Type} (name : String) : Except SelectionFault α → Except SelectionFault α
  | .ok a => .ok a
  | .error f => .error ⟨name :: f.path, f.cause⟩

end Shapewise
