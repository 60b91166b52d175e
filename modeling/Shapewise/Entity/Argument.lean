import Shapewise.Shape.Basic

/-!
# Declared arguments

The arguments that a calculation declares, in order. Where a name is declared twice, the first
declaration is the one that a supplied value is checked against.
-/

namespace Shapewise

/-- A declared argument of a calculation. -/
structure Argument where
  name : String
  type : Scalar
  isRequired : Bool
  isNullable : Bool
  isArray : Bool
  deriving DecidableEq, Repr

/-- Whether a supplied value fits a declared argument. -/
def Argument.accepts (a : Argument) (v : Value) : Bool :=
  match v with
  | .null => a.isNullable
  | .list items => if a.isArray then items.all a.type.accepts else a.type.accepts v
  | v => !a.isArray && a.type.accepts v

/-- The type of an argument as messages name it. -/
def Argument.typeText (a : Argument) : String :=
  a.type.name ++ if a.isArray then "[]" else ""

namespace Arguments

/-- The declaration of a name. -/
def find? (args : List Argument) (name : String) : Option Argument :=
  List.find? (fun a => a.name = name) args

/-- The names of arguments. -/
def names (args : List Argument) : List String :=
  args.map Argument.name

/-- The names of the arguments that must be supplied. -/
def requiredNames (args : List Argument) : List String :=
  names (args.filter Argument.isRequired)

/-- Whether an argument must be supplied. -/
def hasRequired (args : List Argument) : Bool :=
  args.any Argument.isRequired

/-- The type of an argument list as an object; what need not be supplied may be absent. -/
def shape (args : List Argument) : Shape :=
  .object
    (Entries.ofList (args.map fun a => (a.name, (Shape.scalar a.type).wrap a.isArray a.isNullable)))
    (.ofList (names (args.filter fun a => !a.isRequired)))

end Arguments

end Shapewise
