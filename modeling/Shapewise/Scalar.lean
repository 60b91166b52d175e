import Shapewise.Value.Basic

/-!
# Scalar types

The types of plain values. `unknown` stands for data without a type and takes every value.
-/

namespace Shapewise

/-- A type of plain values. -/
inductive Scalar
  | string
  | number
  | boolean
  | unknown
  deriving DecidableEq, Repr, Inhabited

namespace Scalar

/-- The name of a scalar type. -/
def name : Scalar → String
  | .string => "string"
  | .number => "number"
  | .boolean => "boolean"
  | .unknown => "unknown"

/-- All scalar types. -/
def all : List Scalar := [.string, .number, .boolean, .unknown]

/-- The scalar type of a name. -/
def ofName? (name : String) : Option Scalar :=
  all.find? fun s => s.name = name

/-- Whether a value is of a scalar type; a truth value is no number. -/
def accepts : Scalar → Value → Bool
  | .string, .str _ => true
  | .number, .int _ => true
  | .number, .float _ => true
  | .boolean, .bool _ => true
  | .unknown, _ => true
  | _, _ => false

theorem mem_all (s : Scalar) : s ∈ all := by
  cases s <;> simp [all]

@[simp] theorem ofName?_name (s : Scalar) : ofName? s.name = some s := by
  cases s <;> rfl

end Scalar

end Shapewise
