import Shapewise.Shape.Basic
import Shapewise.Value.Equality

/-!
# Equality of shapes

Shapes are equal whatever the order of an object's keys, and arguments are compared as values are.
As with values, two shapes are equal when their canonical forms are the same.
-/

namespace Shapewise.Shape

mutual
/-- The canonical form of a shape. -/
def canonical : Shape → Shape
  | .scalar type => .scalar type
  | .literal values => .literal values
  | .object fields optionalKeys => .object (Entries.sort (canonicalFields fields)) optionalKeys
  | .array element => .array (canonical element)
  | .nullable inner => .nullable (canonical inner)
  | .calculation result arguments argumentShape =>
    .calculation (canonical result) arguments.canonical (canonicalOption argumentShape)
/-- The fields with the canonical forms of their shapes. -/
def canonicalFields : List (String × Shape) → List (String × Shape)
  | [] => []
  | (k, s) :: fs => (k, canonical s) :: canonicalFields fs
/-- The canonical form of a shape that may be absent. -/
def canonicalOption : Option Shape → Option Shape
  | none => none
  | some s => some (canonical s)
end

/-- Two shapes are the same type with the same arguments. -/
def Equal (a b : Shape) : Prop :=
  a.canonical = b.canonical

instance (a b : Shape) : Decidable (Equal a b) :=
  inferInstanceAs (Decidable (a.canonical = b.canonical))

theorem Equal.refl (a : Shape) : Equal a a := rfl

theorem Equal.symm {a b : Shape} (h : Equal a b) : Equal b a := Eq.symm h

theorem Equal.trans {a b c : Shape} (h : Equal a b) (k : Equal b c) : Equal a c := Eq.trans h k

end Shapewise.Shape
