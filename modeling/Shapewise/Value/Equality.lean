import Shapewise.NameSet
import Shapewise.Value.Basic

/-!
# Equality of values

Values are compared by what they say, not by how it was written. A number is its exact value: an
integer and a floating point number of the same value are equal, and so are the two zeros. A truth
value counts as the number 1 or 0. Lists are compared in order, objects by name whatever the order
of their entries. Two values are equal when their canonical forms are the same, so equality is an
equivalence by construction.
-/

namespace Shapewise

namespace Entries

variable {α : Type}

/-- Puts an entry at its place among entries in the order of names. -/
def place (e : String × α) : List (String × α) → List (String × α)
  | [] => [e]
  | f :: fs => if e.1 < f.1 then e :: f :: fs else f :: place e fs

/-- The entries in the order of their names. -/
def sort : List (String × α) → List (String × α)
  | [] => []
  | e :: es => place e (sort es)

end Entries

namespace Value

/-- The canonical form of a number that is not an integer, or the integer that it is. -/
def ofBinary64 (x : Binary64) : Value :=
  match x.toInt? with
  | some i => .int i
  | none => .float x

mutual
/-- The canonical form of a value. -/
def canonical : Value → Value
  | .null => .null
  | .bool b => .int (if b then 1 else 0)
  | .int i => .int i
  | .float x => ofBinary64 x
  | .str s => .str s
  | .list items => .list (canonicalItems items)
  | .obj entries => .obj (Entries.sort (canonicalEntries entries))
/-- The canonical forms of the items of a list. -/
def canonicalItems : List Value → List Value
  | [] => []
  | v :: vs => canonical v :: canonicalItems vs
/-- The entries with the canonical forms of their values. -/
def canonicalEntries : List (String × Value) → List (String × Value)
  | [] => []
  | (k, v) :: es => (k, canonical v) :: canonicalEntries es
end

/-- Two values say the same. -/
def Equal (a b : Value) : Prop :=
  a.canonical = b.canonical

instance (a b : Value) : Decidable (Equal a b) :=
  inferInstanceAs (Decidable (a.canonical = b.canonical))

theorem Equal.refl (a : Value) : Equal a a := rfl

theorem Equal.symm {a b : Value} (h : Equal a b) : Equal b a := Eq.symm h

theorem Equal.trans {a b c : Value} (h : Equal a b) (k : Equal b c) : Equal a c := Eq.trans h k

end Value

end Shapewise
