import Shapewise.Entity.Basic

/-!
# Definitions

What a schema text says, before names are looked up: aliases of scalar types, records with their
members, and unions with their variants, in the order of the text. A member keeps the line of its
name for messages.
-/

namespace Shapewise.Schema

/-- A type as it is written: a name, perhaps with brackets, perhaps with a question mark. -/
structure TypeRef where
  name : String
  isArray : Bool
  isNullable : Bool
  deriving DecidableEq, Repr

/-- An argument of a calculation. -/
structure ArgumentDef where
  name : String
  type : TypeRef
  isOptional : Bool
  deriving DecidableEq, Repr

/-- How a member is written: plainly, with an arrow, or as a calculation, whose argument list may be
absent, empty or not. -/
inductive MemberKind
  | plain
  | relationship
  | calculation (arguments : Option (List ArgumentDef))
  deriving DecidableEq, Repr

/-- A member of a record. -/
structure Member where
  name : String
  kind : MemberKind
  type : TypeRef
  line : Nat
  deriving DecidableEq, Repr

/-- A variant of a union: its tag and the name of its type. -/
structure VariantDef where
  tag : String
  type : String
  deriving DecidableEq, Repr

/-- A statement of a schema text. -/
inductive Definition
  | alias (name base : String)
  | record (kind : RecordKind) (name : String) (members : List Member)
  | union (name : String) (variants : List VariantDef) (tagField : Option String)
  deriving DecidableEq, Repr

end Shapewise.Schema
