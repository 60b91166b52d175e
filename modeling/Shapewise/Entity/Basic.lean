import Shapewise.Entity.Argument

/-!
# Entities

The named nodes of a schema. A record (a resource or a map) has primitive fields, which are plain
values, and complex fields, which lead to other entities or are computed. A union has variants, one
of which a value is. Entities refer to one another by identity, not by name, and may do so in
cycles; the graph holds what stands behind each identity.
-/

namespace Shapewise

/-- The identity of an entity: its place in the graph. -/
structure EntityId where
  index : Nat
  deriving DecidableEq, Repr

/-- What a complex field or a variant leads to. -/
inductive Target
  | unset
  | scalar (type : Scalar)
  | entity (id : EntityId)
  deriving DecidableEq, Repr

/-- A field that is a plain value. -/
structure Primitive where
  name : String
  type : Scalar
  isNullable : Bool
  isArray : Bool
  deriving DecidableEq, Repr

/-- What a complex field is; a calculation may declare arguments. -/
inductive FieldKind
  | relationship
  | calculation (arguments : Option (List Argument))
  | map
  | union
  deriving DecidableEq, Repr

/-- A complex field. -/
structure Field where
  name : String
  kind : FieldKind
  target : Target
  isArray : Bool
  isNullable : Bool
  deriving DecidableEq, Repr

/-- The two kinds of records. -/
inductive RecordKind
  | resource
  | map
  deriving DecidableEq, Repr

/-- A resource or map. -/
structure Record where
  kind : RecordKind
  name : String
  primitives : List (String × Primitive)
  fields : List (String × Field)
  deriving DecidableEq, Repr

/-- A value that is one of several variants; `tagField` names the key that tells which. -/
structure Union where
  name : String
  variants : List (String × Target)
  tagField : Option String
  deriving DecidableEq, Repr

/-- A named node of a schema. -/
inductive Entity
  | record (r : Record)
  | union (u : Union)
  deriving DecidableEq, Repr

/-- The three kinds of entities. -/
inductive EntityKind
  | resource
  | map
  | union
  deriving DecidableEq, Repr

/-- The word for a kind. -/
def EntityKind.name : EntityKind → String
  | .resource => "resource"
  | .map => "map"
  | .union => "union"

/-! ## Shapes of fields -/

/-- The shape of a primitive field. -/
def Primitive.shape (p : Primitive) : Shape :=
  (Shape.scalar p.type).wrap p.isArray p.isNullable

/-- The shape of a field around the shape of what it leads to. A relationship to many is an empty
list rather than null. -/
def Field.wrap (f : Field) (s : Shape) : Shape :=
  match f.kind with
  | .relationship => s.wrap f.isArray (f.isNullable && !f.isArray)
  | _ => s.wrap f.isArray f.isNullable

/-! ## Records and unions -/

namespace Record

/-- The primitive field of a name. -/
def primitive? (r : Record) (name : String) : Option Primitive :=
  Entries.get? r.primitives name

/-- The complex field of a name. -/
def field? (r : Record) (name : String) : Option Field :=
  Entries.get? r.fields name

end Record

namespace Union

/-- What a tag stands for. -/
def variant? (u : Union) (tag : String) : Option Target :=
  Entries.get? u.variants tag

/-- The tags in order. -/
def tags (u : Union) : List String :=
  Entries.keys u.variants

end Union

/-- Whether a target is an entity. -/
def Target.isEntity : Target → Bool
  | .entity _ => true
  | _ => false

/-- Whether a target is a scalar type. -/
def Target.isScalar : Target → Bool
  | .scalar _ => true
  | _ => false

/-- What a complex field leads to: a calculation counts only where its result is an entity. -/
def Field.references (f : Field) : List Target :=
  match f.kind with
  | .calculation _ => if f.target.isEntity then [f.target] else []
  | _ => [f.target]

namespace Entity

/-- The name of an entity. -/
def name : Entity → String
  | .record r => r.name
  | .union u => u.name

/-- The kind of an entity. -/
def kind : Entity → EntityKind
  | .record r => match r.kind with
    | .resource => .resource
    | .map => .map
  | .union _ => .union

/-- An entity that declares nothing yet. -/
def empty (kind : EntityKind) (name : String) : Entity :=
  match kind with
  | .resource => .record ⟨.resource, name, [], []⟩
  | .map => .record ⟨.map, name, [], []⟩
  | .union => .union ⟨name, [], none⟩

/-- The names that can be selected without a nested selection. -/
def selectable : Entity → NameSet
  | .record r => .ofList (Entries.keys r.primitives)
  | .union u =>
    .ofList (u.tagField.toList ++ Entries.keys (u.variants.filter fun v => v.2.isScalar))

/-- Whether a nested selection can be made. -/
def hasComplexFields : Entity → Bool
  | .record r => !r.fields.isEmpty
  | .union u => u.variants.any fun v => v.2.isEntity

/-- The complex fields, of which a union has none. -/
def complexFields : Entity → List (String × Field)
  | .record r => r.fields
  | .union _ => []

/-- Whether an entity declares nothing. -/
def isEmpty : Entity → Bool
  | .record r => r.primitives.isEmpty && r.fields.isEmpty
  | .union u => u.variants.isEmpty

/-- What an entity leads to, in order and with repetitions. -/
def references : Entity → List Target
  | .record r => r.fields.flatMap fun f => f.2.references
  | .union u => (u.variants.map Prod.snd).filter Target.isEntity

end Entity

end Shapewise
