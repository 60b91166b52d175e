import Shapewise.Entity.Basic

/-!
# The entity graph

All entities behind their identities. An entity keeps its name and kind for ever; its members may
change. Two entities may have one name: which of them a name means is for a registry to say.
-/

namespace Shapewise

/-- The entities, each at the place that is its identity. -/
structure Graph where
  entities : List Entity
  deriving DecidableEq, Repr

namespace Graph

/-- The graph without entities. -/
def empty : Graph := ⟨[]⟩

/-- The entity of an identity. -/
def get? (g : Graph) (id : EntityId) : Option Entity :=
  g.entities[id.index]?

/-- Adds an entity and gives its identity. -/
def add (g : Graph) (e : Entity) : Graph × EntityId :=
  (⟨g.entities ++ [e]⟩, ⟨g.entities.length⟩)

/-- Replaces the members of an entity. -/
def set (g : Graph) (id : EntityId) (e : Entity) : Graph :=
  ⟨g.entities.set id.index e⟩

/-- The entity that a target is. -/
def follow? (g : Graph) : Target → Option Entity
  | .entity id => g.get? id
  | _ => none

/-- The kind of the entity that a target is. -/
def targetKind? (g : Graph) (t : Target) : Option EntityKind :=
  (g.follow? t).map Entity.kind

/-! ## Adding members -/

/-- Puts a primitive field under a key of a record. -/
def putPrimitive (g : Graph) (id : EntityId) (key : String) (p : Primitive) : Graph :=
  match g.get? id with
  | some (.record r) => g.set id (.record { r with primitives := Entries.put r.primitives key p })
  | _ => g

/-- Puts a complex field under a key of a record. -/
def putField (g : Graph) (id : EntityId) (key : String) (f : Field) : Graph :=
  match g.get? id with
  | some (.record r) => g.set id (.record { r with fields := Entries.put r.fields key f })
  | _ => g

/-- Puts a variant under a tag of a union. -/
def putVariant (g : Graph) (id : EntityId) (tag : String) (t : Target) : Graph :=
  match g.get? id with
  | some (.union u) => g.set id (.union { u with variants := Entries.put u.variants tag t })
  | _ => g

/-- Names the key that tells which variant a value of a union is. -/
def setTagField (g : Graph) (id : EntityId) (tagField : Option String) : Graph :=
  match g.get? id with
  | some (.union u) => g.set id (.union { u with tagField := tagField })
  | _ => g

end Graph

end Shapewise
