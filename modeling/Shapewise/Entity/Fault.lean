import Shapewise.Text.Quoted

/-!
# Faults of an entity graph

Why an entity cannot be registered or a registry cannot be frozen.
-/

namespace Shapewise

/-- A fault of an entity or of a registry. -/
inductive SchemaFault
  /-- The name stands for another entity. -/
  | alreadyDefined (name : String)
  /-- The registry takes no more entities. -/
  | frozen (name : String)
  /-- Names are declared both as primitive and as complex fields. -/
  | overlap (entity : String) (names : List String)
  /-- A field stands under a key that is not its name. -/
  | misplaced (field key entity : String)
  /-- A relationship leads to something else than a resource. -/
  | notToResource (entity field : String)
  /-- A calculation has no result type. -/
  | noResult (entity field : String)
  /-- A nested map leads to something else than a map. -/
  | notToMap (entity field : String)
  /-- A union field leads to something else than a union. -/
  | notToUnion (entity field : String)
  /-- The tag field of a union is one of its tags. -/
  | tagCollision (union tag : String)
  /-- A variant of a union is not a scalar or a record. -/
  | badVariant (union tag : String)
  /-- Entities were announced and never registered. -/
  | neverDefined (names : List String)
  /-- An entity leads to one that is not registered. -/
  | unregistered (entity reference : String)
  deriving DecidableEq, Repr

/-- The message for a fault. -/
def SchemaFault.message : SchemaFault → String
  | .alreadyDefined name => s!"Entity '{name}' is already defined"
  | .frozen name => s!"Cannot register '{name}': registry is frozen"
  | .overlap entity names =>
    s!"Entity '{entity}' declares {Text.Quoted.encodeList names} as both primitive and complex"
  | .misplaced field key entity => s!"Field '{field}' registered under key '{key}' on '{entity}'"
  | .notToResource entity field => s!"Relationship '{entity}.{field}' must target a resource"
  | .noResult entity field => s!"Calculation '{entity}.{field}' has no usable return type"
  | .notToMap entity field => s!"Field '{entity}.{field}' must target a TypedMap"
  | .notToUnion entity field => s!"Field '{entity}.{field}' must target a Union"
  | .tagCollision union tag => s!"Union '{union}' tag field '{tag}' collides with a variant tag"
  | .badVariant union tag =>
    s!"Union '{union}' variant '{tag}' must be a scalar, resource or typed map"
  | .neverDefined names => s!"Entities declared but never defined: {Text.Quoted.encodeList names}"
  | .unregistered entity reference =>
    s!"Entity '{entity}' references unregistered entity '{reference}'"

end Shapewise
