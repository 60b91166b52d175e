import Shapewise.Entity.Rules

/-!
# The registry

Which entity a name means. A name is bound once, either with the finished entity or with an empty
one announced beforehand so that others can refer to it; it then stays bound to that entity and
keeps its place in the listing. Freezing checks that nothing announced is missing and that no
registered entity leads out of the registry; a frozen registry takes no more entities.
-/

namespace Shapewise

/-- The names that are bound, in order, those that are only announced, and whether more are taken. -/
structure Registry where
  bindings : List (String × EntityId)
  announced : NameSet
  isFrozen : Bool
  deriving DecidableEq

namespace Registry

/-- The registry without names. -/
def empty : Registry := ⟨[], .empty, false⟩

/-- The entity that a name means. -/
def get? (r : Registry) (name : String) : Option EntityId :=
  Entries.get? r.bindings name

/-- The names in the order in which they were bound. -/
def names (r : Registry) : List String :=
  Entries.keys r.bindings

/-- The number of names. -/
def size (r : Registry) : Nat :=
  r.bindings.length

/-- Binds the name of a finished entity, or finishes an announced one. An identity that names no
entity of the graph binds nothing. -/
def register (r : Registry) (g : Graph) (id : EntityId) : Except SchemaFault Registry :=
  match g.get? id with
  | none => .ok r
  | some e =>
    if r.isFrozen then .error (.frozen e.name)
    else
      match r.get? e.name with
      | some old =>
        if e.name ∈ r.announced ∧ old = id then bind e else .error (.alreadyDefined e.name)
      | none => bind e
where
  /-- Binds the name of an entity that keeps the rules. -/
  bind (e : Entity) : Except SchemaFault Registry := do
    g.checkRules e
    return { r with
      bindings := Entries.put r.bindings e.name id
      announced := r.announced.erase e.name }

/-- Announces an entity: binds its name to an empty entity of the given kind. An announcement that
repeats an open one of the same kind gives the same entity. -/
def announce (r : Registry) (g : Graph) (name : String) (kind : EntityKind) :
    Except SchemaFault (Registry × Graph × EntityId) :=
  if r.isFrozen then .error (.frozen name)
  else
    match r.get? name with
    | some old =>
      if name ∈ r.announced ∧ (g.get? old).map Entity.kind = some kind then .ok (r, g, old)
      else .error (.alreadyDefined name)
    | none =>
      let (g, id) := g.add (.empty kind name)
      .ok ({ r with
        bindings := Entries.put r.bindings name id
        announced := r.announced.insert name }, g, id)

/-- The name under which a target would have to be registered. -/
def targetName (g : Graph) : Target → String
  | .unset => ""
  | .scalar type => type.name.toUpper
  | .entity id => ((g.get? id).map Entity.name).getD ""

/-- Whether a target is the entity that its name means here. -/
def isBound (r : Registry) (g : Graph) : Target → Bool
  | .entity id => r.get? (targetName g (.entity id)) = some id
  | _ => false

/-- The fault of an entity that leads out of the registry. -/
def leakFault? (r : Registry) (g : Graph) (e : Entity) : Option SchemaFault :=
  (e.references.find? fun t => !r.isBound g t).map fun t => .unregistered e.name (targetName g t)

/-- Checks that nothing is missing and takes no more entities. -/
def freeze (r : Registry) (g : Graph) : Except SchemaFault Registry :=
  if r.isFrozen then .ok r
  else if !r.announced.names.isEmpty then .error (.neverDefined r.announced.names)
  else do
    Graph.firstFault (r.bindings.map fun b => (g.get? b.2).bind (r.leakFault? g))
    return { r with isFrozen := true }

end Registry

end Shapewise
