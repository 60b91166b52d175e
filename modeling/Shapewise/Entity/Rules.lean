import Shapewise.Entity.Fault
import Shapewise.Entity.Graph

/-!
# Structural rules of entities

What an entity must keep to before it can be registered: no name is both a primitive and a complex
field, every member stands under its own name, every complex field leads to an entity of its kind,
and a union's variants are scalars or records under tags other than its tag field. The rules are
checked in a fixed order and the first fault is reported.
-/

namespace Shapewise

namespace Graph

/-- The first fault of a list of checks. -/
def firstFault {ε : Type} : List (Option ε) → Except ε Unit
  | [] => .ok ()
  | some f :: _ => .error f
  | none :: rest => firstFault rest

/-- The fault of a complex field's target. -/
def targetFault? (g : Graph) (entity : String) (f : Field) : Option SchemaFault :=
  match f.kind with
  | .relationship =>
    if g.targetKind? f.target = some .resource then none else some (.notToResource entity f.name)
  | .calculation _ =>
    if f.target.isScalar || (g.follow? f.target).isSome then none
    else some (.noResult entity f.name)
  | .map => if g.targetKind? f.target = some .map then none else some (.notToMap entity f.name)
  | .union => if g.targetKind? f.target = some .union then none else some (.notToUnion entity f.name)

/-- The fault of a complex field under a key. -/
def fieldFault? (g : Graph) (entity key : String) (f : Field) : Option SchemaFault :=
  if f.name = key then g.targetFault? entity f else some (.misplaced f.name key entity)

/-- The fault of a primitive field under a key. -/
def primitiveFault? (entity key : String) (p : Primitive) : Option SchemaFault :=
  if p.name = key then none else some (.misplaced p.name key entity)

/-- The fault of a variant: it must be a scalar or a record. -/
def variantFault? (g : Graph) (union tag : String) (t : Target) : Option SchemaFault :=
  match t with
  | .scalar _ => none
  | t =>
    match g.targetKind? t with
    | some .resource => none
    | some .map => none
    | _ => some (.badVariant union tag)

/-- The fault of names that are both primitive and complex. -/
def overlapFault? (r : Record) : Option SchemaFault :=
  let both := NameSet.ofList ((Entries.keys r.primitives).filter (Entries.has r.fields))
  if both.names.isEmpty then none else some (.overlap r.name both.names)

/-- The fault of a tag field that is a tag. -/
def tagFault? (u : Union) : Option SchemaFault :=
  match u.tagField with
  | some tag => if Entries.has u.variants tag then some (.tagCollision u.name tag) else none
  | none => none

/-- Checks an entity against the structural rules. -/
def checkRules (g : Graph) : Entity → Except SchemaFault Unit
  | .record r =>
    firstFault (overlapFault? r :: r.fields.map (fun f => g.fieldFault? r.name f.1 f.2) ++
      r.primitives.map fun p => primitiveFault? r.name p.1 p.2)
  | .union u =>
    firstFault (tagFault? u :: u.variants.map fun v => g.variantFault? u.name v.1 v.2)

end Graph

end Shapewise
