import Shapewise.Selection.Check
import Shapewise.Shape.Merge

/-!
# Projecting a selection

The shape of one record under a selection: each name that is picked becomes a key with the shape of
what is selected of it, and what is picked several times is merged. A union's object has a key for
every variant that is picked; only one of them is there at a time, so each may be null, and the tag
field is the literal of all tags.

Projection is meant for selections that pass the check. On others it stops at the first name that
is not declared, or at a node from which no name can be read.
-/

namespace Shapewise.Selection

/-- Why a selection has no shape. -/
inductive ProjectionFault
  /-- Two picks of one name do not agree. -/
  | conflict (c : Shape.Conflict)
  /-- A name is not declared. -/
  | missing (name : String)
  /-- A node has no form that could be read. -/
  | illFormed
  deriving DecidableEq

/-- Merges the shapes of what is picked. -/
def mergePicks (shapes : List Shape) : Except ProjectionFault Shape :=
  (Shape.mergeAll shapes).mapError .conflict

/-! ## Names alone -/

/-- The names that can be read from a node that is no list: the characters of a text, or the names
of an object. -/
def readNames? : Value → Option (List Value)
  | .str s => some (s.toList.map fun c => .str (String.singleton c))
  | .obj entries => some (entries.map fun e => .str e.1)
  | _ => none

/-- The key and the shape of a primitive field. -/
def projectPrimitive (r : Record) : Value → Except ProjectionFault (String × Shape)
  | .str name =>
    match r.primitive? name with
    | some p => .ok (name, p.shape)
    | none => .error (.missing name)
  | .list _ => .error .illFormed
  | .obj _ => .error .illFormed
  | v => .error (.missing v.display)

/-- The shape of a list of primitive fields. -/
def projectPrimitives (r : Record) (names : List Value) : Except ProjectionFault Shape := do
  let fields ← names.mapM (projectPrimitive r)
  return .record (Entries.ofList fields)

/-- The shape of a tag alone: the literal of all tags at the tag field, a value or null at a scalar
variant. -/
def projectTag (u : Union) (tag : String) : Except ProjectionFault Shape :=
  if u.tagField = some tag then .ok (.record [(tag, .literal u.tags)])
  else
    match u.variant? tag with
    | some (.scalar type) => .ok (.record [(tag, (Shape.scalar type).orNull)])
    | some _ => .error .illFormed
    | none => .error (.missing tag)

/-- The shape of a selection that is a list of names and nothing else. -/
def projectNames (e : Entity) (names : List Value) : Except ProjectionFault Shape :=
  match e with
  | .record r => projectPrimitives r names
  | .union u => do
    let shapes ← names.mapM fun
      | .str tag => projectTag u tag
      | _ => .error .illFormed
    mergePicks shapes

/-- The complex field that an object picks. -/
def pickedField (r : Record) (name : String) : Except ProjectionFault Field :=
  match r.field? name with
  | some f => .ok f
  | none => .error (.missing name)

/-- The variant that an object picks. -/
def pickedVariant (u : Union) (tag : String) : Except ProjectionFault Target :=
  match u.variant? tag with
  | some t => .ok t
  | none => .error (.missing tag)

/-- The shape of a calculation around that of its result. -/
def calculationShape (f : Field) (declared : Option (List Argument)) (value : Value)
    (result : Shape) : Shape :=
  .calculation (f.wrap result) (selectedArguments declared value) (declared.map Arguments.shape)

/-- The shape of a target under a node that is no list. -/
def projectLoose (g : Graph) (target : Target) (v : Value) : Except ProjectionFault Shape :=
  match g.follow? target, readNames? v with
  | some e, some names => projectNames e names
  | _, _ => .error .illFormed

/-- Whether a record's selection holds names of primitive fields only. -/
def isFlat (r : Record) (items : List Value) : Bool :=
  r.fields.isEmpty || items.all Value.isText

/-! ## Selections -/

mutual
/-- The shape of a target under what is selected of it. -/
def projectNode (g : Graph) (target : Target) : Value → Except ProjectionFault Shape
  | .list items => projectList g target items
  | v => projectLoose g target v
/-- The shape of a target under a list of fields. -/
def projectList (g : Graph) (target : Target) : List Value → Except ProjectionFault Shape
  | [] =>
    match g.follow? target with
    | some _ => .ok .emptyObject
    | none => .error .illFormed
  | item :: rest =>
    match g.follow? target with
    | some (.record r) =>
      if isFlat r (item :: rest) then projectPrimitives r (item :: rest)
      else do
        let s ← projectItem g r item
        mergePicks (s :: (← projectItems g r rest))
    | some (.union u) => do
      let s ← projectVariant g u item
      mergePicks (s :: (← projectVariants g u rest))
    | none => .error .illFormed
/-- The shapes of the elements of a record's selection. -/
def projectItems (g : Graph) (r : Record) : List Value → Except ProjectionFault (List Shape)
  | [] => .ok []
  | item :: rest => do
    let s ← projectItem g r item
    return s :: (← projectItems g r rest)
/-- The shape of an element of a record's selection. -/
def projectItem (g : Graph) (r : Record) : Value → Except ProjectionFault Shape
  | .str name => do
    let field ← projectPrimitive r (.str name)
    return .record [field]
  | .obj entries => do mergePicks (← projectPicks g r entries)
  | _ => .error .illFormed
/-- The shapes of the complex fields that an object picks, each as an object of its own. -/
def projectPicks (g : Graph) (r : Record) :
    List (String × Value) → Except ProjectionFault (List Shape)
  | [] => .ok []
  | (name, value) :: rest => do
    let f ← pickedField r name
    let s ← match f.kind with
      | .calculation declared => do
        let result ← match f.target with
          | .scalar type => .ok (.scalar type)
          | target => projectResult g target value
        pure (calculationShape f declared value result)
      | _ => do
        let inner ← projectNode g f.target value
        pure (f.wrap inner)
    return .record [(name, s)] :: (← projectPicks g r rest)
/-- The shape of a calculation's result: a list of its fields, or what an object names. -/
def projectResult (g : Graph) (target : Target) : Value → Except ProjectionFault Shape
  | .list items => projectList g target items
  | .obj entries => projectFields g target entries
  | v => projectLoose g target v
/-- The shape of a calculation's result under the fields that an object names. -/
def projectFields (g : Graph) (target : Target) :
    List (String × Value) → Except ProjectionFault Shape
  | [] => .error .illFormed
  | (name, value) :: rest =>
    if name = "fields" then projectNode g target value else projectFields g target rest
/-- The shapes of the elements of a union's selection. -/
def projectVariants (g : Graph) (u : Union) : List Value → Except ProjectionFault (List Shape)
  | [] => .ok []
  | item :: rest => do
    let s ← projectVariant g u item
    return s :: (← projectVariants g u rest)
/-- The shape of an element of a union's selection. -/
def projectVariant (g : Graph) (u : Union) : Value → Except ProjectionFault Shape
  | .str tag => projectTag u tag
  | .obj entries => do return .record (← projectVariantPicks g u entries)
  | _ => .error .illFormed
/-- The variants that an object picks, each with its shape or null. -/
def projectVariantPicks (g : Graph) (u : Union) :
    List (String × Value) → Except ProjectionFault (List (String × Shape))
  | [] => .ok []
  | (tag, value) :: rest => do
    let target ← pickedVariant u tag
    let s ← projectNode g target value
    return (tag, s.orNull) :: (← projectVariantPicks g u rest)
end

/-- The shape of one record of an entity under a selection. -/
def project (g : Graph) (id : EntityId) (selection : Value) : Except ProjectionFault Shape :=
  projectNode g (.entity id) selection

end Shapewise.Selection
