import Shapewise.Entity.Graph
import Shapewise.Selection.Fault
import Shapewise.Selection.Limits
import Shapewise.Value.Equality

/-!
# Checking a selection

A selection is a list of fields. For a record each element is the name of a primitive field, or an
object whose names are complex fields with what is selected of them; for a union each is a tag, or
an object from tags of entities to selections of them. A calculation is selected with an object of
arguments and fields, or with a list of fields alone. The check follows the selection, never the
graph, and ends at the first fault in reading order.

A calculation gives one value however often it is picked, so the picks within one list must agree
in their arguments: the check carries the arguments of the last pick of each calculation along.
-/

namespace Shapewise.Selection

/-! ## Calculations -/

/-- The arguments with which a calculation is selected: null where it declares none, and no entries
where none are given. -/
def selectedArguments (declared : Option (List Argument)) (value : Value) : Value :=
  match declared, value with
  | none, _ => .null
  | some _, .obj entries => (Entries.get? entries "args").getD (.obj [])
  | some _, _ => .obj []

/-- Checks the supplied arguments one by one against their declarations. -/
def checkSupplied (declared : List Argument) : List (String × Value) → Except ArgumentFault Unit
  | [] => .ok ()
  | (name, value) :: rest =>
    match Arguments.find? declared name with
    | none => .error (.unknown name)
    | some a =>
      if a.accepts value then checkSupplied declared rest
      else .error (.mismatch name a.typeText value)

/-- Checks that every required argument is supplied. -/
def checkRequired (supplied : List (String × Value)) : List String → Except ArgumentFault Unit
  | [] => .ok ()
  | name :: rest =>
    if Entries.has supplied name then checkRequired supplied rest else .error (.missing name)

/-- Checks the arguments of a calculation. -/
def checkArguments (calculation : String) (declared : Option (List Argument)) (arguments : Value) :
    Except ArgumentFault Unit :=
  match arguments, declared with
  | .obj entries, none => if entries.isEmpty then .ok () else .error (.notAccepted calculation)
  | .obj entries, some args => do
    checkSupplied args entries
    checkRequired entries (Arguments.requiredNames args)
  | v, _ => .error (.notObject v.typeName)

/-- Checks that a calculation selected without arguments requires none. -/
def checkNoneRequired (declared : Option (List Argument)) : Except SelectionCause Unit :=
  match declared with
  | none => .ok ()
  | some args =>
    if Arguments.hasRequired args then .error (.missingArguments (Arguments.requiredNames args))
    else .ok ()

/-- The names in the selection of a calculation that mean nothing there. -/
def strayKeys (entries : List (String × Value)) : NameSet :=
  .ofList ((Entries.keys entries).filter fun k => k ≠ "args" ∧ k ≠ "fields")

/-- Checks what is said about a calculation beside the fields selected of its result. -/
def checkCalculation (name : String) (f : Field) (declared : Option (List Argument)) :
    Value → Except SelectionCause Unit
  | .list _ => do
    checkNoneRequired declared
    if f.target.isEntity then .ok () else .error (.takesNoSelection name)
  | .obj entries => do
    if !(strayKeys entries).names.isEmpty then
      .error (.form (.calculationKeys (strayKeys entries).names))
    else
      match Entries.get? entries "args" with
      | some arguments =>
        (checkArguments f.name declared arguments).mapError .invalidArguments
      | none => checkNoneRequired declared
      match f.target.isEntity, Entries.has entries "fields" with
      | true, false => .error (.needsSelection (some name))
      | false, true => .error (.takesNoSelection name)
      | _, _ => .ok ()
  | _ => .error (.form (.notCalculation name))

/-- The arguments of the last pick of each calculation in a list. -/
abbrev Picked := List (String × Value)

/-- Notes the arguments of a pick; they must be those of the pick before. -/
def notePick (picked : Picked) (name : String) (arguments : Value) :
    Except SelectionCause Picked :=
  match Entries.get? picked name with
  | some before =>
    if before.Equal arguments then .ok (Entries.put picked name arguments)
    else .error (.duplicate name)
  | none => .ok (Entries.put picked name arguments)

/-! ## Single names -/

/-- A fault at a name. -/
def faultAt {α : Type} (name : String) (cause : SelectionCause) : Except SelectionFault α :=
  .error ⟨[name], cause⟩

/-- A fault at the node itself. -/
def faultHere {α : Type} (cause : SelectionCause) : Except SelectionFault α :=
  .error ⟨[], cause⟩

/-- What a cause says, as a fault at a name. -/
def causeAt {α : Type} (name : String) : Except SelectionCause α → Except SelectionFault α
  | .ok a => .ok a
  | .error c => faultAt name c

/-- Checks a name that stands alone in the selection of a record. -/
def checkPrimitive (r : Record) (name : String) : Except SelectionFault Unit :=
  if Entries.has r.primitives name then .ok ()
  else if Entries.has r.fields name then faultAt name (.needsSelection (some name))
  else faultAt name (.unknownPrimitive name r.name)

/-- The complex field that a name in an object means. -/
def complexField (r : Record) (name : String) : Except SelectionFault Field :=
  match r.field? name with
  | some f => .ok f
  | none =>
    if Entries.has r.primitives name then faultAt name (.takesNoSelection name)
    else faultAt name (.unknownComplex name r.name)

/-- Checks a tag that stands alone in the selection of a union. -/
def checkTag (u : Union) (tag : String) : Except SelectionFault Unit :=
  if tag ∈ (Entity.union u).selectable then .ok ()
  else if Entries.has u.variants tag then faultAt tag (.needsSelection (some tag))
  else faultAt tag (.unknownVariant tag u.name)

/-- The entity that a tag in an object means. -/
def variantEntity (u : Union) (tag : String) : Except SelectionFault EntityId :=
  match u.variant? tag with
  | some (.entity id) => .ok id
  | some (.scalar _) => faultAt tag (.takesNoSelection tag)
  | _ => faultAt tag (.unknownVariant tag u.name)

/-! ## Selections -/

mutual
/-- Checks what stands where the selection of a target is expected, at a depth; `label` is the name
under which it stands. -/
def checkNode (g : Graph) (limits : Limits) (target : Target) (label : Option String)
    (depth : Nat) : Value → Except SelectionFault Unit
  | .list items => checkList g limits target label depth items
  | v =>
    if limits.maxDepth < depth then faultHere (.tooDeep limits.maxDepth)
    else faultHere (.form (.notList v.typeName))
/-- Checks a list of fields of a target. -/
def checkList (g : Graph) (limits : Limits) (target : Target) (label : Option String)
    (depth : Nat) : List Value → Except SelectionFault Unit
  | [] =>
    if limits.maxDepth < depth then faultHere (.tooDeep limits.maxDepth)
    else faultHere (.needsSelection label)
  | item :: rest =>
    if limits.maxDepth < depth then faultHere (.tooDeep limits.maxDepth)
    else
      match g.follow? target with
      | some (.record r) => do
        let picked ← checkItem g limits r depth [] item
        let _ ← checkItems g limits r depth picked rest
        return ()
      | some (.union u) => do
        checkVariant g limits u depth item
        checkVariants g limits u depth rest
      | none => faultHere (.form .noEntity)
/-- Checks the elements of a record's selection. -/
def checkItems (g : Graph) (limits : Limits) (r : Record) (depth : Nat) (picked : Picked) :
    List Value → Except SelectionFault Picked
  | [] => .ok picked
  | item :: rest => do
    let picked ← checkItem g limits r depth picked item
    checkItems g limits r depth picked rest
/-- Checks an element of a record's selection. -/
def checkItem (g : Graph) (limits : Limits) (r : Record) (depth : Nat) (picked : Picked) :
    Value → Except SelectionFault Picked
  | .str name => do
    checkPrimitive r name
    return picked
  | .obj entries =>
    if entries.isEmpty then faultHere (.form .emptyObject)
    else checkPicks g limits r depth picked entries
  | v => faultHere (.form (.notElement v.typeName))
/-- Checks the complex fields that an object picks. -/
def checkPicks (g : Graph) (limits : Limits) (r : Record) (depth : Nat) (picked : Picked) :
    List (String × Value) → Except SelectionFault Picked
  | [] => .ok picked
  | (name, value) :: rest => do
    let f ← complexField r name
    match f.kind with
    | .calculation declared =>
      causeAt name (checkCalculation name f declared value)
      if f.target.isEntity then
        within name (checkResult g limits f.target name (depth + 1) value)
      let picked ← causeAt name (notePick picked name (selectedArguments declared value))
      checkPicks g limits r depth picked rest
    | _ =>
      within name (checkNode g limits f.target (some name) (depth + 1) value)
      checkPicks g limits r depth picked rest
/-- Checks the fields selected of a calculation's result: a list of them, or what an object names. -/
def checkResult (g : Graph) (limits : Limits) (target : Target) (label : String) (depth : Nat) :
    Value → Except SelectionFault Unit
  | .list items => checkList g limits target (some label) depth items
  | .obj entries => checkFields g limits target label depth entries
  | _ => .ok ()
/-- Checks the fields selected of a calculation's result, which stand under the name `fields`. -/
def checkFields (g : Graph) (limits : Limits) (target : Target) (label : String) (depth : Nat) :
    List (String × Value) → Except SelectionFault Unit
  | [] => .ok ()
  | (name, value) :: rest =>
    if name = "fields" then checkNode g limits target (some label) depth value
    else checkFields g limits target label depth rest
/-- Checks the elements of a union's selection. -/
def checkVariants (g : Graph) (limits : Limits) (u : Union) (depth : Nat) :
    List Value → Except SelectionFault Unit
  | [] => .ok ()
  | item :: rest => do
    checkVariant g limits u depth item
    checkVariants g limits u depth rest
/-- Checks an element of a union's selection. -/
def checkVariant (g : Graph) (limits : Limits) (u : Union) (depth : Nat) :
    Value → Except SelectionFault Unit
  | .str tag => checkTag u tag
  | .obj entries =>
    if entries.isEmpty then faultHere (.form .emptyVariants)
    else checkVariantPicks g limits u depth entries
  | v => faultHere (.form (.notVariant v.typeName))
/-- Checks the variants that an object picks. -/
def checkVariantPicks (g : Graph) (limits : Limits) (u : Union) (depth : Nat) :
    List (String × Value) → Except SelectionFault Unit
  | [] => .ok ()
  | (tag, value) :: rest => do
    let id ← variantEntity u tag
    within tag (checkNode g limits (.entity id) (some tag) (depth + 1) value)
    checkVariantPicks g limits u depth rest
end

/-- Checks a selection of an entity. -/
def check (g : Graph) (limits : Limits) (id : EntityId) (selection : Value) :
    Except SelectionFault Unit :=
  checkNode g limits (.entity id) none 1 selection

end Shapewise.Selection
