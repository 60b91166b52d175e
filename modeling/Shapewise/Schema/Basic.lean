import Shapewise.Schema.Reading
import Shapewise.Schema.Resolve
import Shapewise.Page.ReadAction
import Shapewise.Selection.Reading

/-!
# Schemas

A schema is a frozen registry of entities with the limits for selections from them. It is read from
a schema text; selections are then checked, described and read by the names of its entities. A
selection that is a text is read as selection text first.
-/

namespace Shapewise

/-- Why a text is no schema. -/
inductive SchemaTextFault
  | unread (f : Schema.ReadFault)
  | unresolved (f : Schema.ResolveFault)
  | unfrozen (f : SchemaFault)
  deriving DecidableEq

/-- The message for a text that is no schema. -/
def SchemaTextFault.message (text : List Char) : SchemaTextFault → String
  | .unread f => f.message text
  | .unresolved f => f.message
  | .unfrozen f => f.message

/-- Entities, a frozen registry of them, and the limits for selections. -/
structure Schema where
  graph : Graph
  registry : Registry
  limits : Limits
  deriving DecidableEq

namespace Schema

/-- The entities of a text, not frozen yet. -/
def draftOfText (text : List Char) : Except SchemaTextFault Draft := do
  let definitions ← (readText text).mapError .unread
  (resolve definitions).mapError .unresolved

/-- The schema of entities and a registry of them, which is frozen. -/
def ofRegistry (g : Graph) (r : Registry) (limits : Limits) : Except SchemaFault Schema := do
  return ⟨g, ← r.freeze g, limits⟩

/-- The schema of a text. -/
def ofText (text : List Char) (limits : Limits) : Except SchemaTextFault Schema := do
  let d ← draftOfText text
  (ofRegistry d.graph d.registry limits).mapError .unfrozen

/-! ## Requests by name -/

/-- Why a request to a schema fails. -/
inductive RequestFault
  /-- There is no entity of this name. -/
  | notFound (name : String)
  /-- The selection is a text that cannot be read. -/
  | unread (f : Selection.ReadFault)
  /-- The selection has no result type. -/
  | undescribed (f : Selection.DescribeFault)
  deriving DecidableEq

/-- The message for a name without an entity. -/
def notFoundMessage (name : String) : String :=
  s!"Entity '{name}' not found"

/-- The entity of a name. -/
def entity (s : Schema) (name : String) : Except RequestFault EntityId :=
  match s.registry.get? name with
  | some id => .ok id
  | none => .error (.notFound name)

/-- A selection as a tree: a text is read as selection text. -/
def coerce (selection : Value) : Except RequestFault Value :=
  match selection with
  | .str text =>
    match Selection.readText text.toList with
    | .ok items => .ok (.list items)
    | .error f => .error (.unread f)
  | v => .ok v

/-- Checks a selection of an entity; gives the fault of one that is refused. -/
def validate (s : Schema) (name : String) (selection : Value) :
    Except RequestFault (Option SelectionFault) := do
  let id ← s.entity name
  let tree ← coerce selection
  match Selection.check s.graph s.limits id tree with
  | .ok () => return none
  | .error f => return some f

/-- The shape of one record of an entity under a selection. -/
def describe (s : Schema) (name : String) (selection : Value) : Except RequestFault Shape := do
  let id ← s.entity name
  let tree ← coerce selection
  (Selection.describe s.graph s.limits id tree).mapError .undescribed

/-- A read action over an entity. -/
def readAction (s : Schema) (action name : String) (single offset keyset required : Bool) :
    Except RequestFault ReadAction := do
  let id ← s.entity name
  return ⟨action, id, single, offset, keyset, required⟩

/-- The shape of what a read action gives for a request. -/
def resultShape (s : Schema) (action : ReadAction) (selection page : Value) :
    Except RequestFault Shape := do
  let tree ← coerce selection
  (action.resultShape s.graph s.limits tree page).mapError .undescribed

end Schema

end Shapewise
