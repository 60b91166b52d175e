import Shapewise.CommandLine.Options
import Shapewise.Schema.Basic
import Shapewise.Value.Json.Reader
import Shapewise.Value.Json.Writer

/-!
# Running the command line

A run reads the schema file, the selection and the page parameter, in this order, and prints the
shape of the result, or says on the error stream what is wrong. With `--json` the selection is given
as JSON and a refused selection is reported as a JSON object. A page parameter or one of the options
`--offset`, `--keyset` and `--get` makes the request one to a read action. With `-v` the events of
the run are told on the error stream. A run that comes to a missing value breaks off without a
report.
-/

namespace Shapewise.CommandLine

/-- An event of a run. -/
inductive Event
  | loading (path : String)
  | registered (kind : EntityKind) (name : String)
  | frozen (count : Nat)
  | refused (entity : String) (f : SelectionFault)
  | onlyFlavor (flavor : PageFlavor)
  | flavorByKeys (keys : NameSet) (flavor : PageFlavor)
  | resolved (entity : String)
  deriving DecidableEq

/-- The line that tells an event. -/
def Event.message : Event → String
  | .loading path => s!"typed_selections.schema: Loading schema from {path}"
  | .registered kind name =>
    s!"typed_selections.types: Registered {kind.name} {Text.Quoted.encode name}"
  | .frozen count => s!"typed_selections.types: Entity registry frozen with {count} entities"
  | .refused entity f =>
    let shown := Text.Quoted.encode entity
    s!"typed_selections.validator: Rejected selection for {shown}: {f.message}"
  | .onlyFlavor flavor =>
    s!"typed_selections.pagination: Single-flavor action, using {flavor.name} envelope"
  | .flavorByKeys keys flavor =>
    let shown := Text.Quoted.encodeList keys.names
    s!"typed_selections.pagination: Page parameters {shown} select the {flavor.name} envelope"
  | .resolved entity => s!"typed_selections.cli: Resolved shape for {entity}"

/-- The values that a command line can leave missing. -/
inductive MissingValue
  | maxDepth
  | entity
  | selection
  | page
  deriving DecidableEq, Repr

/-- What is said about a missing value. -/
def MissingValue.message : MissingValue → String
  | .maxDepth => "The maximum depth is missing"
  | .entity => "The entity is missing"
  | .selection => "The selection is missing"
  | .page => "The page parameter is missing"

/-- Why a run fails. -/
inductive RunFault
  | missing (v : MissingValue)
  | noSchema (path : String)
  | limits (f : Limits.Fault)
  | schema (text : List Char) (f : SchemaTextFault)
  | noSelection
  | selection (f : Selection.ReadFault)
  | json (text : List Char) (f : Json.Fault)
  | request (f : Schema.RequestFault)

/-- The fault of a selection that is refused. -/
def RunFault.refused? : RunFault → Option SelectionFault
  | .request (.undescribed (.refused f)) => some f
  | _ => none

/-- The message for a selection without a shape. -/
def projectionMessage : Selection.ProjectionFault → String
  | .conflict c => c.message
  | .missing name => name
  | .illFormed => "Selection does not fit its entity"

/-- The message for a request that fails. -/
def requestMessage : Schema.RequestFault → String
  | .notFound name => Schema.notFoundMessage name
  | .unread f => f.message
  | .undescribed (.refused f) => f.message
  | .undescribed (.unprojected f) => projectionMessage f

/-- The message for a run that fails. -/
def RunFault.message : RunFault → String
  | .missing v => v.message
  | .noSchema path => s!"Schema file not found: {path}"
  | .limits f => f.message
  | .schema text f => f.message text
  | .noSelection => "Expected a string"
  | .selection f => f.message
  | .json text f => f.message text
  | .request f => requestMessage f

/-! ## Reading -/

/-- A text with a line feed for every line end: a carriage return, alone or with a line feed after
it, is one. -/
def unifyLineEnds : List Char → List Char
  | [] => []
  | '\r' :: '\n' :: cs => '\n' :: unifyLineEnds cs
  | c :: cs => (if c = '\r' then '\n' else c) :: unifyLineEnds cs

/-- The event of an entity that has been registered. -/
def registeredEvent (g : Graph) (binding : String × EntityId) : Option Event :=
  (g.get? binding.2).map fun e => .registered e.kind e.name

/-- Reads the schema of a text and tells what is registered on the way. -/
def readSchema (text : List Char) (limits : Limits) : List Event × Except SchemaTextFault Schema :=
  match Schema.readText text with
  | .error f => ([], .error (.unread f))
  | .ok definitions =>
    let (draft, fault) := Schema.resolveFar definitions
    let events := draft.completed.filterMap (registeredEvent draft.graph)
    match fault with
    | some f => (events, .error (.unresolved f))
    | none =>
      match Schema.ofRegistry draft.graph draft.registry limits with
      | .ok s => (events ++ [.frozen s.registry.size], .ok s)
      | .error f => (events, .error (.unfrozen f))

/-- Reads a JSON text. -/
def readJson (text : String) : Except RunFault Value :=
  (Json.read text.toList).mapError (.json text.toList)

/-- Reads the selection. A selection that is not JSON has to be a text. -/
def readSelection (o : Options) : Except RunFault Value :=
  match o.selection with
  | none => .error (if o.json then .missing .selection else .noSelection)
  | some text =>
    if o.json then readJson text
    else
      match Selection.readText text.toList with
      | .ok items => .ok (.list items)
      | .error f => .error (.selection f)

/-- Reads the page parameter; null stands for none. -/
def readPage (o : Options) : Except RunFault Value :=
  match o.page with
  | none => .ok .null
  | some none => .error (.missing .page)
  | some (some text) => readJson text

/-- What is asked of a schema: an entity, a selection and a page parameter. -/
structure Question where
  entity : String
  selection : Value
  page : Value

/-- Reads what a command line asks. -/
def readQuestion (o : Options) : Except RunFault Question := do
  let selection ← readSelection o
  let page ← readPage o
  match o.entity with
  | none => .error (.missing .entity)
  | some entity => return ⟨entity, selection, page⟩

/-! ## Answering -/

/-- Whether a request is one to a read action. -/
def usesAction (o : Options) (page : Value) : Bool :=
  page ≠ .null || o.offset || o.keyset || o.get

/-- The answer to a question. -/
def answer (s : Schema) (o : Options) (q : Question) : Except Schema.RequestFault Shape :=
  if usesAction o q.page then do
    let action ← s.readAction "cli" q.entity o.get o.offset o.keyset false
    s.resultShape action q.selection q.page
  else s.describe q.entity q.selection

/-- The event of a page envelope that has been chosen. -/
def choiceEvent : PageChoice → List Event
  | .only flavor => [.onlyFlavor flavor]
  | .byKeys flavor keys => [.flavorByKeys keys flavor]
  | _ => []

/-- The events of the choice of a page envelope. -/
def choiceEvents (o : Options) (page : Value) : List Event :=
  if usesAction o page && !o.get then
    match choosePage (Envelopes.standard o.offset o.keyset).flavors false page with
    | .ok choice => choiceEvent choice
    | .error _ => []
  else []

/-- The events of an answer. -/
def answerEvents (o : Options) (q : Question) : Except Schema.RequestFault Shape → List Event
  | .ok _ => choiceEvents o q.page ++ [.resolved q.entity]
  | .error (.undescribed (.refused f)) =>
    match f.cause with
    | .pagination _ => []
    | _ => [.refused q.entity f]
  | .error _ => []

/-- Answers what a command line asks of a schema. -/
def ask (s : Schema) (o : Options) : List Event × Except RunFault Shape :=
  match readQuestion o with
  | .error f => ([], .error f)
  | .ok q =>
    let result := answer s o q
    (answerEvents o q result, result.mapError .request)

/-- The limits of a run. -/
def readLimits (o : Options) : Except RunFault Limits :=
  match o.maxDepth with
  | none => .error (.missing .maxDepth)
  | some depth => (Limits.ofDepth depth).mapError .limits

/-- The events and the result of a run; the schema file holds a text or is not there. -/
def run (o : Options) (file : Option String) : List Event × Except RunFault Shape :=
  match file with
  | none => ([], .error (.noSchema o.schema))
  | some text =>
    match readLimits o with
    | .error f => ([], .error f)
    | .ok limits =>
      let text := unifyLineEnds text.toList
      let (events, schema) := readSchema text limits
      match schema with
      | .error f => (.loading o.schema :: events, .error (.schema text f))
      | .ok s =>
        let (more, result) := ask s o
        (.loading o.schema :: events ++ more, result)

/-! ## Reporting -/

/-- What a run gives back: the exit status and the texts on the two streams. -/
structure Report where
  status : Nat
  out : String
  err : String
  deriving DecidableEq, Repr

/-- A line of a stream. -/
def line (text : String) : String :=
  text ++ "\n"

/-- What is said about a fault. -/
def faultLine (o : Options) (f : RunFault) : String :=
  match o.json, f.refused? with
  | true, some refused => line (Json.write refused.payload)
  | _, _ => line ("Error: " ++ f.message)

/-- What a run gives back, or the missing value at which it breaks off. -/
def report (o : Options) (file : Option String) : Except MissingValue Report :=
  let (events, result) := run o file
  let told := if o.verbose then String.join (events.map fun e => line e.message) else ""
  match result with
  | .ok shape => .ok ⟨0, line shape.render, told⟩
  | .error (.missing v) => .error v
  | .error f => .ok ⟨1, "", told ++ faultLine o f⟩

end Shapewise.CommandLine
