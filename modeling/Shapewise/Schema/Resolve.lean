import Shapewise.Entity.Registry
import Shapewise.Schema.Definition

/-!
# Resolving definitions

Definitions become entities in two phases, so that they may refer to one another in any order. First
every record and union is announced under its name, and the aliases are followed to scalar types.
Then, in the order of the text, the members of each are looked up and the entity is registered.

Aliases may follow one another in any order. They are resolved in passes, each of which resolves
those whose base is known; a pass that resolves none leaves the names that lead nowhere.
-/

namespace Shapewise.Schema

/-- Why definitions cannot be resolved. -/
inductive ResolveFault
  | alreadyDefined (name : String)
  | openAliases (names : List String)
  | unknownType (name : String)
  | duplicateField (field entity : String) (line : Nat)
  | notToResource (entity field : String) (line : Nat)
  | bareResource (entity field : String) (line : Nat) (resource : String)
  | argumentType (argument entity field : String) (line : Nat)
  | duplicateVariant (tag union : String)
  | unionVariant (union tag : String)
  | rules (f : SchemaFault)
  deriving DecidableEq

/-- A field and its line as messages name them. -/
def fieldPlace (entity field : String) (line : Nat) : String :=
  s!"'{entity}.{field}' (line {line})"

/-- The message for definitions that cannot be resolved. -/
def ResolveFault.message : ResolveFault → String
  | .alreadyDefined name => s!"Type '{name}' is already defined"
  | .openAliases names => s!"Cannot resolve aliases: {Text.Quoted.encodeList names}"
  | .unknownType name => s!"Unknown type '{name}'"
  | .duplicateField field entity line => s!"Duplicate field '{field}' in '{entity}' (line {line})"
  | .notToResource entity field line =>
    s!"Relationship {fieldPlace entity field line} must target a resource"
  | .bareResource entity field line resource =>
    s!"Field {fieldPlace entity field line} refers to resource '{resource}'; " ++
      s!"declare it as '-> {resource}'"
  | .argumentType argument entity field line =>
    s!"Argument '{argument}' of {fieldPlace entity field line} must have a scalar type"
  | .duplicateVariant tag union => s!"Duplicate variant '{tag}' in union '{union}'"
  | .unionVariant union tag => s!"Union '{union}' variant '{tag}' cannot be another union"
  | .rules f => f.message

/-! ## Announcing -/

/-- What has been built so far: the names, the entities and the scalar types of the aliases. -/
structure Draft where
  registry : Registry
  graph : Graph
  aliases : List (String × Scalar)
  deriving DecidableEq

namespace Draft

/-- The draft without entities. -/
def empty : Draft := ⟨.empty, .empty, []⟩

/-- Whether a name means something already. -/
def isTaken (d : Draft) (name : String) : Bool :=
  (Scalar.ofName? name).isSome || (d.registry.get? name).isSome || Entries.has d.aliases name

/-- Announces an entity under a new name. -/
def announce (d : Draft) (name : String) (kind : EntityKind) : Except ResolveFault Draft :=
  if d.isTaken name then .error (.alreadyDefined name)
  else
    match d.registry.announce d.graph name kind with
    | .ok (registry, graph, _) => .ok { d with registry := registry, graph := graph }
    | .error f => .error (.rules f)

/-- Announces what a definition defines; an alias defines no entity. -/
def announceDefinition (d : Draft) : Definition → Except ResolveFault Draft
  | .alias _ _ => .ok d
  | .record .resource name _ => d.announce name .resource
  | .record .map name _ => d.announce name .map
  | .union name _ _ => d.announce name .union

end Draft

/-! ## Aliases -/

/-- An alias of a scalar type and the name it is defined by. -/
structure Alias where
  name : String
  base : String
  deriving DecidableEq, Repr

/-- The aliases among definitions, in order. -/
def aliasesOf (definitions : List Definition) : List Alias :=
  definitions.filterMap fun
    | .alias name base => some ⟨name, base⟩
    | _ => none

/-- Checks that an alias has a name of its own. -/
def Draft.checkAlias (d : Draft) (aliases : List Alias) (a : Alias) : Except ResolveFault Unit :=
  if d.isTaken a.name || 1 < (aliases.map Alias.name).count a.name then
    .error (.alreadyDefined a.name)
  else .ok ()

/-- The scalar type that a name means, given those of some aliases. -/
def scalarOf? (known : List (String × Scalar)) (name : String) : Option Scalar :=
  (Scalar.ofName? name).or (Entries.get? known name)

/-- One pass over aliases: those whose base is known become known, at once for those after them; the
others remain. -/
def aliasPass (known : List (String × Scalar)) :
    List Alias → List (String × Scalar) × List Alias
  | [] => (known, [])
  | a :: rest =>
    match scalarOf? known a.base with
    | some type => aliasPass (Entries.put known a.name type) rest
    | none =>
      let (known, remaining) := aliasPass known rest
      (known, a :: remaining)

/-- Passes over the aliases that remain, at most as many as given. -/
def aliasPasses (known : List (String × Scalar)) (remaining : List Alias) :
    Nat → Except ResolveFault (List (String × Scalar))
  | 0 => .ok known
  | passes + 1 =>
    if remaining.isEmpty then .ok known
    else
      let (known', remaining') := aliasPass known remaining
      if remaining'.length = remaining.length then
        .error (.openAliases (remaining'.map Alias.name))
      else aliasPasses known' remaining' passes

/-- The scalar types of aliases. One pass more than there are aliases is enough. -/
def resolveAliases (aliases : List Alias) : Except ResolveFault (List (String × Scalar)) :=
  aliasPasses [] aliases (aliases.length + 1)

/-! ## Members -/

/-- What a type name means. -/
def Draft.target (d : Draft) (name : String) : Except ResolveFault Target :=
  match scalarOf? d.aliases name with
  | some type => .ok (.scalar type)
  | none =>
    match d.registry.get? name with
    | some id => .ok (.entity id)
    | none => .error (.unknownType name)

/-- The declared argument of an argument definition, whose type must be scalar. -/
def Draft.argument (d : Draft) (entity : String) (m : Member) (a : ArgumentDef) :
    Except ResolveFault Argument := do
  match ← d.target a.type.name with
  | .scalar type => return ⟨a.name, type, !a.isOptional, a.type.isNullable, a.type.isArray⟩
  | _ => .error (.argumentType a.name entity m.name m.line)

/-- A member of a record: a primitive or a complex field. -/
inductive RecordMember
  | primitive (p : Primitive)
  | field (f : Field)
  deriving DecidableEq

/-- The complex field of a member. -/
def Member.field (m : Member) (kind : FieldKind) (target : Target) : RecordMember :=
  .field ⟨m.name, kind, target, m.type.isArray, m.type.isNullable⟩

/-- What a member of a record is. -/
def Draft.member (d : Draft) (entity : String) (m : Member) : Except ResolveFault RecordMember := do
  let target ← d.target m.type.name
  match m.kind with
  | .relationship =>
    if d.graph.targetKind? target = some .resource then return m.field .relationship target
    else .error (.notToResource entity m.name m.line)
  | .calculation none => return m.field (.calculation none) target
  | .calculation (some arguments) =>
    return m.field (.calculation (some (← arguments.mapM (d.argument entity m)))) target
  | .plain =>
    match target, d.graph.targetKind? target with
    | .scalar type, _ => return .primitive ⟨m.name, type, m.type.isNullable, m.type.isArray⟩
    | _, some .map => return m.field .map target
    | _, some .union => return m.field .union target
    | _, _ => .error (.bareResource entity m.name m.line m.type.name)

/-- A record with one more member. -/
def addMember (r : Record) (m : RecordMember) : Record :=
  match m with
  | .primitive p => { r with primitives := Entries.put r.primitives p.name p }
  | .field f => { r with fields := Entries.put r.fields f.name f }

/-- A record with its members, which must have different names. -/
def Draft.fillRecord (d : Draft) (r : Record) (seen : List String) :
    List Member → Except ResolveFault Record
  | [] => .ok r
  | m :: rest =>
    if m.name ∈ seen then .error (.duplicateField m.name r.name m.line)
    else do
      let member ← d.member r.name m
      d.fillRecord (addMember r member) (m.name :: seen) rest

/-- A union with its variants, which must have different tags. -/
def Draft.fillUnion (d : Draft) (u : Union) : List VariantDef → Except ResolveFault Union
  | [] => .ok u
  | v :: rest =>
    if Entries.has u.variants v.tag then .error (.duplicateVariant v.tag u.name)
    else do
      let target ← d.target v.type
      if d.graph.targetKind? target = some .union then .error (.unionVariant u.name v.tag)
      else d.fillUnion { u with variants := Entries.put u.variants v.tag target } rest

/-! ## Entities -/

/-- The name and the entity that a definition defines. -/
def Draft.entity? (d : Draft) : Definition → Except ResolveFault (Option Entity)
  | .alias _ _ => .ok none
  | .record kind name members => do
    return some (.record (← d.fillRecord ⟨kind, name, [], []⟩ [] members))
  | .union name variants tagField => do
    let u ← d.fillUnion ⟨name, [], none⟩ variants
    return some (.union { u with tagField := tagField })

/-- Puts a finished entity in the place of the announced one of its name and registers it. -/
def Draft.complete (d : Draft) (e : Entity) : Except ResolveFault Draft :=
  match d.registry.get? e.name with
  | none => .error (.unknownType e.name)
  | some id =>
    let graph := d.graph.set id e
    match d.registry.register graph id with
    | .ok registry => .ok { d with registry := registry, graph := graph }
    | .error f => .error (.rules f)

/-- Completes what a definition defines. -/
def Draft.define (d : Draft) (definition : Definition) : Except ResolveFault Draft := do
  match ← d.entity? definition with
  | some e => d.complete e
  | none => return d

/-- Completes what definitions define, up to the first fault; the draft shows how far it came. -/
def Draft.defineAll (d : Draft) : List Definition → Draft × Option ResolveFault
  | [] => (d, none)
  | definition :: rest =>
    match d.define definition with
    | .ok d => d.defineAll rest
    | .error f => (d, some f)

/-- Announces all entities and resolves all aliases. -/
def announceAll (definitions : List Definition) : Except ResolveFault Draft := do
  let d ← definitions.foldlM Draft.announceDefinition .empty
  let aliases := aliasesOf definitions
  aliases.forM (d.checkAlias aliases)
  return { d with aliases := ← resolveAliases aliases }

/-- The names that are registered in a draft, which are those no longer merely announced. -/
def Draft.completed (d : Draft) : List (String × EntityId) :=
  d.registry.bindings.filter fun b => b.1 ∉ d.registry.announced

/-- Resolves definitions, up to the first fault. -/
def resolveFar (definitions : List Definition) : Draft × Option ResolveFault :=
  match announceAll definitions with
  | .ok d => d.defineAll definitions
  | .error f => (.empty, some f)

/-- Resolves definitions. -/
def resolve (definitions : List Definition) : Except ResolveFault Draft :=
  match resolveFar definitions with
  | (d, none) => .ok d
  | (_, some f) => .error f

end Shapewise.Schema
