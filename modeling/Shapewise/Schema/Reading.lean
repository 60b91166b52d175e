import Shapewise.Schema.Definition
import Shapewise.Schema.Token
import Shapewise.Text.Position
import Shapewise.Text.Quoted

/-!
# Reading schema text

A schema text is a list of statements:

* `define` a name `as` the name of its type;
* `resource` or `map`, a name, and members between braces, possibly none, with commas between them
  and possibly a comma at the end;
* `union`, a name, perhaps `on` the name of a tag field, and one or more variants between braces,
  with commas between them and possibly a comma at the end; a variant is a tag, a colon and a type
  name.

A member is a name, a colon and a type, with an arrow before the type of a relationship; a
calculation has `calc` before its name and perhaps parentheses with arguments after it. An argument
is a name, perhaps a question mark, a colon and a type. A type is a name, perhaps with brackets,
perhaps with a question mark.

The reader takes one token at a time and stops at the first that cannot follow.
-/

namespace Shapewise.Schema

/-- Why a text is no list of definitions. -/
inductive ReadFault
  | stopped (s : Text.Stop ScanFault)
  | unexpected (t : Text.Located Token)
  | unexpectedEnd
  deriving DecidableEq, Repr

/-- How much of a type has been read. -/
inductive TypeStage
  /-- The name. -/
  | named
  /-- The opening bracket. -/
  | openBracket
  /-- The closing bracket. -/
  | array
  /-- The question mark. -/
  | nullable
  deriving DecidableEq, Repr

/-- A type of which more may follow. -/
structure PartialType where
  name : String
  stage : TypeStage
  isArray : Bool
  deriving DecidableEq, Repr

namespace PartialType

/-- A type of which the name has been read. -/
def ofName (name : String) : PartialType := ⟨name, .named, false⟩

/-- Takes a token that belongs to the type. -/
def step? (p : PartialType) (t : Token) : Option PartialType :=
  match p.stage, t with
  | .named, .openBracket => some { p with stage := .openBracket }
  | .named, .question => some { p with stage := .nullable }
  | .openBracket, .closeBracket => some { p with stage := .array, isArray := true }
  | .array, .question => some { p with stage := .nullable }
  | _, _ => none

/-- The type, where it may end. -/
def complete? (p : PartialType) : Option TypeRef :=
  match p.stage with
  | .openBracket => none
  | .nullable => some ⟨p.name, p.isArray, true⟩
  | _ => some ⟨p.name, p.isArray, false⟩

end PartialType

/-- A record whose braces are open, with the members read so far. -/
structure OpenRecord where
  kind : RecordKind
  name : String
  members : List Member
  deriving DecidableEq, Repr

/-- A union whose braces are open, with the variants read so far. -/
structure OpenUnion where
  name : String
  tagField : Option String
  variants : List VariantDef
  deriving DecidableEq, Repr

/-- The name of a member and the line on which it stands. -/
structure MemberName where
  name : String
  line : Nat
  deriving DecidableEq, Repr

/-- What has been read last, and so what may follow. -/
inductive Mode
  /-- The start of the text, or a statement. -/
  | start
  /-- `define`. -/
  | define
  /-- `define` and the name of an alias. -/
  | alias (name : String)
  /-- `define`, the name of an alias and `as`. -/
  | aliasAs (name : String)
  /-- `resource` or `map`. -/
  | record (kind : RecordKind)
  /-- `resource` or `map` and a name. -/
  | recordName (kind : RecordKind) (name : String)
  /-- The brace of a record, or a comma between members. -/
  | member (r : OpenRecord)
  /-- The name of a member. -/
  | memberName (r : OpenRecord) (m : MemberName)
  /-- The colon of a member. -/
  | memberColon (r : OpenRecord) (m : MemberName)
  /-- The arrow of a relationship, or the colon of a calculation. -/
  | memberKind (r : OpenRecord) (m : MemberName) (kind : MemberKind)
  /-- The type of a member. -/
  | memberType (r : OpenRecord) (m : MemberName) (kind : MemberKind) (type : PartialType)
  /-- `calc`. -/
  | calc (r : OpenRecord)
  /-- `calc` and a name. -/
  | calcName (r : OpenRecord) (m : MemberName)
  /-- The parenthesis before arguments, or a comma between them. -/
  | argument (r : OpenRecord) (m : MemberName) (arguments : List ArgumentDef)
  /-- The name of an argument. -/
  | argumentName (r : OpenRecord) (m : MemberName) (arguments : List ArgumentDef) (name : String)
  /-- The question mark of an argument. -/
  | argumentMark (r : OpenRecord) (m : MemberName) (arguments : List ArgumentDef) (name : String)
  /-- The colon of an argument. -/
  | argumentColon (r : OpenRecord) (m : MemberName) (arguments : List ArgumentDef) (name : String)
      (isOptional : Bool)
  /-- The type of an argument. -/
  | argumentType (r : OpenRecord) (m : MemberName) (arguments : List ArgumentDef) (name : String)
      (isOptional : Bool) (type : PartialType)
  /-- The parenthesis after arguments. -/
  | called (r : OpenRecord) (m : MemberName) (arguments : List ArgumentDef)
  /-- `union`. -/
  | union
  /-- `union` and a name. -/
  | unionName (name : String)
  /-- `union`, a name and `on`. -/
  | unionOn (name : String)
  /-- `union`, a name, `on` and a tag field. -/
  | unionTag (name tagField : String)
  /-- The brace of a union, or a comma between variants. -/
  | variant (u : OpenUnion)
  /-- The tag of a variant. -/
  | variantTag (u : OpenUnion) (tag : String)
  /-- The tag of a variant and a colon. -/
  | variantColon (u : OpenUnion) (tag : String)
  /-- A variant. -/
  | variantType (u : OpenUnion)
  deriving DecidableEq, Repr

/-- The state of the reader: the statements read so far, and what was read last. -/
structure Reading where
  definitions : List Definition
  mode : Mode
  deriving DecidableEq, Repr

namespace Reading

/-- The start of a text. -/
def initial : Reading := ⟨[], .start⟩

/-- Goes on after a token. -/
def goOn (r : Reading) (mode : Mode) : Except ReadFault Reading :=
  .ok { r with mode := mode }

/-- Ends a statement. -/
def endStatement (r : Reading) (d : Definition) : Except ReadFault Reading :=
  .ok ⟨r.definitions ++ [d], .start⟩

/-- A record that ends. -/
def closeRecord (o : OpenRecord) : Definition :=
  .record o.kind o.name o.members

/-- A union that ends. -/
def closeUnion (o : OpenUnion) : Definition :=
  .union o.name o.variants o.tagField

/-- Takes a token. -/
def step (r : Reading) (t : Text.Located Token) : Except ReadFault Reading :=
  let refuse : Except ReadFault Reading := .error (.unexpected t)
  match r.mode, t.token with
  | .start, .keyword .define => r.goOn .define
  | .start, .keyword .resource => r.goOn (.record .resource)
  | .start, .keyword .map => r.goOn (.record .map)
  | .start, .keyword .union => r.goOn .union
  | .define, .name name => r.goOn (.alias name)
  | .alias name, .keyword .as => r.goOn (.aliasAs name)
  | .aliasAs name, .name base => r.endStatement (.alias name base)
  | .record kind, .name name => r.goOn (.recordName kind name)
  | .recordName kind name, .openBrace => r.goOn (.member ⟨kind, name, []⟩)
  | .member o, .name name => r.goOn (.memberName o ⟨name, t.line⟩)
  | .member o, .keyword .calc => r.goOn (.calc o)
  | .member o, .closeBrace => r.endStatement (closeRecord o)
  | .memberName o m, .colon => r.goOn (.memberColon o m)
  | .memberColon o m, .name name => r.goOn (.memberType o m .plain (.ofName name))
  | .memberColon o m, .arrow => r.goOn (.memberKind o m .relationship)
  | .memberKind o m kind, .name name => r.goOn (.memberType o m kind (.ofName name))
  | .memberType o m kind type, token =>
    match type.step? token with
    | some type => r.goOn (.memberType o m kind type)
    | none =>
      match type.complete?, token with
      | some type, .comma =>
        r.goOn (.member { o with members := o.members ++ [⟨m.name, kind, type, m.line⟩] })
      | some type, .closeBrace =>
        r.endStatement
          (closeRecord { o with members := o.members ++ [⟨m.name, kind, type, m.line⟩] })
      | _, _ => refuse
  | .calc o, .name name => r.goOn (.calcName o ⟨name, t.line⟩)
  | .calcName o m, .colon => r.goOn (.memberKind o m (.calculation none))
  | .calcName o m, .openParen => r.goOn (.argument o m [])
  | .argument o m arguments, .name name => r.goOn (.argumentName o m arguments name)
  | .argument o m arguments, .closeParen => r.goOn (.called o m arguments)
  | .argumentName o m arguments name, .question => r.goOn (.argumentMark o m arguments name)
  | .argumentName o m arguments name, .colon => r.goOn (.argumentColon o m arguments name false)
  | .argumentMark o m arguments name, .colon => r.goOn (.argumentColon o m arguments name true)
  | .argumentColon o m arguments name isOptional, .name type =>
    r.goOn (.argumentType o m arguments name isOptional (.ofName type))
  | .argumentType o m arguments name isOptional type, token =>
    match type.step? token with
    | some type => r.goOn (.argumentType o m arguments name isOptional type)
    | none =>
      match type.complete?, token with
      | some type, .comma => r.goOn (.argument o m (arguments ++ [⟨name, type, isOptional⟩]))
      | some type, .closeParen => r.goOn (.called o m (arguments ++ [⟨name, type, isOptional⟩]))
      | _, _ => refuse
  | .called o m arguments, .colon => r.goOn (.memberKind o m (.calculation (some arguments)))
  | .union, .name name => r.goOn (.unionName name)
  | .unionName name, .keyword .on => r.goOn (.unionOn name)
  | .unionName name, .openBrace => r.goOn (.variant ⟨name, none, []⟩)
  | .unionOn name, .name tagField => r.goOn (.unionTag name tagField)
  | .unionTag name tagField, .openBrace => r.goOn (.variant ⟨name, some tagField, []⟩)
  | .variant u, .name tag => r.goOn (.variantTag u tag)
  | .variant u, .closeBrace =>
    if u.variants.isEmpty then refuse else r.endStatement (closeUnion u)
  | .variantTag u tag, .colon => r.goOn (.variantColon u tag)
  | .variantColon u tag, .name type =>
    r.goOn (.variantType { u with variants := u.variants ++ [⟨tag, type⟩] })
  | .variantType u, .comma => r.goOn (.variant u)
  | .variantType u, .closeBrace => r.endStatement (closeUnion u)
  | _, _ => refuse

/-- What has been read at the end of the text. -/
def finish (r : Reading) : Except ReadFault (List Definition) :=
  match r.mode with
  | .start => .ok r.definitions
  | _ => .error .unexpectedEnd

end Reading

/-- The definitions that a list of tokens writes. -/
def readTokens (tokens : List (Text.Located Token)) : Except ReadFault (List Definition) := do
  (← tokens.foldlM Reading.step .initial).finish

/-- The definitions that a scanned text writes; where the scan stopped is reported after what is
wrong with the tokens before. -/
def readScanned (s : Text.Scanned Token ScanFault) : Except ReadFault (List Definition) := do
  let r ← s.tokens.foldlM Reading.step .initial
  match s.stop with
  | some stop => .error (.stopped stop)
  | none => r.finish

/-- The definitions that a text writes. -/
def readText (text : List Char) : Except ReadFault (List Definition) :=
  readScanned (Token.scan text)

/-! ## Messages -/

/-- The message for a place of a text where there is no token. -/
def stopMessage (text : List Char) (s : Text.Stop ScanFault) : String :=
  let shown := Text.Quoted.encode (String.singleton s.reason.illegal)
  let column := Text.columnAt text s.position
  s!"Illegal character {shown} at line {s.line}, column {column}"

/-- The message for a text that is no list of definitions. -/
def ReadFault.message (text : List Char) : ReadFault → String
  | .stopped s => stopMessage text s
  | .unexpected t =>
    let column := Text.columnAt text t.position
    s!"Syntax error at '{t.token.display}' (line {t.line}, column {column})"
  | .unexpectedEnd => "Syntax error at end of input"

end Shapewise.Schema
