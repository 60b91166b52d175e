import Shapewise.Entries
import Shapewise.Selection.Token

/-!
# Reading selection text

The text form of a selection is a list of fields with commas between them:

* `selection`: nothing, or fields separated by commas, possibly with a comma at the end;
* `field`: a name, then perhaps arguments, then perhaps a selection in braces;
* `arguments`: parentheses around nothing, or around arguments separated by commas, possibly with a
  comma at the end, each a name, a colon and a value;
* `value`: a literal, or brackets around nothing or around values separated by commas, possibly with
  a comma at the end.

A field becomes its name, or an object with its name and what is selected: the list of fields, or an
object of `args` and `fields`. No argument may be given twice.

The reader takes one token at a time and keeps what it has read and the fields that are still open.
It stops at the first token that cannot follow; that an argument is given twice is seen at the comma
or parenthesis after it.
-/

namespace Shapewise.Selection

/-- Why a text is no selection. -/
inductive ReadFault
  | stopped (s : Text.Stop ScanFault)
  | unexpected (t : Text.Located Token)
  | unexpectedEnd
  | duplicateArgument (name : String) (line : Nat)
  deriving DecidableEq

/-- The arguments of a field that are being read; `comma` is the line of the comma before the
argument at hand. -/
structure Call where
  field : String
  arguments : List (String × Value)
  comma : Nat
  deriving DecidableEq

/-- What has been read last, and so what may follow. -/
inductive Mode
  /-- The start of a selection, or a comma between fields. -/
  | start
  /-- The name of a field. -/
  | named (field : String)
  /-- A field with its arguments. -/
  | called (field : String) (arguments : List (String × Value))
  /-- A field with its braces. -/
  | closed
  /-- The parenthesis before arguments, or a comma between them. -/
  | argument (call : Call)
  /-- The name of an argument. -/
  | argumentName (call : Call) (name : String)
  /-- The colon of an argument, or an opening bracket or comma in the lists that are open, the
  innermost one first. -/
  | value (call : Call) (name : String) (lists : List (List Value))
  /-- A value in a list. -/
  | element (call : Call) (name : String) (list : List Value) (lists : List (List Value))
  /-- An argument with its value. -/
  | argumentValue (call : Call) (name : String) (v : Value)
  deriving DecidableEq

/-- A field whose braces are open: the fields before it, its name and its arguments, if any. -/
structure Level where
  before : List Value
  field : String
  arguments : Option (List (String × Value))
  deriving DecidableEq

/-- The state of the reader: the open fields, the innermost one first, the fields read so far at the
innermost level, and what was read last. -/
structure Reading where
  outer : List Level
  items : List Value
  mode : Mode
  deriving DecidableEq

namespace Reading

/-- The start of a text. -/
def initial : Reading := ⟨[], [], .start⟩

/-- A field with arguments. -/
def callItem (field : String) (arguments : List (String × Value)) : Value :=
  .obj [(field, .obj [("args", .obj arguments)])]

/-- A field with a selection. -/
def blockItem (field : String) (arguments : Option (List (String × Value)))
    (items : List Value) : Value :=
  match arguments with
  | none => .obj [(field, .list items)]
  | some arguments => .obj [(field, .obj [("args", .obj arguments), ("fields", .list items)])]

/-- The fields of the innermost level, where it may end. -/
def settled? (r : Reading) : Option (List Value) :=
  match r.mode with
  | .start => some r.items
  | .named field => some (r.items ++ [.str field])
  | .called field arguments => some (r.items ++ [callItem field arguments])
  | .closed => some r.items
  | _ => none

/-- The mode after a value. -/
def valueRead (call : Call) (name : String) (lists : List (List Value)) (v : Value) : Mode :=
  match lists with
  | [] => .argumentValue call name v
  | list :: lists => .element call name (list ++ [v]) lists

/-- The value of a literal. -/
def literal? : Token → Option Value
  | .text s => some (.str s)
  | .int i => some (.int i)
  | .float x => some (.float x)
  | .bool b => some (.bool b)
  | .null => some .null
  | _ => none

/-- The arguments with one more, which must not have been given. -/
def addArgument (call : Call) (name : String) (v : Value) :
    Except ReadFault (List (String × Value)) :=
  if Entries.has call.arguments name then .error (.duplicateArgument name call.comma)
  else .ok (call.arguments ++ [(name, v)])

/-- Ends the innermost level at a closing brace. -/
def closeLevel? (r : Reading) : Option Reading :=
  match r.settled?, r.outer with
  | some items, level :: outer =>
    some ⟨outer, level.before ++ [blockItem level.field level.arguments items], .closed⟩
  | _, _ => none

/-- Opens the braces of a field. -/
def openLevel (r : Reading) (field : String) (arguments : Option (List (String × Value))) :
    Reading :=
  ⟨⟨r.items, field, arguments⟩ :: r.outer, [], .start⟩

/-- Takes a token. -/
def step (r : Reading) (t : Text.Located Token) : Except ReadFault Reading :=
  let refuse : Except ReadFault Reading := .error (.unexpected t)
  match r.mode, t.token with
  | .start, .name field => .ok { r with mode := .named field }
  | .start, .closeBrace => (r.closeLevel?).elim refuse .ok
  | .named field, .openBrace => .ok (r.openLevel field none)
  | .named field, .openParen => .ok { r with mode := .argument ⟨field, [], t.line⟩ }
  | .named field, .comma => .ok { r with items := r.items ++ [.str field], mode := .start }
  | .named _, .closeBrace => (r.closeLevel?).elim refuse .ok
  | .called field arguments, .openBrace => .ok (r.openLevel field (some arguments))
  | .called field arguments, .comma =>
    .ok { r with items := r.items ++ [callItem field arguments], mode := .start }
  | .called _ _, .closeBrace => (r.closeLevel?).elim refuse .ok
  | .closed, .comma => .ok { r with mode := .start }
  | .closed, .closeBrace => (r.closeLevel?).elim refuse .ok
  | .argument call, .name name => .ok { r with mode := .argumentName call name }
  | .argument call, .closeParen => .ok { r with mode := .called call.field call.arguments }
  | .argumentName call name, .colon => .ok { r with mode := .value call name [] }
  | .value call name lists, .openBracket => .ok { r with mode := .value call name ([] :: lists) }
  | .value call name (list :: lists), .closeBracket =>
    .ok { r with mode := valueRead call name lists (.list list) }
  | .value call name lists, token =>
    match literal? token with
    | some v => .ok { r with mode := valueRead call name lists v }
    | none => refuse
  | .element call name list lists, .comma =>
    .ok { r with mode := .value call name (list :: lists) }
  | .element call name list lists, .closeBracket =>
    .ok { r with mode := valueRead call name lists (.list list) }
  | .argumentValue call name v, .comma => do
    let arguments ← addArgument call name v
    return { r with mode := .argument ⟨call.field, arguments, t.line⟩ }
  | .argumentValue call name v, .closeParen => do
    let arguments ← addArgument call name v
    return { r with mode := .called call.field arguments }
  | _, _ => refuse

/-- What has been read at the end of the text. -/
def finish (r : Reading) : Except ReadFault (List Value) :=
  match r.settled?, r.outer with
  | some items, [] => .ok items
  | _, _ => .error .unexpectedEnd

end Reading

/-- The selection that a list of tokens writes. -/
def readTokens (tokens : List (Text.Located Token)) : Except ReadFault (List Value) := do
  (← tokens.foldlM Reading.step .initial).finish

/-- The selection that a scanned text writes; where the scan stopped is reported after what is
wrong with the tokens before. -/
def readScanned (s : Text.Scanned Token ScanFault) : Except ReadFault (List Value) := do
  let r ← s.tokens.foldlM Reading.step .initial
  match s.stop with
  | some stop => .error (.stopped stop)
  | none => r.finish

/-- The selection that a text writes. -/
def readText (text : List Char) : Except ReadFault (List Value) :=
  readScanned (Token.scan 1 text)

/-! ## Texts one after the other -/

/-- A reader, which is given one text after the other, with the line that its lexer has counted up
to. -/
structure Reader where
  line : Nat

namespace Reader

/-- A reader that was given no text. -/
def new : Reader := ⟨1⟩

/-- Goes back to line 1. -/
def reset (_ : Reader) : Reader := new

/-- The selection that the next text writes. -/
def read (r : Reader) (text : List Char) : Except ReadFault (List Value) :=
  readScanned (Token.scan r.reset.line text)

end Reader

/-! ## Messages -/

/-- The message for a place where there is no token. -/
def stopMessage (s : Text.Stop ScanFault) : String :=
  match s.reason with
  | .illegal c => s!"Illegal character '{c}' at position {s.position}"
  | .escape f => f.message

/-- The message for a text that is no selection. -/
def ReadFault.message : ReadFault → String
  | .stopped s => stopMessage s
  | .unexpected t => s!"Syntax error at '{t.token.display}' (position {t.position})"
  | .unexpectedEnd => "Syntax error at end of input"
  | .duplicateArgument name line => s!"Duplicate argument '{name}' (line {line})"

end Shapewise.Selection
