import Shapewise.Text.Class
import Shapewise.Text.Escape
import Shapewise.Text.Scan
import Shapewise.Value.Display

/-!
# Tokens of selection text

The words of the text form of a selection, such as `id, author { name }, summary(length: 10)`:
names, literals and punctuation. A name in backticks may hold anything but a backtick and is never
read as a literal. Spaces, tabs, line feeds and comments from `#` to the end of the line separate
tokens and mean nothing else.
-/

namespace Shapewise.Selection

/-- A word of selection text. -/
inductive Token
  | name (s : String)
  | text (s : String)
  | int (i : Int)
  | float (x : Binary64)
  | bool (b : Bool)
  | null
  | openBrace
  | closeBrace
  | openParen
  | closeParen
  | openBracket
  | closeBracket
  | colon
  | comma
  deriving DecidableEq

/-- Why there is no token at a place. -/
inductive ScanFault
  | illegal (c : Char)
  | escape (f : Text.Escape.Fault)
  deriving DecidableEq

namespace Token

/-- A token as messages name it. -/
def display : Token → String
  | .name s => s
  | .text s => s
  | .int i => toString i
  | .float x => x.text
  | .bool true => "true"
  | .bool false => "false"
  | .null => "null"
  | .openBrace => "\x7b"
  | .closeBrace => "\x7d"
  | .openParen => "("
  | .closeParen => ")"
  | .openBracket => "["
  | .closeBracket => "]"
  | .colon => ":"
  | .comma => ","

/-- The token of a plain word. -/
def ofWord : String → Token
  | "true" => .bool true
  | "false" => .bool false
  | "null" => .null
  | s => .name s

/-- The token of a punctuation character. -/
def ofPunctuation? : Char → Option Token
  | '{' => some .openBrace
  | '}' => some .closeBrace
  | '(' => some .openParen
  | ')' => some .closeParen
  | '[' => some .openBracket
  | ']' => some .closeBracket
  | ':' => some .colon
  | ',' => some .comma
  | _ => none

/-- A character with which a plain word can start. -/
def isWordStart (c : Char) : Bool :=
  Text.isLetter c || c = '_'

/-- A character with which a plain word can go on. -/
def isWordPart (c : Char) : Bool :=
  isWordStart c || Text.isDigit c

/-- How many characters stand before the quote that ends a text; a backslash takes the character
after it along, which may not be a line feed. -/
def textLength? : List Char → Option Nat
  | [] => none
  | ['\\'] => none
  | '\\' :: c :: cs => if c = '\n' then none else (textLength? cs).map (· + 2)
  | c :: cs => if c = '"' then some 0 else (textLength? cs).map (· + 1)

/-- The fraction digits that follow a point, of which there must be one. -/
def fractionDigits : List Char → List Char
  | '.' :: cs => cs.takeWhile Text.isDecimal
  | _ => []

/-- The number whose digits start a list, and how many characters it has. -/
def number? (negative : Bool) (cs : List Char) : Option (Token × Nat) :=
  let whole := cs.takeWhile Text.isDecimal
  let fraction := fractionDigits (cs.drop whole.length)
  if whole.isEmpty then none
  else if fraction.isEmpty then
    let n : Int := Text.numberOfDigits whole
    some (.int (if negative then -n else n), whole.length)
  else
    let x := Binary64.ofDecimal negative (Text.numberOfDigits (whole ++ fraction)) (-fraction.length)
    some (.float x, whole.length + 1 + fraction.length)

/-- What the front of a text is. -/
def scanner : Text.Scanner Token ScanFault := fun c cs =>
  if c = ' ' || c = '\t' then .ok (.skipped, 0)
  else if c = '\n' then .ok (.lineFeed, 0)
  else if c = '#' then .ok (.skipped, (cs.takeWhile (· ≠ '\n')).length)
  else if c = '"' then
    match textLength? cs with
    | none => .error (.illegal c)
    | some n =>
      match Text.Escape.decode (cs.take n) with
      | .ok s => .ok (.token (.text (String.ofList s)), n + 1)
      | .error f => .error (.escape f)
  else if c = '`' then
    let s := cs.takeWhile (· ≠ '`')
    if s.isEmpty || s.length = cs.length then .error (.illegal c)
    else .ok (.token (.name (String.ofList s)), s.length + 1)
  else if isWordStart c then
    let s := cs.takeWhile isWordPart
    .ok (.token (ofWord (String.ofList (c :: s))), s.length)
  else if c = '-' then
    match number? true cs with
    | some (t, n) => .ok (.token t, n)
    | none => .error (.illegal c)
  else if Text.isDecimal c then
    match number? false (c :: cs) with
    | some (t, n) => .ok (.token t, n - 1)
    | none => .error (.illegal c)
  else
    match ofPunctuation? c with
    | some t => .ok (.token t, 0)
    | none => .error (.illegal c)

/-- The tokens of a text that starts on a given line. -/
def scan (line : Nat) (text : List Char) : Text.Scanned Token ScanFault :=
  Text.scan scanner line 0 text

end Token

end Shapewise.Selection
