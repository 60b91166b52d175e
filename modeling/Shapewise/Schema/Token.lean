import Shapewise.Text.Class
import Shapewise.Text.Scan

/-!
# Tokens of schema text

The words of a schema text: names, keywords and punctuation. A name in backticks may hold anything
but a backtick and a line feed and is never a keyword. Spaces, tabs, carriage returns, line feeds
and comments from `#` to the end of the line separate tokens and mean nothing else.
-/

namespace Shapewise.Schema

/-- A keyword of schema text. -/
inductive Keyword
  | define
  | as
  | resource
  | map
  | union
  | on
  | calc
  deriving DecidableEq, Repr

/-- A word of schema text. -/
inductive Token
  | name (s : String)
  | keyword (k : Keyword)
  | arrow
  | colon
  | comma
  | question
  | openBrace
  | closeBrace
  | openBracket
  | closeBracket
  | openParen
  | closeParen
  deriving DecidableEq, Repr

/-- A character with which no token starts. -/
structure ScanFault where
  illegal : Char
  deriving DecidableEq, Repr

/-- The spelling of a keyword. -/
def Keyword.spelling : Keyword → String
  | .define => "define"
  | .as => "as"
  | .resource => "resource"
  | .map => "map"
  | .union => "union"
  | .on => "on"
  | .calc => "calc"

/-- All keywords. -/
def Keyword.all : List Keyword := [.define, .as, .resource, .map, .union, .on, .calc]

namespace Token

/-- A token as messages name it. -/
def display : Token → String
  | .name s => s
  | .keyword k => k.spelling
  | .arrow => "->"
  | .colon => ":"
  | .comma => ","
  | .question => "?"
  | .openBrace => "\x7b"
  | .closeBrace => "\x7d"
  | .openBracket => "["
  | .closeBracket => "]"
  | .openParen => "("
  | .closeParen => ")"

/-- The token of a plain word. -/
def ofWord (s : String) : Token :=
  match Keyword.all.find? fun k => k.spelling = s with
  | some k => .keyword k
  | none => .name s

/-- The token of a punctuation character. -/
def ofPunctuation? : Char → Option Token
  | ':' => some .colon
  | ',' => some .comma
  | '?' => some .question
  | '{' => some .openBrace
  | '}' => some .closeBrace
  | '[' => some .openBracket
  | ']' => some .closeBracket
  | '(' => some .openParen
  | ')' => some .closeParen
  | _ => none

/-- A character with which a plain word can start. -/
def isWordStart (c : Char) : Bool :=
  Text.isLetter c || c = '_'

/-- What the front of a text is. -/
def scanner : Text.Scanner Token ScanFault := fun c cs =>
  if c = ' ' || c = '\t' || c = '\r' then .ok (.skipped, 0)
  else if c = '\n' then .ok (.lineFeed, 0)
  else if c = '#' then .ok (.skipped, (cs.takeWhile (· ≠ '\n')).length)
  else if c = '`' then
    let s := cs.takeWhile fun d => d ≠ '`' && d ≠ '\n'
    if s.isEmpty || cs[s.length]? ≠ some '`' then .error ⟨c⟩
    else .ok (.token (.name (String.ofList s)), s.length + 1)
  else if isWordStart c then
    let s := cs.takeWhile Text.isWord
    .ok (.token (ofWord (String.ofList (c :: s))), s.length)
  else if c = '-' then
    if cs.head? = some '>' then .ok (.token .arrow, 1) else .error ⟨c⟩
  else
    match ofPunctuation? c with
    | some t => .ok (.token t, 0)
    | none => .error ⟨c⟩

/-- The tokens of a text. -/
def scan (text : List Char) : Text.Scanned Token ScanFault :=
  Text.scan scanner 1 0 text

end Token

/-! ## Texts one after the other -/

/-- A lexer, which is given one text after the other, with the line that it has counted up to. -/
structure Lexer where
  line : Nat

namespace Lexer

/-- A lexer that was given no text. -/
def new : Lexer := ⟨1⟩

/-- Goes back to line 1. -/
def reset (_ : Lexer) : Lexer := new

/-- The tokens of a text, and the lexer behind them. -/
def tokenize (l : Lexer) (text : List Char) : Text.Scanned Token ScanFault × Lexer :=
  let s := Text.scan Token.scanner l.reset.line 0 text
  (s, ⟨s.line⟩)

end Lexer

end Shapewise.Schema
