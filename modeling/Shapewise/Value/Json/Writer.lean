import Shapewise.Numeral.Shortest
import Shapewise.Text.Class
import Shapewise.Value.Basic

/-!
# Writing values as JSON text

JSON in ASCII on one line: a character beyond ASCII is written as one or two `\u` escapes of its
16-bit units, and a blank follows every comma and colon.
-/

namespace Shapewise.Json

/-- The `\u` escape of a 16-bit unit. -/
def unitEscape (n : Nat) : List Char :=
  '\\' :: 'u' :: Text.hexDigits 4 n

/-- One character of a text. -/
def writeChar (c : Char) : List Char :=
  match c with
  | '"' => ['\\', '"']
  | '\\' => ['\\', '\\']
  | '\n' => ['\\', 'n']
  | '\r' => ['\\', 'r']
  | '\t' => ['\\', 't']
  | '\x08' => ['\\', 'b']
  | '\x0c' => ['\\', 'f']
  | c =>
    let n := c.toNat
    if 0x20 ≤ n ∧ n < 0x7f then [c]
    else if n < 0x10000 then unitEscape n
    else
      unitEscape (0xd800 + (n - 0x10000) / 0x400) ++ unitEscape (0xdc00 + (n - 0x10000) % 0x400)

/-- A text between quotes. -/
def writeText (s : String) : String :=
  String.ofList ('"' :: s.toList.flatMap writeChar ++ ['"'])

/-- A floating point number; those that are no number are written by name. -/
def writeNumber : Binary64 → String
  | .nan => "NaN"
  | .infinite false => "Infinity"
  | .infinite true => "-Infinity"
  | x => x.text

mutual
/-- A value as JSON text. -/
def write : Value → String
  | .null => "null"
  | .bool true => "true"
  | .bool false => "false"
  | .int i => toString i
  | .float x => writeNumber x
  | .str s => writeText s
  | .list items => "[" ++ String.intercalate ", " (writeItems items) ++ "]"
  | .obj entries => "\x7b" ++ String.intercalate ", " (writeEntries entries) ++ "\x7d"
/-- The items of an array as JSON texts. -/
def writeItems : List Value → List String
  | [] => []
  | v :: vs => write v :: writeItems vs
/-- The entries of an object as JSON texts. -/
def writeEntries : List (String × Value) → List String
  | [] => []
  | (k, v) :: es => (writeText k ++ ": " ++ write v) :: writeEntries es
end

end Shapewise.Json
