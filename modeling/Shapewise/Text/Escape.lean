import Shapewise.Text.Class

/-!
# Backslash escapes

What the inside of a string literal denotes. It is read as the bytes of its UTF-8 form: a byte
outside an escape stands for the character of the same number, so a character beyond ASCII gives
one character per byte. Escapes are single letters (`\n`), up to three octal digits (`\101`),
hexadecimal digits of a fixed count (`\x41`, `\u0041`, `\U00000041`) and names (`\N{...}`), none of
which is known here; a backslash before any other byte stands for itself.

The decoder is a machine that takes one byte at a time, with the position of the backslash of the
escape it is in.
-/

namespace Shapewise.Text.Escape

/-- Why an escape cannot be decoded. -/
inductive Reason
  | truncatedHex2
  | truncatedHex4
  | truncatedHex8
  | illegalCharacter
  | malformedName
  | unknownName
  | loneBackslash
  deriving DecidableEq, Repr

/-- An escape that cannot be decoded, with its first and its last byte. -/
structure Fault where
  first : Nat
  last : Nat
  reason : Reason
  deriving DecidableEq, Repr

/-- How many hexadecimal digits an escape has: `\x`, `\u` or `\U`. -/
inductive Width
  | two
  | four
  | eight
  deriving DecidableEq, Repr

/-- The number of digits of a hexadecimal escape. -/
def Width.count : Width → Nat
  | .two => 2
  | .four => 4
  | .eight => 8

/-- The fault of a hexadecimal escape with too few digits. -/
def Width.truncated : Width → Reason
  | .two => .truncatedHex2
  | .four => .truncatedHex4
  | .eight => .truncatedHex8

/-- Where the decoder is within the text; `start` is the position of the escape's backslash. -/
inductive State
  | plain
  | backslash (start : Nat)
  | octal (start value left : Nat)
  | hex (start : Nat) (width : Width) (value left : Nat)
  | name (start : Nat)
  | nameIn (start length : Nat)
  deriving DecidableEq, Repr

/-- The value of an octal digit. -/
def octalValue? (c : Char) : Option Nat :=
  if '0' ≤ c && c ≤ '7' then some (c.toNat - '0'.toNat) else none

/-- The characters of the single-letter escapes; an escaped line end stands for nothing. -/
def letter? : Char → Option (List Char)
  | '\n' => some []
  | '\\' => some ['\\']
  | '\'' => some ['\'']
  | '"' => some ['"']
  | 'b' => some ['\x08']
  | 'f' => some ['\x0c']
  | 't' => some ['\t']
  | 'n' => some ['\n']
  | 'r' => some ['\r']
  | 'v' => some ['\x0b']
  | 'a' => some ['\x07']
  | _ => none

/-- The width of the hexadecimal escape that a letter opens. -/
def width? : Char → Option Width
  | 'x' => some .two
  | 'u' => some .four
  | 'U' => some .eight
  | _ => none

/-- A byte outside an escape. -/
def plainStep (position : Nat) (c : Char) : State × List Char :=
  if c = '\\' then (.backslash position, []) else (.plain, [c])

/-- The byte after a backslash. -/
def backslashStep (start : Nat) (c : Char) : State × List Char :=
  match letter? c with
  | some out => (.plain, out)
  | none =>
    match width? c with
    | some w => (.hex start w 0 w.count, [])
    | none =>
      match octalValue? c with
      | some v => (.octal start v 2, [])
      | none => if c = 'N' then (.name start, []) else (.plain, ['\\', c])

/-- Takes the byte at a position; gives the new state and the characters that are now known. -/
def step (s : State) (position : Nat) (c : Char) : Except Fault (State × List Char) :=
  match s with
  | .plain => .ok (plainStep position c)
  | .backslash start => .ok (backslashStep start c)
  | .octal start value left =>
    match left, octalValue? c with
    | 1, some v => .ok (.plain, [Char.ofNat (8 * value + v)])
    | left + 1, some v => .ok (.octal start (8 * value + v) left, [])
    | _, _ =>
      let next := plainStep position c
      .ok (next.1, Char.ofNat value :: next.2)
  | .hex start width value left =>
    match hexValue? c with
    | none => .error ⟨start, position - 1, width.truncated⟩
    | some v =>
      let value := 16 * value + v
      if left ≤ 1 then
        if value.isValidChar then .ok (.plain, [Char.ofNat value])
        else .error ⟨start, position, .illegalCharacter⟩
      else .ok (.hex start width value (left - 1), [])
  | .name start =>
    if c = '{' then .ok (.nameIn start 0, []) else .error ⟨start, position - 1, .malformedName⟩
  | .nameIn start length =>
    if c = '}' then
      if length = 0 then .error ⟨start, position - 1, .malformedName⟩
      else .error ⟨start, position, .unknownName⟩
    else .ok (.nameIn start (length + 1), [])

/-- What is left to say at the end of the text, `position` bytes from its start. -/
def finish (s : State) (position : Nat) : Except Fault (List Char) :=
  match s with
  | .plain => .ok []
  | .backslash start => .error ⟨start, position - 1, .loneBackslash⟩
  | .octal _ value _ => .ok [Char.ofNat value]
  | .hex start width _ _ => .error ⟨start, position - 1, width.truncated⟩
  | .name start => .error ⟨start, position - 1, .malformedName⟩
  | .nameIn start _ => .error ⟨start, position - 1, .malformedName⟩

/-- Runs the decoder over the bytes from a position on. -/
def run (s : State) (position : Nat) : List Char → Except Fault (List Char)
  | [] => finish s position
  | c :: cs =>
    match step s position c with
    | .error e => .error e
    | .ok (s', out) =>
      match run s' (position + 1) cs with
      | .error e => .error e
      | .ok rest => .ok (out ++ rest)

/-- The bytes of a character's UTF-8 form, each as the character of the same number. -/
def bytes (c : Char) : List Char :=
  (String.utf8EncodeChar c).map fun b => Char.ofNat b.toNat

/-- The characters that the inside of a string literal denotes. -/
def decode (cs : List Char) : Except Fault (List Char) :=
  run .plain 0 (cs.flatMap bytes)

/-! ## Messages -/

/-- What a reason is called in a message. -/
def Reason.message : Reason → String
  | .truncatedHex2 => "truncated \\xXX escape"
  | .truncatedHex4 => "truncated \\uXXXX escape"
  | .truncatedHex8 => "truncated \\UXXXXXXXX escape"
  | .illegalCharacter => "illegal Unicode character"
  | .malformedName => "malformed \\N character escape"
  | .unknownName => "unknown Unicode character name"
  | .loneBackslash => "\\ at end of string"

/-- The message for an escape: its bytes, counted from 0, and the reason. -/
def Fault.message (f : Fault) : String :=
  let place :=
    if f.first = f.last then s!"byte 0x5c in position {f.first}"
    else s!"bytes in position {f.first}-{f.last}"
  "'unicodeescape' codec can't decode " ++ place ++ ": " ++ f.reason.message

end Shapewise.Text.Escape
