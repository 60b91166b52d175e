import Shapewise.Text.Class
import Shapewise.Text.Position
import Shapewise.Value.Basic

/-!
# Reading values from JSON text

A value is read by a machine that keeps the arrays and objects that are still open and what may
come next. Besides the standard the reader takes `NaN`, `Infinity` and `-Infinity`; an object that
repeats a name keeps the last value in the first place. The first fault ends the reading.
-/

namespace Shapewise.Json

/-- Why a text is not JSON. -/
inductive Reason
  | byteOrderMark
  | expectingValue
  | expectingName
  | expectingColon
  | expectingComma
  | extraData
  | unterminatedText
  | controlCharacter
  | badEscape
  | badUnicodeEscape
  deriving DecidableEq, Repr

/-- What a reason is called in a message. -/
def Reason.message : Reason → String
  | .byteOrderMark => "Unexpected UTF-8 BOM (decode using utf-8-sig)"
  | .expectingValue => "Expecting value"
  | .expectingName => "Expecting property name enclosed in double quotes"
  | .expectingColon => "Expecting ':' delimiter"
  | .expectingComma => "Expecting ',' delimiter"
  | .extraData => "Extra data"
  | .unterminatedText => "Unterminated string starting at"
  | .controlCharacter => "Invalid control character at"
  | .badEscape => "Invalid \\escape"
  | .badUnicodeEscape => "Invalid \\uXXXX escape"

/-- A fault and the position of the character at which it is reported. -/
structure Fault where
  reason : Reason
  position : Nat
  deriving DecidableEq, Repr

/-- The message for a fault in a text, with the line and the column of its position. -/
def Fault.message (f : Fault) (text : List Char) : String :=
  let line := Text.lineAt text f.position
  let column := Text.columnAt text f.position
  s!"{f.reason.message}: line {line} column {column} (char {f.position})"

/-! ## Texts -/

/-- A piece of a text: a character, or a 16-bit unit from an escape. -/
inductive Piece
  | char (c : Char)
  | unit (n : Nat)

/-- The characters of the pieces: a high unit and the low unit after it are one character. -/
def joinPieces : List Piece → List Char
  | [] => []
  | .char c :: ps => c :: joinPieces ps
  | .unit h :: .unit l :: ps =>
    if 0xd800 ≤ h ∧ h < 0xdc00 ∧ 0xdc00 ≤ l ∧ l < 0xe000 then
      Char.ofNat (0x10000 + (h - 0xd800) * 0x400 + (l - 0xdc00)) :: joinPieces ps
    else unitChar h :: joinPieces (.unit l :: ps)
  | .unit h :: ps => unitChar h :: joinPieces ps
where
  /-- The character of a unit that stands alone; half a pair is shown as a replacement. -/
  unitChar (n : Nat) : Char := if n.isValidChar then Char.ofNat n else '\ufffd'

/-- The characters of the one-letter escapes. -/
def escape? : Char → Option Char
  | '"' => some '"'
  | '\\' => some '\\'
  | '/' => some '/'
  | 'b' => some '\x08'
  | 'f' => some '\x0c'
  | 'n' => some '\n'
  | 'r' => some '\r'
  | 't' => some '\t'
  | _ => none

/-- The unit that four hexadecimal digits write. -/
def unitOfDigits? (a b c d : Char) : Option Nat := do
  let a ← Text.hexValue? a
  let b ← Text.hexValue? b
  let c ← Text.hexValue? c
  let d ← Text.hexValue? d
  return ((a * 16 + b) * 16 + c) * 16 + d

/-- The rest of the text and the position at which it starts. -/
structure Rest where
  position : Nat
  chars : List Char

/-- Reads the pieces of a text up to its closing quote; `start` is the opening one. -/
def readPieces (start position : Nat) : List Char → Except Fault (List Piece × Rest)
  | [] => .error ⟨.unterminatedText, start⟩
  | '\\' :: 'u' :: a :: b :: c :: d :: cs =>
    match unitOfDigits? a b c d with
    | none => .error ⟨.badUnicodeEscape, position + 1⟩
    | some n =>
      if cs.isEmpty then .error ⟨.badUnicodeEscape, position + 1⟩
      else do
        let (ps, rest) ← readPieces start (position + 6) cs
        return (.unit n :: ps, rest)
  | ['\\'] => .error ⟨.unterminatedText, start⟩
  | '\\' :: c :: cs =>
    match escape? c with
    | some e => do
      let (ps, rest) ← readPieces start (position + 2) cs
      return (.char e :: ps, rest)
    | none =>
      if c = 'u' then .error ⟨.badUnicodeEscape, position + 1⟩ else .error ⟨.badEscape, position⟩
  | c :: cs =>
    if c = '"' then .ok ([], ⟨position + 1, cs⟩)
    else if c.toNat < 0x20 then .error ⟨.controlCharacter, position⟩
    else do
      let (ps, rest) ← readPieces start (position + 1) cs
      return (.char c :: ps, rest)

/-- Reads a text whose opening quote stands before the rest. -/
def readText (rest : Rest) : Except Fault (String × Rest) := do
  let (ps, rest) ← readPieces (rest.position - 1) rest.position rest.chars
  return (String.ofList (joinPieces ps), rest)

/-! ## Numbers and words -/

/-- The digits at the front of a list and what follows them. -/
def digits (cs : List Char) : List Char × List Char :=
  cs.span Text.isDigit

/-- The digits of a whole number: a zero alone, or digits that start with no zero. -/
def wholeDigits (cs : List Char) : List Char × List Char :=
  match cs with
  | '0' :: cs => (['0'], cs)
  | cs => digits cs

/-- The digits after a point, where a digit follows the point. -/
def fractionDigits (cs : List Char) : List Char × List Char :=
  match cs with
  | '.' :: cs' =>
    let (ds, rest) := digits cs'
    if ds.isEmpty then ([], cs) else (ds, rest)
  | cs => ([], cs)

/-- The exponent, where a digit follows the letter and its sign. -/
def exponent? (cs : List Char) : Option Int × List Char :=
  match cs with
  | e :: cs' =>
    if e = 'e' || e = 'E' then
      let (negative, ds) :=
        match cs' with
        | '-' :: ds => (true, ds)
        | '+' :: ds => (false, ds)
        | ds => (false, ds)
      let (ds, rest) := digits ds
      if ds.isEmpty then (none, cs)
      else
        let n : Int := Text.numberOfDigits ds
        (some (if negative then -n else n), rest)
    else (none, cs)
  | [] => (none, cs)

/-- Reads a number; it is an integer unless it has a fraction or an exponent. -/
def number? (cs : List Char) : Option (Value × List Char) :=
  let (negative, cs) :=
    match cs with
    | '-' :: cs => (true, cs)
    | cs => (false, cs)
  let (whole, cs) := wholeDigits cs
  if whole.isEmpty then none
  else
    let (fraction, cs) := fractionDigits cs
    let (exponent, cs) := exponent? cs
    if fraction.isEmpty && exponent.isNone then
      let n : Int := Text.numberOfDigits whole
      some (.int (if negative then -n else n), cs)
    else
      some (.float (Binary64.ofDecimal negative (Text.numberOfDigits (whole ++ fraction))
        (exponent.getD 0 - fraction.length)), cs)

/-- What follows a word at the front of a list. -/
def word? (word : String) (cs : List Char) : Option (List Char) :=
  if word.toList.isPrefixOf cs then some (cs.drop word.length) else none

/-- The words that are values. -/
def words : List (String × Value) :=
  [("null", .null), ("true", .bool true), ("false", .bool false), ("NaN", .float .nan),
    ("Infinity", .float (.infinite false)), ("-Infinity", .float (.infinite true))]

/-- Reads a word or a number. -/
def atom? (cs : List Char) : Option (Value × List Char) :=
  match words.findSome? fun w => (word? w.1 cs).map (w.2, ·) with
  | some found => some found
  | none => number? cs

/-! ## Arrays and objects -/

/-- An array or object that is still open: the items so far, last one first, or the entries so far
and the name whose value is being read. -/
inductive Container
  | array (items : List Value)
  | object (entries : List (String × Value)) (key : String)

/-- What may come next. -/
inductive Expect
  | value
  | firstItem
  | name (entries : List (String × Value)) (first : Bool)
  | colon (entries : List (String × Value)) (key : String)
  | after (v : Value)

/-- The containers that are open, the innermost one first, and what may come next. -/
structure State where
  outer : List Container
  expect : Expect

/-- Whether a character is skipped between the parts of a value. -/
def isSpace (c : Char) : Bool :=
  c = ' ' || c = '\t' || c = '\n' || c = '\r'

/-- The rest after the space at its front. -/
def Rest.skip (r : Rest) : Rest :=
  let (space, cs) := r.chars.span isSpace
  ⟨r.position + space.length, cs⟩

/-- Reads the start of a value: all of it, or what opens an array or object. -/
def startValue (outer : List Container) (r : Rest) : Except Fault (State × Rest) :=
  match r.chars with
  | '"' :: cs => do
    let (s, rest) ← readText ⟨r.position + 1, cs⟩
    return (⟨outer, .after (.str s)⟩, rest)
  | '[' :: cs => .ok (⟨.array [] :: outer, .firstItem⟩, ⟨r.position + 1, cs⟩)
  | '{' :: cs => .ok (⟨outer, .name [] true⟩, ⟨r.position + 1, cs⟩)
  | cs =>
    match atom? cs with
    | some (v, rest) =>
      .ok (⟨outer, .after v⟩, ⟨r.position + (cs.length - rest.length), rest⟩)
    | none => .error ⟨.expectingValue, r.position⟩

/-- Reads the next part of a value; space has been skipped. -/
def step (s : State) (r : Rest) : Except Fault (State × Rest) :=
  let next := r.position + 1
  match s.expect, s.outer, r.chars with
  | .value, outer, _ => startValue outer r
  | .firstItem, .array _ :: outer, ']' :: cs => .ok (⟨outer, .after (.list [])⟩, ⟨next, cs⟩)
  | .firstItem, outer, _ => startValue outer r
  | .name _ true, outer, '}' :: cs => .ok (⟨outer, .after (.obj [])⟩, ⟨next, cs⟩)
  | .name entries _, outer, '"' :: cs => do
    let (key, rest) ← readText ⟨next, cs⟩
    return (⟨outer, .colon entries key⟩, rest)
  | .name _ _, _, _ => .error ⟨.expectingName, r.position⟩
  | .colon entries key, outer, ':' :: cs =>
    .ok (⟨.object entries key :: outer, .value⟩, ⟨next, cs⟩)
  | .colon _ _, _, _ => .error ⟨.expectingColon, r.position⟩
  | .after v, .array items :: outer, ',' :: cs =>
    .ok (⟨.array (v :: items) :: outer, .value⟩, ⟨next, cs⟩)
  | .after v, .array items :: outer, ']' :: cs =>
    .ok (⟨outer, .after (.list (v :: items).reverse)⟩, ⟨next, cs⟩)
  | .after v, .object entries key :: outer, ',' :: cs =>
    .ok (⟨outer, .name (Entries.put entries key v) false⟩, ⟨next, cs⟩)
  | .after v, .object entries key :: outer, '}' :: cs =>
    .ok (⟨outer, .after (.obj (Entries.put entries key v))⟩, ⟨next, cs⟩)
  | .after _, [], _ => .error ⟨.extraData, r.position⟩
  | .after _, _ :: _, _ => .error ⟨.expectingComma, r.position⟩

/-- Reads on until the value is complete and the text is at its end. Every step takes a character,
so as many steps as there are characters are enough. -/
def run : Nat → State → Rest → Except Fault Value
  | steps, s, r =>
    let r := r.skip
    match s.expect, s.outer, r.chars with
    | .after v, [], [] => .ok v
    | _, _, _ =>
      match steps with
      | 0 => step s r |>.bind fun _ => .error ⟨.expectingValue, r.position⟩
      | steps + 1 => step s r |>.bind fun (s', r') => run steps s' r'

/-- Reads a text that is one value. -/
def read (text : List Char) : Except Fault Value :=
  match text with
  | '\ufeff' :: _ => .error ⟨.byteOrderMark, 0⟩
  | _ => run text.length ⟨[], .value⟩ ⟨0, text⟩

end Shapewise.Json
