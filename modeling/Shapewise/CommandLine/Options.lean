import Shapewise.Numeral.Integer

/-!
# Command line options

The words of a command line: three words for the schema file, the entity and the selection, and
options anywhere between them. The name of an option may be shortened as long as it means one option
only, and its value is the next word or follows an equals sign. After the word `--` every word is
taken as it is. A word that starts with a hyphen but is a negative number, or holds a space and no
option's name, is no option either. Where `--` itself stands for a value, the value is missing.
-/

namespace Shapewise.CommandLine

/-- What a command line says. A missing value is `none`. -/
structure Options where
  schema : String
  entity : Option String
  selection : Option String
  json : Bool
  /-- The page parameter, if the option is there. -/
  page : Option (Option String)
  offset : Bool
  keyset : Bool
  get : Bool
  maxDepth : Option Int
  verbose : Bool
  deriving DecidableEq, Repr

/-- The options without a value. -/
inductive Switch
  | json
  | offset
  | keyset
  | get
  | verbose
  deriving DecidableEq, Repr

/-- The options with a value. -/
inductive Setting
  | page
  | maxDepth
  deriving DecidableEq, Repr

/-- What the name of an option means. -/
inductive Meaning
  | help
  | switch (s : Switch)
  | setting (s : Setting)
  deriving DecidableEq, Repr

/-- The names of the options. -/
def names : List (String × Meaning) :=
  [("-h", .help), ("--help", .help), ("--json", .switch .json), ("--page", .setting .page),
    ("--offset", .switch .offset), ("--keyset", .switch .keyset), ("--get", .switch .get),
    ("--max-depth", .setting .maxDepth), ("-v", .switch .verbose),
    ("--verbose", .switch .verbose)]

/-- A word of a command line: a plain word, an option with the value after its equals sign, or a
word that cannot be read. -/
inductive Word
  | plain (s : String)
  | option (m : Meaning) (value : Option String)
  | unknown
  deriving DecidableEq, Repr

/-- The option of a name. -/
def meaning? (name : List Char) : Option Meaning :=
  (names.find? fun n => n.1.toList = name).map Prod.snd

/-- The options whose names start with the given characters. -/
def candidates (start : List Char) : List Meaning :=
  (names.filter fun n => start.isPrefixOf n.1.toList).map Prod.snd

/-- The name before an equals sign and the value after it. -/
def splitValue (cs : List Char) : List Char × Option String :=
  let name := cs.takeWhile (· ≠ '=')
  (name, if name.length = cs.length then none else some (String.ofList (cs.drop (name.length + 1))))

/-- Whether a word is a negative number. -/
def isNegativeNumber (cs : List Char) : Bool :=
  match cs with
  | '-' :: cs =>
    let cs := if cs.getLast? = some '\n' then cs.dropLast else cs
    let whole := cs.takeWhile Text.isDecimal
    match cs.drop whole.length with
    | [] => !whole.isEmpty
    | '.' :: fraction => !fraction.isEmpty && fraction.all Text.isDecimal
    | _ => false
  | _ => false

/-- A word that starts like no option: a number or a text with a space is plain. -/
def classifyRest (word : String) : Word :=
  if isNegativeNumber word.toList || word.toList.contains ' ' then .plain word else .unknown

/-- An option of one letter with more letters behind it, which can only repeat it. -/
def classifyLetters (m : Meaning) (letter : Char) (more : List Char) : Word :=
  if more.all (· = letter) then .option m none else .unknown

/-- What a word is. -/
def classify (word : String) : Word :=
  match word.toList with
  | '-' :: c :: cs =>
    match meaning? ('-' :: c :: cs) with
    | some m => .option m none
    | none =>
      let (name, value) := splitValue ('-' :: c :: cs)
      match (if value.isSome then meaning? name else none) with
      | some m =>
        -- Behind the equals sign of an option of one letter stand more letters.
        let more := if c = '-' then [] else cs.drop 1
        if more.isEmpty then .option m value else classifyLetters m c more
      | none =>
        if c = '-' then
          match candidates name with
          | [m] => .option m value
          | [] => classifyRest word
          | _ => .unknown
        else
          match meaning? ['-', c] with
          | some m => classifyLetters m c cs
          | none => classifyRest word
  | _ => .plain word

/-! ## Reading the words -/

/-- The text that a word gives for a value. -/
def given (word : String) : Option String :=
  if word = "--" then none else some word

/-- What has been read: the plain words, how many of them follow the last option, and the options. -/
structure Progress where
  plain : List String
  sinceOption : Nat
  json : Bool
  page : Option (Option String)
  offset : Bool
  keyset : Bool
  get : Bool
  maxDepth : Option Int
  verbose : Bool

/-- Nothing has been read. -/
def Progress.initial : Progress :=
  ⟨[], 0, false, none, false, false, false, some 32, false⟩

namespace Progress

/-- Takes a plain word. -/
def addPlain (p : Progress) (word : String) : Progress :=
  { p with plain := p.plain ++ [word], sinceOption := p.sinceOption + 1 }

/-- Takes an option without a value. -/
def turnOn (p : Progress) (s : Switch) : Progress :=
  let p := { p with sinceOption := 0 }
  match s with
  | .json => { p with json := true }
  | .offset => { p with offset := true }
  | .keyset => { p with keyset := true }
  | .get => { p with get := true }
  | .verbose => { p with verbose := true }

/-- Takes an option with its value. -/
def assign (p : Progress) (s : Setting) (value : String) : Option Progress :=
  let p := { p with sinceOption := 0 }
  match s with
  | .page => some { p with page := some (given value) }
  | .maxDepth =>
    match given value with
    | none => some { p with maxDepth := none }
    | some text => (Integer.read? text.toList).map fun n => { p with maxDepth := some n }

/-- Takes words that are not after `--`. -/
def addWords (p : Progress) : List Word → Option Progress
  | [] => some p
  | .plain word :: rest => (p.addPlain word).addWords rest
  | .option (.switch s) none :: rest => (p.turnOn s).addWords rest
  | .option (.setting s) (some value) :: rest => (p.assign s value).bind (·.addWords rest)
  | .option (.setting s) none :: .plain value :: rest => (p.assign s value).bind (·.addWords rest)
  | _ => none

/-- The texts of the plain words in front of `--` and behind it. The first `--` belongs to the
plain word in front of it, or to the word behind it where no plain word is right in front; the word
behind is then taken as it is. Every other `--` stands for a value. -/
def allPlain (p : Progress) (behind : Option (List String)) : Option (List (Option String)) :=
  let front := p.plain.map some
  match behind with
  | none => some front
  | some words =>
    if p.plain.length = 3 ∧ p.sinceOption = 0 then none
    else
      match p.sinceOption, words with
      | 0, word :: rest => some (front ++ some word :: rest.map given)
      | _, words => some (front ++ words.map given)

/-- What a command line says, given the words behind `--`. -/
def options? (p : Progress) (behind : Option (List String)) : Option Options :=
  match p.allPlain behind with
  | some [some schema, entity, selection] =>
    some ⟨schema, entity, selection, p.json, p.page, p.offset, p.keyset, p.get, p.maxDepth,
      p.verbose⟩
  | _ => none

end Progress

/-- What a command line says, if it can be read. -/
def Options.ofWords? (words : List String) : Option Options :=
  let front := words.takeWhile (· ≠ "--")
  let behind :=
    if front.length = words.length then none else some (words.drop (front.length + 1))
  (Progress.initial.addWords (front.map classify)).bind (·.options? behind)

end Shapewise.CommandLine
