import Shapewise.Proofs.Text.Escape
import Shapewise.Selection.Reading

/-!
# Trees of selection text

What selection text can say: names, blocks and calls with arguments. A tree has a value, which is
the selection that it stands for, and a printed form. Names are printed in backticks, texts as
escapes and numbers in decimal, so that every name and every text has one.
-/

namespace Shapewise.Selection

/-- A name that fits between backticks. -/
structure Name where
  text : String
  ne_nil : text.toList ≠ []
  no_backtick : '`' ∉ text.toList

/-- The value of an argument; there are no fractions and no objects. -/
inductive Literal
  | text (s : String)
  | int (i : Int)
  | bool (b : Bool)
  | null
  | list (items : List Literal)

/-- Arguments, each with its own name. -/
structure Supplied where
  entries : List (Name × Literal)
  distinct : (entries.map fun e => e.1.text).Nodup

/-- A field. -/
inductive Item
  | name (n : Name)
  | block (n : Name) (items : List Item)
  | call (n : Name) (arguments : Supplied)
  | callBlock (n : Name) (arguments : Supplied) (items : List Item)

/-! ## The selection that a tree stands for -/

namespace Literal

mutual
/-- The value of a literal. -/
def value : Literal → Value
  | .text s => .str s
  | .int i => .int i
  | .bool b => .bool b
  | .null => .null
  | .list items => .list (values items)
/-- The values of literals. -/
def values : List Literal → List Value
  | [] => []
  | l :: ls => value l :: values ls
end

end Literal

/-- The values of arguments under their names. -/
def argumentValues (es : List (Name × Literal)) : List (String × Value) :=
  es.map fun e => (e.1.text, e.2.value)

/-- The entries of arguments. -/
def Supplied.values (a : Supplied) : List (String × Value) :=
  argumentValues a.entries

namespace Item

mutual
/-- The field as it stands in a selection. -/
def value : Item → Value
  | .name n => .str n.text
  | .block n items => .obj [(n.text, .list (values items))]
  | .call n arguments => .obj [(n.text, .obj [("args", .obj arguments.values)])]
  | .callBlock n arguments items =>
    .obj [(n.text, .obj [("args", .obj arguments.values), ("fields", .list (values items))])]
/-- The fields as they stand in a selection. -/
def values : List Item → List Value
  | [] => []
  | i :: is => value i :: values is
end

end Item

/-! ## Printing -/

/-- Parts with a comma and a space between them. -/
def joined (parts : List (List Char)) : List Char :=
  List.intercalate [',', ' '] parts

@[simp] theorem joined_singleton (p : List Char) : joined [p] = p := by
  simp [joined]

theorem joined_cons_cons (p q : List Char) (ps : List (List Char)) :
    joined (p :: q :: ps) = p ++ ',' :: ' ' :: joined (q :: ps) := by
  simp [joined, List.intercalate]

/-- A name in backticks. -/
def Name.print (n : Name) : List Char :=
  '`' :: n.text.toList ++ ['`']

namespace Literal

mutual
/-- The text of a literal. -/
def print : Literal → List Char
  | .text s => '"' :: s.toList.flatMap Text.Escape.escaped ++ ['"']
  | .int i => (toString i).toList
  | .bool true => ['t', 'r', 'u', 'e']
  | .bool false => ['f', 'a', 'l', 's', 'e']
  | .null => ['n', 'u', 'l', 'l']
  | .list items => '[' :: joined (printEach items) ++ [']']
/-- The texts of literals. -/
def printEach : List Literal → List (List Char)
  | [] => []
  | l :: ls => print l :: printEach ls
end

end Literal

/-- An argument with its name. -/
def printArgument (e : Name × Literal) : List Char :=
  e.1.print ++ ':' :: e.2.print

/-- Arguments in parentheses. -/
def Supplied.print (a : Supplied) : List Char :=
  '(' :: joined (a.entries.map printArgument) ++ [')']

namespace Item

mutual
/-- The text of a field. -/
def print : Item → List Char
  | .name n => n.print
  | .block n items => n.print ++ ('{' :: joined (printEach items) ++ ['}'])
  | .call n arguments => n.print ++ arguments.print
  | .callBlock n arguments items =>
    n.print ++ arguments.print ++ ('{' :: joined (printEach items) ++ ['}'])
/-- The texts of fields. -/
def printEach : List Item → List (List Char)
  | [] => []
  | i :: is => print i :: printEach is
end

/-- The text of a selection. -/
def printAll (items : List Item) : List Char :=
  joined (printEach items)

example : printAll [.name ⟨"id", by decide, by decide⟩, .call ⟨"rank", by decide, by decide⟩
    ⟨[(⟨"by", by decide, by decide⟩, .list [.int (-7), .null])], by decide⟩] =
    "`id`, `rank`(`by`:[-7, null])".toList := by
  decide

end Item

/-! ## The tokens of the printed form -/

/-- Tokens with a comma between them. -/
def separated (parts : List (List Token)) : List Token :=
  List.intercalate [.comma] parts

@[simp] theorem separated_singleton (ts : List Token) : separated [ts] = ts := by
  simp [separated]

theorem separated_cons_cons (ts us : List Token) (tss : List (List Token)) :
    separated (ts :: us :: tss) = ts ++ .comma :: separated (us :: tss) := by
  simp [separated, List.intercalate]

namespace Literal

mutual
/-- The tokens of a literal. -/
def tokens : Literal → List Token
  | .text s => [.text s]
  | .int i => [.int i]
  | .bool b => [.bool b]
  | .null => [.null]
  | .list items => .openBracket :: separated (tokensEach items) ++ [.closeBracket]
/-- The tokens of each literal. -/
def tokensEach : List Literal → List (List Token)
  | [] => []
  | l :: ls => tokens l :: tokensEach ls
end

end Literal

/-- The tokens of an argument. -/
def argumentTokens (e : Name × Literal) : List Token :=
  .name e.1.text :: .colon :: e.2.tokens

/-- The tokens of arguments. -/
def Supplied.tokens (a : Supplied) : List Token :=
  .openParen :: separated (a.entries.map argumentTokens) ++ [.closeParen]

namespace Item

mutual
/-- The tokens of a field. -/
def tokens : Item → List Token
  | .name n => [.name n.text]
  | .block n items => .name n.text :: .openBrace :: separated (tokensEach items) ++ [.closeBrace]
  | .call n arguments => .name n.text :: arguments.tokens
  | .callBlock n arguments items =>
    .name n.text :: arguments.tokens ++
      (.openBrace :: separated (tokensEach items) ++ [.closeBrace])
/-- The tokens of each field. -/
def tokensEach : List Item → List (List Token)
  | [] => []
  | i :: is => tokens i :: tokensEach is
end

end Item

end Shapewise.Selection
