/-!
# Positions in a text

Lines and columns, both counted from 1, of the characters of a text, which are counted from 0. A
line ends with a line feed.
-/

namespace Shapewise.Text

/-- The line of a position: 1 and the line feeds before it. -/
def lineAt (text : List Char) (position : Nat) : Nat :=
  (text.take position).count '\n' + 1

/-- The column of a position: 1 and the characters between it and the line feed before it. -/
def columnAt (text : List Char) (position : Nat) : Nat :=
  ((text.take position).reverse.takeWhile (· ≠ '\n')).length + 1

end Shapewise.Text
