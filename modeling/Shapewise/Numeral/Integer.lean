import Shapewise.Text.Class

/-!
# Integers as they are typed

An integer may stand between blanks, may have a sign, and may have digits of any script, with single
underscores between them.
-/

namespace Shapewise.Integer

/-- The digits of a number without the underscores, each of which stands between two digits. -/
def digits? : List Char → Option (List Char)
  | [] => none
  | c :: cs =>
    if Text.isDecimal c then
      match cs with
      | [] => some [c]
      | '_' :: rest => (digits? rest).map (c :: ·)
      | cs => (digits? cs).map (c :: ·)
    else none

/-- A text without the blanks around it. -/
def trim (cs : List Char) : List Char :=
  ((cs.dropWhile Text.isBlank).reverse.dropWhile Text.isBlank).reverse

/-- The integer that a text writes. -/
def read? (cs : List Char) : Option Int :=
  match trim cs with
  | '-' :: ds => (digits? ds).map fun ds => -(Text.numberOfDigits ds : Int)
  | '+' :: ds => (digits? ds).map fun ds => (Text.numberOfDigits ds : Int)
  | ds => (digits? ds).map fun ds => (Text.numberOfDigits ds : Int)

end Shapewise.Integer
