import Shapewise.Numeral.Shortest
import Shapewise.Text.Quoted
import Shapewise.Value.Basic

/-!
# Values in messages

How a value is shown in an error message: texts quoted, truth values and the absent value with a
capital letter, numbers in their shortest form, lists in brackets and objects in braces.
-/

namespace Shapewise.Value

mutual
/-- A value as it is shown in messages. -/
def display : Value → String
  | .null => "None"
  | .bool true => "True"
  | .bool false => "False"
  | .int i => toString i
  | .float x => x.text
  | .str s => Text.Quoted.encode s
  | .list items => "[" ++ String.intercalate ", " (displayItems items) ++ "]"
  | .obj entries => "\x7b" ++ String.intercalate ", " (displayEntries entries) ++ "\x7d"
/-- The items of a list as they are shown. -/
def displayItems : List Value → List String
  | [] => []
  | v :: vs => display v :: displayItems vs
/-- The entries of an object as they are shown. -/
def displayEntries : List (String × Value) → List String
  | [] => []
  | (k, v) :: es => (Text.Quoted.encode k ++ ": " ++ display v) :: displayEntries es
end

end Shapewise.Value
