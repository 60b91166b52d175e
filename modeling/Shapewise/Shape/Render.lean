import Shapewise.Shape.Basic

/-!
# The text of a shape

A shape is written as the text of a type: `{id: string, tags?: Array<string> | null}`. A calculation
is written as its result.
-/

namespace Shapewise.Shape

/-- The mark of a key that may be absent. -/
def keyMark (optionalKeys : NameSet) (key : String) : String :=
  if key ∈ optionalKeys then "?" else ""

mutual
/-- The text of a shape. -/
def render : Shape → String
  | .scalar type => type.name
  | .literal values => String.intercalate " | " (values.map fun v => "\"" ++ v ++ "\"")
  | .object fields optionalKeys =>
    "\x7b" ++ String.intercalate ", " (renderFields optionalKeys fields) ++ "\x7d"
  | .array element => "Array<" ++ render element ++ ">"
  | .nullable inner => render inner ++ " | null"
  | .calculation result _ _ => render result
/-- The texts of an object's fields. -/
def renderFields (optionalKeys : NameSet) : List (String × Shape) → List String
  | [] => []
  | (k, s) :: fs => (k ++ keyMark optionalKeys k ++ ": " ++ render s) :: renderFields optionalKeys fs
end

end Shapewise.Shape
