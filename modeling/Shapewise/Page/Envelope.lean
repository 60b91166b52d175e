import Shapewise.Shape.Basic

/-!
# Page envelopes

A page of records is a record of its own around the list: the list under `results` and, beside it,
what a client needs to ask for the next page. An offset page is found by counting, a keyset page by
a cursor.
-/

namespace Shapewise

/-- The two kinds of pages. -/
inductive PageFlavor
  | offset
  | keyset
  deriving DecidableEq, Repr

namespace PageFlavor

/-- The word for a kind of page. -/
def name : PageFlavor → String
  | .offset => "offset"
  | .keyset => "keyset"

/-- The shape of a page of records around the shape of the list. -/
def envelope (flavor : PageFlavor) (base : Shape) : Shape :=
  match flavor with
  | .offset => .object
      [("results", base), ("hasMore", .scalar .boolean), ("limit", .scalar .number),
        ("offset", .scalar .number), ("count", .nullable (.scalar .number)),
        ("type", .literal ["offset"])]
      (.ofList ["count"])
  | .keyset => .object
      [("results", base), ("hasMore", .scalar .boolean), ("limit", .scalar .number),
        ("after", .nullable (.scalar .string)), ("before", .nullable (.scalar .string)),
        ("previousPage", .scalar .string), ("nextPage", .scalar .string),
        ("count", .nullable (.scalar .number)), ("type", .literal ["keyset"])]
      (.ofList ["count"])

end PageFlavor

end Shapewise
