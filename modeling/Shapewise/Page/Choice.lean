import Shapewise.Page.Envelope
import Shapewise.Selection.Fault

/-!
# Choosing a page envelope

A request may carry a page parameter, an object of `limit`, `offset`, `count`, `after` and `before`.
Where an action has both kinds of pages the keys tell which one is meant: a cursor means a keyset
page, of which `limit` is the size, and anything else an offset page. Where it has one kind, that one
is meant whatever known keys there are.
-/

namespace Shapewise

/-- The keys of an offset page. -/
def offsetKeys : List String := ["limit", "offset", "count"]

/-- The keys of a keyset page. -/
def keysetKeys : List String := ["after", "before"]

/-- Keys that no page has. -/
def unknownPageKeys (keys : List String) : NameSet :=
  .ofList (keys.filter fun k => k ∉ offsetKeys ∧ k ∉ keysetKeys)

/-- The kind of page that keys mean, if they mean one. -/
def classifyPage (keys : List String) : Except PageFault (Option PageFlavor) :=
  let isKeyset := keys.any (· ∈ keysetKeys)
  if !(unknownPageKeys keys).names.isEmpty then .error (.unknownKeys (unknownPageKeys keys).names)
  else if isKeyset && keys.any (fun k => k = "offset" || k = "count") then .error .mixed
  else if isKeyset then .ok (some .keyset)
  else if keys.any (· ∈ offsetKeys) then .ok (some .offset)
  else .ok none

/-- What is chosen for a request. -/
inductive PageChoice
  /-- The bare list. -/
  | bare
  /-- The only kind of page, for a request without a page parameter. -/
  | always (flavor : PageFlavor)
  /-- The only kind of page, for a request with one. -/
  | only (flavor : PageFlavor)
  /-- The kind of page that the keys mean. -/
  | byKeys (flavor : PageFlavor) (keys : NameSet)
  deriving DecidableEq

/-- The kind of page that is chosen. -/
def PageChoice.flavor? : PageChoice → Option PageFlavor
  | .bare => none
  | .always flavor => some flavor
  | .only flavor => some flavor
  | .byKeys flavor _ => some flavor

/-- Chooses for a request without a page parameter. -/
def chooseWithout (flavors : List PageFlavor) (required : Bool) : Except PageFault PageChoice :=
  match required, flavors with
  | false, _ => .ok .bare
  | true, [flavor] => .ok (.always flavor)
  | true, _ => .error .required

/-- Chooses for a request with the keys of a page parameter. -/
def chooseWith (flavors : List PageFlavor) (keys : List String) : Except PageFault PageChoice :=
  match flavors with
  | [] => .error .notPaginated
  | [flavor] =>
    if (unknownPageKeys keys).names.isEmpty then .ok (.only flavor)
    else .error (.unknownKeys (unknownPageKeys keys).names)
  | _ => do
    match ← classifyPage keys with
    | some flavor => return .byKeys flavor (.ofList keys)
    | none => .error .noFlavor

/-- Chooses for a page parameter, null standing for none, among the kinds of pages of an action. -/
def choosePage (flavors : List PageFlavor) (required : Bool) (page : Value) :
    Except PageFault PageChoice :=
  match page with
  | .null => chooseWithout flavors required
  | .obj entries => chooseWith flavors (Entries.keys entries)
  | v => .error (.notObject v.typeName)

/-- A fault of the page parameter as a fault of the request. -/
def pageFault (f : PageFault) : SelectionFault :=
  ⟨["page"], .pagination f⟩

/-! ## Applying a choice -/

/-- The envelopes of an action: one for each kind of page that it has. -/
structure Envelopes where
  offset : Option (Shape → Shape)
  keyset : Option (Shape → Shape)

namespace Envelopes

/-- The envelope of a kind of page. -/
def get? (e : Envelopes) : PageFlavor → Option (Shape → Shape)
  | .offset => e.offset
  | .keyset => e.keyset

/-- The kinds of pages that there are. -/
def flavors (e : Envelopes) : List PageFlavor :=
  [PageFlavor.offset, .keyset].filter fun f => (e.get? f).isSome

/-- The standard envelopes of the given kinds of pages. -/
def standard (offset keyset : Bool) : Envelopes :=
  { offset := if offset then some (PageFlavor.envelope .offset) else none
    keyset := if keyset then some (PageFlavor.envelope .keyset) else none }

/-- The shape of a list within what was chosen. -/
def apply (e : Envelopes) (choice : PageChoice) (base : Shape) : Shape :=
  match choice.flavor?.bind e.get? with
  | some envelope => envelope base
  | none => base

/-- The shape of a list, or of the page that a page parameter means. -/
def resolve (e : Envelopes) (required : Bool) (page : Value) (base : Shape) :
    Except SelectionFault Shape := do
  let choice ← (choosePage e.flavors required page).mapError pageFault
  return e.apply choice base

end Envelopes

end Shapewise
