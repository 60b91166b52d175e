import Shapewise.Page.Choice
import Shapewise.Selection.Describe

/-!
# Read actions

A read action gives one record of an entity, or null, or it gives a list of records, possibly in
pages. The selection is looked at before the page parameter.
-/

namespace Shapewise

/-- A read action over an entity. -/
structure ReadAction where
  name : String
  entity : EntityId
  /-- Gives one record rather than a list. -/
  single : Bool
  offset : Bool
  keyset : Bool
  /-- Always gives a page. -/
  required : Bool
  deriving DecidableEq, Repr

namespace ReadAction

/-- Whether there are pages. -/
def isPaginated (a : ReadAction) : Bool :=
  a.offset || a.keyset

/-- The envelopes of an action. -/
def envelopes (a : ReadAction) : Envelopes :=
  .standard a.offset a.keyset

/-- The shape of what an action gives, without a page around it. -/
def recordShape (a : ReadAction) (g : Graph) (limits : Limits) (selection : Value) :
    Except Selection.DescribeFault Shape :=
  if a.single then do return (← Selection.describe g limits a.entity selection).orNull
  else Selection.describeCollection g limits a.entity selection

/-- What is chosen for the page parameter of a request. -/
def choice (a : ReadAction) (page : Value) : Except SelectionFault PageChoice :=
  if a.single then
    match page with
    | .null => .ok .bare
    | _ => .error (pageFault (.singleRecord a.name))
  else (choosePage a.envelopes.flavors a.required page).mapError pageFault

/-- The shape of what an action gives for a request. -/
def resultShape (a : ReadAction) (g : Graph) (limits : Limits) (selection page : Value) :
    Except Selection.DescribeFault Shape := do
  let base ← a.recordShape g limits selection
  let choice ← (a.choice page).mapError .refused
  return a.envelopes.apply choice base

end ReadAction

end Shapewise
