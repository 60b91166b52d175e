import Shapewise.Shape.Equality
import Shapewise.Shape.Render

/-!
# Merging shapes

What is picked several times is merged: objects key by key, arrays, nullables and calculations by
their parts. The left shape is kept where the two are equal, and its keys come first. A key of a
merged object may be absent only where no side requires it. Everything else is a conflict.
-/

namespace Shapewise.Shape

/-- Why two shapes cannot be merged. -/
inductive Conflict
  /-- Two calculations with different arguments. -/
  | arguments
  /-- Two shapes that have no common form. -/
  | shapes (left right : Shape)
  deriving DecidableEq

/-- The message for a conflict. -/
def Conflict.message : Conflict → String
  | .arguments => "Cannot merge calculations selected with different arguments"
  | .shapes left right => "Cannot merge " ++ left.render ++ " with " ++ right.render

/-- Whether an object requires a key. -/
def requires (fields : List (String × Shape)) (optionalKeys : NameSet) (key : String) : Bool :=
  Entries.has fields key && key ∉ optionalKeys

/-- The keys of a merged object that may be absent: those that neither side requires. -/
def mergeOptional (left : List (String × Shape)) (leftOptional : NameSet)
    (right : List (String × Shape)) (rightOptional : NameSet)
    (merged : List (String × Shape)) : NameSet :=
  .ofList ((Entries.keys merged).filter fun k =>
    !requires left leftOptional k && !requires right rightOptional k)

mutual
/-- Merges two shapes. -/
def merge (left right : Shape) : Except Conflict Shape :=
  if Equal left right then .ok left
  else
    match left, right with
    | .object fs os, .object gs ps => do
      let merged ← mergeFields fs gs
      return .object merged (mergeOptional fs os gs ps merged)
    | .array a, .array b => return .array (← merge a b)
    | .nullable a, .nullable b => return .nullable (← merge a b)
    | .calculation a x s, .calculation b y _ =>
      if x.Equal y then return .calculation (← merge a b) x s else .error .arguments
    | left, right => .error (.shapes left right)
termination_by structural right
/-- Merges fields into those of an object, one after the other. -/
def mergeFields (fields : List (String × Shape)) :
    List (String × Shape) → Except Conflict (List (String × Shape))
  | [] => .ok fields
  | (k, s) :: rest =>
    match Entries.get? fields k with
    | some old => do mergeFields (Entries.put fields k (← merge old s)) rest
    | none => mergeFields (Entries.put fields k s) rest
termination_by structural rest => rest
end

theorem merge_of_equal {left right : Shape} (h : Equal left right) : merge left right = .ok left := by
  rw [merge.eq_def, if_pos h]

@[simp] theorem merge_self (s : Shape) : merge s s = .ok s :=
  merge_of_equal (.refl s)

/-- Merges shapes from left to right, starting from the object without keys. -/
def mergeAll (shapes : List Shape) : Except Conflict Shape :=
  shapes.foldlM merge emptyObject

end Shapewise.Shape
