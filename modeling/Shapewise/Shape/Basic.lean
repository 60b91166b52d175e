import Shapewise.Entries
import Shapewise.NameSet
import Shapewise.Scalar
import Shapewise.Value.Basic

/-!
# Shapes

The type of a result: what a client gets for a selection. An object lists its keys in order, those
that may be absent in a set beside them. A calculation keeps the arguments it was selected with and
the shape its arguments are declared to have.
-/

namespace Shapewise

/-- The type of a result. -/
inductive Shape
  /-- A plain value. -/
  | scalar (type : Scalar)
  /-- One of the given texts. -/
  | literal (values : List String)
  /-- A record; the keys in `optionalKeys` may be absent. -/
  | object (fields : List (String × Shape)) (optionalKeys : NameSet)
  /-- A list of elements of one shape. -/
  | array (element : Shape)
  /-- A value of a shape, or null. -/
  | nullable (inner : Shape)
  /-- The result of a calculation; `arguments` is null where it takes none. -/
  | calculation (result : Shape) (arguments : Value) (argumentShape : Option Shape)
  deriving Inhabited

namespace Shape

/-- A record without keys. -/
def emptyObject : Shape := .object [] .empty

/-- A record with the given fields, none of which may be absent. -/
def record (fields : List (String × Shape)) : Shape := .object fields .empty

/-- A shape or null; what may be null already stays as it is. -/
def orNull : Shape → Shape
  | .nullable s => .nullable s
  | s => .nullable s

@[simp] theorem orNull_orNull (s : Shape) : s.orNull.orNull = s.orNull := by
  cases s <;> rfl

/-- A shape as an element of a list, or nullable, or both: then the list may be null. -/
def wrap (s : Shape) (isArray isNullable : Bool) : Shape :=
  let s := if isArray then .array s else s
  if isNullable then s.orNull else s

/-- The fields of an object, in order; other shapes have none. -/
def fields : Shape → List (String × Shape)
  | .object fields _ => fields
  | _ => []

/-! ## Decidable equality of terms -/

mutual
/-- Whether two shapes are the same term. -/
def same : Shape → Shape → Bool
  | .scalar a, .scalar b => decide (a = b)
  | .literal a, .literal b => decide (a = b)
  | .object fs os, .object gs ps => sameFields fs gs && decide (os = ps)
  | .array a, .array b => same a b
  | .nullable a, .nullable b => same a b
  | .calculation a x s, .calculation b y t => same a b && decide (x = y) && sameOption s t
  | _, _ => false
/-- Whether two lists of fields are the same. -/
def sameFields : List (String × Shape) → List (String × Shape) → Bool
  | [], [] => true
  | (k, a) :: fs, (l, b) :: gs => k == l && same a b && sameFields fs gs
  | _, _ => false
/-- Whether two shapes that may be absent are the same. -/
def sameOption : Option Shape → Option Shape → Bool
  | none, none => true
  | some a, some b => same a b
  | _, _ => false
end

mutual
theorem eq_of_same : ∀ a b : Shape, same a b = true → a = b
  | .scalar _, b, h | .literal _, b, h => by
    cases b <;> simp_all [same]
  | .object fs os, b, h => by
    cases b with
    | object gs ps =>
      simp only [same, Bool.and_eq_true, decide_eq_true_eq] at h
      rw [eq_of_sameFields fs gs h.1, h.2]
    | _ => simp [same] at h
  | .array a, b, h => by
    cases b with
    | array b => rw [eq_of_same a b (by simpa [same] using h)]
    | _ => simp [same] at h
  | .nullable a, b, h => by
    cases b with
    | nullable b => rw [eq_of_same a b (by simpa [same] using h)]
    | _ => simp [same] at h
  | .calculation a x s, b, h => by
    cases b with
    | calculation b y t =>
      simp only [same, Bool.and_eq_true, decide_eq_true_eq] at h
      rw [eq_of_same a b h.1.1, h.1.2, eq_of_sameOption s t h.2]
    | _ => simp [same] at h
theorem eq_of_sameFields : ∀ fs gs : List (String × Shape), sameFields fs gs = true → fs = gs
  | [], gs, h => by cases gs <;> simp_all [sameFields]
  | (k, a) :: fs, gs, h => by
    cases gs with
    | nil => simp [sameFields] at h
    | cons g gs =>
      obtain ⟨l, b⟩ := g
      simp only [sameFields, Bool.and_eq_true, beq_iff_eq] at h
      rw [h.1.1, eq_of_same a b h.1.2, eq_of_sameFields fs gs h.2]
theorem eq_of_sameOption : ∀ s t : Option Shape, sameOption s t = true → s = t
  | none, t, h => by cases t <;> simp_all [sameOption]
  | some a, t, h => by
    cases t with
    | none => simp [sameOption] at h
    | some b => rw [eq_of_same a b (by simpa [sameOption] using h)]
end

mutual
theorem same_refl : ∀ a : Shape, same a a = true
  | .scalar _ | .literal _ => by simp [same]
  | .object fs _ => by simp [same, sameFields_refl fs]
  | .array a | .nullable a => by simpa [same] using same_refl a
  | .calculation a _ s => by simp [same, same_refl a, sameOption_refl s]
theorem sameFields_refl : ∀ fs : List (String × Shape), sameFields fs fs = true
  | [] => rfl
  | (_, a) :: fs => by simp [sameFields, same_refl a, sameFields_refl fs]
theorem sameOption_refl : ∀ s : Option Shape, sameOption s s = true
  | none => rfl
  | some a => by simpa [sameOption] using same_refl a
end

instance : DecidableEq Shape := fun a b =>
  if h : same a b = true then isTrue (eq_of_same a b h)
  else isFalse fun e => h (e ▸ same_refl a)

end Shape

end Shapewise
