import Shapewise.Entries
import Shapewise.Numeral.Binary64

/-!
# Values

What a request is made of: selections, calculation arguments and page parameters are values. An
object keeps its entries in the order in which they were written.
-/

namespace Shapewise

/-- A value of a request. -/
inductive Value
  | null
  | bool (b : Bool)
  | int (i : Int)
  | float (x : Binary64)
  | str (s : String)
  | list (items : List Value)
  | obj (entries : List (String × Value))
  deriving Inhabited

namespace Value

/-! ## Decidable equality of terms -/

mutual
/-- Whether two values are the same term. -/
def same : Value → Value → Bool
  | .null, .null => true
  | .bool a, .bool b => a == b
  | .int a, .int b => a == b
  | .float a, .float b => decide (a = b)
  | .str a, .str b => a == b
  | .list xs, .list ys => sameItems xs ys
  | .obj es, .obj fs => sameEntries es fs
  | _, _ => false
/-- Whether two lists hold the same terms. -/
def sameItems : List Value → List Value → Bool
  | [], [] => true
  | x :: xs, y :: ys => same x y && sameItems xs ys
  | _, _ => false
/-- Whether two lists of entries are the same. -/
def sameEntries : List (String × Value) → List (String × Value) → Bool
  | [], [] => true
  | (k, x) :: es, (l, y) :: fs => k == l && same x y && sameEntries es fs
  | _, _ => false
end

mutual
theorem eq_of_same : ∀ a b : Value, same a b = true → a = b
  | .null, b, h | .bool _, b, h | .int _, b, h | .float _, b, h | .str _, b, h => by
    cases b <;> simp_all [same]
  | .list xs, b, h => by
    cases b with
    | list ys => rw [eq_of_sameItems xs ys (by simpa [same] using h)]
    | _ => simp [same] at h
  | .obj es, b, h => by
    cases b with
    | obj fs => rw [eq_of_sameEntries es fs (by simpa [same] using h)]
    | _ => simp [same] at h
theorem eq_of_sameItems : ∀ xs ys : List Value, sameItems xs ys = true → xs = ys
  | [], ys, h => by cases ys <;> simp_all [sameItems]
  | x :: xs, ys, h => by
    cases ys with
    | nil => simp [sameItems] at h
    | cons y ys =>
      simp only [sameItems, Bool.and_eq_true] at h
      rw [eq_of_same x y h.1, eq_of_sameItems xs ys h.2]
theorem eq_of_sameEntries : ∀ es fs : List (String × Value), sameEntries es fs = true → es = fs
  | [], fs, h => by cases fs <;> simp_all [sameEntries]
  | (k, x) :: es, fs, h => by
    cases fs with
    | nil => simp [sameEntries] at h
    | cons f fs =>
      obtain ⟨l, y⟩ := f
      simp only [sameEntries, Bool.and_eq_true, beq_iff_eq] at h
      rw [h.1.1, eq_of_same x y h.1.2, eq_of_sameEntries es fs h.2]
end

mutual
theorem same_refl : ∀ a : Value, same a a = true
  | .null | .bool _ | .int _ | .float _ | .str _ => by simp [same]
  | .list xs => by simpa [same] using sameItems_refl xs
  | .obj es => by simpa [same] using sameEntries_refl es
theorem sameItems_refl : ∀ xs : List Value, sameItems xs xs = true
  | [] => rfl
  | x :: xs => by simp [sameItems, same_refl x, sameItems_refl xs]
theorem sameEntries_refl : ∀ es : List (String × Value), sameEntries es es = true
  | [] => rfl
  | (_, x) :: es => by simp [sameEntries, same_refl x, sameEntries_refl es]
end

instance : DecidableEq Value := fun a b =>
  if h : same a b = true then isTrue (eq_of_same a b h)
  else isFalse fun e => h (e ▸ same_refl a)

/-! ## Kinds of values -/

/-- The name of a value's type in messages. -/
def typeName : Value → String
  | .null => "NoneType"
  | .bool _ => "bool"
  | .int _ => "int"
  | .float _ => "float"
  | .str _ => "str"
  | .list _ => "list"
  | .obj _ => "dict"

/-- Whether a value is a text. -/
def isText : Value → Bool
  | .str _ => true
  | _ => false

end Value

end Shapewise
