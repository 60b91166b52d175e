import Shapewise.Proofs.Entries
import Shapewise.Shape.Basic

/-!
# Values of a shape

What a shape says about values. An object has every key that its shape requires, and whatever stands
under a key of the shape is of the shape there; other keys are left open. A calculation has the
values of its result.
-/

namespace Shapewise.Shape

mutual
/-- A value is of a shape. -/
def Conforms : Shape → Value → Prop
  | .scalar type, v => type.accepts v = true
  | .literal values, v => ∃ s ∈ values, v = .str s
  | .object fields optionalKeys, v =>
    ∃ entries, v = .obj entries ∧ FieldsConform optionalKeys fields entries
  | .array element, v => ∃ items, v = .list items ∧ ∀ item ∈ items, Conforms element item
  | .nullable inner, v => v = .null ∨ Conforms inner v
  | .calculation result _ _, v => Conforms result v
/-- The entries of an object have the required ones of these fields, each in its shape. -/
def FieldsConform (optionalKeys : NameSet) :
    List (String × Shape) → List (String × Value) → Prop
  | [], _ => True
  | (k, s) :: fs, entries =>
    (k ∉ optionalKeys → k ∈ Entries.keys entries) ∧ (∀ v, (k, v) ∈ entries → Conforms s v) ∧
      FieldsConform optionalKeys fs entries
end

variable {fields : List (String × Shape)} {optionalKeys : NameSet}
  {entries : List (String × Value)}

theorem fieldsConform_iff :
    FieldsConform optionalKeys fields entries ↔
      (∀ k ∈ Entries.keys fields, k ∉ optionalKeys → k ∈ Entries.keys entries) ∧
        ∀ k s, (k, s) ∈ fields → ∀ v, (k, v) ∈ entries → Conforms s v := by
  induction fields with
  | nil => simp [FieldsConform]
  | cons f fields ih =>
    obtain ⟨k, s⟩ := f
    rw [FieldsConform, ih, Entries.keys_cons, List.forall_mem_cons, Entries.forall_mem_cons]
    tauto

theorem conforms_object_iff :
    Conforms (.object fields optionalKeys) (.obj entries) ↔
      (∀ k ∈ Entries.keys fields, k ∉ optionalKeys → k ∈ Entries.keys entries) ∧
        ∀ k s, (k, s) ∈ fields → ∀ v, (k, v) ∈ entries → Conforms s v := by
  rw [Conforms, ← fieldsConform_iff]
  simp

end Shapewise.Shape
