import Mathlib.Data.List.ReduceOption
import Shapewise.Proofs.Entries
import Shapewise.Selection.Check

/-!
# Picks

A list of fields read as the names that it picks, in reading order: a name alone, or a name in an
object with what is selected of it. Several elements may pick one name; `gathered` puts the fields
selected in all of its picks behind one another.
-/

namespace Shapewise.Selection

/-- The names that an element picks, each with what is selected of it; nothing is selected of a
name that stands alone. -/
def elementPicks : Value → List (String × Option Value)
  | .str name => [(name, none)]
  | .obj entries => entries.map fun e => (e.1, some e.2)
  | _ => []

/-- The picks of a list of fields in reading order. -/
def picks (items : List Value) : List (String × Option Value) :=
  items.flatMap elementPicks

/-- The names that are picked, in reading order and with repetitions. -/
def pickedNames (items : List Value) : List String :=
  Entries.keys (picks items)

/-- What is selected of a name in its picks. -/
def selectedOf (items : List Value) (name : String) : List Value :=
  (Entries.valuesOf (picks items) name).reduceOption

/-- The fields selected in what a pick selects: a list of fields, or what an object for a
calculation has under `fields`. -/
def fieldList : Value → List Value
  | .list items => items
  | .obj entries =>
    match Entries.get? entries "fields" with
    | some (.list items) => items
    | _ => []
  | _ => []

/-- The fields selected of a name in all of its picks, one pick behind the other. -/
def gathered (items : List Value) (name : String) : List Value :=
  (selectedOf items name).flatMap fieldList

/-! ## Lists of fields behind one another -/

@[simp] theorem picks_nil : picks [] = [] := rfl

@[simp] theorem picks_cons (item : Value) (items : List Value) :
    picks (item :: items) = elementPicks item ++ picks items := rfl

theorem elementPicks_obj_cons (k : String) (v : Value) (entries : List (String × Value)) :
    elementPicks (.obj ((k, v) :: entries)) = (k, some v) :: elementPicks (.obj entries) := rfl

theorem mem_picks {items : List Value} {p : String × Option Value} :
    p ∈ picks items ↔ ∃ item ∈ items, p ∈ elementPicks item :=
  List.mem_flatMap

theorem mem_selectedOf {items : List Value} {name : String} {v : Value} :
    v ∈ selectedOf items name ↔ (name, some v) ∈ picks items := by
  rw [selectedOf, List.reduceOption_mem_iff, Entries.mem_valuesOf]

/-- What is selected of a name is selected in an object that is an element. -/
theorem mem_selectedOf_iff {items : List Value} {name : String} {v : Value} :
    v ∈ selectedOf items name ↔ ∃ entries, .obj entries ∈ items ∧ (name, v) ∈ entries := by
  rw [mem_selectedOf, mem_picks]
  constructor
  · rintro ⟨item, hitem, hp⟩
    cases item with
    | obj entries =>
      obtain ⟨e, he, hpe⟩ := List.mem_map.1 hp
      obtain ⟨rfl, hv⟩ := Prod.mk.inj hpe
      exact ⟨entries, hitem, by rwa [← Option.some.inj hv]⟩
    | _ => simp [elementPicks] at hp
  · rintro ⟨entries, hitem, he⟩
    exact ⟨.obj entries, hitem, List.mem_map_of_mem (f := fun e => (e.1, some e.2)) he⟩

/-- Where a name never stands alone, its picks are what is selected of it. -/
theorem valuesOf_picks {items : List Value} {name : String} (h : (name, none) ∉ picks items) :
    Entries.valuesOf (picks items) name = (selectedOf items name).map some := by
  have hsome : ∀ os : List (Option Value), none ∉ os → os = os.reduceOption.map some := by
    intro os hos
    induction os with
    | nil => rfl
    | cons o os ih =>
      cases o with
      | none => exact absurd List.mem_cons_self hos
      | some v =>
        rw [List.reduceOption_cons_of_some, List.map_cons,
          ← ih fun hm => hos (List.mem_cons_of_mem _ hm)]
  exact hsome _ fun hm => h (Entries.mem_valuesOf.1 hm)

theorem mem_selectedOf_flatMap {vs : List Value} {name : String} {w : Value} :
    w ∈ selectedOf (vs.flatMap fieldList) name ↔ ∃ v ∈ vs, w ∈ selectedOf (fieldList v) name := by
  simp only [mem_selectedOf_iff, List.mem_flatMap]
  constructor
  · rintro ⟨entries, ⟨v, hv, hi⟩, he⟩
    exact ⟨v, hv, entries, hi, he⟩
  · rintro ⟨v, hv, entries, hi, he⟩
    exact ⟨entries, ⟨v, hv, hi⟩, he⟩

end Shapewise.Selection
