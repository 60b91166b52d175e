/-!
# Finite sets of names

A set of names is kept as its increasing list in the order of code points, so two sets with the
same members are equal and the list is the set in sorted order.
-/

namespace Shapewise

/-- A finite set of names. -/
structure NameSet where
  /-- The members in increasing order. -/
  names : List String
  increasing : names.Pairwise (· < ·)
  deriving DecidableEq

namespace NameSet

/-- The set without members. -/
def empty : NameSet := ⟨[], .nil⟩

instance : Inhabited NameSet := ⟨empty⟩

instance : Membership String NameSet := ⟨fun s name => name ∈ s.names⟩

instance (name : String) (s : NameSet) : Decidable (name ∈ s) :=
  inferInstanceAs (Decidable (name ∈ s.names))

/-- Puts a name at its place in an increasing list. -/
def place (name : String) : List String → List String
  | [] => [name]
  | m :: ms => if name < m then name :: m :: ms else if name = m then m :: ms else m :: place name ms

theorem mem_place {name other : String} {ms : List String} :
    other ∈ place name ms ↔ other = name ∨ other ∈ ms := by
  induction ms with
  | nil => simp [place]
  | cons m ms ih =>
    unfold place
    split
    · simp
    · split
      · next h => subst h; simp
      · simp only [List.mem_cons, ih]
        exact ⟨fun h => by rcases h with h | h | h <;> simp [h],
          fun h => by rcases h with h | h | h <;> simp [h]⟩

theorem pairwise_place {name : String} {ms : List String} (h : ms.Pairwise (· < ·)) :
    (place name ms).Pairwise (· < ·) := by
  induction ms with
  | nil => simp [place]
  | cons m ms ih =>
    rw [List.pairwise_cons] at h
    unfold place
    split
    · next hlt =>
      refine List.pairwise_cons.2 ⟨?_, List.pairwise_cons.2 h⟩
      intro a ha
      rcases List.mem_cons.1 ha with rfl | ha
      · exact hlt
      · exact String.lt_trans hlt (h.1 a ha)
    · next hlt =>
      split
      · exact List.pairwise_cons.2 h
      · next hne =>
        refine List.pairwise_cons.2 ⟨?_, ih h.2⟩
        intro a ha
        rcases mem_place.1 ha with rfl | ha
        · have hle : m ≤ a := String.not_lt.1 hlt
          rcases Decidable.em (m < a) with hma | hma
          · exact hma
          · exact absurd (String.le_antisymm (String.not_lt.1 hma) hle) hne
        · exact h.1 a ha

/-- The set with one more name. -/
def insert (s : NameSet) (name : String) : NameSet :=
  ⟨place name s.names, pairwise_place s.increasing⟩

/-- The set of the members for which a test holds. -/
def filter (s : NameSet) (p : String → Bool) : NameSet :=
  ⟨s.names.filter p, s.increasing.filter p⟩

/-- The set without a name. -/
def erase (s : NameSet) (name : String) : NameSet :=
  s.filter (· ≠ name)

/-- The set of the names in a list. -/
def ofList (names : List String) : NameSet :=
  names.foldl insert empty

/-! ## Membership -/

@[simp] theorem not_mem_empty (name : String) : name ∉ empty :=
  List.not_mem_nil

@[simp] theorem mem_insert {s : NameSet} {name other : String} :
    other ∈ s.insert name ↔ other = name ∨ other ∈ s :=
  mem_place

@[simp] theorem mem_filter {s : NameSet} {p : String → Bool} {name : String} :
    name ∈ s.filter p ↔ name ∈ s ∧ p name = true :=
  List.mem_filter

@[simp] theorem mem_erase {s : NameSet} {name other : String} :
    other ∈ s.erase name ↔ other ∈ s ∧ other ≠ name := by
  simp [erase]

theorem mem_foldl_insert {names : List String} {s : NameSet} {name : String} :
    name ∈ names.foldl insert s ↔ name ∈ names ∨ name ∈ s := by
  induction names generalizing s with
  | nil => simp
  | cons n ns ih =>
    rw [List.foldl_cons, ih, mem_insert, List.mem_cons]
    exact ⟨fun h => by rcases h with h | h | h <;> simp [h],
      fun h => by rcases h with (h | h) | h <;> simp [h]⟩

@[simp] theorem mem_ofList {names : List String} {name : String} :
    name ∈ ofList names ↔ name ∈ names := by
  simp [ofList, mem_foldl_insert]

end NameSet

end Shapewise
