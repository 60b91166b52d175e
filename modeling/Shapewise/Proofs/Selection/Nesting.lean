import Shapewise.Proofs.Selection.Depth
import Shapewise.Proofs.Selection.Regular

/-!
# The nesting of a description

A description has as many objects inside one another as its selection has lists of fields inside one
another. Picks of one name may go down to different depths; merging them goes down to the greatest.

The two numbers are compared by what bounds them. A bound on the objects of a record bounds those
under each of its names, and these come from all that is selected of the name
(`objectDepth_grouped_le_iff`); the wrappers of lists, null and calculations add none.
-/

namespace Shapewise

namespace Shape

mutual
/-- How many objects stand inside one another in a shape. The shape of a calculation's arguments does
not count. -/
def objectDepth : Shape → Nat
  | .object fields _ => 1 + fieldsDepth fields
  | .array element => objectDepth element
  | .nullable inner => objectDepth inner
  | .calculation result _ _ => objectDepth result
  | _ => 0
/-- The greatest number of objects inside one another under the keys of an object. -/
def fieldsDepth : List (String × Shape) → Nat
  | [] => 0
  | (_, s) :: fields => max (objectDepth s) (fieldsDepth fields)
end

variable {s : Shape} {fields : List (String × Shape)} {N : Nat}

theorem fieldsDepth_le_iff :
    fieldsDepth fields ≤ N ↔ ∀ n s, (n, s) ∈ fields → objectDepth s ≤ N := by
  induction fields with
  | nil => simp [fieldsDepth]
  | cons field fields ih =>
    obtain ⟨n, s⟩ := field
    rw [fieldsDepth, Nat.max_le, ih, Entries.forall_mem_cons]

@[simp] theorem objectDepth_orNull (s : Shape) : s.orNull.objectDepth = s.objectDepth := by
  cases s <;> rfl

@[simp] theorem objectDepth_wrap (s : Shape) (isArray isNullable : Bool) :
    (s.wrap isArray isNullable).objectDepth = s.objectDepth := by
  cases isArray <;> cases isNullable
  · rfl
  · exact objectDepth_orNull s
  · rfl
  · rfl

end Shape

namespace Selection

open Outcome Shape

variable {g : Graph} {maxDepth depth N : Nat} {target : Target} {e : Entity} {f : Field} {n : String}
  {s : Shape} {v : Value} {items : List Value}

/-! ## The lists of fields in a selection -/

theorem nestingItems_le_iff_selected :
    nestingItems items ≤ N ↔ ∀ n, ∀ v ∈ selectedOf items n, nestingSelected v ≤ N := by
  rw [nestingItems_le_iff]
  constructor
  · intro h n v hv
    obtain ⟨entries, hitem, hentry⟩ := mem_selectedOf_iff.1 hv
    have hentries := h _ hitem
    rw [nestingItem, nestingEntries_le_iff] at hentries
    exact hentries n v hentry
  · intro h item hitem
    cases item with
    | obj entries =>
      rw [nestingItem, nestingEntries_le_iff]
      exact fun n v hentry => h n v (mem_selectedOf_iff.2 ⟨entries, hitem, hentry⟩)
    | _ => exact Nat.zero_le N

/-- What a pick selects is one list more than the fields in it. -/
theorem nestingSelected_eq (hne : fieldList v ≠ []) :
    nestingSelected v = 1 + nestingItems (fieldList v) := by
  cases v with
  | list items => rfl
  | obj entries =>
    rw [nestingSelected, nestingFields_eq]
    cases hfields : Entries.get? entries "fields" with
    | none => simp [fieldList, hfields] at hne
    | some w =>
      cases w with
      | list items => simp only [fieldList, hfields, Option.elim_some, nesting]
      | _ => simp [fieldList, hfields] at hne
  | _ => exact absurd rfl hne

theorem nestingItems_flatMap_le_iff {vs : List Value} :
    nestingItems (vs.flatMap fieldList) ≤ N ↔ ∀ v ∈ vs, nestingItems (fieldList v) ≤ N := by
  simp only [nestingItems_le_iff, List.forall_mem_flatMap]

/-- What is selected of a name, taken together, is nested as deep as the deepest pick of the name. -/
theorem Selects.nesting_le_iff (h : Selects g maxDepth depth items n target) :
    1 + nestingItems (gathered items n) ≤ N ↔
      ∀ v ∈ selectedOf items n, nestingSelected v ≤ N := by
  have hpick : ∀ v ∈ selectedOf items n, nestingSelected v = 1 + nestingItems (fieldList v) :=
    fun v hv => nestingSelected_eq (valid_list_iff.1 (h.valid v hv)).2.1
  obtain ⟨v₀, hv₀⟩ := List.exists_mem_of_ne_nil _ h.nonempty
  constructor
  · intro hle v hv
    have hbelow := nestingItems_flatMap_le_iff.1 (le_refl (nestingItems (gathered items n))) v hv
    rw [hpick v hv]
    omega
  · intro hle
    have hpos := hle v₀ hv₀
    rw [hpick v₀ hv₀] at hpos
    have hbelow : nestingItems (gathered items n) ≤ N - 1 := by
      refine nestingItems_flatMap_le_iff.2 fun v hv => ?_
      have := hle v hv
      rw [hpick v hv] at this
      omega
    omega

/-- Nothing is selected below a calculation of a plain value. -/
theorem nestingSelected_of_value {r : Record} {declared : Option (List Argument)} {type : Scalar}
    (h : ValidEntry g maxDepth (.record r) depth n v) (hf : r.field? n = some f)
    (hk : f.kind = .calculation declared) (ht : f.target = .scalar type) : nestingSelected v = 0 := by
  rcases h with ⟨hf', hk', -⟩ | ⟨hf', -, ht', -⟩ | ⟨hf', -, ht', -⟩ | ⟨-, -, -, hkeys, -⟩
  · cases hf.symm.trans hf'
    exact absurd hk (hk' declared)
  · cases hf.symm.trans hf'
    cases ht.symm.trans ht'
  · cases hf.symm.trans hf'
    cases ht.symm.trans ht'
  · exact nestingSelected_of_arguments hkeys

/-! ## The objects in a shape -/

theorem objectDepth_fieldWrap (f : Field) (s : Shape) :
    (f.wrap s).objectDepth = s.objectDepth := by
  obtain ⟨isNullable, hwrap⟩ := exists_wrap f
  rw [hwrap, objectDepth_wrap]

theorem objectDepth_calculationShape (f : Field) (declared : Option (List Argument)) (v : Value)
    (s : Shape) : (calculationShape f declared v s).objectDepth = s.objectDepth := by
  rw [calculationShape, objectDepth, objectDepth_fieldWrap]

/-- A name whose picks select no fields has no object under it, and nothing below it is nested. -/
theorem objectDepth_le_iff_of_leaf (hs : s.objectDepth = 0)
    (hleaf : ∀ v ∈ selectedOf items n, nestingSelected v = 0) :
    s.objectDepth ≤ N ↔ ∀ v ∈ selectedOf items n, nestingSelected v ≤ N := by
  refine iff_of_true (by omega) fun v hv => ?_
  rw [hleaf v hv]
  exact Nat.zero_le N

/-- The objects under a name that is picked are bounded by what bounds the lists of fields in its
picks, where that holds below it. -/
theorem objectDepth_grouped_le_iff (h : PickedAs g maxDepth depth items n e)
    (hitems : ∀ item ∈ items, ValidElement g maxDepth e depth item) (hs : Grouped g items e n s)
    (ih : ∀ next t, Selects g maxDepth (depth + 1) items n next →
      projectList g next (gathered items n) = .ok t →
        t.objectDepth = 1 + nestingItems (gathered items n)) :
    s.objectDepth ≤ N ↔ ∀ v ∈ selectedOf items n, nestingSelected v ≤ N := by
  cases h with
  | @primitive r p hp hf =>
    rw [(grouped_primitive_iff hf hp).1 hs]
    refine objectDepth_le_iff_of_leaf (objectDepth_wrap _ _ _) fun v hv => ?_
    obtain ⟨f, hf'⟩ := (validEntry_of_selected hitems hv).exists_field?
    cases hf.symm.trans hf'
  | @field r f id hp hf hk ht hselects =>
    obtain ⟨t, hproject, rfl⟩ := (grouped_field_iff hp hf hk ht).1 hs
    rw [objectDepth_fieldWrap, ih _ t hselects (ht ▸ hproject), hselects.nesting_le_iff]
  | @value r f declared type hp hf hk ht hnone hne =>
    obtain ⟨w, -, rfl⟩ := (grouped_value_iff hp hf hk ht).1 hs
    refine objectDepth_le_iff_of_leaf (objectDepth_calculationShape f declared w _) fun v hv => ?_
    exact nestingSelected_of_value (validEntry_of_selected hitems hv) hf hk ht
  | @call r f declared id hp hf hk ht hselects =>
    obtain ⟨w, -, t, hproject, rfl⟩ := (grouped_call_iff hp hf hk ht).1 hs
    rw [objectDepth_calculationShape, ih _ t hselects hproject, hselects.nesting_le_iff]
  | tagField ht hu =>
    rw [(grouped_tagField_iff hu ht).1 hs]
    refine objectDepth_le_iff_of_leaf rfl fun v hv => ?_
    obtain ⟨id, hu', -⟩ := validEntry_variant_iff.1 (validEntry_of_selected hitems hv)
    cases hu.symm.trans hu'
  | scalar ht hu =>
    rw [(grouped_scalar_iff ht hu).1 hs]
    refine objectDepth_le_iff_of_leaf rfl fun v hv => ?_
    obtain ⟨id, hu', -⟩ := validEntry_variant_iff.1 (validEntry_of_selected hitems hv)
    cases hu.symm.trans hu'
  | @variant u id ht hu hselects =>
    obtain ⟨t, hproject, rfl⟩ := (grouped_variant_iff ht hu).1 hs
    rw [objectDepth, ih _ t hselects hproject, hselects.nesting_le_iff]

/-- What is projected of a list of valid elements has one object for the list, and below it as many
as lists of fields are nested in it. -/
theorem objectDepth_of_projectList (hg : g.Closed) (he : g.follow? target = some e)
    (hitems : ∀ item ∈ items, ValidElement g maxDepth e depth item)
    (h : projectList g target items = .ok s) : s.objectDepth = 1 + nestingItems items := by
  refine elements_induction (P := fun target items => ∀ s, projectList g target items = .ok s →
    s.objectDepth = 1 + nestingItems items) ?_ he hitems s h
  intro target e depth items he hitems hbelow s h
  obtain ⟨id, -, hid⟩ := Graph.get?_of_follow? he
  obtain ⟨-, fields, rfl, hkeys, hgrouped⟩ := (projectList_eq_ok_iff_grouped hg he hitems).1 h
  have hpicked : ∀ n, n ∈ Entries.keys fields ↔ n ∈ pickedNames items := by
    intro n
    rw [hkeys, List.mem_eraseDups]
  have hname : ∀ N n t, (n, t) ∈ fields →
      (t.objectDepth ≤ N ↔ ∀ v ∈ selectedOf items n, nestingSelected v ≤ N) := by
    intro N n t ht
    have hn := (hpicked n).1 (Entries.mem_keys.2 ⟨t, ht⟩)
    exact objectDepth_grouped_le_iff (pickedAs hg hid hitems hn) hitems (hgrouped n t ht)
      fun next t hselects => hbelow n next hselects t
  rw [Shape.record, objectDepth]
  congr 1
  refine eq_of_forall_ge_iff fun N => ?_
  rw [fieldsDepth_le_iff, nestingItems_le_iff_selected]
  constructor
  · intro hfields n v hv
    have hn := (hpicked n).2 (Entries.mem_keys.2 ⟨some v, mem_selectedOf.1 hv⟩)
    obtain ⟨t, ht⟩ := Entries.mem_keys.1 hn
    exact (hname N n t ht).1 (hfields n t ht) v hv
  · intro hitems n t ht
    exact (hname N n t ht).2 (hitems n)

/-- In a closed graph, cyclic or not, a description has as many objects inside one another as its
selection has lists of fields, and so no more than the limit allows. -/
theorem described_nesting_eq {L : Limits} {id : EntityId} {selection : Value} (hg : g.Closed)
    (h : describe g L id selection = .ok s) :
    s.objectDepth = nesting selection ∧ s.objectDepth ≤ L.maxDepth := by
  rw [describe, then_eq_ok_iff, mapError_eq_ok_iff, mapError_eq_ok_iff] at h
  obtain ⟨hc, hp⟩ := h
  obtain ⟨e, items, he, rfl, hitems, -⟩ := elements_of_check hc
  have hfollow : g.follow? (.entity id) = some e := he
  rw [project_list] at hp
  have hdepth : s.objectDepth = nesting (.list items) :=
    objectDepth_of_projectList hg hfollow hitems hp
  have hlimit := (valid_iff_nesting (valid_of_check hc)).1 (valid_of_check hc)
  exact ⟨hdepth, by omega⟩

theorem described_nesting_eq_forum : ∃ schema s, Schema.ofText forumText .standard = .ok schema ∧
    schema.graph.Closed ∧ describe schema.graph .standard ⟨0⟩ forumPicks = .ok s ∧
    s.objectDepth = nesting forumPicks ∧ s.objectDepth ≤ Limits.standard.maxDepth := by
  have hdescribed : Settles (fun schema =>
      Settles (fun _ => True) (fun _ => False) (describe schema.graph .standard ⟨0⟩ forumPicks))
      (fun _ => False) (Schema.ofText forumText .standard) := by
    decide +kernel
  obtain ⟨schema, hs, hdescribed⟩ := hdescribed.exists_ok
  obtain ⟨s, hdescribe, -⟩ := hdescribed.exists_ok
  have hg := Schema.closed_of_ofText hs
  exact ⟨schema, s, hs, hg, hdescribe, described_nesting_eq hg hdescribe⟩

-- the best post of a reader stands two objects below the post
example : nesting forumPicks = 3 := by decide

end Selection

end Shapewise
