import Shapewise.Proofs.Entries
import Shapewise.Shape.Equality

/-!
# Proper shapes

A shape is proper when none of its objects names a key twice and only keys of an object may be
absent from it; arguments are not looked at. Every shape that is projected is proper. Here are also
the induction over shapes and what equality says about the fields of two objects.
-/

namespace Shapewise.Shape

/-- Induction over shapes: for an object the claim may be used for each of its fields. -/
@[elab_as_elim, induction_eliminator]
theorem induct {motive : Shape → Prop}
    (scalar : ∀ type, motive (.scalar type))
    (literal : ∀ values, motive (.literal values))
    (object : ∀ fields optionalKeys, (∀ f ∈ fields, motive f.2) →
      motive (.object fields optionalKeys))
    (array : ∀ element, motive element → motive (.array element))
    (nullable : ∀ inner, motive inner → motive (.nullable inner))
    (calculation : ∀ result arguments argumentShape, motive result →
      motive (.calculation result arguments argumentShape)) (s : Shape) : motive s :=
  Shape.rec (motive_1 := motive) (motive_2 := fun fs => ∀ f ∈ fs, motive f.2)
    (motive_3 := fun _ => True) (motive_4 := fun f => motive f.2)
    scalar literal object array nullable (fun r x s ih _ => calculation r x s ih)
    (fun _ h => nomatch h)
    (fun _ _ head tail _ h => (List.mem_cons.1 h).elim (· ▸ head) (tail _))
    trivial (fun _ _ => trivial) (fun _ _ ih => ih) s

/-- The shapes that a shape is directly made of. -/
def parts : Shape → List Shape
  | .scalar _ => []
  | .literal _ => []
  | .object fields _ => fields.map Prod.snd
  | .array element => [element]
  | .nullable inner => [inner]
  | .calculation result _ _ => [result]

/-- Induction over shapes where all kinds of shapes are treated alike. -/
@[elab_as_elim]
theorem inductParts {motive : Shape → Prop}
    (step : ∀ s, (∀ t ∈ s.parts, motive t) → motive s) (s : Shape) : motive s := by
  induction s with
  | object fields optionalKeys ih =>
    refine step _ fun t ht => ?_
    obtain ⟨f, hf, rfl⟩ := List.mem_map.1 ht
    exact ih f hf
  | scalar | literal => exact step _ fun t ht => nomatch ht
  | array s ih | nullable s ih | calculation s _ _ ih =>
    refine step _ fun t ht => ?_
    rw [List.mem_singleton.1 ht]
    exact ih

mutual
/-- Objects name no key twice, and only their own keys may be absent. -/
def Proper : Shape → Prop
  | .scalar _ => True
  | .literal _ => True
  | .object fields optionalKeys =>
    Entries.Distinct fields ∧ (∀ k ∈ optionalKeys, k ∈ Entries.keys fields) ∧ ProperFields fields
  | .array element => Proper element
  | .nullable inner => Proper inner
  | .calculation result _ _ => Proper result
/-- The shapes of all fields are proper. -/
def ProperFields : List (String × Shape) → Prop
  | [] => True
  | (_, s) :: fs => Proper s ∧ ProperFields fs
end

theorem proper_scalar (type : Scalar) : Proper (.scalar type) := trivial

theorem properFields_iff {fs : List (String × Shape)} :
    ProperFields fs ↔ ∀ f ∈ fs, Proper f.2 := by
  induction fs with
  | nil => simp [ProperFields]
  | cons f fs ih =>
    obtain ⟨k, s⟩ := f
    simp [ProperFields, ih]

theorem proper_object_iff {fs : List (String × Shape)} {os : NameSet} :
    Proper (.object fs os) ↔
      Entries.Distinct fs ∧ (∀ k ∈ os, k ∈ Entries.keys fs) ∧ ∀ f ∈ fs, Proper f.2 := by
  rw [Proper, properFields_iff]

theorem proper_record_iff {fs : List (String × Shape)} :
    Proper (.record fs) ↔ Entries.Distinct fs ∧ ∀ f ∈ fs, Proper f.2 := by
  simp [record, proper_object_iff]

theorem proper_emptyObject : Proper emptyObject :=
  proper_record_iff.2 ⟨Entries.distinct_nil, by simp⟩

theorem Proper.orNull {s : Shape} (h : Proper s) : Proper s.orNull := by
  cases s <;> exact h

theorem Proper.wrap {s : Shape} (h : Proper s) (isArray isNullable : Bool) :
    Proper (s.wrap isArray isNullable) := by
  cases isArray <;> cases isNullable
  · exact h
  · exact h.orNull
  · exact h
  · exact h

/-! ## Equality of objects -/

theorem mem_canonicalFields {fs : List (String × Shape)} {k : String} {c : Shape} :
    (k, c) ∈ canonicalFields fs ↔ ∃ s, (k, s) ∈ fs ∧ s.canonical = c := by
  induction fs with
  | nil => simp [canonicalFields]
  | cons f fs ih =>
    obtain ⟨l, s⟩ := f
    simp only [canonicalFields, List.mem_cons, Prod.mk.injEq, ih]
    constructor
    · rintro (⟨rfl, rfl⟩ | ⟨t, hm, rfl⟩)
      · exact ⟨s, .inl ⟨rfl, rfl⟩, rfl⟩
      · exact ⟨t, .inr hm, rfl⟩
    · rintro ⟨t, ⟨rfl, rfl⟩ | hm, rfl⟩
      · exact .inl ⟨rfl, rfl⟩
      · exact .inr ⟨t, hm, rfl⟩

/-- Equal objects have the same keys that may be absent, and each field of one is equal to one of
the other under the same key. -/
theorem Equal.of_object {fs gs : List (String × Shape)} {os ps : NameSet}
    (h : Equal (.object fs os) (.object gs ps)) :
    os = ps ∧ (∀ k t, (k, t) ∈ gs → ∃ s, (k, s) ∈ fs ∧ Equal s t) ∧
      ∀ k s, (k, s) ∈ fs → ∃ t, (k, t) ∈ gs ∧ Equal s t := by
  have hc : Entries.sort (canonicalFields fs) = Entries.sort (canonicalFields gs) ∧ os = ps := by
    simpa [Equal, canonical] using h
  have hp : (canonicalFields fs).Perm (canonicalFields gs) :=
    (Entries.sort_perm _).symm.trans (hc.1 ▸ Entries.sort_perm _)
  refine ⟨hc.2, fun k t ht => ?_, fun k s hs => ?_⟩
  · obtain ⟨s, hs, he⟩ := mem_canonicalFields.1 (hp.mem_iff.2 (mem_canonicalFields.2 ⟨t, ht, rfl⟩))
    exact ⟨s, hs, he⟩
  · obtain ⟨t, ht, he⟩ := mem_canonicalFields.1 (hp.mem_iff.1 (mem_canonicalFields.2 ⟨s, hs, rfl⟩))
    exact ⟨t, ht, he.symm⟩

theorem valuesOf_canonicalFields (fs : List (String × Shape)) (k : String) :
    Entries.valuesOf (canonicalFields fs) k = (Entries.valuesOf fs k).map canonical := by
  induction fs with
  | nil => rfl
  | cons f fs ih =>
    obtain ⟨l, s⟩ := f
    rw [canonicalFields, Entries.valuesOf_cons, Entries.valuesOf_cons, ih]
    split <;> rfl

/-- Objects are equal when they have the same keys, each once, with equal fields under them. -/
theorem equal_object {fs gs : List (String × Shape)} {os : NameSet} (hf : Entries.Distinct fs)
    (hg : Entries.Distinct gs) (hkeys : ∀ k, k ∈ Entries.keys fs ↔ k ∈ Entries.keys gs)
    (h : ∀ k s t, (k, s) ∈ fs → (k, t) ∈ gs → Equal s t) :
    Equal (.object fs os) (.object gs os) := by
  have hvalues : ∀ k, Entries.valuesOf (canonicalFields fs) k =
      Entries.valuesOf (canonicalFields gs) k := by
    intro k
    rw [valuesOf_canonicalFields, valuesOf_canonicalFields, Entries.valuesOf_of_distinct hf,
      Entries.valuesOf_of_distinct hg]
    cases hs : Entries.get? fs k with
    | none =>
      have hk : k ∉ Entries.keys gs := fun hk => Entries.get?_eq_none_iff.1 hs ((hkeys k).2 hk)
      rw [Entries.get?_eq_none_iff.2 hk]
    | some s =>
      obtain ⟨t, ht⟩ := Entries.exists_get?_iff.2 ((hkeys k).1 (Entries.exists_get?_iff.1 ⟨s, hs⟩))
      have hst : s.canonical = t.canonical :=
        h k s t (Entries.mem_of_get? hs) (Entries.mem_of_get? ht)
      rw [ht, Option.toList_some, Option.toList_some, List.map_singleton, List.map_singleton, hst]
  show canonical _ = canonical _
  rw [canonical, canonical, Entries.sort_eq_sort_iff.2 hvalues]

theorem Equal.orNull {a b : Shape} (h : Equal a b) : Equal a.orNull b.orNull := by
  have hnullable : ∀ s : Shape, s.orNull.canonical = s.canonical.orNull := by
    intro s
    cases s <;> rfl
  show canonical _ = canonical _
  rw [hnullable, hnullable, show a.canonical = b.canonical from h]

theorem Equal.wrap {a b : Shape} (h : Equal a b) (isArray isNullable : Bool) :
    Equal (a.wrap isArray isNullable) (b.wrap isArray isNullable) := by
  have harray : Equal (.array a) (.array b) := by
    show canonical _ = canonical _
    rw [canonical, canonical, show a.canonical = b.canonical from h]
  cases isArray <;> cases isNullable
  · exact h
  · exact h.orNull
  · exact harray
  · exact harray.orNull

theorem equal_array_iff {a b : Shape} : Equal (.array a) (.array b) ↔ Equal a b := by
  simp [Equal, canonical]

theorem equal_nullable_iff {a b : Shape} : Equal (.nullable a) (.nullable b) ↔ Equal a b := by
  simp [Equal, canonical]

theorem equal_calculation_iff {a b : Shape} {x y : Value} {s t : Option Shape} :
    Equal (.calculation a x s) (.calculation b y t) ↔
      Equal a b ∧ x.Equal y ∧ canonicalOption s = canonicalOption t := by
  simp [Equal, Value.Equal, canonical]

end Shapewise.Shape
