import Shapewise.Proofs.Shape.Conforms
import Shapewise.Proofs.Shape.Merge

/-!
# Values of merged shapes

A merged shape promises what each of the two shapes promises and nothing more: a value is of it
exactly when it is of both (`conforms_merge_iff`). Where the shapes are equal the merge is the left
one, and equal shapes have the same values (`conforms_iff_of_equal`). Where they are not, it is made
of merged parts; for an object the fields are taken one after the other (`mergeFields_forall_iff`),
and a key is required when one of the sides requires it.

Nothing is assumed about the shapes: an object may name a key twice, and keys that it does not have
may be among those that may be absent from it.
-/

namespace Shapewise.Shape

open Outcome

variable {a b m : Shape} {fs gs ms : List (String × Shape)} {os ps : NameSet} {v : Value}

/-! ## Equal shapes -/

theorem conforms_of_equal (h : Equal a b) (hv : Conforms a v) : Conforms b v := by
  induction a generalizing b v with
  | scalar | literal => cases b <;> simp_all [Equal, canonical]
  | object fs os ih =>
    cases b with
    | object gs ps =>
      obtain ⟨rfl, hright, hleft⟩ := h.of_object
      obtain ⟨entries, rfl, hv⟩ := hv
      obtain ⟨hkeys, hfields⟩ := fieldsConform_iff.1 hv
      refine conforms_object_iff.2 ⟨fun k hk => ?_, fun k t ht w hw => ?_⟩
      · obtain ⟨t, ht⟩ := Entries.mem_keys.1 hk
        obtain ⟨s, hs, -⟩ := hright k t ht
        exact hkeys k (Entries.mem_keys.2 ⟨s, hs⟩)
      · obtain ⟨s, hs, hst⟩ := hright k t ht
        exact ih (k, s) hs hst (hfields k s hs w hw)
    | _ => simp [Equal, canonical] at h
  | array a ih =>
    cases b with
    | array b =>
      obtain ⟨items, rfl, hitems⟩ := hv
      exact ⟨items, rfl, fun item hi => ih (equal_array_iff.1 h) (hitems item hi)⟩
    | _ => simp [Equal, canonical] at h
  | nullable a ih =>
    cases b with
    | nullable b => exact hv.imp_right fun hv => ih (equal_nullable_iff.1 h) hv
    | _ => simp [Equal, canonical] at h
  | calculation a x s ih =>
    cases b with
    | calculation b y t =>
      have hv : Conforms a v := hv
      exact (ih (equal_calculation_iff.1 h).1 hv : Conforms b v)
    | _ => simp [Equal, canonical] at h

theorem conforms_iff_of_equal (h : Equal a b) : Conforms a v ↔ Conforms b v :=
  ⟨conforms_of_equal h, conforms_of_equal h.symm⟩

/-! ## Merged fields -/

/-- What merging in the shape of a field makes of a property of shapes, it makes of the property of
all fields. -/
theorem mergeFields_forall_iff {P : String → Shape → Prop}
    (step : ∀ g ∈ gs, ∀ a m, merge a g.2 = .ok m → (P g.1 m ↔ P g.1 a ∧ P g.1 g.2))
    (h : mergeFields fs gs = .ok ms) :
    (∀ k s, (k, s) ∈ ms → P k s) ↔
      (∀ k s, (k, s) ∈ fs → P k s) ∧ ∀ k s, (k, s) ∈ gs → P k s := by
  induction gs generalizing fs with
  | nil =>
    rw [mergeFields] at h
    rw [← Except.ok.inj h]
    simp
  | cons g gs ih =>
    obtain ⟨k, t⟩ := g
    obtain ⟨hstep, hsteps⟩ := List.forall_mem_cons.1 step
    obtain ⟨n, hn, h⟩ := mergeFields_cons_eq_ok_iff.1 h
    have hput : (∀ l s, (l, s) ∈ Entries.put fs k n → P l s) ↔
        (∀ l s, (l, s) ∈ fs → P l s) ∧ P k t := by
      refine Entries.forall_mem_put_iff (fun a ha => ?_) fun hnone => ?_
      · rw [ha, gather_some_cons_eq_ok_iff] at hn
        obtain ⟨n', hm, hn⟩ := hn
        obtain rfl : n' = n := by simpa using hn
        exact hstep a n' hm
      · rw [hnone, gather_none_cons, gather_nil] at hn
        obtain rfl : t = n := by simpa using hn
        exact Iff.rfl
    rw [ih hsteps h, hput, Entries.forall_mem_cons]
    tauto

/-! ## Merged shapes -/

theorem conforms_object_iff_requires :
    Conforms (.object fs os) v ↔ ∃ entries, v = .obj entries ∧
      (∀ k, requires fs os k = true → k ∈ Entries.keys entries) ∧
      ∀ k s, (k, s) ∈ fs → ∀ w, (k, w) ∈ entries → Conforms s w := by
  simp only [Conforms, fieldsConform_iff, requires_eq_true_iff, and_imp]

theorem conforms_merged_object_iff
    (step : ∀ g ∈ gs, ∀ a m w, merge a g.2 = .ok m → (Conforms m w ↔ Conforms a w ∧ Conforms g.2 w))
    (h : mergeFields fs gs = .ok ms) :
    Conforms (.object ms (mergeOptional fs os gs ps ms)) v ↔
      Conforms (.object fs os) v ∧ Conforms (.object gs ps) v := by
  have hvalues : ∀ entries : List (String × Value),
      (∀ k s, (k, s) ∈ ms → ∀ w, (k, w) ∈ entries → Conforms s w) ↔
        (∀ k s, (k, s) ∈ fs → ∀ w, (k, w) ∈ entries → Conforms s w) ∧
          ∀ k s, (k, s) ∈ gs → ∀ w, (k, w) ∈ entries → Conforms s w := by
    intro entries
    refine mergeFields_forall_iff (P := fun k s => ∀ w, (k, w) ∈ entries → Conforms s w)
      (fun g hg a m hm => ?_) h
    simp only [step g hg a m _ hm, forall_and]
  simp only [conforms_object_iff_requires, hvalues,
    requires_mergeOptional_iff (mem_keys_of_mergeFields h), or_imp, forall_and]
  constructor
  · rintro ⟨entries, rfl, ⟨hf, hg⟩, hfs, hgs⟩
    exact ⟨⟨entries, rfl, hf, hfs⟩, entries, rfl, hg, hgs⟩
  · rintro ⟨⟨entries, rfl, hf, hfs⟩, _, he, hg, hgs⟩
    cases he
    exact ⟨entries, rfl, ⟨hf, hg⟩, hfs, hgs⟩

theorem conforms_merged_array_iff (h : ∀ w, Conforms m w ↔ Conforms a w ∧ Conforms b w) :
    Conforms (.array m) v ↔ Conforms (.array a) v ∧ Conforms (.array b) v := by
  simp only [Conforms, h]
  constructor
  · rintro ⟨items, rfl, hitems⟩
    exact ⟨⟨items, rfl, fun w hw => (hitems w hw).1⟩, items, rfl, fun w hw => (hitems w hw).2⟩
  · rintro ⟨⟨items, rfl, hleft⟩, _, he, hright⟩
    cases he
    exact ⟨items, rfl, fun w hw => ⟨hleft w hw, hright w hw⟩⟩

/-- The values of a merged shape are those that both shapes have. -/
theorem conforms_merge_iff (h : merge a b = .ok m) :
    Conforms m v ↔ Conforms a v ∧ Conforms b v := by
  induction b using inductParts generalizing a m v with
  | step b ih =>
    cases mergedBy_of_merge h with
    | equal he => rw [← conforms_iff_of_equal he, and_self]
    | object _ hms =>
      exact conforms_merged_object_iff
        (fun g hg a m w hm => ih g.2 (List.mem_map_of_mem hg) hm) hms
    | array hm => exact conforms_merged_array_iff fun w => ih _ List.mem_cons_self hm
    | nullable hm =>
      -- null is of all three shapes, and any other value of the shapes inside
      simp only [Conforms, ih _ List.mem_cons_self hm]
      exact or_and_left
    | calculation _ hm => simpa only [Conforms] using ih _ List.mem_cons_self hm

/-- Tags that may be absent, each of which may be null. -/
def openTags : Shape :=
  .object [("id", .scalar .string), ("tags", .array (.nullable (.scalar .string)))] (.ofList ["tags"])

/-- The same tags, which must be there, beside a name that may be absent. -/
def taggedName : Shape :=
  .object [("name", .scalar .string), ("tags", .array (.nullable (.scalar .string)))]
    (.ofList ["name"])

/-- A value of both: it has an id and tags, and no name. -/
def taggedValue : Value :=
  .obj [("tags", .list [.str "new", .null]), ("id", .str "a1")]

theorem conforms_merge_iff_tags :
    merge openTags taggedName = .ok (.object [("id", .scalar .string),
      ("tags", .array (.nullable (.scalar .string))), ("name", .scalar .string)] (.ofList ["name"])) ∧
    (Conforms (.object [("id", .scalar .string), ("tags", .array (.nullable (.scalar .string))),
        ("name", .scalar .string)] (.ofList ["name"])) taggedValue ↔
      Conforms openTags taggedValue ∧ Conforms taggedName taggedValue) := by
  have hmerge : merge openTags taggedName = .ok (.object [("id", .scalar .string),
      ("tags", .array (.nullable (.scalar .string))), ("name", .scalar .string)]
        (.ofList ["name"])) := by
    decide +kernel
  exact ⟨hmerge, conforms_merge_iff hmerge⟩

end Shapewise.Shape
