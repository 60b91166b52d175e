import Shapewise.Proofs.Entity.Closed
import Shapewise.Proofs.Shape.Record
import Shapewise.Selection.Project

/-!
# Shapes of a target

What every shape that is projected for a target looks like, whatever is selected: an object with
some of the names of the entity, and under each name the wrappers, scalars, literals and argument
shapes that are declared there. Only the arguments of calculations are left open. So two shapes of
one target can be merged, unless they hold a calculation with different arguments (`Fits.merge`).
-/

namespace Shapewise.Selection

open Outcome Shape

mutual
/-- A shape of a target. -/
inductive Fits (g : Graph) : Target → Shape → Prop
  | record {target : Target} {e : Entity} {fields : List (String × Shape)} :
      g.follow? target = some e → Entries.Distinct fields →
      (∀ n s, (n, s) ∈ fields → FitsName g e n s) → Fits g target (.record fields)
/-- The shape under a name of an entity. -/
inductive FitsName (g : Graph) : Entity → String → Shape → Prop
  | primitive {r : Record} {n : String} {p : Primitive} :
      r.primitive? n = some p → FitsName g (.record r) n p.shape
  /-- A relationship, a nested map or a union field. -/
  | field {r : Record} {n : String} {f : Field} {s : Shape} :
      r.field? n = some f → (∀ declared, f.kind ≠ .calculation declared) → Fits g f.target s →
      FitsName g (.record r) n (f.wrap s)
  /-- A calculation of a plain value. -/
  | value {r : Record} {n : String} {f : Field} {declared : Option (List Argument)}
      {type : Scalar} {x : Value} :
      r.field? n = some f → f.kind = .calculation declared → f.target = .scalar type →
      FitsName g (.record r) n
        (.calculation (f.wrap (.scalar type)) x (declared.map Arguments.shape))
  /-- A calculation of an entity. -/
  | call {r : Record} {n : String} {f : Field} {declared : Option (List Argument)}
      {id : EntityId} {x : Value} {s : Shape} :
      r.field? n = some f → f.kind = .calculation declared → f.target = .entity id →
      Fits g (.entity id) s →
      FitsName g (.record r) n (.calculation (f.wrap s) x (declared.map Arguments.shape))
  | tagField {u : Union} {n : String} :
      u.tagField = some n → FitsName g (.union u) n (.literal u.tags)
  /-- A variant that is a plain value. -/
  | scalar {u : Union} {n : String} {type : Scalar} :
      u.variant? n = some (.scalar type) → FitsName g (.union u) n (Shape.scalar type).orNull
  /-- A variant that is an entity. -/
  | variant {u : Union} {n : String} {id : EntityId} {s : Shape} :
      u.variant? n = some (.entity id) → Fits g (.entity id) s →
      FitsName g (.union u) n s.orNull
end

variable {g : Graph} {id : EntityId} {r : Record} {u : Union} {f : Field} {n : String} {s : Shape}

theorem exists_wrap (f : Field) : ∃ isNullable, ∀ s, f.wrap s = s.wrap f.isArray isNullable := by
  cases hk : f.kind with
  | relationship => exact ⟨f.isNullable && !f.isArray, fun s => by rw [Field.wrap, hk]⟩
  | _ => exact ⟨f.isNullable, fun s => by rw [Field.wrap, hk]⟩

theorem fits_record_iff {target : Target} {e : Entity} {fields : List (String × Shape)}
    (he : g.follow? target = some e) :
    Fits g target (.record fields) ↔
      Entries.Distinct fields ∧ ∀ f ∈ fields, FitsName g e f.1 f.2 := by
  constructor
  · intro h
    generalize hs : Shape.record fields = s at h
    obtain ⟨he', hd, hf⟩ := h
    cases hs
    cases he.symm.trans he'
    exact ⟨hd, fun f hm => hf f.1 f.2 hm⟩
  · rintro ⟨hd, hf⟩
    exact .record he hd fun n s hm => hf (n, s) hm

/-! ## The shape under a declared name -/

section inversion

variable (hg : g.Closed)

include hg in
theorem FitsName.of_primitive (hr : g.get? id = some (.record r)) {p : Primitive}
    (hp : r.primitive? n = some p) (h : FitsName g (.record r) n s) : s = p.shape := by
  have hnone := hg.field?_eq_none hr hp
  rcases h with hp' | ⟨hf, -, -⟩ | ⟨hf, -, -⟩ | ⟨hf, -, -, -⟩
  · rw [Option.some.inj (hp.symm.trans hp')]
  all_goals simp [hnone] at hf

include hg in
theorem FitsName.of_field (hr : g.get? id = some (.record r)) (hf : r.field? n = some f)
    (hk : ∀ declared, f.kind ≠ .calculation declared) (h : FitsName g (.record r) n s) :
    ∃ inner, Fits g f.target inner ∧ s = f.wrap inner := by
  rcases h with hp | ⟨hf', -, hs⟩ | ⟨hf', hk', -⟩ | ⟨hf', hk', -, -⟩
  · simp [hg.field?_eq_none hr hp] at hf
  all_goals obtain rfl := Option.some.inj (hf.symm.trans hf')
  · exact ⟨_, hs, rfl⟩
  all_goals exact absurd hk' (hk _)

include hg in
theorem FitsName.of_calculation (hr : g.get? id = some (.record r)) (hf : r.field? n = some f)
    {declared : Option (List Argument)} (hk : f.kind = .calculation declared)
    (h : FitsName g (.record r) n s) :
    ∃ x inner, s = .calculation (f.wrap inner) x (declared.map Arguments.shape) ∧
      (∀ type, f.target = .scalar type → inner = .scalar type) ∧
      ∀ id, f.target = .entity id → Fits g (.entity id) inner := by
  rcases h with hp | ⟨hf', hk', -⟩ | ⟨hf', hk', ht⟩ | ⟨hf', hk', ht, hs⟩
  · simp [hg.field?_eq_none hr hp] at hf
  all_goals obtain rfl := Option.some.inj (hf.symm.trans hf')
  · exact absurd hk (hk' _)
  all_goals obtain rfl := FieldKind.calculation.inj (hk.symm.trans hk')
  · refine ⟨_, _, rfl, fun type h => ?_, fun id h => ?_⟩
    · cases ht.symm.trans h
      rfl
    · cases ht.symm.trans h
  · refine ⟨_, _, rfl, fun type h => ?_, fun id h => ?_⟩
    · cases ht.symm.trans h
    · cases ht.symm.trans h
      exact hs

include hg in
theorem FitsName.of_tagField (hu : g.get? id = some (.union u)) (ht : u.tagField = some n)
    (h : FitsName g (.union u) n s) : s = .literal u.tags := by
  have hnone := hg.variant?_eq_none hu ht
  rcases h with _ | _ | _ | _ | - | hv | ⟨hv, -⟩
  · rfl
  all_goals simp [hnone] at hv

include hg in
theorem FitsName.of_variant (hu : g.get? id = some (.union u)) {target : Target}
    (hv : u.variant? n = some target) (h : FitsName g (.union u) n s) :
    (∀ type, target = .scalar type → s = (Shape.scalar type).orNull) ∧
      ∀ id, target = .entity id → ∃ inner, Fits g (.entity id) inner ∧ s = inner.orNull := by
  rcases h with _ | _ | _ | _ | ht | hv' | ⟨hv', hs⟩
  · simp [hg.variant?_eq_none hu ht] at hv
  all_goals obtain rfl := Option.some.inj (hv.symm.trans hv')
  · refine ⟨fun type h => ?_, fun id h => ?_⟩
    · cases h
      rfl
    · cases h
  · refine ⟨fun type h => ?_, fun id h => ?_⟩
    · cases h
    · cases h
      exact ⟨_, hs, rfl⟩

end inversion

/-! ## Merging -/

mutual
theorem Fits.proper : ∀ {target : Target} {s : Shape}, Fits g target s → Proper s
  | _, _, .record _ hd hf => proper_record_iff.2 ⟨hd, fun f hm => (hf f.1 f.2 hm).proper⟩
theorem FitsName.proper : ∀ {e : Entity} {n : String} {s : Shape}, FitsName g e n s → Proper s
  | _, _, _, .primitive _ => (proper_scalar _).wrap _ _
  | _, _, _, .field (f := f) _ _ h => by
    obtain ⟨isNullable, hw⟩ := exists_wrap f
    rw [hw]
    exact h.proper.wrap _ _
  | _, _, _, .value (f := f) _ _ _ => by
    obtain ⟨isNullable, hw⟩ := exists_wrap f
    rw [Proper, hw]
    exact (proper_scalar _).wrap _ _
  | _, _, _, .call (f := f) _ _ _ h => by
    obtain ⟨isNullable, hw⟩ := exists_wrap f
    rw [Proper, hw]
    exact h.proper.wrap _ _
  | _, _, _, .tagField _ => trivial
  | _, _, _, .scalar _ => trivial
  | _, _, _, .variant _ h => h.proper.orNull
end

theorem Fits.eq_record {target : Target} (h : Fits g target s) : ∃ fields, s = .record fields := by
  obtain ⟨-, -, -⟩ := h
  exact ⟨_, rfl⟩

/-- Only the arguments of calculations can be at odds. -/
abbrev OnlyArguments : Conflict → Prop := (· = .arguments)

theorem wrap_settles {target : Target} {fs gs : List (String × Shape)}
    (hp : Proper (.record fs))
    (h : Settles (fun ms => Fits g target (.record ms)) OnlyArguments (mergeFields fs gs))
    (f : Field) :
    Settles (fun m => ∃ inner, Fits g target inner ∧ m = f.wrap inner) OnlyArguments
      (merge (f.wrap (.record fs)) (f.wrap (.record gs))) := by
  obtain ⟨isNullable, hw⟩ := exists_wrap f
  rw [hw, hw, merge_wrap_record hp]
  exact h.map fun ms _ hms => ⟨_, hms, (hw _).symm⟩

mutual
/-- Two shapes of one target can be merged, unless arguments are at odds. -/
theorem Fits.mergeFields (hg : g.Closed) : ∀ {target : Target} {b : Shape}, Fits g target b →
    ∀ {fs gs : List (String × Shape)}, b = .record gs → Fits g target (.record fs) →
      Settles (fun ms => Fits g target (.record ms)) OnlyArguments (Shape.mergeFields fs gs)
  | target, _, .record he hd hf, fs, gs, hgs, ha => by
    cases hgs
    obtain ⟨hda, hfa⟩ := (fits_record_iff he).1 ha
    obtain ⟨id, -, hid⟩ := Graph.get?_of_follow? he
    refine (mergeFields_settles (P := FitsName g _) hfa (fun c hc => hf c.1 c.2 hc)
      fun c hc a hca => (hf c.1 c.2 hc).merge hg hid hca).imp fun ms hms hfits => ?_
    exact (fits_record_iff he).2 ⟨distinct_of_mergeFields hda hms, hfits⟩
/-- Two shapes under one name can be merged, unless arguments are at odds. -/
theorem FitsName.merge (hg : g.Closed) : ∀ {e : Entity} {n : String} {b : Shape}, FitsName g e n b →
    ∀ {id : EntityId} {a : Shape}, g.get? id = some e → FitsName g e n a →
      Settles (FitsName g e n) OnlyArguments (Shape.merge a b)
  | _, _, _, .primitive hp, id, a, hid, ha => by
    rw [ha.of_primitive hg hid hp, merge_self]
    exact .primitive hp
  | _, _, _, .field (f := f) hf hk hb, id, a, hid, ha => by
    obtain ⟨inner, hi, rfl⟩ := ha.of_field hg hid hf hk
    obtain ⟨fs, rfl⟩ := hi.eq_record
    obtain ⟨gs, hgs⟩ := hb.eq_record
    have hm := hb.mergeFields hg hgs hi
    rw [hgs]
    refine (wrap_settles hi.proper hm f).imp fun m _ ⟨inner, hinner, he⟩ => ?_
    rw [he]
    exact .field hf hk hinner
  | _, _, _, .value (f := f) hf hk ht, id, a, hid, ha => by
    obtain ⟨y, inner, rfl, hscalar, -⟩ := ha.of_calculation hg hid hf hk
    rw [hscalar _ ht, merge_calculation, merge_self]
    split
    · exact .value hf hk ht
    · rfl
  | _, _, _, .call (f := f) hf hk ht hb, id, a, hid, ha => by
    obtain ⟨y, inner, rfl, -, hentity⟩ := ha.of_calculation hg hid hf hk
    have hi := hentity _ ht
    obtain ⟨fs, rfl⟩ := hi.eq_record
    obtain ⟨gs, hgs⟩ := hb.eq_record
    have hm := hb.mergeFields hg hgs hi
    rw [hgs, merge_calculation]
    split
    · refine (wrap_settles hi.proper hm f).map fun m _ ⟨inner, hinner, he⟩ => ?_
      rw [he]
      exact .call hf hk ht hinner
    · rfl
  | _, _, _, .tagField ht, id, a, hid, ha => by
    rw [ha.of_tagField hg hid ht, merge_self]
    exact .tagField ht
  | _, _, _, .scalar hv, id, a, hid, ha => by
    rw [(ha.of_variant hg hid hv).1 _ rfl, merge_self]
    exact .scalar hv
  | _, _, _, .variant hv hb, id, a, hid, ha => by
    obtain ⟨inner, hi, rfl⟩ := (ha.of_variant hg hid hv).2 _ rfl
    obtain ⟨fs, rfl⟩ := hi.eq_record
    obtain ⟨gs, hgs⟩ := hb.eq_record
    have hm := hb.mergeFields hg hgs hi
    rw [hgs]
    show Settles _ _ (Shape.merge ((record fs).wrap false true) ((record gs).wrap false true))
    rw [merge_wrap_record hi.proper]
    exact hm.map fun ms _ hms => .variant hv hms
end

end Shapewise.Selection
