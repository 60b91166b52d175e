import Shapewise.Entity.Rules
import Shapewise.Proofs.Entity.Graph
import Shapewise.Proofs.Entries

/-!
# What the structural rules say

The rules of an entity as a property (`Graph.KeepsRules`), said without an order of checks and
without faults. An entity passes the checks exactly when it has the property
(`checkRules_eq_ok_iff`). The rules look at the kinds of other entities only, so an entity that keeps
them does so in every graph into which its own grows (`KeepsRules.grows`).
-/

namespace Shapewise

/-! ## What may be led to -/

/-- A target is a scalar type or an entity of a graph. -/
def Graph.Knows (g : Graph) (t : Target) : Prop :=
  t.isScalar = true ∨ (g.targetKind? t).isSome = true

/-- What a complex field of a kind may lead to: an entity of that kind, or anything for a
calculation. -/
def FieldKind.Admits (g : Graph) (t : Target) : FieldKind → Prop
  | .relationship => g.targetKind? t = some .resource
  | .calculation _ => g.Knows t
  | .map => g.targetKind? t = some .map
  | .union => g.targetKind? t = some .union

/-- What a variant may be: a scalar type or a record. -/
def Graph.AdmitsVariant (g : Graph) (t : Target) : Prop :=
  t.isScalar = true ∨ g.targetKind? t = some .resource ∨ g.targetKind? t = some .map

instance (g : Graph) (t : Target) : Decidable (g.Knows t) :=
  inferInstanceAs (Decidable (_ ∨ _))

instance (g : Graph) (t : Target) : Decidable (g.AdmitsVariant t) :=
  inferInstanceAs (Decidable (_ ∨ _))

instance (g : Graph) (t : Target) : (kind : FieldKind) → Decidable (kind.Admits g t)
  | .relationship => inferInstanceAs (Decidable (_ = _))
  | .calculation _ => inferInstanceAs (Decidable (g.Knows t))
  | .map => inferInstanceAs (Decidable (_ = _))
  | .union => inferInstanceAs (Decidable (_ = _))

namespace Graph

variable {g g' : Graph}

/-! ## The property -/

/-- No name is both a primitive and a complex field, every member stands under its own name, and
every complex field leads to something of its kind. -/
structure KeepsRecord (g : Graph) (r : Record) : Prop where
  disjoint : ∀ name ∈ Entries.keys r.primitives, name ∉ Entries.keys r.fields
  fields : ∀ key f, (key, f) ∈ r.fields → f.name = key ∧ f.kind.Admits g f.target
  primitives : ∀ key p, (key, p) ∈ r.primitives → p.name = key

/-- The tag field is no tag, and every variant is a scalar or a record. -/
structure KeepsUnion (g : Graph) (u : Union) : Prop where
  tagField : ∀ tag ∈ u.tagField, tag ∉ Entries.keys u.variants
  variants : ∀ tag t, (tag, t) ∈ u.variants → g.AdmitsVariant t

/-- An entity keeps the structural rules. -/
def KeepsRules (g : Graph) : Entity → Prop
  | .record r => g.KeepsRecord r
  | .union u => g.KeepsUnion u

/-! ## The checks -/

theorem firstFault_eq_ok_iff {ε : Type} {faults : List (Option ε)} :
    firstFault faults = .ok () ↔ ∀ f ∈ faults, f = none := by
  induction faults with
  | nil => simp [firstFault]
  | cons f faults ih =>
    cases f with
    | none => simp [firstFault, ih]
    | some f => simp [firstFault]

/-- The fault that is reported is among those that were found. -/
theorem mem_of_firstFault_eq_error {ε : Type} {faults : List (Option ε)} {f : ε}
    (h : firstFault faults = .error f) : some f ∈ faults := by
  induction faults with
  | nil => cases h
  | cons fault faults ih =>
    cases fault with
    | none => exact List.mem_cons_of_mem _ (ih h)
    | some fault =>
      cases h
      exact List.mem_cons_self

/-- A check finds no fault where what it asks for holds. -/
theorem ite_fault_eq_none_iff {ε : Type} {p : Prop} [Decidable p] {f : ε} :
    (if p then none else some f) = none ↔ p := by
  by_cases hp : p <;> simp [hp]

theorem follow?_isSome (t : Target) : (g.follow? t).isSome = (g.targetKind? t).isSome := by
  rw [targetKind?, Option.isSome_map]

theorem targetFault?_eq_none_iff {entity : String} {f : Field} :
    g.targetFault? entity f = none ↔ f.kind.Admits g f.target := by
  cases hkind : f.kind with
  | calculation declared =>
    rw [targetFault?, hkind, FieldKind.Admits, Knows, ← follow?_isSome, ← Bool.or_eq_true]
    exact ite_fault_eq_none_iff
  | relationship | map | union =>
    rw [targetFault?, hkind]
    exact ite_fault_eq_none_iff

theorem fieldFault?_eq_none_iff {entity key : String} {f : Field} :
    g.fieldFault? entity key f = none ↔ f.name = key ∧ f.kind.Admits g f.target := by
  rw [← @targetFault?_eq_none_iff g entity, fieldFault?]
  by_cases hname : f.name = key <;> simp [hname]

theorem primitiveFault?_eq_none_iff {entity key : String} {p : Primitive} :
    primitiveFault? entity key p = none ↔ p.name = key :=
  ite_fault_eq_none_iff

theorem variantFault?_eq_none_iff {union tag : String} {t : Target} :
    g.variantFault? union tag t = none ↔ g.AdmitsVariant t := by
  cases t with
  | scalar type => simp [variantFault?, AdmitsVariant, Target.isScalar]
  | unset => simp [variantFault?, AdmitsVariant, Target.isScalar, targetKind?, follow?]
  | entity id =>
    rcases hkind : g.targetKind? (.entity id) with _ | _ | _ | _ <;>
      simp [variantFault?, AdmitsVariant, Target.isScalar, hkind]

theorem overlapFault?_eq_none_iff {r : Record} :
    overlapFault? r = none ↔ ∀ name ∈ Entries.keys r.primitives, name ∉ Entries.keys r.fields := by
  have hmem : ∀ name, name ∈ (NameSet.ofList ((Entries.keys r.primitives).filter
      (Entries.has r.fields))).names ↔
      name ∈ Entries.keys r.primitives ∧ name ∈ Entries.keys r.fields := by
    intro name
    refine NameSet.mem_ofList.trans ?_
    rw [List.mem_filter, Entries.has_eq_true_iff]
  refine ite_fault_eq_none_iff.trans ?_
  rw [List.isEmpty_iff, List.eq_nil_iff_forall_not_mem]
  simp only [hmem, not_and]

theorem tagFault?_eq_none_iff {u : Union} :
    tagFault? u = none ↔ ∀ tag ∈ u.tagField, tag ∉ Entries.keys u.variants := by
  cases htag : u.tagField with
  | none => simp [tagFault?, htag]
  | some tag => simp [tagFault?, htag, ← Entries.has_eq_true_iff]

/-- An entity passes the checks exactly when it keeps the rules. -/
theorem checkRules_eq_ok_iff {e : Entity} : g.checkRules e = .ok () ↔ g.KeepsRules e := by
  cases e with
  | record r =>
    rw [checkRules, firstFault_eq_ok_iff, List.cons_append, List.forall_mem_cons,
      List.forall_mem_append, List.forall_mem_map, List.forall_mem_map]
    simp only [overlapFault?_eq_none_iff, fieldFault?_eq_none_iff, primitiveFault?_eq_none_iff,
      Prod.forall]
    exact ⟨fun h => ⟨h.1, h.2.1, h.2.2⟩, fun h => ⟨h.disjoint, h.fields, h.primitives⟩⟩
  | union u =>
    rw [checkRules, firstFault_eq_ok_iff, List.forall_mem_cons, List.forall_mem_map]
    simp only [tagFault?_eq_none_iff, variantFault?_eq_none_iff, Prod.forall]
    exact ⟨fun h => ⟨h.1, h.2⟩, fun h => ⟨h.tagField, h.variants⟩⟩

/-! ## Growth -/

theorem Knows.grows {t : Target} (h : g.Knows t) (hg : g.Grows g') : g'.Knows t := by
  refine Or.imp_right (fun ht => ?_) h
  obtain ⟨kind, hkind⟩ := Option.isSome_iff_exists.1 ht
  exact Option.isSome_iff_exists.2 ⟨kind, hg.targetKind? hkind⟩

theorem admits_of_grows {t : Target} {kind : FieldKind} (h : kind.Admits g t) (hg : g.Grows g') :
    kind.Admits g' t := by
  cases kind with
  | relationship | map | union => exact hg.targetKind? h
  | calculation => exact Knows.grows h hg

theorem AdmitsVariant.grows {t : Target} (h : g.AdmitsVariant t) (hg : g.Grows g') :
    g'.AdmitsVariant t :=
  Or.imp_right (Or.imp hg.targetKind? hg.targetKind?) h

/-- What keeps the rules still keeps them when other entities are added or changed. -/
theorem KeepsRules.grows {e : Entity} (h : g.KeepsRules e) (hg : g.Grows g') : g'.KeepsRules e := by
  cases e with
  | record r =>
    have hr : g.KeepsRecord r := h
    exact ⟨hr.disjoint, fun key f hf => (hr.fields key f hf).imp_right fun ha =>
      admits_of_grows ha hg, hr.primitives⟩
  | union u =>
    have hu : g.KeepsUnion u := h
    exact ⟨hu.tagField, fun tag t ht => (hu.variants tag t ht).grows hg⟩

end Graph

end Shapewise
