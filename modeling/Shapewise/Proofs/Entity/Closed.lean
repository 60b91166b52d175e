import Shapewise.Proofs.Entity.Rules

/-!
# Closed graphs

In a closed graph every entity keeps the structural rules and names no member twice. What follows
for a single member is drawn from the rules: no name is both a primitive and a complex field, a
calculation that leads to no entity gives a scalar, and the tag field of a union is no variant. The
rules look at the kinds of other entities only, so they survive every change that keeps the kinds.
-/

namespace Shapewise

/-- No two primitive fields, no two complex fields and no two variants share a name. -/
def Entity.Distinct : Entity → Prop
  | .record r => Entries.Distinct r.primitives ∧ Entries.Distinct r.fields
  | .union u => Entries.Distinct u.variants

namespace Graph

/-- Every entity keeps the rules and names no member twice. -/
structure Closed (g : Graph) : Prop where
  rules : ∀ id e, g.get? id = some e → g.checkRules e = .ok ()
  distinct : ∀ id e, g.get? id = some e → e.Distinct

variable {g g' : Graph}

theorem get?_of_follow? {target : Target} {e : Entity} (h : g.follow? target = some e) :
    ∃ id, target = .entity id ∧ g.get? id = some e := by
  cases target with
  | entity id => exact ⟨id, rfl, h⟩
  | _ => simp [follow?] at h

/-! ## Members of a closed graph -/

section members

variable (hg : g.Closed) {id : EntityId} {r : Record} {u : Union} {name : String}

include hg

theorem Closed.keepsRecord (hr : g.get? id = some (.record r)) : g.KeepsRecord r :=
  checkRules_eq_ok_iff.1 (hg.rules id _ hr)

theorem Closed.keepsUnion (hu : g.get? id = some (.union u)) : g.KeepsUnion u :=
  checkRules_eq_ok_iff.1 (hg.rules id _ hu)

theorem Closed.field?_eq_none (hr : g.get? id = some (.record r)) {p : Primitive}
    (hp : r.primitive? name = some p) : r.field? name = none := by
  refine Entries.get?_eq_none_iff.2 ((hg.keepsRecord hr).disjoint name ?_)
  exact Entries.exists_get?_iff.1 ⟨p, hp⟩

/-- A calculation leads to an entity or gives a scalar. -/
theorem Closed.scalar_of_calculation (hr : g.get? id = some (.record r)) {f : Field}
    (hf : r.field? name = some f) {declared : Option (List Argument)}
    (hk : f.kind = .calculation declared) (ht : f.target.isEntity = false) :
    ∃ type, f.target = .scalar type := by
  obtain ⟨-, hadmits⟩ := (hg.keepsRecord hr).fields _ _ (Entries.mem_of_get? hf)
  rw [hk] at hadmits
  cases htarget : f.target with
  | scalar type => exact ⟨type, rfl⟩
  | entity id => simp [htarget, Target.isEntity] at ht
  | unset => simp [htarget, FieldKind.Admits, Knows, Target.isScalar, targetKind?, follow?] at hadmits

theorem Closed.variant?_eq_none (hu : g.get? id = some (.union u))
    (ht : u.tagField = some name) : u.variant? name = none :=
  Entries.get?_eq_none_iff.2 ((hg.keepsUnion hu).tagField name ht)

theorem Closed.variant?_of_mem (hu : g.get? id = some (.union u)) {target : Target}
    (hv : (name, target) ∈ u.variants) : u.variant? name = some target :=
  (Entries.get?_eq_some_iff (hg.distinct id _ hu)).2 hv

end members

/-! ## Change that keeps the kinds -/

theorem targetFault?_congr (h : ∀ t, g.targetKind? t = g'.targetKind? t) (entity : String)
    (f : Field) : g.targetFault? entity f = g'.targetFault? entity f := by
  cases hk : f.kind <;> simp [targetFault?, hk, h, follow?_isSome]

theorem variantFault?_congr (h : ∀ t, g.targetKind? t = g'.targetKind? t) (union tag : String)
    (t : Target) : g.variantFault? union tag t = g'.variantFault? union tag t := by
  cases t <;> simp [variantFault?, h]

/-- The rules of an entity depend on the kinds of the others alone. -/
theorem checkRules_congr (h : ∀ t, g.targetKind? t = g'.targetKind? t) (e : Entity) :
    g.checkRules e = g'.checkRules e := by
  cases e with
  | record r => simp only [checkRules, fieldFault?, targetFault?_congr h]
  | union u => simp only [checkRules, variantFault?_congr h]

end Graph

end Shapewise
