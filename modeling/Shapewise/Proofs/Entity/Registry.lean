import Shapewise.Entity.Registry
import Shapewise.Proofs.Entity.Rules
import Shapewise.Proofs.Outcome

/-!
# When a registry accepts

For each function of a registry, when it succeeds and what it then gives. Freezing asks that the
registry is complete (`Registry.Complete`): nothing is merely announced, and whatever a bound entity
leads to is what its own name means.
-/

namespace Shapewise.Registry

open Outcome

variable {g g' : Graph} {r r' : Registry} {e : Entity} {id : EntityId} {name : String}

/-- An entity is the one that its name means. -/
def Binds (r : Registry) (g : Graph) (id : EntityId) : Prop :=
  ∃ e, g.get? id = some e ∧ r.get? e.name = some id

/-- Every name means an entity of that name. -/
def Named (r : Registry) (g : Graph) : Prop :=
  ∀ name id, r.get? name = some id → ∃ e, g.get? id = some e ∧ e.name = name

theorem Named.binds (h : r.Named g) (hid : r.get? name = some id) : r.Binds g id := by
  obtain ⟨e, he, hname⟩ := h name id hid
  exact ⟨e, he, hname ▸ hid⟩

theorem Named.isBound_iff (h : r.Named g) : r.isBound g (.entity id) = true ↔ r.Binds g id := by
  have hbound : r.isBound g (.entity id) = true ↔
      r.get? (((g.get? id).map Entity.name).getD "") = some id := decide_eq_true_iff
  rw [hbound]
  constructor
  · exact h.binds
  · rintro ⟨e, he, hid⟩
    rwa [he, Option.map_some, Option.getD_some]

/-! ## Registering and announcing -/

theorem registerBind_eq_ok_iff : register.bind r g id e = .ok r' ↔ g.KeepsRules e ∧
    r' = { r with
      bindings := Entries.put r.bindings e.name id
      announced := r.announced.erase e.name } := by
  rw [register.bind, then_eq_ok_iff, Graph.checkRules_eq_ok_iff, pure_eq_ok_iff, eq_comm]

/-- An entity is registered under a free name or as the announced one of its name. -/
theorem register_eq_ok_iff (hid : g.get? id = some e) : r.register g id = .ok r' ↔
    r.isFrozen = false ∧
    (r.get? e.name = none ∨ e.name ∈ r.announced ∧ r.get? e.name = some id) ∧
    g.KeepsRules e ∧ r' = { r with
      bindings := Entries.put r.bindings e.name id
      announced := r.announced.erase e.name } := by
  rw [register, hid, ← registerBind_eq_ok_iff]
  cases hfrozen : r.isFrozen with
  | true => simp
  | false =>
    simp only [Bool.false_eq_true, if_false, true_and]
    cases hbound : r.get? e.name with
    | none => simp
    | some old =>
      by_cases hfinish : e.name ∈ r.announced ∧ old = id
      · simp [hfinish]
      · simp only [hfinish, if_false, reduceCtorEq, false_or, Option.some.injEq, false_and]

/-- A free name is announced with a new empty entity; what is announced already is found again. -/
theorem announce_eq_ok_iff {kind : EntityKind} : r.announce g name kind = .ok (r', g', id) ↔
    r.isFrozen = false ∧
    (r.get? name = none ∧ id = ⟨g.entities.length⟩ ∧ g' = (g.add (.empty kind name)).1 ∧
        r' = { r with
          bindings := Entries.put r.bindings name id
          announced := r.announced.insert name } ∨
      (name ∈ r.announced ∧ (g.get? id).map Entity.kind = some kind) ∧ r.get? name = some id ∧
        g' = g ∧ r' = r) := by
  rw [announce]
  cases hfrozen : r.isFrozen with
  | true => simp
  | false =>
    simp only [Bool.false_eq_true, if_false, true_and]
    cases hbound : r.get? name with
    | none =>
      simp only [Graph.add, Except.ok.injEq, Prod.mk.injEq, reduceCtorEq, false_and, and_false,
        or_false, true_and]
      constructor
      · rintro ⟨rfl, rfl, rfl⟩
        exact ⟨rfl, rfl, rfl⟩
      · rintro ⟨rfl, rfl, rfl⟩
        exact ⟨rfl, rfl, rfl⟩
    | some old =>
      simp only [reduceCtorEq, false_and, false_or, Option.some.injEq]
      by_cases hrepeat : name ∈ r.announced ∧ (g.get? old).map Entity.kind = some kind
      · rw [if_pos hrepeat]
        simp only [Except.ok.injEq, Prod.mk.injEq]
        constructor
        · rintro ⟨rfl, rfl, rfl⟩
          exact ⟨hrepeat, rfl, rfl, rfl⟩
        · rintro ⟨-, rfl, rfl, rfl⟩
          exact ⟨rfl, rfl, rfl⟩
      · rw [if_neg hrepeat]
        simp only [reduceCtorEq, false_iff, not_and]
        rintro h rfl
        exact absurd h hrepeat

/-! ## Freezing -/

/-- No name is merely announced, and what a bound entity leads to is what its own name means. -/
structure Complete (r : Registry) (g : Graph) : Prop where
  announced : ∀ name, name ∉ r.announced
  leads : ∀ name id e, (name, id) ∈ r.bindings → g.get? id = some e →
    ∀ t ∈ e.references, r.isBound g t = true

theorem Complete.freeze (h : r.Complete g) : Complete { r with isFrozen := true } g := by
  refine ⟨h.announced, fun name id e hb he t ht => ?_⟩
  have hbound := h.leads name id e hb he t ht
  cases t with
  | entity id' => exact hbound
  | _ => cases hbound

theorem leakFault?_eq_none_iff :
    r.leakFault? g e = none ↔ ∀ t ∈ e.references, r.isBound g t = true := by
  simp [leakFault?]

theorem isEmpty_announced_iff : r.announced.names.isEmpty = true ↔ ∀ name, name ∉ r.announced := by
  rw [List.isEmpty_iff, List.eq_nil_iff_forall_not_mem]
  rfl

/-- Freezing an open registry checks that it is complete. -/
theorem freeze_eq_ok_iff (hopen : r.isFrozen = false) :
    r.freeze g = .ok r' ↔ r.Complete g ∧ r' = { r with isFrozen := true } := by
  have hleaks : Graph.firstFault (r.bindings.map fun b => (g.get? b.2).bind (r.leakFault? g)) =
      .ok () ↔ ∀ name id e, (name, id) ∈ r.bindings → g.get? id = some e →
        ∀ t ∈ e.references, r.isBound g t = true := by
    rw [Graph.firstFault_eq_ok_iff, List.forall_mem_map]
    simp only [Prod.forall, Option.bind_eq_none_iff, leakFault?_eq_none_iff]
    exact ⟨fun h name id e hb he => h name id hb e he, fun h name id hb e he => h name id e hb he⟩
  rw [freeze, hopen]
  by_cases hempty : r.announced.names.isEmpty = true
  · simp only [hempty, Bool.false_eq_true, if_false, Bool.not_true]
    rw [then_eq_ok_iff, hleaks, pure_eq_ok_iff]
    constructor
    · rintro ⟨h, rfl⟩
      exact ⟨⟨isEmpty_announced_iff.1 hempty, h⟩, rfl⟩
    · rintro ⟨h, rfl⟩
      exact ⟨h.leads, rfl⟩
  · rw [Bool.not_eq_true] at hempty
    simp only [hempty, Bool.false_eq_true, if_false, Bool.not_false, if_true]
    refine ⟨nofun, fun h => ?_⟩
    rw [isEmpty_announced_iff.2 h.1.announced] at hempty
    cases hempty

theorem freeze_of_isFrozen (h : r.isFrozen = true) : r.freeze g = .ok r := by
  rw [freeze, if_pos h]

end Shapewise.Registry
