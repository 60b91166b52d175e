import Mathlib.Logic.Relation
import Shapewise.Proofs.Entity.Registry

/-!
# Where entities lead

An entity leads to those of its fields and variants, and from there on to others, perhaps back to
itself. Freezing looks one step ahead only: whatever a bound entity leads to must be what its name
means (`Registry.Complete`). By induction along the steps the same holds of everything that is
reached from a bound entity, so the registry is closed (`Complete.closed`).
-/

namespace Shapewise

/-- An entity leads to another one: by a complex field, whatever its kind, or by a variant. -/
inductive Entity.Leads : Entity → EntityId → Prop
  | field {r : Record} {key : String} {f : Field} {id : EntityId} (hfield : (key, f) ∈ r.fields)
    (htarget : f.target = .entity id) : Leads (.record r) id
  | variant {u : Union} {tag : String} {id : EntityId}
    (hvariant : (tag, .entity id) ∈ u.variants) : Leads (.union u) id

namespace Graph

/-- One entity of a graph leads to another. -/
def Leads (g : Graph) (id id' : EntityId) : Prop :=
  ∃ e, g.get? id = some e ∧ e.Leads id'

/-- One entity of a graph leads to another by any number of steps. -/
def Reaches (g : Graph) : EntityId → EntityId → Prop :=
  Relation.ReflTransGen g.Leads

end Graph

variable {g : Graph} {r : Registry} {e : Entity} {id id' : EntityId} {name : String}

theorem entity_mem_references_of_field {f : Field} (h : f.target = .entity id) :
    f.references = [.entity id] := by
  cases hkind : f.kind <;> simp [Field.references, hkind, h, Target.isEntity]

/-- An entity leads to what is among its references. -/
theorem Entity.leads_iff : e.Leads id ↔ .entity id ∈ e.references := by
  cases e with
  | record r =>
    constructor
    · rintro ⟨hfield, htarget⟩
      refine List.mem_flatMap.2 ⟨_, hfield, ?_⟩
      rw [entity_mem_references_of_field htarget]
      exact List.mem_singleton_self _
    · intro h
      obtain ⟨⟨key, f⟩, hfield, hmem⟩ := List.mem_flatMap.1 h
      refine .field hfield ?_
      rw [Field.references] at hmem
      split at hmem
      · split at hmem
        · exact (List.mem_singleton.1 hmem).symm
        · cases hmem
      · exact (List.mem_singleton.1 hmem).symm
  | union u =>
    constructor
    · rintro ⟨⟩
      next tag hvariant =>
        exact List.mem_filter.2 ⟨List.mem_map.2 ⟨(tag, .entity id), hvariant, rfl⟩, rfl⟩
    · intro h
      obtain ⟨⟨tag, t⟩, hvariant, rfl⟩ := List.mem_map.1 (List.mem_filter.1 h).1
      exact .variant hvariant

/-- Of an entity that keeps the rules, every reference is an entity. -/
theorem Graph.KeepsRules.exists_entity (h : g.KeepsRules e) {t : Target} (ht : t ∈ e.references) :
    ∃ id, t = .entity id := by
  have hentity : ∀ {t : Target}, t.isEntity = true → ∃ id, t = .entity id := by
    intro t ht
    cases t with
    | entity id => exact ⟨id, rfl⟩
    | _ => cases ht
  cases e with
  | record r =>
    have hr : g.KeepsRecord r := h
    obtain ⟨⟨key, f⟩, hfield, hmem⟩ := List.mem_flatMap.1 ht
    obtain ⟨-, hadmits⟩ := hr.fields key f hfield
    cases hkind : f.kind with
    | calculation declared =>
      rw [Field.references, hkind] at hmem
      simp only at hmem
      split at hmem
      · next htarget =>
        rw [List.mem_singleton.1 hmem]
        exact hentity htarget
      · cases hmem
    | relationship | map | union =>
      rw [hkind] at hadmits
      rw [Field.references, hkind, List.mem_singleton] at hmem
      rw [hmem]
      exact Graph.eq_entity_of_targetKind? hadmits
  | union u => exact hentity (List.mem_filter.1 ht).2

/-- An entity that keeps the rules leads to entities of the graph only. -/
theorem Graph.KeepsRules.exists_get? (h : g.KeepsRules e) (hleads : e.Leads id) :
    ∃ e', g.get? id = some e' := by
  have hknown : (g.targetKind? (.entity id)).isSome = true → ∃ e', g.get? id = some e' := by
    rw [← Graph.follow?_isSome]
    exact Option.isSome_iff_exists.1
  have hkind : ∀ {kind : EntityKind}, g.targetKind? (.entity id) = some kind →
      ∃ e', g.get? id = some e' := fun hk => hknown (Option.isSome_iff_exists.2 ⟨_, hk⟩)
  cases hleads with
  | @field r key f _ hfield htarget =>
    have hr : g.KeepsRecord r := h
    obtain ⟨-, hadmits⟩ := hr.fields key f hfield
    rw [htarget] at hadmits
    cases hk : f.kind with
    | calculation declared =>
      rw [hk] at hadmits
      exact hknown (hadmits.resolve_left nofun)
    | relationship | map | union =>
      rw [hk] at hadmits
      exact hkind hadmits
  | @variant u tag _ hvariant =>
    have hu : g.KeepsUnion u := h
    rcases hu.variants tag _ hvariant with hs | hk | hk
    · cases hs
    · exact hkind hk
    · exact hkind hk

/-! ## Registries -/

namespace Registry

/-- What is reached from an entity with a name is what its own name means. -/
theorem Complete.binds_of_reaches (hr : r.Complete g) (hnamed : r.Named g)
    (hid : r.get? name = some id) (h : g.Reaches id id') : r.Binds g id' := by
  induction h with
  | refl => exact hnamed.binds hid
  | tail _ hstep ih =>
    obtain ⟨e, he, hget⟩ := ih
    obtain ⟨e', he', hleads⟩ := hstep
    refine hnamed.isBound_iff.1 ?_
    exact hr.leads e.name _ e' (Entries.mem_of_get? hget) he' _ (Entity.leads_iff.1 hleads)

/-- Nothing is missing: no name is merely announced, every name means an entity of that name that
keeps the rules, and all that is reached from such an entity is what its own name means. -/
structure Closed (r : Registry) (g : Graph) : Prop where
  announced : ∀ name, name ∉ r.announced
  keepsRules : ∀ name id, r.get? name = some id →
    ∃ e, g.get? id = some e ∧ e.name = name ∧ g.KeepsRules e
  binds : ∀ name id id', r.get? name = some id → g.Reaches id id' → r.Binds g id'

theorem Closed.freeze (h : r.Closed g) : Closed { r with isFrozen := true } g :=
  ⟨h.announced, h.keepsRules, h.binds⟩

/-- Looking one step ahead is enough. -/
theorem Complete.closed (hr : r.Complete g) (hrules : ∀ name id, r.get? name = some id →
    ∃ e, g.get? id = some e ∧ e.name = name ∧ g.KeepsRules e) : r.Closed g := by
  refine ⟨hr.announced, hrules, fun name id id' hid => hr.binds_of_reaches (fun name id hid => ?_) hid⟩
  obtain ⟨e, he, hname, -⟩ := hrules name id hid
  exact ⟨e, he, hname⟩

end Registry

end Shapewise
