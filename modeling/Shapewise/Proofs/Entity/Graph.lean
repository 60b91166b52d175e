import Shapewise.Entity.Graph

/-!
# Changes of the graph

What stands behind an identity after an entity is added or the members of one are replaced. Either
way the graph only grows (`Graph.Grows`): whatever stood behind an identity still has its name and
its kind.
-/

namespace Shapewise

namespace Entity

@[simp] theorem name_empty (kind : EntityKind) (name : String) : (empty kind name).name = name := by
  cases kind <;> rfl

@[simp] theorem kind_empty (kind : EntityKind) (name : String) : (empty kind name).kind = kind := by
  cases kind <;> rfl

end Entity

namespace Graph

variable {g g' g'' : Graph} {id id' : EntityId} {e e' old : Entity}

theorem get?_add : (g.add e).1.get? id = some e' ↔
    g.get? id = some e' ∨ id = ⟨g.entities.length⟩ ∧ e' = e := by
  obtain ⟨i⟩ := id
  show (g.entities ++ [e])[i]? = some e' ↔ g.entities[i]? = some e' ∨ _
  rw [List.getElem?_append]
  split
  · next hi =>
    refine (or_iff_left ?_).symm
    rintro ⟨h, -⟩
    cases h
    exact absurd hi (Nat.lt_irrefl _)
  · next hi =>
    rw [List.getElem?_eq_none (Nat.not_lt.1 hi)]
    rcases Nat.eq_or_lt_of_le (Nat.not_lt.1 hi) with h | h
    · subst h
      simp [eq_comm]
    · rw [List.getElem?_eq_none (by simpa using by omega)]
      simp only [reduceCtorEq, false_or, false_iff, not_and, EntityId.mk.injEq]
      exact fun he => absurd he.symm (Nat.ne_of_lt h)

theorem get?_set (h : g.get? id = some old) :
    (g.set id e).get? id' = if id' = id then some e else g.get? id' := by
  obtain ⟨i⟩ := id
  obtain ⟨j⟩ := id'
  have hi : i < g.entities.length := (List.getElem?_eq_some_iff.1 h).1
  show (g.entities.set i e)[j]? = _
  rw [List.getElem?_set]
  by_cases hij : i = j
  · subst hij
    simp [hi]
  · have hne : ¬ (EntityId.mk j = EntityId.mk i) := fun he => hij (EntityId.mk.inj he).symm
    rw [if_neg hij, if_neg hne]
    rfl

theorem targetKind?_set (h : g.get? id = some old) (hk : e.kind = old.kind) (t : Target) :
    (g.set id e).targetKind? t = g.targetKind? t := by
  cases t with
  | entity id' =>
    show ((g.set id e).get? id').map Entity.kind = (g.get? id').map Entity.kind
    rw [get?_set h]
    split
    · next hid => rw [hid, h, Option.map_some, Option.map_some, hk]
    · rfl
  | _ => rfl

theorem eq_entity_of_targetKind? {t : Target} {kind : EntityKind}
    (h : g.targetKind? t = some kind) : ∃ id, t = .entity id := by
  cases t with
  | entity id => exact ⟨id, rfl⟩
  | _ => cases h

/-! ## Growth -/

/-- What stood behind an identity still has its name and its kind. -/
def Grows (g g' : Graph) : Prop :=
  ∀ id e, g.get? id = some e → ∃ e', g'.get? id = some e' ∧ e'.name = e.name ∧ e'.kind = e.kind

theorem Grows.refl (g : Graph) : g.Grows g :=
  fun _ e he => ⟨e, he, rfl, rfl⟩

theorem Grows.trans (h : g.Grows g') (h' : g'.Grows g'') : g.Grows g'' := by
  intro id e he
  obtain ⟨e', he', hname, hkind⟩ := h id e he
  obtain ⟨e'', he'', hname', hkind'⟩ := h' id e' he'
  exact ⟨e'', he'', hname'.trans hname, hkind'.trans hkind⟩

theorem grows_add (g : Graph) (e : Entity) : g.Grows (g.add e).1 :=
  fun _ e' he => ⟨e', get?_add.2 (.inl he), rfl, rfl⟩

theorem grows_set (h : g.get? id = some old) (hname : e.name = old.name)
    (hkind : e.kind = old.kind) : g.Grows (g.set id e) := by
  intro id' e' he'
  rw [get?_set h]
  split
  · next hid =>
    rw [hid, h] at he'
    cases he'
    exact ⟨e, rfl, hname, hkind⟩
  · exact ⟨e', he', rfl, rfl⟩

theorem Grows.targetKind? (h : g.Grows g') {t : Target} {kind : EntityKind}
    (hk : g.targetKind? t = some kind) : g'.targetKind? t = some kind := by
  obtain ⟨id, rfl⟩ := eq_entity_of_targetKind? hk
  obtain ⟨e, he, rfl⟩ := Option.map_eq_some_iff.1 hk
  obtain ⟨e', he', -, hkind⟩ := h id e he
  have hfollow : g'.follow? (.entity id) = some e' := he'
  rw [Graph.targetKind?, hfollow, Option.map_some, hkind]

end Graph

end Shapewise
