import Shapewise.Proofs.Schema.Alias
import Shapewise.Proofs.Schema.Closed

/-!
# Announced definitions

What is known once all definitions are announced and the aliases are followed, told from the
definitions alone (`announceAll_eq_ok_iff`). The drafts on the way all have one form, `Draft.stage`:
some entities are finished, the others are announced in the order of their definitions, and every
name is bound to the place at which its entity stands.
-/

namespace Shapewise.Schema

open Outcome

variable {definitions : List Definition} {d : Draft}

/-- The name that a definition defines. -/
def Definition.name : Definition → String
  | .alias name _ => name
  | .record _ name _ => name
  | .union name _ _ => name

/-- The entities that definitions define, by name and kind, in order. -/
def announced (definitions : List Definition) : List (String × EntityKind) :=
  definitions.filterMap Definition.announced?

/-- Every definition has a name of its own, which is not that of a scalar type. -/
structure Named (definitions : List Definition) : Prop where
  nodup : (definitions.map Definition.name).Nodup
  new : ∀ definition ∈ definitions, Scalar.ofName? definition.name = none

/-! ## Places -/

/-- Names bound to the places at which they stand. -/
def numbered (names : List String) : List (String × EntityId) :=
  names.zipIdx.map fun n => (n.1, ⟨n.2⟩)

@[simp] theorem keys_numbered (names : List String) : Entries.keys (numbered names) = names := by
  simp [numbered, Entries.keys, Function.comp_def]

theorem numbered_concat (names : List String) (name : String) :
    numbered (names ++ [name]) = numbered names ++ [(name, ⟨names.length⟩)] := by
  simp [numbered, List.zipIdx_append]

/-- Where names are distinct, each is bound to its place. -/
theorem get?_numbered {names : List String} (h : names.Nodup) {name : String} {id : EntityId} :
    Entries.get? (numbered names) name = some id ↔ names[id.index]? = some name := by
  have hd : Entries.Distinct (numbered names) := by
    rw [Entries.Distinct, keys_numbered]
    exact h
  obtain ⟨i⟩ := id
  rw [Entries.get?_eq_some_iff hd, numbered, List.mem_map]
  constructor
  · rintro ⟨⟨n, j⟩, hm, he⟩
    cases he
    exact List.mem_zipIdx_iff_getElem?.1 hm
  · intro hi
    exact ⟨(name, i), List.mem_zipIdx_iff_getElem?.2 hi, rfl⟩

/-- The name and the kind of an entity. -/
def outline (e : Entity) : String × EntityKind :=
  (e.name, e.kind)

/-- Some entities are finished; others, of which the names and kinds are given, are announced. -/
def Draft.stage (aliases : List (String × Scalar)) (finished : List Entity)
    (pending : List (String × EntityKind)) : Draft where
  registry := ⟨numbered (Entries.keys (finished.map outline ++ pending)),
    .ofList (Entries.keys pending), false⟩
  graph := ⟨finished ++ pending.map fun e => .empty e.2 e.1⟩
  aliases := aliases

/-! ## Announcing -/

theorem isTaken_stage (pending : List (String × EntityKind)) (name : String) :
    (Draft.stage [] [] pending).isTaken name = false ↔
      Scalar.ofName? name = none ∧ name ∉ Entries.keys pending := by
  have hget : (Draft.stage [] [] pending).registry.get? name = none ↔
      name ∉ Entries.keys pending := by
    rw [Registry.get?, Entries.get?_eq_none_iff]
    simp [Draft.stage]
  rw [Draft.isTaken, Bool.or_eq_false_iff, Bool.or_eq_false_iff, Option.isSome_eq_false_iff,
    Option.isSome_eq_false_iff, Option.isNone_iff_eq_none, Option.isNone_iff_eq_none, hget]
  exact and_iff_left rfl

/-- Announcing adds an entity to those that are announced. -/
theorem announce_stage {pending : List (String × EntityKind)} {name : String} (kind : EntityKind)
    (h : (Draft.stage [] [] pending).isTaken name = false) :
    (Draft.stage [] [] pending).announce name kind =
      .ok (.stage [] [] (pending ++ [(name, kind)])) := by
  have hnew : name ∉ Entries.keys pending := ((isTaken_stage pending name).1 h).2
  have hnone : (Draft.stage [] [] pending).registry.get? name = none := by
    rw [Registry.get?, Entries.get?_eq_none_iff]
    simpa [Draft.stage] using hnew
  have hput : Entries.put (numbered (Entries.keys pending)) name ⟨pending.length⟩ =
      numbered (Entries.keys pending ++ [name]) := by
    rw [Entries.put_of_not_mem (by simpa using hnew), numbered_concat]
    simp [Entries.keys]
  have hinsert : (NameSet.ofList (Entries.keys pending)).insert name =
      .ofList (Entries.keys pending ++ [name]) := by
    simp [NameSet.ofList]
  have hisOpen : (Draft.stage [] [] pending).registry.isFrozen = false := rfl
  rw [Draft.announce, h, Registry.announce, hisOpen, hnone]
  simp only [Draft.stage, Graph.add, Bool.false_eq_true, if_false, List.map_nil, List.nil_append,
    List.length_map, hput, hinsert, Entries.keys_append, Entries.keys_cons, Entries.keys_nil,
    List.map_append, List.map_cons]

theorem announce_stage_iff {pending : List (String × EntityKind)} {name : String}
    {kind : EntityKind} :
    (Draft.stage [] [] pending).announce name kind = .ok d ↔
      (Scalar.ofName? name = none ∧ name ∉ Entries.keys pending) ∧
        d = .stage [] [] (pending ++ [(name, kind)]) := by
  cases htaken : (Draft.stage [] [] pending).isTaken name with
  | false =>
    rw [announce_stage kind htaken, Except.ok.injEq, eq_comm]
    exact (and_iff_right ((isTaken_stage pending name).1 htaken)).symm
  | true =>
    rw [← isTaken_stage, htaken, Draft.announce, if_pos htaken]
    simp

/-- A run of announcements succeeds when every name is new. -/
theorem foldlM_announceDefinition_iff {pending : List (String × EntityKind)} :
    definitions.foldlM Draft.announceDefinition (.stage [] [] pending) = .ok d ↔
      ((Entries.keys (announced definitions)).Nodup ∧
        ∀ name ∈ Entries.keys (announced definitions),
          Scalar.ofName? name = none ∧ name ∉ Entries.keys pending) ∧
      d = .stage [] [] (pending ++ announced definitions) := by
  induction definitions generalizing pending with
  | nil =>
    rw [List.foldlM_nil, pure_eq_ok_iff, eq_comm]
    simp [announced]
  | cons definition definitions ih =>
    rw [List.foldlM_cons, announceDefinition_eq]
    cases hdef : definition.announced? with
    | none =>
      have hcons : announced (definition :: definitions) = announced definitions := by
        simp [announced, hdef]
      rw [hcons]
      exact ih
    | some e =>
      obtain ⟨name, kind⟩ := e
      have hcons : announced (definition :: definitions) = (name, kind) :: announced definitions := by
        simp [announced, hdef]
      simp only [bind_eq_ok_iff, announce_stage_iff, hcons, Entries.keys_cons, List.nodup_cons,
        List.forall_mem_cons]
      constructor
      · rintro ⟨_, ⟨hname, rfl⟩, h⟩
        obtain ⟨⟨hnodup, hnew⟩, rfl⟩ := ih.1 h
        simp only [Entries.keys_append, Entries.keys_cons, Entries.keys_nil, List.mem_append,
          List.mem_singleton, not_or] at hnew
        refine ⟨⟨⟨fun hm => (hnew _ hm).2.2 rfl, hnodup⟩, hname, fun n hn => ?_⟩, by simp⟩
        exact ⟨(hnew n hn).1, (hnew n hn).2.1⟩
      · rintro ⟨⟨⟨hnotin, hnodup⟩, hname, hnew⟩, rfl⟩
        refine ⟨_, ⟨hname, rfl⟩, ih.2 ⟨⟨hnodup, fun n hn => ⟨(hnew n hn).1, ?_⟩⟩, by simp⟩⟩
        simp only [Entries.keys_append, Entries.keys_cons, Entries.keys_nil, List.mem_append,
          List.mem_singleton, not_or]
        exact ⟨(hnew n hn).2, fun he => hnotin (he ▸ hn)⟩

/-! ## Names of definitions -/

theorem named_iff_names : Named definitions ↔ (definitions.map Definition.name).Nodup ∧
    ∀ name ∈ definitions.map Definition.name, Scalar.ofName? name = none :=
  ⟨fun h => ⟨h.nodup, List.forall_mem_map.2 h.new⟩, fun h => ⟨h.1, List.forall_mem_map.1 h.2⟩⟩

/-- The names that definitions define are those of their entities and those of their aliases. -/
theorem names_perm (definitions : List Definition) :
    (definitions.map Definition.name).Perm
      (Entries.keys (announced definitions) ++ (aliasesOf definitions).map Alias.name) := by
  induction definitions with
  | nil => exact .refl _
  | cons definition definitions ih =>
    rcases definition with ⟨name, base⟩ | ⟨_ | _, name, members⟩ | ⟨name, variants, tagField⟩
    · exact (ih.cons name).trans List.perm_middle.symm
    all_goals exact ih.cons name

/-- Definitions have names of their own when their entities and aliases do. -/
theorem named_iff : Named definitions ↔
    ((Entries.keys (announced definitions)).Nodup ∧
      ∀ name ∈ Entries.keys (announced definitions), Scalar.ofName? name = none) ∧
    ((aliasesOf definitions).map Alias.name).Nodup ∧
      ∀ a ∈ aliasesOf definitions,
        Scalar.ofName? a.name = none ∧ a.name ∉ Entries.keys (announced definitions) := by
  have hperm := names_perm definitions
  have hnew : (∀ name ∈ definitions.map Definition.name, Scalar.ofName? name = none) ↔
      (∀ name ∈ Entries.keys (announced definitions), Scalar.ofName? name = none) ∧
        ∀ a ∈ aliasesOf definitions, Scalar.ofName? a.name = none := by
    simp only [hperm.mem_iff, List.mem_append, or_imp, forall_and, List.forall_mem_map]
  have hnodup : (definitions.map Definition.name).Nodup ↔
      (Entries.keys (announced definitions)).Nodup ∧
        ((aliasesOf definitions).map Alias.name).Nodup ∧
          ∀ a ∈ aliasesOf definitions, a.name ∉ Entries.keys (announced definitions) := by
    rw [hperm.nodup_iff, List.nodup_append]
    refine and_congr_right fun _ => and_congr_right fun _ =>
      ⟨fun h a ha hm => h _ hm _ (List.mem_map_of_mem ha) rfl, fun h name hname other hother he => ?_⟩
    obtain ⟨a, ha, rfl⟩ := List.mem_map.1 hother
    exact h a ha (he ▸ hname)
  rw [named_iff_names, hnodup, hnew]
  constructor
  · rintro ⟨⟨hentities, haliases, hapart⟩, hentitiesNew, haliasesNew⟩
    exact ⟨⟨hentities, hentitiesNew⟩, haliases, fun a ha => ⟨haliasesNew a ha, hapart a ha⟩⟩
  · rintro ⟨⟨hentities, hentitiesNew⟩, haliases, hrest⟩
    exact ⟨⟨hentities, haliases, fun a ha => (hrest a ha).2⟩,
      hentitiesNew, fun a ha => (hrest a ha).1⟩

theorem Named.ownNames (h : Named definitions) : OwnNames (aliasesOf definitions) := by
  obtain ⟨-, hnodup, hnew⟩ := named_iff.1 h
  exact ⟨hnodup, fun a ha => (hnew a ha).1⟩

theorem checkAlias_eq_ok_iff {pending : List (String × EntityKind)} {aliases : List Alias} :
    aliases.forM ((Draft.stage [] [] pending).checkAlias aliases) = .ok () ↔
      (aliases.map Alias.name).Nodup ∧
        ∀ a ∈ aliases, Scalar.ofName? a.name = none ∧ a.name ∉ Entries.keys pending := by
  have hcheck : ∀ a, (Draft.stage [] [] pending).checkAlias aliases a = .ok () ↔
      (Scalar.ofName? a.name = none ∧ a.name ∉ Entries.keys pending) ∧
        (aliases.map Alias.name).count a.name ≤ 1 := by
    intro a
    rw [← isTaken_stage, Draft.checkAlias]
    cases (Draft.stage [] [] pending).isTaken a.name <;> simp
  rw [forM_eq_ok_iff, List.nodup_iff_count_le_one]
  simp only [hcheck, forall₂_and]
  rw [and_comm]
  refine and_congr_left fun _ => ⟨fun h name => ?_, fun h a _ => h _⟩
  by_cases hm : name ∈ aliases.map Alias.name
  · obtain ⟨a, ha, rfl⟩ := List.mem_map.1 hm
    exact h a ha
  · rw [List.count_eq_zero_of_not_mem hm]
    exact Nat.zero_le 1

/-- Definitions are announced when they have names of their own and their aliases resolve. -/
theorem announceAll_eq_ok_iff : announceAll definitions = .ok d ↔
    Named definitions ∧ ∃ known, resolveAliases (aliasesOf definitions) = .ok known ∧
      d = .stage known [] (announced definitions) := by
  have hempty : Draft.empty = .stage [] [] [] := rfl
  have hpending : ∀ name, name ∉ Entries.keys ([] : List (String × EntityKind)) := by simp
  rw [announceAll, bind_eq_ok_iff, hempty, named_iff]
  simp only [foldlM_announceDefinition_iff, List.nil_append, bind_eq_ok_iff, pure_eq_ok_iff]
  constructor
  · rintro ⟨_, ⟨⟨hnodup, hnew⟩, rfl⟩, ⟨⟩, haliases, known, hknown, rfl⟩
    refine ⟨⟨⟨hnodup, fun name hname => (hnew name hname).1⟩, checkAlias_eq_ok_iff.1 haliases⟩,
      known, hknown, rfl⟩
  · rintro ⟨⟨⟨hnodup, hnew⟩, haliases⟩, known, hknown, rfl⟩
    refine ⟨_, ⟨⟨hnodup, fun name hname => ⟨hnew name hname, hpending name⟩⟩, rfl⟩,
      (), checkAlias_eq_ok_iff.2 haliases, known, hknown, rfl⟩

end Shapewise.Schema
