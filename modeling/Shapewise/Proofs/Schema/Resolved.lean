import Mathlib.Data.List.ReduceOption
import Shapewise.Proofs.Schema.Announced
import Shapewise.Proofs.Schema.Members

/-!
# Resolved definitions

What definitions resolve to, told without the order in which the parts are built
(`resolve_eq_ok_iff`): they have names of their own, the aliases resolve, and every definition
defines an entity, given what all the names mean together. The entities then stand in the order of
their definitions. A name means the same at every stage of completing, for the names, the kinds and
the places of the entities are those that were announced.
-/

namespace Shapewise.Schema

open Outcome

variable {known : List (String × Scalar)} {entities : List (String × EntityKind)}
  {finished : List Entity} {pending : List (String × EntityKind)} {definitions : List Definition}
  {d : Draft} {e : Entity}

/-! ## What names mean -/

/-- What type names mean where some are known as aliases and entities stand in order. -/
def Meaning.of (known : List (String × Scalar)) (entities : List (String × EntityKind)) :
    Meaning where
  target? name := ((scalarOf? known name).map .scalar).or
    ((Entries.get? (numbered (Entries.keys entities)) name).map .entity)
  kind?
    | .entity id => (entities[id.index]?).map Prod.snd
    | _ => none

theorem target?_of (known : List (String × Scalar)) (entities : List (String × EntityKind))
    (name : String) : (Meaning.of known entities).target? name =
      ((scalarOf? known name).map .scalar).or
        ((Entries.get? (numbered (Entries.keys entities)) name).map .entity) := rfl

theorem kind?_of (known : List (String × Scalar)) (entities : List (String × EntityKind))
    (id : EntityId) :
    (Meaning.of known entities).kind? (.entity id) = (entities[id.index]?).map Prod.snd := rfl

theorem kind_outline (finished : List Entity) (pending : List (String × EntityKind)) :
    (finished ++ pending.map fun e => Entity.empty e.2 e.1).map Entity.kind =
      (finished.map outline ++ pending).map Prod.snd := by
  simp [outline, Function.comp_def, Entity.kind_empty]

/-- The meaning of names is that of the entities in outline. -/
theorem meaning_stage (known : List (String × Scalar)) (finished : List Entity)
    (pending : List (String × EntityKind)) :
    (Draft.stage known finished pending).meaning = .of known (finished.map outline ++ pending) := by
  have hkind : (Draft.stage known finished pending).graph.targetKind? =
      (Meaning.of known (finished.map outline ++ pending)).kind? := by
    funext t
    cases t with
    | entity id =>
      show (((finished ++ pending.map fun e => Entity.empty e.2 e.1)[id.index]?).map Entity.kind) =
        ((finished.map outline ++ pending)[id.index]?).map Prod.snd
      rw [← List.getElem?_map, ← List.getElem?_map, kind_outline]
    | _ => rfl
  rw [Draft.meaning, Meaning.mk.injEq]
  exact ⟨funext (target?_meaning _), hkind⟩

theorem grounded_of (known : List (String × Scalar)) (entities : List (String × EntityKind)) :
    (Meaning.of known entities).Grounded := by
  intro name t ht
  rw [target?_of] at ht
  cases t with
  | unset => exact absurd ht or_ne_unset
  | scalar type => exact .inl rfl
  | entity id =>
    obtain ⟨-, hid⟩ := or_eq_entity_iff.1 ht
    obtain ⟨n, hn, he⟩ := List.mem_map.1 (Entries.mem_of_get? hid)
    cases he
    have hlt : n.2 < entities.length := by
      simpa [Entries.keys] using (List.mem_zipIdx' hn).1
    rw [kind?_of, List.getElem?_eq_getElem hlt]
    exact .inr rfl

/-! ## Completing -/

/-- The first of the pending entities stands behind the finished ones and is still empty. -/
theorem get?_stage_finished :
    (Draft.stage known finished (outline e :: pending)).graph.get? ⟨finished.length⟩ =
      some (.empty e.kind e.name) := by
  show (finished ++ _)[finished.length]? = _
  rw [List.getElem?_append_right (Nat.le_refl _), Nat.sub_self]
  rfl

theorem registry_get?_stage_finished
    (hnames : (Entries.keys (finished.map outline ++ outline e :: pending)).Nodup) :
    (Draft.stage known finished (outline e :: pending)).registry.get? e.name =
      some ⟨finished.length⟩ := by
  refine (get?_numbered hnames).2 ?_
  simp [Entries.keys, outline]

/-- With the entity in its place the graph is that of the next stage. -/
theorem set_stage_finished :
    (Draft.stage known finished (outline e :: pending)).graph.set ⟨finished.length⟩ e =
      (Draft.stage known (finished ++ [e]) pending).graph := by
  simp [Draft.stage, Graph.set]

theorem erase_ofList_cons {name : String} {names : List String} (h : name ∉ names) :
    (NameSet.ofList (name :: names)).erase name = .ofList names := by
  refine NameSet.ext fun n => ?_
  rw [NameSet.mem_erase, NameSet.mem_ofList, NameSet.mem_ofList, List.mem_cons]
  constructor
  · rintro ⟨rfl | hm, hne⟩
    · exact absurd rfl hne
    · exact hm
  · exact fun hm => ⟨.inr hm, fun he => h (he ▸ hm)⟩

/-- The names of the next stage: one of them is no longer merely announced. -/
theorem registry_stage_finished
    (hnames : (Entries.keys (finished.map outline ++ outline e :: pending)).Nodup) :
    (⟨(Draft.stage known finished (outline e :: pending)).registry.bindings,
      (Draft.stage known finished (outline e :: pending)).registry.announced.erase e.name,
      false⟩ : Registry) = (Draft.stage known (finished ++ [e]) pending).registry := by
  have hnew : e.name ∉ Entries.keys pending := by
    rw [Entries.keys_append, Entries.keys_cons, List.nodup_append, List.nodup_cons] at hnames
    exact hnames.2.1.1
  rw [Draft.stage, Draft.stage, Registry.mk.injEq]
  refine ⟨?_, erase_ofList_cons hnew, rfl⟩
  rw [List.map_append, List.append_assoc]
  rfl

/-- Completing finishes the first of the pending entities, if it keeps the rules. -/
theorem complete_stage_eq
    (hnames : (Entries.keys (finished.map outline ++ outline e :: pending)).Nodup) :
    (Draft.stage known finished (outline e :: pending)).complete e =
      match (Draft.stage known finished (outline e :: pending)).graph.checkRules e with
      | .ok _ => .ok (.stage known (finished ++ [e]) pending)
      | .error f => .error (.rules f) := by
  have hid : (Draft.stage known finished (outline e :: pending)).registry.get? e.name =
      some ⟨finished.length⟩ := registry_get?_stage_finished hnames
  have hold : (Draft.stage known finished (outline e :: pending)).graph.get? ⟨finished.length⟩ =
      some (.empty e.kind e.name) := get?_stage_finished
  have hset : (Draft.stage known (finished ++ [e]) pending).graph.get? ⟨finished.length⟩ = some e := by
    rw [← set_stage_finished, Graph.get?_set hold, if_pos rfl]
  have hrules : (Draft.stage known (finished ++ [e]) pending).graph.checkRules e =
      (Draft.stage known finished (outline e :: pending)).graph.checkRules e := by
    rw [← set_stage_finished]
    exact Graph.checkRules_congr (Graph.targetKind?_set hold (Entity.kind_empty e.kind e.name).symm) e
  have hannounced : e.name ∈ (Draft.stage known finished (outline e :: pending)).registry.announced :=
    NameSet.mem_ofList.2 List.mem_cons_self
  have hisOpen : (Draft.stage known finished (outline e :: pending)).registry.isFrozen = false := rfl
  rw [Draft.complete, hid]
  simp only [set_stage_finished, Registry.register, hset, hisOpen, hid, hannounced,
    Bool.false_eq_true, if_false, and_self, if_true, Registry.register.bind, hrules,
    Entries.put_of_get? hid]
  have hregistry := @registry_stage_finished known finished pending e hnames
  cases (Draft.stage known finished (outline e :: pending)).graph.checkRules e with
  | error f => rfl
  | ok _ =>
    simp only [bind, Except.bind, pure, Except.pure, hregistry]
    rfl

theorem complete_stage_iff
    (hnames : (Entries.keys (finished.map outline ++ outline e :: pending)).Nodup) :
    (Draft.stage known finished (outline e :: pending)).complete e = .ok d ↔
      (Draft.stage known finished (outline e :: pending)).graph.checkRules e = .ok () ∧
        d = .stage known (finished ++ [e]) pending := by
  rw [complete_stage_eq hnames]
  cases (Draft.stage known finished (outline e :: pending)).graph.checkRules e with
  | error f => simp
  | ok _ => simp [eq_comm]

theorem announced_cons_of_some {definition : Definition} {entity : String × EntityKind}
    (h : definition.announced? = some entity) :
    announced (definition :: definitions) = entity :: announced definitions :=
  List.filterMap_cons_some h

/-- One definition is completed when it defines an entity, which is then finished, or none. -/
theorem define_stage_iff {definition : Definition}
    (hnames : (Entries.keys (finished.map outline ++ announced (definition :: definitions))).Nodup) :
    (Draft.stage known finished (announced (definition :: definitions))).define definition = .ok d ↔
      ∃ o, (Meaning.of known (finished.map outline ++ announced (definition :: definitions))).Defines
          definition o ∧
        d = .stage known (finished ++ o.toList) (announced definitions) := by
  have hground := grounded_of known (finished.map outline ++ announced (definition :: definitions))
  rw [← meaning_stage] at hground ⊢
  rw [Draft.define, bind_eq_ok_iff]
  refine exists_congr fun o => ?_
  rw [← defines_iff hground, and_assoc]
  refine and_congr_right fun ho => ?_
  cases o with
  | none =>
    have hnone : announced (definition :: definitions) = announced definitions := by
      refine List.filterMap_cons_none ?_
      rcases definition with _ | _ | _
      · rfl
      · obtain ⟨_, -, h⟩ := entity?_record_eq_ok_iff.1 ho
        cases h
      · obtain ⟨_, -, h⟩ := entity?_union_eq_ok_iff.1 ho
        cases h
    rw [hnone, Option.toList_none, List.append_nil]
    exact ⟨fun h => ⟨nofun, (pure_eq_ok_iff.1 h).symm⟩, fun h => h.2 ▸ rfl⟩
  | some e =>
    rw [announced_cons_of_some (entity?_spec ho).1] at hnames ho ⊢
    simp only [Option.mem_some_iff, forall_eq', Option.toList_some]
    exact complete_stage_iff hnames

theorem defineAll_cons_eq_iff {definition : Definition} {d d' : Draft} :
    d.defineAll (definition :: definitions) = (d', none) ↔
      ∃ d₁, d.define definition = .ok d₁ ∧ d₁.defineAll definitions = (d', none) := by
  rw [Draft.defineAll]
  cases d.define definition <;> simp

/-- A definition defines the entity that it announces. -/
theorem announced_cons_of_defines {μ : Meaning} {definition : Definition} {o : Option Entity}
    (h : μ.Defines definition o) :
    announced (definition :: definitions) = o.toList.map outline ++ announced definitions := by
  cases h with
  | nothing | union => rfl
  | @record kind => cases kind <;> rfl

/-- Completing all definitions finishes the entities that they define, in order. -/
theorem defineAll_stage_iff
    (hnames : (Entries.keys (finished.map outline ++ announced definitions)).Nodup) :
    (Draft.stage known finished (announced definitions)).defineAll definitions = (d, none) ↔
      ∃ os, List.Forall₂ (Meaning.of known (finished.map outline ++ announced definitions)).Defines
          definitions os ∧
        d = .stage known (finished ++ os.reduceOption) [] := by
  induction definitions generalizing finished with
  | nil =>
    rw [Draft.defineAll, Prod.mk.injEq]
    constructor
    · rintro ⟨rfl, -⟩
      exact ⟨[], .nil, by rw [List.reduceOption_nil, List.append_nil]; rfl⟩
    · rintro ⟨_, ⟨⟩, rfl⟩
      exact ⟨by rw [List.reduceOption_nil, List.append_nil]; rfl, rfl⟩
  | cons definition definitions ih =>
    -- what is finished or announced stays the same, and so does what names mean
    have hrest : ∀ {o}, (Meaning.of known (finished.map outline ++
        announced (definition :: definitions))).Defines definition o →
        (finished ++ o.toList).map outline ++ announced definitions =
          finished.map outline ++ announced (definition :: definitions) := by
      intro o ho
      rw [announced_cons_of_defines ho, List.map_append, List.append_assoc]
    rw [defineAll_cons_eq_iff]
    simp only [define_stage_iff hnames]
    constructor
    · rintro ⟨_, ⟨o, ho, rfl⟩, h⟩
      rw [ih (by rwa [hrest ho]), hrest ho] at h
      obtain ⟨os, hos, rfl⟩ := h
      refine ⟨o :: os, .cons ho hos, ?_⟩
      cases o <;> simp [List.reduceOption_cons_of_some, List.reduceOption_cons_of_none]
    · rintro ⟨_, _ | @⟨_, o, _, os, ho, hos⟩, rfl⟩
      refine ⟨_, ⟨o, ho, rfl⟩, ?_⟩
      rw [ih (by rwa [hrest ho]), hrest ho]
      refine ⟨os, hos, ?_⟩
      cases o <;> simp [List.reduceOption_cons_of_some, List.reduceOption_cons_of_none]

theorem draftOfText_eq_ok_iff {text : List Char} :
    draftOfText text = .ok d ↔ ∃ ds, readText text = .ok ds ∧ resolve ds = .ok d := by
  simp only [draftOfText, bind_eq_ok_iff, mapError_eq_ok_iff]

theorem resolve_eq_ok_iff_defineAll : resolve definitions = .ok d ↔
    ∃ d₀, announceAll definitions = .ok d₀ ∧ d₀.defineAll definitions = (d, none) := by
  rw [resolve, resolveFar]
  cases announceAll definitions with
  | error f => simp
  | ok d₀ =>
    simp only [Except.ok.injEq, exists_eq_left']
    rcases d₀.defineAll definitions with ⟨d₁, _ | f⟩ <;> simp

/-- What definitions resolve to. -/
theorem resolve_eq_ok_iff : resolve definitions = .ok d ↔
    Named definitions ∧ ∃ known, resolveAliases (aliasesOf definitions) = .ok known ∧
      ∃ os, List.Forall₂ (Meaning.of known (announced definitions)).Defines definitions os ∧
        d = .stage known os.reduceOption [] := by
  have hdefine : Named definitions → ∀ known,
      ((Draft.stage known [] (announced definitions)).defineAll definitions = (d, none) ↔
        ∃ os, List.Forall₂ (Meaning.of known (announced definitions)).Defines definitions os ∧
          d = .stage known os.reduceOption []) :=
    fun hnamed known => @defineAll_stage_iff known [] definitions d (named_iff.1 hnamed).1.1
  rw [resolve_eq_ok_iff_defineAll]
  simp only [announceAll_eq_ok_iff]
  constructor
  · rintro ⟨_, ⟨hnamed, known, hknown, rfl⟩, h⟩
    exact ⟨hnamed, known, hknown, (hdefine hnamed known).1 h⟩
  · rintro ⟨hnamed, known, hknown, h⟩
    exact ⟨_, ⟨hnamed, known, hknown, rfl⟩, (hdefine hnamed known).2 h⟩

/-! ## What a resolved draft holds -/

/-- A draft holds the entities that definitions define: in their order, each bound to its name, and
with the targets that names mean in the draft itself. -/
structure Draft.Holds (d : Draft) (definitions : List Definition) : Prop extends d.Indexed where
  named : Named definitions
  scalar : ∀ name type,
    scalarOf? d.aliases name = some type ↔ LeadsTo (aliasesOf definitions) name type
  listed : d.graph.entities.map outline = announced definitions
  names : d.registry.names = Entries.keys (announced definitions)
  defined : ∃ os, List.Forall₂ d.meaning.Defines definitions os ∧
    d.graph.entities = os.reduceOption

theorem outline_reduceOption {μ : Meaning} {os : List (Option Entity)}
    (h : List.Forall₂ μ.Defines definitions os) :
    os.reduceOption.map outline = announced definitions := by
  induction h with
  | nil => rfl
  | @cons definition o definitions os ho _ ih =>
    rw [announced_cons_of_defines ho, ← ih]
    cases o <;> simp [List.reduceOption_cons_of_some, List.reduceOption_cons_of_none]

theorem holds_of_resolve (h : resolve definitions = .ok d) : d.Holds definitions := by
  obtain ⟨hnamed, known, hknown, os, hos, rfl⟩ := resolve_eq_ok_iff.1 h
  have hlisted := outline_reduceOption hos
  exact {
    toIndexed := (sound_of_resolve h).toIndexed
    named := hnamed
    scalar := fun name type => scalarOf?_resolveAliases hnamed.ownNames hknown
    listed := by simpa [Draft.stage] using hlisted
    names := by simp [Draft.stage, Registry.names, hlisted]
    defined := ⟨os, by rwa [meaning_stage, List.append_nil, hlisted], by simp [Draft.stage]⟩ }

end Shapewise.Schema
