import Shapewise.Proofs.Schema.WellFormed

/-!
# Reordered definitions

The order of definitions does not matter (`draftOfText_reordered`). Where the definitions of one text
are a permutation of those of another, up to the lines of members, both are resolved or neither is;
the same names are then bound to the same entities, but for the places of these. An entity of the one
draft and its counterpart, the entity of the same name in the other, define the same members, and
what leads to an entity in the one leads to its counterpart in the other. Lines alone change nothing
(`resolve_of_unlined`).
-/

namespace Shapewise

/-! ## Renamed places -/

section rename

variable (ρ : EntityId → EntityId)

/-- A target whose entity has another place. -/
def Target.rename : Target → Target
  | .entity id => .entity (ρ id)
  | t => t

/-- A complex field with another place for the entity it leads to. -/
def Field.rename (f : Field) : Field :=
  { f with target := f.target.rename ρ }

/-- An entity with other places for the entities it leads to. -/
def Entity.rename : Entity → Entity
  | .record r => .record { r with fields := Entries.mapValues (Field.rename ρ) r.fields }
  | .union u => .union { u with variants := Entries.mapValues (Target.rename ρ) u.variants }

end rename

namespace Schema

open Outcome

/-! ## Lines -/

/-- A member without its line. -/
def Member.unlined (m : Member) : Member := { m with line := 0 }

/-- A definition without the lines of its members. -/
def Definition.unlined : Definition → Definition
  | .record kind name members => .record kind name (members.map Member.unlined)
  | definition => definition

theorem name_unlined (definition : Definition) : definition.unlined.name = definition.name := by
  cases definition <;> rfl

theorem map_name_unlined (definitions : List Definition) :
    (definitions.map Definition.unlined).map Definition.name = definitions.map Definition.name := by
  rw [List.map_map]
  exact List.map_congr_left fun definition _ => name_unlined definition

theorem announced?_unlined (definition : Definition) :
    definition.unlined.announced? = definition.announced? := by
  rcases definition with _ | ⟨_ | _, _, _⟩ | _ <;> rfl

theorem eq_record_of_unlined {kind : RecordKind} {name : String} {members : List Member}
    {definition : Definition} (h : definition.unlined = .record kind name members) :
    ∃ members', definition = .record kind name members' ∧
      members'.map Member.unlined = members := by
  cases definition with
  | record kind' name' members' =>
    injection h with hkind hname hmembers
    exact ⟨members', by rw [hkind, hname], hmembers⟩
  | _ => cases h

theorem eq_union_of_unlined {name : String} {variants : List VariantDef} {tagField : Option String}
    {definition : Definition} (h : definition.unlined = .union name variants tagField) :
    definition = .union name variants tagField := by
  cases definition with
  | union => exact h
  | _ => cases h

/-- What does not see lines picks the same from definitions without them. -/
theorem filterMap_unlined {α : Type} {f : Definition → Option α}
    (hf : ∀ definition, f definition.unlined = f definition) (definitions : List Definition) :
    (definitions.map Definition.unlined).filterMap f = definitions.filterMap f := by
  rw [List.filterMap_map]
  exact List.filterMap_congr fun definition _ => hf definition

theorem names_unlined (members : List Member) :
    (members.map Member.unlined).map Member.name = members.map Member.name := by
  rw [List.map_map]
  rfl

theorem wellTyped_of_unlined {definitions : List Definition} {m m' : Member}
    (h : m.unlined = m'.unlined) (hm : WellTyped definitions m) : WellTyped definitions m' := by
  have hunlined : WellTyped definitions m.unlined := ⟨hm.target, hm.arguments⟩
  rw [h] at hunlined
  exact ⟨hunlined.target, hunlined.arguments⟩

/-- Two lists hold the same definitions, in any order and on any lines. -/
def Reordered (definitions definitions' : List Definition) : Prop :=
  (definitions.map Definition.unlined).Perm (definitions'.map Definition.unlined)

variable {definitions definitions' : List Definition} {d d' : Draft} {name : String}

namespace Reordered

theorem symm (h : Reordered definitions definitions') : Reordered definitions' definitions :=
  List.Perm.symm h

theorem exists_mem (h : Reordered definitions definitions') {definition : Definition}
    (hmem : definition ∈ definitions) :
    ∃ definition' ∈ definitions', definition'.unlined = definition.unlined :=
  List.mem_map.1 (h.mem_iff.1 (List.mem_map_of_mem hmem))

/-- What does not see lines is only permuted. -/
theorem filterMap {α : Type} {f : Definition → Option α}
    (hf : ∀ definition, f definition.unlined = f definition)
    (h : Reordered definitions definitions') :
    (definitions.filterMap f).Perm (definitions'.filterMap f) := by
  rw [← filterMap_unlined hf definitions, ← filterMap_unlined hf definitions']
  exact List.Perm.filterMap f h

theorem announced (h : Reordered definitions definitions') :
    (announced definitions).Perm (announced definitions') :=
  h.filterMap announced?_unlined

theorem aliasesOf (h : Reordered definitions definitions') :
    (aliasesOf definitions).Perm (aliasesOf definitions') :=
  h.filterMap fun definition => by cases definition <;> rfl

theorem leadsTo_iff (h : Reordered definitions definitions') {type : Scalar} :
    LeadsTo (Schema.aliasesOf definitions) name type ↔
      LeadsTo (Schema.aliasesOf definitions') name type :=
  ⟨.mono fun _ => h.aliasesOf.mem_iff.1, .mono fun _ => h.aliasesOf.mem_iff.2⟩

theorem mem_alias {base : String} (h : Reordered definitions definitions')
    (hmem : .alias name base ∈ definitions) : .alias name base ∈ definitions' :=
  mem_aliasesOf.1 (h.aliasesOf.mem_iff.1 (mem_aliasesOf.2 hmem))

theorem exists_record {kind : RecordKind} {members : List Member}
    (h : Reordered definitions definitions') (hmem : .record kind name members ∈ definitions) :
    ∃ members', .record kind name members' ∈ definitions' ∧
      members'.map Member.unlined = members.map Member.unlined := by
  obtain ⟨definition', hmem', he⟩ := h.exists_mem hmem
  obtain ⟨members', rfl, hmembers⟩ := eq_record_of_unlined he
  exact ⟨members', hmem', hmembers⟩

theorem mem_union {variants : List VariantDef} {tagField : Option String}
    (h : Reordered definitions definitions')
    (hmem : .union name variants tagField ∈ definitions) :
    .union name variants tagField ∈ definitions' := by
  obtain ⟨definition', hmem', he⟩ := h.exists_mem hmem
  obtain rfl := eq_union_of_unlined he
  exact hmem'

theorem denotes {s : Sense} (h : Reordered definitions definitions')
    (hs : Denotes definitions name s) : Denotes definitions' name s := by
  cases hs with
  | scalar hl => exact .scalar (h.leadsTo_iff.1 hl)
  | record hmem =>
    obtain ⟨_, hmem', -⟩ := h.exists_record hmem
    exact .record hmem'
  | union hmem => exact .union (h.mem_union hmem)

theorem wellTyped {m : Member} (h : Reordered definitions definitions')
    (hm : WellTyped definitions m) : WellTyped definitions' m where
  target := by
    obtain ⟨s, hs, hadmits⟩ := hm.target
    exact ⟨s, h.denotes hs, hadmits⟩
  arguments a ha := by
    obtain ⟨type, ht⟩ := hm.arguments a ha
    exact ⟨type, h.denotes ht⟩

/-- Well-formed definitions stay well-formed. -/
theorem wellFormed (h : Reordered definitions definitions') (hw : WellFormed definitions) :
    WellFormed definitions' where
  nodup := by
    have hname := List.Perm.map Definition.name h
    rw [map_name_unlined, map_name_unlined] at hname
    exact hname.nodup_iff.1 hw.nodup
  new definition hmem := by
    obtain ⟨definition', hmem', he⟩ := h.symm.exists_mem hmem
    rw [← name_unlined, ← he, name_unlined]
    exact hw.new definition' hmem'
  aliases name base hmem := by
    obtain ⟨type, hl⟩ := hw.aliases name base (h.symm.mem_alias hmem)
    exact ⟨type, h.leadsTo_iff.1 hl⟩
  records kind name members hmem := by
    obtain ⟨members', hmem', he⟩ := h.symm.exists_record hmem
    obtain ⟨hnodup, htyped⟩ := hw.records kind name members' hmem'
    rw [← names_unlined, he, names_unlined] at hnodup
    refine ⟨hnodup, fun m hm => ?_⟩
    obtain ⟨m', hm', hme⟩ := List.mem_map.1 (he ▸ List.mem_map_of_mem hm)
    exact h.wellTyped (wellTyped_of_unlined hme (htyped m' hm'))
  unions name variants tagField hmem := by
    obtain ⟨hnodup, hvariants, htag⟩ := hw.unions name variants tagField (h.symm.mem_union hmem)
    refine ⟨hnodup, fun v hv => ?_, htag⟩
    obtain ⟨s, hs, hne⟩ := hvariants v hv
    exact ⟨s, h.denotes hs, hne⟩

end Reordered

/-! ## Renamed definitions -/

section rename

variable {ρ : EntityId → EntityId} {μ μ' : Meaning}

/-- A member of a record with another place for the entity it leads to. -/
def RecordMember.rename (ρ : EntityId → EntityId) : RecordMember → RecordMember
  | .primitive p => .primitive p
  | .field f => .field (f.rename ρ)

theorem rename_recordOf (kind : RecordKind) (name : String) (ms : List RecordMember) :
    (Entity.record (recordOf kind name ms)).rename ρ =
      .record (recordOf kind name (ms.map (RecordMember.rename ρ))) := by
  have hprimitives : (ms.map (RecordMember.rename ρ)).filterMap RecordMember.primitive? =
      ms.filterMap RecordMember.primitive? := by
    rw [List.filterMap_map]
    exact List.filterMap_congr fun rm _ => by cases rm <;> rfl
  have hfields : (ms.map (RecordMember.rename ρ)).filterMap RecordMember.field? =
      Entries.mapValues (Field.rename ρ) (ms.filterMap RecordMember.field?) := by
    rw [List.filterMap_map, Entries.mapValues, List.map_filterMap]
    exact List.filterMap_congr fun rm _ => by cases rm <;> rfl
  rw [Entity.rename, recordOf, recordOf, hprimitives, hfields]

/-- What a name leads to in one meaning it leads to in the other, at another place. -/
structure Meaning.Carries (μ μ' : Meaning) (ρ : EntityId → EntityId) : Prop where
  target : ∀ name t, μ.target? name = some t → μ'.target? name = some (t.rename ρ)
  kind : ∀ name t, μ.target? name = some t → μ'.kind? (t.rename ρ) = μ.kind? t

namespace Meaning.Carries

theorem declaresArgument (h : μ.Carries μ' ρ) {a : ArgumentDef} {declared : Argument}
    (ha : μ.DeclaresArgument a declared) : μ'.DeclaresArgument a declared := by
  obtain ⟨type, ht, rfl⟩ := ha
  exact ⟨type, h.target _ _ ht, rfl⟩

theorem declares (h : μ.Carries μ' ρ) {m : Member} {declared : RecordMember}
    (hm : μ.Declares m declared) : μ'.Declares m (declared.rename ρ) := by
  cases hm with
  | primitive hkind ht => exact .primitive hkind (h.target _ _ ht)
  | map hkind ht hk => exact .map hkind (h.target _ _ ht) ((h.kind _ _ ht).trans hk)
  | union hkind ht hk => exact .union hkind (h.target _ _ ht) ((h.kind _ _ ht).trans hk)
  | relationship hkind ht hk =>
    exact .relationship hkind (h.target _ _ ht) ((h.kind _ _ ht).trans hk)
  | value hkind ht => exact .value hkind (h.target _ _ ht)
  | call hkind ht harguments =>
    exact .call hkind (h.target _ _ ht) (harguments.imp fun _ _ => h.declaresArgument)

theorem declaresVariant (h : μ.Carries μ' ρ) {v : VariantDef} {declared : String × Target}
    (hv : μ.DeclaresVariant v declared) :
    μ'.DeclaresVariant v (declared.1, declared.2.rename ρ) := by
  obtain ⟨htag, ht, hk⟩ := hv
  exact ⟨htag, h.target _ _ ht, by rwa [h.kind _ _ ht]⟩

/-- A definition defines the same entity in both meanings, but for the places. -/
theorem defines (h : μ.Carries μ' ρ) {definition : Definition} {o : Option Entity}
    (hd : μ.Defines definition o) : μ'.Defines definition (o.map (Entity.rename ρ)) := by
  cases hd with
  | nothing name base => exact .nothing name base
  | record hnames hmembers =>
    rw [Option.map_some, rename_recordOf]
    refine .record hnames (List.forall₂_map_right_iff.2 ?_)
    exact hmembers.imp fun _ _ => h.declares
  | union htags hvariants htag =>
    refine .union htags (List.forall₂_map_right_iff.2 ?_) htag
    exact hvariants.imp fun _ _ => h.declaresVariant

end Meaning.Carries

theorem declares_of_unlined {m m' : Member} {declared : RecordMember} (h : m.unlined = m'.unlined)
    (hm : μ.Declares m declared) : μ.Declares m' declared := by
  obtain ⟨name, kind, type, line⟩ := m
  obtain ⟨name', kind', type', line'⟩ := m'
  cases h
  cases hm with
  | primitive hkind ht => exact .primitive hkind ht
  | map hkind ht hk => exact .map hkind ht hk
  | union hkind ht hk => exact .union hkind ht hk
  | relationship hkind ht hk => exact .relationship hkind ht hk
  | value hkind ht => exact .value hkind ht
  | call hkind ht harguments => exact .call hkind ht harguments

theorem declares_unlined_iff {m : Member} {declared : RecordMember} :
    μ.Declares m.unlined declared ↔ μ.Declares m declared :=
  ⟨declares_of_unlined rfl, declares_of_unlined rfl⟩

/-- What a definition defines does not depend on lines. -/
theorem defines_of_unlined {definition definition' : Definition} {o : Option Entity}
    (h : definition.unlined = definition'.unlined) (hd : μ.Defines definition o) :
    μ.Defines definition' o := by
  cases hd with
  | nothing name base =>
    rcases definition' with _ | _ | _ <;> cases h
    exact .nothing name base
  | union htags hvariants htag =>
    obtain rfl := eq_union_of_unlined h.symm
    exact .union htags hvariants htag
  | @record kind name members declared hnames hmembers =>
    obtain ⟨members', rfl, hmap⟩ := eq_record_of_unlined h.symm
    rw [← names_unlined, ← hmap, names_unlined] at hnames
    have hunlined : List.Forall₂ μ.Declares (members'.map Member.unlined) declared := by
      rw [hmap, List.forall₂_map_left_iff]
      simpa only [declares_unlined_iff] using hmembers
    rw [List.forall₂_map_left_iff] at hunlined
    simp only [declares_unlined_iff] at hunlined
    exact .record hnames hunlined

theorem defines_unlined_iff {definition : Definition} {o : Option Entity} :
    μ.Defines definition.unlined o ↔ μ.Defines definition o := by
  have hidem : definition.unlined.unlined = definition.unlined := by
    cases definition with
    | record kind name members => simp [Definition.unlined, Member.unlined, Function.comp_def]
    | _ => rfl
  exact ⟨defines_of_unlined hidem, defines_of_unlined hidem.symm⟩

end rename

/-- What definitions resolve to does not depend on lines. -/
theorem resolve_of_unlined
    (h : definitions'.map Definition.unlined = definitions.map Definition.unlined)
    (hd : resolve definitions = .ok d) : resolve definitions' = .ok d := by
  obtain ⟨hnamed, known, hknown, os, hos, rfl⟩ := resolve_eq_ok_iff.1 hd
  have hpicked : ∀ {α : Type} {f : Definition → Option α},
      (∀ definition, f definition.unlined = f definition) →
      definitions'.filterMap f = definitions.filterMap f := by
    intro α f hf
    rw [← filterMap_unlined hf, h, filterMap_unlined hf]
  have hannounced : announced definitions' = announced definitions := hpicked announced?_unlined
  have haliases : aliasesOf definitions' = aliasesOf definitions :=
    hpicked fun definition => by cases definition <;> rfl
  have hnamed' : Named definitions' := by
    rw [named_iff_names, ← map_name_unlined, h, map_name_unlined, ← named_iff_names]
    exact hnamed
  refine resolve_eq_ok_iff.2 ⟨hnamed', known, haliases ▸ hknown, os, ?_, rfl⟩
  have hunlined : List.Forall₂ (Meaning.of known (announced definitions)).Defines
      (definitions'.map Definition.unlined) os := by
    rw [h, List.forall₂_map_left_iff]
    simpa only [defines_unlined_iff] using hos
  rw [List.forall₂_map_left_iff] at hunlined
  simpa only [defines_unlined_iff, hannounced] using hunlined

/-! ## Counterparts -/

/-- The place in another draft of the entity of the same name. -/
def Draft.counterpart (d d' : Draft) (id : EntityId) : EntityId :=
  ((d.graph.get? id).bind fun e => d'.registry.get? e.name).getD id

theorem target_eq_scalar_iff {type : Scalar} :
    d.meaning.target? name = some (.scalar type) ↔ scalarOf? d.aliases name = some type := by
  rw [target?_meaning, or_eq_scalar_iff]

theorem target_eq_entity_iff {id : EntityId} :
    d.meaning.target? name = some (.entity id) ↔
      scalarOf? d.aliases name = none ∧ d.registry.get? name = some id := by
  rw [target?_meaning, or_eq_entity_iff]

theorem target_ne_unset : d.meaning.target? name ≠ some .unset := by
  rw [target?_meaning]
  exact or_ne_unset

theorem Draft.Indexed.grounded (hd : d.Indexed) : d.meaning.Grounded := by
  intro name t ht
  cases t with
  | scalar type => exact .inl rfl
  | entity id =>
    obtain ⟨e, he, -⟩ := hd.held name id (target_eq_entity_iff.1 ht).2
    have hk : d.meaning.kind? (.entity id) = some e.kind := congrArg (Option.map Entity.kind) he
    exact .inr (by rw [hk]; rfl)
  | unset => exact absurd ht target_ne_unset

/-- A definition defines one thing. -/
theorem defines_unique (hd : d.Indexed) {definition : Definition} {o o' : Option Entity}
    (h : d.meaning.Defines definition o) (h' : d.meaning.Defines definition o') : o = o' := by
  have hentity := ((defines_iff hd.grounded).2 h).1
  rw [((defines_iff hd.grounded).2 h').1] at hentity
  exact (Except.ok.inj hentity).symm

theorem exists_get?_of_mem {g : Graph} {e : Entity} (h : e ∈ g.entities) :
    ∃ id, g.get? id = some e := by
  obtain ⟨i, hi⟩ := List.mem_iff_getElem?.1 h
  exact ⟨⟨i⟩, hi⟩

section counterpart

variable (hd : d.Holds definitions) (hd' : d'.Holds definitions')
  (h : Reordered definitions definitions')

include hd hd' h

/-- An entity has a counterpart of its kind. -/
theorem exists_counterpart {id : EntityId} {e : Entity} (he : d.graph.get? id = some e) :
    ∃ e', d'.graph.get? (d.counterpart d' id) = some e' ∧ e'.kind = e.kind ∧
      d'.registry.get? e.name = some (d.counterpart d' id) := by
  have hmem : outline e ∈ announced definitions' := by
    rw [← h.announced.mem_iff, ← hd.listed]
    exact List.mem_map_of_mem (List.mem_of_getElem? he)
  rw [← hd'.listed] at hmem
  obtain ⟨e', hmem', houtline⟩ := List.mem_map.1 hmem
  obtain ⟨hname, hkind⟩ := Prod.mk.inj houtline
  obtain ⟨id', he'⟩ := exists_get?_of_mem hmem'
  have hbound : d'.registry.get? e.name = some id' := hname ▸ hd'.bound id' e' he'
  have hcounterpart : d.counterpart d' id = id' := by
    rw [Draft.counterpart, he, Option.bind_some, hbound, Option.getD_some]
  rw [hcounterpart]
  exact ⟨e', he', hkind, hbound⟩

theorem scalarOf?_aliases_eq (name : String) :
    scalarOf? d'.aliases name = scalarOf? d.aliases name := by
  refine Option.ext fun type => ?_
  rw [hd.scalar, hd'.scalar, h.leadsTo_iff]

/-- What names mean in a draft they mean in the other, at the places of the counterparts. -/
theorem carries_counterpart : d.meaning.Carries d'.meaning (d.counterpart d') := by
  have hentity : ∀ name id, d.meaning.target? name = some (.entity id) →
      ∃ e e', d.graph.get? id = some e ∧ d'.graph.get? (d.counterpart d' id) = some e' ∧
        e'.kind = e.kind ∧ d'.registry.get? name = some (d.counterpart d' id) := by
    intro name id ht
    obtain ⟨e, he, rfl⟩ := hd.held name id (target_eq_entity_iff.1 ht).2
    obtain ⟨e', he', hkind, hbound⟩ := exists_counterpart hd hd' h he
    exact ⟨e, e', he, he', hkind, hbound⟩
  constructor
  · intro name t ht
    cases t with
    | scalar type =>
      have hscalar : scalarOf? d'.aliases name = some type := by
        rw [scalarOf?_aliases_eq hd hd' h, target_eq_scalar_iff.1 ht]
      exact target_eq_scalar_iff.2 hscalar
    | entity id =>
      obtain ⟨_, _, -, -, -, hbound⟩ := hentity name id ht
      rw [Target.rename, target_eq_entity_iff, scalarOf?_aliases_eq hd hd' h]
      exact ⟨(target_eq_entity_iff.1 ht).1, hbound⟩
    | unset => exact absurd ht target_ne_unset
  · intro name t ht
    cases t with
    | entity id =>
      obtain ⟨e, e', he, he', hkind, -⟩ := hentity name id ht
      show (d'.graph.get? (d.counterpart d' id)).map Entity.kind = (d.graph.get? id).map Entity.kind
      rw [he, he', Option.map_some, Option.map_some, hkind]
    | _ => rfl

/-- The counterpart of an entity is the same entity, but for the places of others. -/
theorem get?_counterpart {id : EntityId} {e : Entity} (he : d.graph.get? id = some e) :
    d'.graph.get? (d.counterpart d' id) = some (e.rename (d.counterpart d')) := by
  obtain ⟨os, hos, hentities⟩ := hd.defined
  obtain ⟨os', hos', hentities'⟩ := hd'.defined
  have hmem : some e ∈ os := by
    rw [← List.reduceOption_mem_iff, ← hentities]
    exact List.mem_of_getElem? he
  obtain ⟨definition, hdefinition, hdefines⟩ := exists_of_forall₂_right hos hmem
  obtain ⟨definition', hdefinition', hunlined⟩ := h.exists_mem hdefinition
  obtain ⟨o', ho', hdefines'⟩ := exists_of_forall₂_left hos' hdefinition'
  have hcarried := defines_of_unlined hunlined.symm ((carries_counterpart hd hd' h).defines hdefines)
  obtain rfl := defines_unique hd'.toIndexed hcarried hdefines'
  rw [Option.map_some, ← List.reduceOption_mem_iff, ← hentities'] at ho'
  obtain ⟨id', hid'⟩ := exists_get?_of_mem ho'
  obtain ⟨_, -, -, hbound⟩ := exists_counterpart hd hd' h he
  have hname : (e.rename (d.counterpart d')).name = e.name := by cases e <;> rfl
  have hbound' := hd'.bound _ _ hid'
  rw [hname, hbound] at hbound'
  rw [Option.some.inj hbound', hid']

end counterpart

/-! ## Texts -/

/-- Definitions in another order, on whatever lines, are accepted alike; the names are then bound to
the same entities, and what leads to an entity leads to the one of the same name. -/
theorem draftOfText_reordered {text text' : List Char} (htext : readText text = .ok definitions)
    (htext' : readText text' = .ok definitions') (h : Reordered definitions definitions') :
    ((∃ d, draftOfText text = .ok d) ↔ ∃ d', draftOfText text' = .ok d') ∧
      ∀ d d', draftOfText text = .ok d → draftOfText text' = .ok d' →
        d'.registry.names.Perm d.registry.names ∧
        ∀ name id, d.registry.get? name = some id → ∃ e, d.graph.get? id = some e ∧ e.name = name ∧
          d'.registry.get? name = some (d.counterpart d' id) ∧
          d'.graph.get? (d.counterpart d' id) = some (e.rename (d.counterpart d')) := by
  have hdraft : ∀ {text ds d}, readText text = .ok ds →
      (draftOfText text = .ok d ↔ resolve ds = .ok d) := by
    intro text ds d hds
    rw [draftOfText_eq_ok_iff, hds]
    simp
  simp only [hdraft htext, hdraft htext', exists_resolve_iff]
  refine ⟨⟨h.wellFormed, h.symm.wellFormed⟩, fun d d' hresolve hresolve' => ?_⟩
  have hd := holds_of_resolve hresolve
  have hd' := holds_of_resolve hresolve'
  refine ⟨?_, fun name id hid => ?_⟩
  · rw [hd.names, hd'.names]
    exact h.announced.symm.map Prod.fst
  · obtain ⟨e, he, rfl⟩ := hd.held name id hid
    obtain ⟨_, -, -, hbound⟩ := exists_counterpart hd hd' h he
    exact ⟨e, he, rfl, hbound, get?_counterpart hd hd' h he⟩

/-- Posts, their authors and ranks. -/
def rankedText : List Char :=
  "define Rank as number
   resource Post { title: string, author: -> User? }
   resource User { name: string, calc rank(scale: Rank): Rank, posts: -> Post[] }".toList

/-- The same in another order and on other lines. -/
def rankedLastText : List Char :=
  "resource User {
     name: string,
     calc rank(scale: Rank): Rank,
     posts: -> Post[]
   }
   resource Post {
     title: string,
     author: -> User?
   }
   define Rank as number".toList

instance (definitions definitions' : List Definition) :
    Decidable (Reordered definitions definitions') :=
  inferInstanceAs (Decidable (List.Perm _ _))

theorem draftOfText_reordered_ranked : ∃ ds ds', readText rankedText = .ok ds ∧
    readText rankedLastText = .ok ds' ∧ Reordered ds ds' ∧
      (((∃ d, draftOfText rankedText = .ok d) ↔ ∃ d', draftOfText rankedLastText = .ok d') ∧
        ∀ d d', draftOfText rankedText = .ok d → draftOfText rankedLastText = .ok d' →
          d'.registry.names.Perm d.registry.names ∧
          ∀ name id, d.registry.get? name = some id → ∃ e, d.graph.get? id = some e ∧ e.name = name ∧
            d'.registry.get? name = some (d.counterpart d' id) ∧
            d'.graph.get? (d.counterpart d' id) = some (e.rename (d.counterpart d'))) := by
  have hread : Settles (fun ds => Settles (Reordered ds) (fun _ => False) (readText rankedLastText))
      (fun _ => False) (readText rankedText) := by
    decide +kernel
  obtain ⟨ds, hds, hread⟩ := hread.exists_ok
  obtain ⟨ds', hds', h⟩ := hread.exists_ok
  exact ⟨ds, ds', hds, hds', h, draftOfText_reordered hds hds' h⟩

end Schema

end Shapewise
