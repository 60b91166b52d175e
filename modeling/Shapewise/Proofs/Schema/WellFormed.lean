import Shapewise.Proofs.Schema.Resolved

/-!
# Well-formed definitions

Which lists of definitions are accepted, said of the definitions alone and in no order
(`WellFormed`): every definition has a name of its own, every alias leads to a scalar type, and the
type names of members, arguments and variants denote what may stand in their places. A type name is
said to denote something by the definitions themselves (`Denotes`), not by the tables that are built
from them; in a list whose names are its own both say the same (`denotes_iff`). Resolving accepts the
well-formed lists and no others (`resolve_accepts_iff_wellFormed`).
-/

namespace Shapewise.Schema

open Outcome

/-- What a type name can denote: a scalar type, a record of some kind, or a union. -/
inductive Sense
  | scalar (type : Scalar)
  | record (kind : RecordKind)
  | union
  deriving DecidableEq

/-- What type names denote among definitions: a builtin scalar type or an alias that leads to one, or
what a definition of that name defines. -/
inductive Denotes (definitions : List Definition) : String → Sense → Prop
  | scalar {name : String} {type : Scalar} (h : LeadsTo (aliasesOf definitions) name type) :
    Denotes definitions name (.scalar type)
  | record {kind : RecordKind} {name : String} {members : List Member}
    (h : .record kind name members ∈ definitions) : Denotes definitions name (.record kind)
  | union {name : String} {variants : List VariantDef} {tagField : Option String}
    (h : .union name variants tagField ∈ definitions) : Denotes definitions name .union

/-- What a member may be of, by the way in which it is written. -/
def MemberKind.Admits : MemberKind → Sense → Prop
  | .plain, s => s ≠ .record .resource
  | .relationship, s => s = .record .resource
  | .calculation _, _ => True

/-- The argument definitions of a member. -/
def MemberKind.arguments : MemberKind → List ArgumentDef
  | .calculation (some arguments) => arguments
  | _ => []

/-- The type name of a member denotes what the member may be of, and those of its arguments denote
scalar types. -/
structure WellTyped (definitions : List Definition) (m : Member) : Prop where
  target : ∃ s, Denotes definitions m.type.name s ∧ m.kind.Admits s
  arguments : ∀ a ∈ m.kind.arguments, ∃ type, Denotes definitions a.type.name (.scalar type)

/-- The definitions that are accepted. -/
structure WellFormed (definitions : List Definition) : Prop extends Named definitions where
  aliases : ∀ name base, .alias name base ∈ definitions →
    ∃ type, LeadsTo (aliasesOf definitions) base type
  records : ∀ kind name members, .record kind name members ∈ definitions →
    (members.map Member.name).Nodup ∧ ∀ m ∈ members, WellTyped definitions m
  unions : ∀ name variants tagField, .union name variants tagField ∈ definitions →
    (variants.map VariantDef.tag).Nodup ∧
      (∀ v ∈ variants, ∃ s, Denotes definitions v.type s ∧ s ≠ .union) ∧
      ∀ tag ∈ tagField, tag ∉ variants.map VariantDef.tag

variable {definitions : List Definition} {known : List (String × Scalar)}

/-! ## Denotations and targets -/

/-- The kind of entity that a record is. -/
def entityKind : RecordKind → EntityKind
  | .resource => .resource
  | .map => .map

/-- A target is what a type name denotes. -/
def Meaning.Is (μ : Meaning) (t : Target) : Sense → Prop
  | .scalar type => t = .scalar type
  | .record kind => μ.kind? t = some (entityKind kind)
  | .union => μ.kind? t = some .union

/-- Every grounded target is something. -/
theorem Meaning.Grounded.exists_is {μ : Meaning} (hμ : μ.Grounded) {name : String} {t : Target}
    (ht : μ.target? name = some t) : ∃ s, μ.Is t s := by
  rcases hμ name t ht with hs | hk
  · cases t with
    | scalar type => exact ⟨.scalar type, rfl⟩
    | _ => cases hs
  · obtain ⟨kind, hk⟩ := Option.isSome_iff_exists.1 hk
    cases kind with
    | resource => exact ⟨.record .resource, hk⟩
    | map => exact ⟨.record .map, hk⟩
    | union => exact ⟨.union, hk⟩

theorem mem_announced_record {kind : RecordKind} {name : String} :
    (name, entityKind kind) ∈ announced definitions ↔
      ∃ members, .record kind name members ∈ definitions := by
  constructor
  · intro h
    obtain ⟨definition, hmem, hdef⟩ := List.mem_filterMap.1 h
    rcases definition with _ | ⟨_ | _, _, members⟩ | _
    all_goals cases kind <;> cases hdef <;> exact ⟨members, hmem⟩
  · rintro ⟨members, hmem⟩
    exact List.mem_filterMap.2 ⟨_, hmem, by cases kind <;> rfl⟩

theorem mem_announced_union {name : String} :
    (name, .union) ∈ announced definitions ↔
      ∃ variants tagField, .union name variants tagField ∈ definitions := by
  constructor
  · intro h
    obtain ⟨definition, hmem, hdef⟩ := List.mem_filterMap.1 h
    rcases definition with _ | ⟨_ | _, _, members⟩ | ⟨_, variants, tagField⟩
    all_goals cases hdef
    exact ⟨variants, tagField, hmem⟩
  · rintro ⟨variants, tagField, hmem⟩
    exact List.mem_filterMap.2 ⟨_, hmem, rfl⟩

section resolved

variable (hnamed : Named definitions)
  (hknown : resolveAliases (aliasesOf definitions) = .ok known)

include hnamed hknown

theorem scalarOf?_iff {name : String} {type : Scalar} :
    scalarOf? known name = some type ↔ LeadsTo (aliasesOf definitions) name type :=
  scalarOf?_resolveAliases hnamed.ownNames hknown

/-- The name of an entity is that of no scalar type. -/
theorem scalarOf?_eq_none {name : String} (h : name ∈ Entries.keys (announced definitions)) :
    scalarOf? known name = none := by
  obtain ⟨⟨-, hnew⟩, -, haliases⟩ := named_iff.1 hnamed
  by_contra hne
  obtain ⟨type, hs⟩ := Option.ne_none_iff_exists'.1 hne
  rcases ((scalarOf?_iff hnamed hknown).1 hs).cases_alias with hb | ⟨a, ha, rfl, -⟩
  · rw [hnew name h] at hb
    cases hb
  · exact (haliases a ha).2 h

theorem target?_scalar_iff {name : String} {type : Scalar} :
    (Meaning.of known (announced definitions)).target? name = some (.scalar type) ↔
      LeadsTo (aliasesOf definitions) name type := by
  rw [← scalarOf?_iff hnamed hknown, target?_of, or_eq_scalar_iff]

/-- A name leads to the entity that stands at the place of its announcement. -/
theorem target?_entity_iff {name : String} {id : EntityId} :
    (Meaning.of known (announced definitions)).target? name = some (.entity id) ↔
      (Entries.keys (announced definitions))[id.index]? = some name := by
  have hnodup : (Entries.keys (announced definitions)).Nodup := (named_iff.1 hnamed).1.1
  rw [target?_of, or_eq_entity_iff, get?_numbered hnodup]
  exact and_iff_right_of_imp fun h => scalarOf?_eq_none hnamed hknown (List.mem_of_getElem? h)

/-- A name leads to an entity of a kind where one of that kind is announced for it. -/
theorem exists_kind?_iff {name : String} {kind : EntityKind} :
    (∃ t, (Meaning.of known (announced definitions)).target? name = some t ∧
        (Meaning.of known (announced definitions)).kind? t = some kind) ↔
      (name, kind) ∈ announced definitions := by
  constructor
  · rintro ⟨t, ht, hk⟩
    cases t with
    | entity id =>
      obtain ⟨e, he, rfl⟩ := Option.map_eq_some_iff.1 hk
      have hname := (target?_entity_iff hnamed hknown).1 ht
      rw [Entries.keys, List.getElem?_map, he] at hname
      cases hname
      exact List.mem_of_getElem? he
    | _ => cases hk
  · intro h
    obtain ⟨i, hi⟩ := List.mem_iff_getElem?.1 h
    refine ⟨.entity ⟨i⟩, (target?_entity_iff hnamed hknown).2 ?_, ?_⟩
    · rw [Entries.keys, List.getElem?_map, hi]
      rfl
    · rw [kind?_of, hi]
      rfl

/-- A type name denotes what its target is. -/
theorem denotes_iff {name : String} {s : Sense} :
    Denotes definitions name s ↔
      ∃ t, (Meaning.of known (announced definitions)).target? name = some t ∧
        (Meaning.of known (announced definitions)).Is t s := by
  have hkind := @exists_kind?_iff definitions known hnamed hknown name
  cases s with
  | scalar type =>
    simp only [Meaning.Is, exists_eq_right, target?_scalar_iff hnamed hknown]
    refine ⟨?_, .scalar⟩
    rintro ⟨h⟩
    exact h
  | record kind =>
    simp only [Meaning.Is, hkind, mem_announced_record]
    refine ⟨?_, fun ⟨_, h⟩ => .record h⟩
    rintro (_ | h)
    exact ⟨_, h⟩
  | union =>
    simp only [Meaning.Is, hkind, mem_announced_union]
    refine ⟨?_, fun ⟨_, _, h⟩ => .union h⟩
    rintro (_ | _ | h)
    exact ⟨_, _, h⟩

/-! ## Acceptance -/

theorem exists_declaresArgument_iff {a : ArgumentDef} :
    (∃ declared, (Meaning.of known (announced definitions)).DeclaresArgument a declared) ↔
      ∃ type, Denotes definitions a.type.name (.scalar type) := by
  simp only [denotes_iff hnamed hknown, Meaning.DeclaresArgument, Meaning.Is, exists_eq_right]
  constructor
  · rintro ⟨_, type, h, -⟩
    exact ⟨type, h⟩
  · rintro ⟨type, h⟩
    exact ⟨_, type, h, rfl⟩

/-- A member declares something exactly when it is well-typed. -/
theorem exists_declares_iff {m : Member} :
    (∃ declared, (Meaning.of known (announced definitions)).Declares m declared) ↔
      WellTyped definitions m := by
  have hdenotes : ∀ {t s}, (Meaning.of known (announced definitions)).target? m.type.name = some t →
      (Meaning.of known (announced definitions)).Is t s → Denotes definitions m.type.name s :=
    fun ht hs => (denotes_iff hnamed hknown).2 ⟨_, ht, hs⟩
  constructor
  · rintro ⟨declared, h⟩
    cases h with
    | primitive hkind ht =>
      exact ⟨⟨.scalar _, hdenotes ht rfl, by simp [hkind, MemberKind.Admits]⟩,
        by simp [hkind, MemberKind.arguments]⟩
    | map hkind ht hk =>
      exact ⟨⟨.record .map, hdenotes ht hk, by simp [hkind, MemberKind.Admits]⟩,
        by simp [hkind, MemberKind.arguments]⟩
    | union hkind ht hk =>
      exact ⟨⟨.union, hdenotes ht hk, by simp [hkind, MemberKind.Admits]⟩,
        by simp [hkind, MemberKind.arguments]⟩
    | relationship hkind ht hk =>
      exact ⟨⟨.record .resource, hdenotes ht hk, by simp [hkind, MemberKind.Admits]⟩,
        by simp [hkind, MemberKind.arguments]⟩
    | value hkind ht =>
      obtain ⟨s, hs⟩ := (grounded_of _ _).exists_is ht
      exact ⟨⟨s, hdenotes ht hs, by simp [hkind, MemberKind.Admits]⟩,
        by simp [hkind, MemberKind.arguments]⟩
    | call hkind ht harguments =>
      obtain ⟨s, hs⟩ := (grounded_of _ _).exists_is ht
      refine ⟨⟨s, hdenotes ht hs, by simp [hkind, MemberKind.Admits]⟩, fun a ha => ?_⟩
      rw [hkind] at ha
      obtain ⟨declared, -, hdeclares⟩ := exists_of_forall₂_left harguments ha
      exact (exists_declaresArgument_iff hnamed hknown).1 ⟨declared, hdeclares⟩
  · rintro ⟨⟨s, hs, hadmits⟩, harguments⟩
    obtain ⟨t, ht, his⟩ := (denotes_iff hnamed hknown).1 hs
    cases hkind : m.kind with
    | relationship =>
      rw [hkind] at hadmits
      obtain rfl : s = .record .resource := hadmits
      exact ⟨_, .relationship hkind ht his⟩
    | plain =>
      rw [hkind] at hadmits
      cases s with
      | scalar type =>
        obtain rfl : t = .scalar type := his
        exact ⟨_, .primitive hkind ht⟩
      | record kind =>
        cases kind with
        | resource => exact absurd rfl hadmits
        | map => exact ⟨_, .map hkind ht his⟩
      | union => exact ⟨_, .union hkind ht his⟩
    | calculation arguments =>
      cases arguments with
      | none => exact ⟨_, .value hkind ht⟩
      | some arguments =>
        obtain ⟨declared, hdeclared⟩ := exists_forall₂_iff.2 fun a ha =>
          (exists_declaresArgument_iff hnamed hknown).2 (harguments a (hkind ▸ ha))
        exact ⟨_, .call hkind ht hdeclared⟩

/-- A variant declares something exactly when its type name denotes something that is no union. -/
theorem exists_declaresVariant_iff {v : VariantDef} :
    (∃ declared, (Meaning.of known (announced definitions)).DeclaresVariant v declared) ↔
      ∃ s, Denotes definitions v.type s ∧ s ≠ .union := by
  constructor
  · rintro ⟨⟨tag, t⟩, -, ht, hk⟩
    obtain ⟨s, hs⟩ := (grounded_of _ _).exists_is ht
    refine ⟨s, (denotes_iff hnamed hknown).2 ⟨t, ht, hs⟩, ?_⟩
    rintro rfl
    exact hk hs
  · rintro ⟨s, hs, hne⟩
    obtain ⟨t, ht, his⟩ := (denotes_iff hnamed hknown).1 hs
    refine ⟨(v.tag, t), rfl, ht, fun hk => ?_⟩
    cases s with
    | scalar type =>
      obtain rfl : t = .scalar type := his
      cases hk
    | record kind =>
      have hkind : some (entityKind kind) = some .union := Eq.trans (Eq.symm his) hk
      cases kind <;> cases hkind
    | union => exact hne rfl

theorem exists_defines_record_iff {kind : RecordKind} {name : String} {members : List Member} :
    (∃ o, (Meaning.of known (announced definitions)).Defines (.record kind name members) o) ↔
      (members.map Member.name).Nodup ∧ ∀ m ∈ members, WellTyped definitions m := by
  simp only [← exists_declares_iff hnamed hknown, ← exists_forall₂_iff]
  constructor
  · rintro ⟨_, _ | ⟨hnames, hmembers⟩⟩
    exact ⟨hnames, _, hmembers⟩
  · rintro ⟨hnames, _, hmembers⟩
    exact ⟨_, .record hnames hmembers⟩

theorem exists_defines_union_iff {name : String} {variants : List VariantDef}
    {tagField : Option String} :
    (∃ o, (Meaning.of known (announced definitions)).Defines (.union name variants tagField) o) ↔
      (variants.map VariantDef.tag).Nodup ∧
        (∀ v ∈ variants, ∃ s, Denotes definitions v.type s ∧ s ≠ .union) ∧
        ∀ tag ∈ tagField, tag ∉ variants.map VariantDef.tag := by
  simp only [← exists_declaresVariant_iff hnamed hknown, ← exists_forall₂_iff]
  constructor
  · rintro ⟨_, _ | _ | ⟨htags, hvariants, htag⟩⟩
    exact ⟨htags, ⟨_, hvariants⟩, htag⟩
  · rintro ⟨htags, ⟨_, hvariants⟩, htag⟩
    exact ⟨_, .union htags hvariants htag⟩

end resolved

theorem mem_aliasesOf {name base : String} :
    ⟨name, base⟩ ∈ aliasesOf definitions ↔ .alias name base ∈ definitions := by
  constructor
  · intro h
    obtain ⟨definition, hmem, hdef⟩ := List.mem_filterMap.1 h
    rcases definition with _ | _ | _
    all_goals cases hdef
    exact hmem
  · exact fun h => List.mem_filterMap.2 ⟨_, h, rfl⟩

theorem exists_resolve_iff : (∃ d, resolve definitions = .ok d) ↔ WellFormed definitions := by
  simp only [resolve_eq_ok_iff]
  constructor
  · rintro ⟨_, hnamed, known, hknown, os, hos, rfl⟩
    have hdefines : ∀ definition ∈ definitions,
        ∃ o, (Meaning.of known (announced definitions)).Defines definition o :=
      exists_forall₂_iff.1 ⟨os, hos⟩
    exact {
      toNamed := hnamed
      aliases := fun name base h =>
        (resolveAliases_isOk_iff _).1 ⟨known, hknown⟩ ⟨name, base⟩ (mem_aliasesOf.2 h)
      records := fun kind name members h =>
        (exists_defines_record_iff hnamed hknown).1 (hdefines _ h)
      unions := fun name variants tagField h =>
        (exists_defines_union_iff hnamed hknown).1 (hdefines _ h) }
  · intro h
    obtain ⟨known, hknown⟩ := (resolveAliases_isOk_iff (aliasesOf definitions)).2
      fun ⟨name, base⟩ ha => h.aliases name base (mem_aliasesOf.1 ha)
    have hdefines : ∀ definition ∈ definitions,
        ∃ o, (Meaning.of known (announced definitions)).Defines definition o := by
      rintro (⟨name, base⟩ | ⟨kind, name, members⟩ | ⟨name, variants, tagField⟩) hmem
      · exact ⟨none, .nothing name base⟩
      · exact (exists_defines_record_iff h.toNamed hknown).2 (h.records kind name members hmem)
      · exact (exists_defines_union_iff h.toNamed hknown).2 (h.unions name variants tagField hmem)
    obtain ⟨os, hos⟩ := exists_forall₂_iff.2 hdefines
    exact ⟨_, h.toNamed, known, hknown, os, hos, rfl⟩

/-- Definitions are resolved exactly when they are well-formed; otherwise there is a fault. -/
theorem resolve_accepts_iff_wellFormed (definitions : List Definition) :
    ((∃ d, resolve definitions = .ok d) ↔ WellFormed definitions) ∧
      (¬ WellFormed definitions → ∃ f, resolve definitions = .error f) := by
  refine ⟨exists_resolve_iff, fun h => ?_⟩
  cases hresolve : resolve definitions with
  | ok d => exact absurd (exists_resolve_iff.1 ⟨d, hresolve⟩) h
  | error f => exact ⟨f, rfl⟩

end Shapewise.Schema
