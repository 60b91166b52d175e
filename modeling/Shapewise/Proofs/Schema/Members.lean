import Shapewise.Proofs.Schema.Closed

/-!
# What definitions define

A relation beside the code that looks members up: which entity a definition defines, given what type
names mean (`Meaning.Defines`). It is read off the definition alone, with no order of checks and no
fault. A draft finds an entity that keeps the structural rules exactly where the relation gives it
(`defines_iff`): the rules that are checked once more at registration can then only fail for a tag
field that is a tag.
-/

namespace Shapewise.Schema

open Outcome

/-- What type names mean: where a name leads and of which kind that is. -/
structure Meaning where
  target? : String → Option Target
  kind? : Target → Option EntityKind

/-- What type names mean in a draft. -/
def Draft.meaning (d : Draft) : Meaning where
  target? name := (d.target name).toOption
  kind? := d.graph.targetKind?

theorem target?_eq_some_iff {d : Draft} {name : String} {t : Target} :
    d.meaning.target? name = some t ↔ d.target name = .ok t := by
  show (d.target name).toOption = some t ↔ _
  cases d.target name <;> simp [Except.toOption]

/-- A name is looked up among the scalar types first and then among the entities. -/
theorem target?_meaning (d : Draft) (name : String) : d.meaning.target? name =
    ((scalarOf? d.aliases name).map .scalar).or ((d.registry.get? name).map .entity) := by
  show (d.target name).toOption = _
  rw [Draft.target]
  cases scalarOf? d.aliases name with
  | some type => rfl
  | none => cases d.registry.get? name <;> rfl

section lookup

variable {known : Option Scalar} {place : Option EntityId}

theorem or_eq_scalar_iff {type : Scalar} :
    (known.map Target.scalar).or (place.map .entity) = some (.scalar type) ↔ known = some type := by
  cases known <;> cases place <;> simp

theorem or_eq_entity_iff {id : EntityId} :
    (known.map Target.scalar).or (place.map .entity) = some (.entity id) ↔
      known = none ∧ place = some id := by
  cases known <;> cases place <;> simp

theorem or_ne_unset : (known.map Target.scalar).or (place.map .entity) ≠ some .unset := by
  cases known <;> cases place <;> simp

end lookup

/-- The argument that a definition declares with a scalar type. -/
def ArgumentDef.declared (a : ArgumentDef) (type : Scalar) : Argument :=
  ⟨a.name, type, !a.isOptional, a.type.isNullable, a.type.isArray⟩

/-- The primitive field of a member with a scalar type. -/
def Member.primitive (m : Member) (type : Scalar) : RecordMember :=
  .primitive ⟨m.name, type, m.type.isNullable, m.type.isArray⟩

/-- The name under which a member stands. -/
def RecordMember.name : RecordMember → String
  | .primitive p => p.name
  | .field f => f.name

/-- The entry of a member that is a primitive field. -/
def RecordMember.primitive? : RecordMember → Option (String × Primitive)
  | .primitive p => some (p.name, p)
  | .field _ => none

/-- The entry of a member that is a complex field. -/
def RecordMember.field? : RecordMember → Option (String × Field)
  | .primitive _ => none
  | .field f => some (f.name, f)

/-- The record of members in order. -/
def recordOf (kind : RecordKind) (name : String) (members : List RecordMember) : Record :=
  ⟨kind, name, members.filterMap RecordMember.primitive?, members.filterMap RecordMember.field?⟩

namespace Meaning

/-- What an argument definition declares: its type name means a scalar type. -/
def DeclaresArgument (μ : Meaning) (a : ArgumentDef) (declared : Argument) : Prop :=
  ∃ type, μ.target? a.type.name = some (.scalar type) ∧ declared = a.declared type

/-- What a member declares, by the way in which it is written and what its type name means. -/
inductive Declares (μ : Meaning) (m : Member) : RecordMember → Prop
  | primitive {type : Scalar} (hkind : m.kind = .plain)
    (htarget : μ.target? m.type.name = some (.scalar type)) : Declares μ m (m.primitive type)
  | map {t : Target} (hkind : m.kind = .plain) (htarget : μ.target? m.type.name = some t)
    (ht : μ.kind? t = some .map) : Declares μ m (m.field .map t)
  | union {t : Target} (hkind : m.kind = .plain) (htarget : μ.target? m.type.name = some t)
    (ht : μ.kind? t = some .union) : Declares μ m (m.field .union t)
  | relationship {t : Target} (hkind : m.kind = .relationship)
    (htarget : μ.target? m.type.name = some t) (ht : μ.kind? t = some .resource) :
    Declares μ m (m.field .relationship t)
  | value {t : Target} (hkind : m.kind = .calculation none)
    (htarget : μ.target? m.type.name = some t) : Declares μ m (m.field (.calculation none) t)
  | call {t : Target} {arguments : List ArgumentDef} {declared : List Argument}
    (hkind : m.kind = .calculation (some arguments)) (htarget : μ.target? m.type.name = some t)
    (harguments : List.Forall₂ μ.DeclaresArgument arguments declared) :
    Declares μ m (m.field (.calculation (some declared)) t)

/-- What a variant declares: its type name means no union. -/
def DeclaresVariant (μ : Meaning) (v : VariantDef) (declared : String × Target) : Prop :=
  declared.1 = v.tag ∧ μ.target? v.type = some declared.2 ∧ μ.kind? declared.2 ≠ some .union

/-- The entity that a definition defines, if it is no alias. -/
inductive Defines (μ : Meaning) : Definition → Option Entity → Prop
  | nothing (name base : String) : Defines μ (.alias name base) none
  | record {kind : RecordKind} {name : String} {members : List Member}
    {declared : List RecordMember} (hnames : (members.map Member.name).Nodup)
    (hmembers : List.Forall₂ μ.Declares members declared) :
    Defines μ (.record kind name members) (some (.record (recordOf kind name declared)))
  | union {name : String} {variants : List VariantDef} {tagField : Option String}
    {declared : List (String × Target)} (htags : (variants.map VariantDef.tag).Nodup)
    (hvariants : List.Forall₂ μ.DeclaresVariant variants declared)
    (htag : ∀ tag ∈ tagField, tag ∉ variants.map VariantDef.tag) :
    Defines μ (.union name variants tagField) (some (.union ⟨name, declared, tagField⟩))

/-- A name leads to a scalar type or to an entity. -/
def Grounded (μ : Meaning) : Prop :=
  ∀ name t, μ.target? name = some t → t.isScalar = true ∨ (μ.kind? t).isSome = true

end Meaning

variable {d : Draft} {m : Member} {declared : RecordMember}

/-! ## Members -/

theorem argument_eq_ok_iff {entity : String} {a : ArgumentDef} {declared : Argument} :
    d.argument entity m a = .ok declared ↔ d.meaning.DeclaresArgument a declared := by
  rw [Draft.argument, bind_eq_ok_iff, Meaning.DeclaresArgument]
  simp only [target?_eq_some_iff]
  constructor
  · rintro ⟨t, ht, h⟩
    cases t with
    | scalar type => exact ⟨type, ht, (pure_eq_ok_iff.1 h).symm⟩
    | _ => cases h
  · rintro ⟨type, ht, rfl⟩
    exact ⟨_, ht, rfl⟩

theorem member_eq_ok_iff {entity : String} :
    d.member entity m = .ok declared ↔ d.meaning.Declares m declared := by
  rw [Draft.member, bind_eq_ok_iff]
  constructor
  · rintro ⟨t, ht, h⟩
    have htarget := target?_eq_some_iff.2 ht
    cases hkind : m.kind with
    | relationship =>
      simp only [hkind] at h
      split at h
      · next hk =>
        cases h
        exact .relationship hkind htarget hk
      · cases h
    | calculation arguments =>
      cases arguments with
      | none =>
        simp only [hkind] at h
        cases h
        exact .value hkind htarget
      | some arguments =>
        simp only [hkind] at h
        obtain ⟨declared, hdeclared, h⟩ := bind_eq_ok_iff.1 h
        cases h
        refine .call hkind htarget ?_
        simpa only [mapM_eq_ok_iff, argument_eq_ok_iff] using hdeclared
    | plain =>
      simp only [hkind] at h
      split at h
      · cases h
        exact .primitive hkind htarget
      · next hk =>
        cases h
        exact .map hkind htarget hk
      · next hk =>
        cases h
        exact .union hkind htarget hk
      · cases h
  · rintro (⟨hkind, ht⟩ | ⟨hkind, ht, hk⟩ | ⟨hkind, ht, hk⟩ | ⟨hkind, ht, hk⟩ | ⟨hkind, ht⟩ |
      ⟨hkind, ht, hdeclared⟩)
    all_goals refine ⟨_, target?_eq_some_iff.1 ht, ?_⟩
    · simp only [hkind]
      rfl
    · obtain ⟨id, rfl⟩ := Graph.eq_entity_of_targetKind? hk
      have hk : d.graph.targetKind? (.entity id) = some .map := hk
      simp only [hkind, hk]
      rfl
    · obtain ⟨id, rfl⟩ := Graph.eq_entity_of_targetKind? hk
      have hk : d.graph.targetKind? (.entity id) = some .union := hk
      simp only [hkind, hk]
      rfl
    · simp only [hkind]
      exact if_pos hk
    · simp only [hkind]
      rfl
    · simp only [hkind, bind_eq_ok_iff, mapM_eq_ok_iff, argument_eq_ok_iff]
      exact ⟨_, hdeclared, rfl⟩

theorem name_of_declares {μ : Meaning} (h : μ.Declares m declared) : declared.name = m.name := by
  cases h <;> rfl

theorem names_of_declares {μ : Meaning} {members : List Member} {ms : List RecordMember}
    (h : List.Forall₂ μ.Declares members ms) :
    ms.map RecordMember.name = members.map Member.name := by
  induction h with
  | nil => rfl
  | cons hm _ ih => rw [List.map_cons, List.map_cons, name_of_declares hm, ih]

/-- The names of entries that some members have are among the names of the members. -/
theorem mem_of_mem_keys {α : Type} {view? : RecordMember → Option (String × α)}
    (hview : ∀ rm e, view? rm = some e → e.1 = rm.name) {ms : List RecordMember} {name : String}
    (h : name ∈ Entries.keys (ms.filterMap view?)) :
    ∃ rm ∈ ms, (view? rm).isSome = true ∧ rm.name = name := by
  obtain ⟨v, hv⟩ := Entries.mem_keys.1 h
  obtain ⟨rm, hrm, he⟩ := List.mem_filterMap.1 hv
  exact ⟨rm, hrm, he ▸ rfl, (hview rm _ he).symm⟩

theorem primitive?_name (rm : RecordMember) (e : String × Primitive) (h : rm.primitive? = some e) :
    e.1 = rm.name ∧ e.2.name = rm.name := by
  cases rm with
  | primitive p =>
    cases h
    exact ⟨rfl, rfl⟩
  | field f => cases h

theorem field?_name (rm : RecordMember) (e : String × Field) (h : rm.field? = some e) :
    e.1 = rm.name ∧ e.2.name = rm.name := by
  cases rm with
  | primitive p => cases h
  | field f =>
    cases h
    exact ⟨rfl, rfl⟩

theorem addMember_recordOf {kind : RecordKind} {name : String} {done : List RecordMember}
    (h : declared.name ∉ done.map RecordMember.name) :
    addMember (recordOf kind name done) declared = recordOf kind name (done ++ [declared]) := by
  have hnew : ∀ {α : Type} {view? : RecordMember → Option (String × α)},
      (∀ rm e, view? rm = some e → e.1 = rm.name) →
      declared.name ∉ Entries.keys (done.filterMap view?) := by
    intro α view? hview hm
    obtain ⟨rm, hrm, -, hname⟩ := mem_of_mem_keys hview hm
    exact h (hname ▸ List.mem_map_of_mem hrm)
  cases declared with
  | primitive p =>
    have hput := Entries.put_of_not_mem (hnew fun rm e he => (primitive?_name rm e he).1) p
    simpa [addMember, recordOf, RecordMember.primitive?, RecordMember.field?, RecordMember.name]
      using hput
  | field f =>
    have hput := Entries.put_of_not_mem (hnew fun rm e he => (field?_name rm e he).1) f
    simpa [addMember, recordOf, RecordMember.primitive?, RecordMember.field?, RecordMember.name]
      using hput

/-! ## Records and unions -/

/-- A record is filled with members of different names. -/
theorem fillRecord_eq_ok_iff {kind : RecordKind} {name : String} {done : List RecordMember}
    {seen : List String} {members : List Member} {r : Record}
    (hseen : ∀ n, n ∈ seen ↔ n ∈ done.map RecordMember.name) :
    d.fillRecord (recordOf kind name done) seen members = .ok r ↔
      ((members.map Member.name).Nodup ∧ ∀ m ∈ members, m.name ∉ seen) ∧
        ∃ ms, List.Forall₂ d.meaning.Declares members ms ∧ r = recordOf kind name (done ++ ms) := by
  induction members generalizing done seen with
  | nil =>
    rw [Draft.fillRecord, Except.ok.injEq]
    constructor
    · rintro rfl
      exact ⟨⟨.nil, List.forall_mem_nil _⟩, [], .nil, by rw [List.append_nil]⟩
    · rintro ⟨-, _, ⟨⟩, rfl⟩
      rw [List.append_nil]
  | cons m members ih =>
    rw [Draft.fillRecord, List.map_cons, List.nodup_cons, List.forall_mem_cons]
    split
    · next hm => simp [hm]
    · next hm =>
      simp only [bind_eq_ok_iff, member_eq_ok_iff]
      -- a member that is read is the last of those done and the first of those seen
      have hstep : ∀ {declared : RecordMember}, d.meaning.Declares m declared →
          (d.fillRecord (addMember (recordOf kind name done) declared) (m.name :: seen) members =
              .ok r ↔
            ((members.map Member.name).Nodup ∧ ∀ m' ∈ members, m'.name ∉ m.name :: seen) ∧
              ∃ ms, List.Forall₂ d.meaning.Declares members ms ∧
                r = recordOf kind name (done ++ [declared] ++ ms)) := by
        intro declared hdeclared
        have hname := name_of_declares hdeclared
        rw [addMember_recordOf (by rwa [hname, ← hseen])]
        refine ih fun n => ?_
        rw [List.mem_cons, hseen, List.map_append, List.mem_append, or_comm]
        simp [hname]
      constructor
      · rintro ⟨declared, hdeclared, h⟩
        obtain ⟨⟨hnodup, hnew⟩, ms, hms, rfl⟩ := (hstep hdeclared).1 h
        simp only [List.mem_cons, not_or] at hnew
        refine ⟨⟨⟨fun hmem => ?_, hnodup⟩, hm, fun m' hm' => (hnew m' hm').2⟩, declared :: ms,
          .cons hdeclared hms, by simp⟩
        obtain ⟨m', hm', hname⟩ := List.mem_map.1 hmem
        exact (hnew m' hm').1 hname
      · rintro ⟨⟨⟨hmem, hnodup⟩, -, hnew⟩, _, _ | ⟨hdeclared, hms⟩, rfl⟩
        refine ⟨_, hdeclared, (hstep hdeclared).2 ⟨⟨hnodup, fun m' hm' => ?_⟩, _, hms, by simp⟩⟩
        rw [List.mem_cons, not_or]
        exact ⟨fun hname => hmem (hname ▸ List.mem_map_of_mem hm'), hnew m' hm'⟩

/-- A union is filled with variants of different tags. -/
theorem fillUnion_eq_ok_iff {name : String} {done : List (String × Target)}
    {variants : List VariantDef} {u : Union} :
    d.fillUnion ⟨name, done, none⟩ variants = .ok u ↔
      ((variants.map VariantDef.tag).Nodup ∧ ∀ v ∈ variants, v.tag ∉ Entries.keys done) ∧
        ∃ vs, List.Forall₂ d.meaning.DeclaresVariant variants vs ∧ u = ⟨name, done ++ vs, none⟩ := by
  induction variants generalizing done with
  | nil =>
    rw [Draft.fillUnion, Except.ok.injEq]
    constructor
    · rintro rfl
      exact ⟨⟨.nil, List.forall_mem_nil _⟩, [], .nil, by rw [List.append_nil]⟩
    · rintro ⟨-, _, ⟨⟩, rfl⟩
      rw [List.append_nil]
  | cons v variants ih =>
    rw [Draft.fillUnion, List.map_cons, List.nodup_cons, List.forall_mem_cons]
    split
    · next hv =>
      rw [Entries.has_eq_true_iff] at hv
      simp [hv]
    · next hv =>
      rw [Entries.has_eq_true_iff] at hv
      have hkeys : ∀ {t : Target} {n : String}, n ∉ Entries.keys (done ++ [(v.tag, t)]) ↔
          n ∉ Entries.keys done ∧ n ≠ v.tag := by simp
      simp only [bind_eq_ok_iff, Entries.put_of_not_mem hv]
      constructor
      · rintro ⟨t, ht, h⟩
        split at h
        · cases h
        · next hk =>
          obtain ⟨⟨hnodup, hnew⟩, vs, hvs, rfl⟩ := ih.1 h
          simp only [hkeys] at hnew
          refine ⟨⟨⟨fun hmem => ?_, hnodup⟩, hv, fun v' hv' => (hnew v' hv').1⟩, (v.tag, t) :: vs,
            .cons ⟨rfl, target?_eq_some_iff.2 ht, hk⟩ hvs, by simp⟩
          obtain ⟨v', hv', hname⟩ := List.mem_map.1 hmem
          exact (hnew v' hv').2 hname
      · rintro ⟨⟨⟨hmem, hnodup⟩, -, hnew⟩, _, _ | @⟨_, ⟨_, t⟩, _, vs, ⟨rfl, ht, hk⟩, hvs⟩, rfl⟩
        have hk : ¬ d.graph.targetKind? t = some .union := hk
        refine ⟨t, target?_eq_some_iff.1 ht, ?_⟩
        rw [if_neg hk]
        refine ih.2 ⟨⟨hnodup, fun v' hv' => hkeys.2 ⟨hnew v' hv', fun hname => ?_⟩⟩, vs, hvs, by simp⟩
        exact hmem (hname ▸ List.mem_map_of_mem hv')

/-! ## Rules -/

variable {kind : RecordKind} {name : String} {ms : List RecordMember}

/-- No name is both that of a primitive field and that of a complex field. -/
theorem disjoint_recordOf (h : (ms.map RecordMember.name).Nodup) {n : String}
    (hp : n ∈ Entries.keys (recordOf kind name ms).primitives) :
    n ∉ Entries.keys (recordOf kind name ms).fields := by
  intro hf
  obtain ⟨p, hpm, hpe, hpn⟩ := mem_of_mem_keys (fun rm e he => (primitive?_name rm e he).1) hp
  obtain ⟨f, hfm, hfe, hfn⟩ := mem_of_mem_keys (fun rm e he => (field?_name rm e he).1) hf
  obtain rfl : p = f := List.inj_on_of_nodup_map h hpm hfm (hpn.trans hfn.symm)
  cases p with
  | primitive p => cases hfe
  | field f => cases hpe

/-- A declared field leads to an entity of its kind; a calculation leads to any target. -/
theorem admits_of_declares (hd : d.meaning.Grounded) {f : Field}
    (h : d.meaning.Declares m (.field f)) : f.kind.Admits d.graph f.target := by
  generalize hrm : RecordMember.field f = declared at h
  cases h with
  | primitive => cases hrm
  | map hkind ht hk | union hkind ht hk | relationship hkind ht hk =>
    cases hrm
    exact hk
  | value hkind ht | call hkind ht =>
    cases hrm
    exact hd _ _ ht

/-- A record of declared members keeps the rules. -/
theorem keepsRecord_recordOf (hd : d.meaning.Grounded) {members : List Member}
    (hnames : (members.map Member.name).Nodup)
    (hmembers : List.Forall₂ d.meaning.Declares members ms) :
    d.graph.KeepsRecord (recordOf kind name ms) := by
  refine ⟨fun n hn => disjoint_recordOf (names_of_declares hmembers ▸ hnames) hn,
    fun key f hf => ?_, fun key p hp => ?_⟩
  · obtain ⟨rm, hrm, he⟩ := List.mem_filterMap.1 hf
    obtain ⟨m, -, hdeclares⟩ := exists_of_forall₂_right hmembers hrm
    cases rm with
    | primitive p => cases he
    | field f =>
      cases he
      exact ⟨rfl, admits_of_declares hd hdeclares⟩
  · obtain ⟨rm, -, he⟩ := List.mem_filterMap.1 hp
    obtain ⟨hkey, hname⟩ := primitive?_name rm _ he
    exact hname.trans hkey.symm

theorem tags_of_declares {μ : Meaning} {variants : List VariantDef} {vs : List (String × Target)}
    (h : List.Forall₂ μ.DeclaresVariant variants vs) :
    Entries.keys vs = variants.map VariantDef.tag := by
  induction h with
  | nil => rfl
  | cons hv _ ih => rw [Entries.keys_cons, List.map_cons, hv.1, ih]

/-- A variant that is a scalar type or an entity, but no union, keeps the rules. -/
theorem admitsVariant_of_ne_union {g : Graph} {t : Target}
    (ht : t.isScalar = true ∨ (g.targetKind? t).isSome = true)
    (hk : g.targetKind? t ≠ some .union) : g.AdmitsVariant t := by
  refine ht.imp_right fun hs => ?_
  obtain ⟨kind, hkind⟩ := Option.isSome_iff_exists.1 hs
  cases kind with
  | resource => exact .inl hkind
  | map => exact .inr hkind
  | union => exact absurd hkind hk

section variants

variable (hd : d.meaning.Grounded) {variants : List VariantDef} {vs : List (String × Target)}
  {tagField : Option String} (hvariants : List.Forall₂ d.meaning.DeclaresVariant variants vs)

include hd hvariants

/-- The only fault of a union of declared variants is a tag field that is a tag. -/
theorem checkRules_union_eq :
    d.graph.checkRules (.union ⟨name, vs, tagField⟩) =
      Graph.firstFault [Graph.tagFault? ⟨name, vs, tagField⟩] := by
  have hnone : ∀ v ∈ vs, d.graph.variantFault? name v.1 v.2 = none := by
    intro v hv
    obtain ⟨_, -, -, ht, hk⟩ := exists_of_forall₂_right hvariants hv
    exact Graph.variantFault?_eq_none_iff.2 (admitsVariant_of_ne_union (hd _ _ ht) hk)
  have hok : Graph.firstFault (vs.map fun v => d.graph.variantFault? name v.1 v.2) = .ok () :=
    Graph.firstFault_eq_ok_iff.2 (List.forall_mem_map.2 hnone)
  rw [Graph.checkRules]
  cases Graph.tagFault? ⟨name, vs, tagField⟩ with
  | none => exact hok
  | some f => rfl

/-- A union of declared variants keeps the rules where its tag field is no tag. -/
theorem checkRules_union_iff : d.graph.checkRules (.union ⟨name, vs, tagField⟩) = .ok () ↔
    ∀ tag ∈ tagField, tag ∉ variants.map VariantDef.tag := by
  rw [checkRules_union_eq hd hvariants, Graph.firstFault_eq_ok_iff, List.forall_mem_singleton,
    Graph.tagFault?_eq_none_iff, tags_of_declares hvariants]

/-- Where the rules are broken, the tag field is a tag. -/
theorem checkRules_union_error {f : SchemaFault}
    (h : d.graph.checkRules (.union ⟨name, vs, tagField⟩) = .error f) :
    ∃ tag, tagField = some tag ∧ tag ∈ variants.map VariantDef.tag ∧ f = .tagCollision name tag := by
  rw [checkRules_union_eq hd hvariants] at h
  have hfault := List.mem_singleton.1 (Graph.mem_of_firstFault_eq_error h)
  cases tagField with
  | none => cases hfault
  | some tag =>
    rw [Graph.tagFault?] at hfault
    simp only at hfault
    split at hfault
    · next htag =>
      rw [Entries.has_eq_true_iff, tags_of_declares hvariants] at htag
      exact ⟨tag, rfl, htag, Option.some.inj hfault⟩
    · cases hfault

end variants

/-! ## Definitions -/

theorem entity?_record_eq_ok_iff {members : List Member} {o : Option Entity} :
    d.entity? (.record kind name members) = .ok o ↔
      ∃ ms, ((members.map Member.name).Nodup ∧ List.Forall₂ d.meaning.Declares members ms) ∧
        o = some (.record (recordOf kind name ms)) := by
  have hfill := @fillRecord_eq_ok_iff d kind name [] [] members
  rw [Draft.entity?, bind_eq_ok_iff]
  constructor
  · rintro ⟨r, hr, h⟩
    obtain ⟨⟨hnames, -⟩, ms, hms, rfl⟩ := (hfill (by simp)).1 hr
    exact ⟨ms, ⟨hnames, hms⟩, (pure_eq_ok_iff.1 h).symm⟩
  · rintro ⟨ms, ⟨hnames, hms⟩, rfl⟩
    exact ⟨_, (hfill (by simp)).2 ⟨⟨hnames, by simp⟩, ms, hms, rfl⟩, rfl⟩

theorem entity?_union_eq_ok_iff {variants : List VariantDef} {tagField : Option String}
    {o : Option Entity} :
    d.entity? (.union name variants tagField) = .ok o ↔
      ∃ vs, ((variants.map VariantDef.tag).Nodup ∧
          List.Forall₂ d.meaning.DeclaresVariant variants vs) ∧
        o = some (.union ⟨name, vs, tagField⟩) := by
  rw [Draft.entity?, bind_eq_ok_iff]
  simp only [fillUnion_eq_ok_iff]
  constructor
  · rintro ⟨u, ⟨⟨htags, -⟩, vs, hvs, rfl⟩, h⟩
    exact ⟨vs, ⟨htags, hvs⟩, (pure_eq_ok_iff.1 h).symm⟩
  · rintro ⟨vs, ⟨htags, hvs⟩, rfl⟩
    exact ⟨_, ⟨⟨htags, by simp⟩, vs, hvs, rfl⟩, rfl⟩

/-- A definition gives an entity that keeps the rules exactly where it defines one. -/
theorem defines_iff (hd : d.meaning.Grounded) {definition : Definition} {o : Option Entity} :
    (d.entity? definition = .ok o ∧ ∀ e ∈ o, d.graph.checkRules e = .ok ()) ↔
      d.meaning.Defines definition o := by
  constructor
  · rintro ⟨h, hrules⟩
    rcases definition with ⟨name, base⟩ | ⟨kind, name, members⟩ | ⟨name, variants, tagField⟩
    · cases h
      exact .nothing name base
    · obtain ⟨ms, ⟨hnames, hms⟩, rfl⟩ := entity?_record_eq_ok_iff.1 h
      exact .record hnames hms
    · obtain ⟨vs, ⟨htags, hvs⟩, rfl⟩ := entity?_union_eq_ok_iff.1 h
      exact .union htags hvs ((checkRules_union_iff hd hvs).1 (hrules _ rfl))
  · rintro (_ | ⟨hnames, hms⟩ | ⟨htags, hvs, htag⟩)
    · exact ⟨rfl, nofun⟩
    · refine ⟨entity?_record_eq_ok_iff.2 ⟨_, ⟨hnames, hms⟩, rfl⟩, fun e he => ?_⟩
      cases he
      exact Graph.checkRules_eq_ok_iff.2 (keepsRecord_recordOf hd hnames hms)
    · refine ⟨entity?_union_eq_ok_iff.2 ⟨_, ⟨htags, hvs⟩, rfl⟩, fun e he => ?_⟩
      cases he
      exact (checkRules_union_iff hd hvs).2 htag

end Shapewise.Schema
