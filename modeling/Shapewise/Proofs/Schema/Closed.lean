import Shapewise.Proofs.Entity.Closed
import Shapewise.Proofs.Entity.Reach
import Shapewise.Schema.Basic

/-!
# Schemas are closed

The entities of a schema that is read from a text keep the structural rules. Resolving keeps an
invariant, `Draft.Sound`: names and entities belong to each other one to one, and an entity is still
announced or it keeps the rules. Completing an entity replaces an announced one of the same kind, so
the rules of the others are not touched. A registry with announced names cannot be frozen; hence in
the graph of a schema no entity is left out (`closed_of_ofText`).
-/

namespace Shapewise.Schema

open Outcome

/-! ## Drafts -/

/-- The kind of entity that a name is bound to. -/
def Draft.kind? (d : Draft) (name : String) : Option EntityKind :=
  (d.registry.get? name).bind fun id => (d.graph.get? id).map Entity.kind

/-- Names and entities belong to each other one to one, and the registry takes more of them. -/
structure Draft.Indexed (d : Draft) : Prop where
  isOpen : d.registry.isFrozen = false
  bound : ∀ id e, d.graph.get? id = some e → d.registry.get? e.name = some id
  held : ∀ name id, d.registry.get? name = some id → ∃ e, d.graph.get? id = some e ∧ e.name = name

/-- Every entity is still announced, or it keeps the rules and names no member twice. -/
structure Draft.Sound (d : Draft) : Prop extends d.Indexed where
  finished : ∀ id e, d.graph.get? id = some e →
    e.name ∈ d.registry.announced ∨ d.graph.checkRules e = .ok () ∧ e.Distinct

/-- The name and the kind of the entity that a definition announces. -/
def Definition.announced? : Definition → Option (String × EntityKind)
  | .alias _ _ => none
  | .record .resource name _ => some (name, .resource)
  | .record .map name _ => some (name, .map)
  | .union name _ _ => some (name, .union)

/-- What a definition announces is bound to an entity of its kind. -/
def Draft.Announces (d : Draft) (definition : Definition) : Prop :=
  ∀ name kind, definition.announced? = some (name, kind) → d.kind? name = some kind

/-! ## Announcing -/

/-- Announcing binds a new name to a new empty entity. -/
theorem announce_eq_ok {d d' : Draft} (ho : d.registry.isFrozen = false) {name : String}
    {kind : EntityKind} (h : d.announce name kind = .ok d') :
    d.registry.get? name = none ∧ d'.graph = (d.graph.add (.empty kind name)).1 ∧
      d'.registry = ⟨Entries.put d.registry.bindings name ⟨d.graph.entities.length⟩,
        d.registry.announced.insert name, false⟩ := by
  unfold Draft.announce at h
  split at h
  · cases h
  · next htaken =>
    have hnone : d.registry.get? name = none := by
      by_contra hne
      exact htaken (by simp [Draft.isTaken, Option.isSome_iff_ne_none.2 hne])
    rw [Registry.announce, ho, hnone] at h
    cases h
    exact ⟨hnone, rfl, by rw [← ho]⟩

/-- Announcing keeps names and entities together; all entities stay announced. -/
theorem Draft.Indexed.announce {d d' : Draft} (hd : d.Indexed)
    (hall : ∀ id e, d.graph.get? id = some e → e.name ∈ d.registry.announced) {name : String}
    {kind : EntityKind} (h : d.announce name kind = .ok d') :
    d'.Indexed ∧ (∀ id e, d'.graph.get? id = some e → e.name ∈ d'.registry.announced) ∧
      d'.kind? name = some kind ∧
      ∀ n k, d.kind? n = some k → d'.kind? n = some k := by
  obtain ⟨hnone, hgraph, hregistry⟩ := announce_eq_ok hd.isOpen h
  have hget : ∀ n, d'.registry.get? n =
      if name = n then some ⟨d.graph.entities.length⟩ else d.registry.get? n := by
    intro n
    rw [hregistry]
    exact Entries.get?_put _ _ _ _
  have hnew : d'.graph.get? ⟨d.graph.entities.length⟩ = some (.empty kind name) := by
    rw [hgraph, Graph.get?_add]
    exact .inr ⟨rfl, rfl⟩
  have hold : ∀ id e, d.graph.get? id = some e → d'.graph.get? id = some e := by
    intro id e he
    rw [hgraph, Graph.get?_add]
    exact .inl he
  have hne : ∀ n id, d.registry.get? n = some id → name ≠ n := by
    rintro n id hn rfl
    rw [hnone] at hn
    cases hn
  refine ⟨⟨by rw [hregistry], ?_, ?_⟩, ?_, ?_, ?_⟩
  · intro id e he
    rw [hgraph, Graph.get?_add] at he
    rcases he with he | ⟨rfl, rfl⟩
    · have hb := hd.bound id e he
      rw [hget, if_neg (hne _ _ hb), hb]
    · rw [hget, Entity.name_empty, if_pos rfl]
  · intro n id hn
    rw [hget] at hn
    split at hn
    · next hname =>
      cases hn
      exact ⟨_, hnew, (Entity.name_empty kind name).trans hname⟩
    · obtain ⟨e, he, hname⟩ := hd.held n id hn
      exact ⟨e, hold id e he, hname⟩
  · intro id e he
    rw [hregistry]
    rw [hgraph, Graph.get?_add] at he
    rcases he with he | ⟨-, rfl⟩
    · exact NameSet.mem_insert.2 (.inr (hall id e he))
    · exact NameSet.mem_insert.2 (.inl (Entity.name_empty kind name))
  · rw [Draft.kind?, hget, if_pos rfl, Option.bind_some, hnew, Option.map_some, Entity.kind_empty]
  · intro n k hk
    obtain ⟨id, hid, hmap⟩ := Option.bind_eq_some_iff.1 hk
    obtain ⟨e, he, rfl⟩ := Option.map_eq_some_iff.1 hmap
    rw [Draft.kind?, hget, if_neg (hne n id hid), hid, Option.bind_some, hold id e he]
    rfl

theorem announceDefinition_eq (d : Draft) (definition : Definition) :
    d.announceDefinition definition =
      match definition.announced? with
      | some (name, kind) => d.announce name kind
      | none => .ok d := by
  rcases definition with _ | ⟨_ | _, _, _⟩ | _ <;> rfl

/-- After a run of announcements all that is announced by the definitions is there. -/
theorem Draft.Indexed.announceAll {d d' : Draft} (hd : d.Indexed)
    (hall : ∀ id e, d.graph.get? id = some e → e.name ∈ d.registry.announced)
    {definitions : List Definition} (h : definitions.foldlM Draft.announceDefinition d = .ok d') :
    d'.Indexed ∧ (∀ id e, d'.graph.get? id = some e → e.name ∈ d'.registry.announced) ∧
      (∀ definition ∈ definitions, d'.Announces definition) ∧
      ∀ n k, d.kind? n = some k → d'.kind? n = some k := by
  induction definitions generalizing d with
  | nil =>
    rw [List.foldlM_nil, pure_eq_ok_iff] at h
    subst h
    exact ⟨hd, hall, by simp, fun _ _ => id⟩
  | cons definition definitions ih =>
    rw [List.foldlM_cons, bind_eq_ok_iff] at h
    obtain ⟨d₁, h₁, h⟩ := h
    rw [announceDefinition_eq] at h₁
    cases hdef : definition.announced? with
    | none =>
      rw [hdef] at h₁
      cases h₁
      obtain ⟨hi, ha, hann, hmono⟩ := ih hd hall h
      refine ⟨hi, ha, List.forall_mem_cons.2 ⟨fun n k hk => ?_, hann⟩, hmono⟩
      rw [hdef] at hk
      cases hk
    | some p =>
      obtain ⟨name, kind⟩ := p
      rw [hdef] at h₁
      obtain ⟨hd₁, hall₁, hkind, hmono₁⟩ := hd.announce hall h₁
      obtain ⟨hi, ha, hann, hmono⟩ := ih hd₁ hall₁ h
      refine ⟨hi, ha, List.forall_mem_cons.2 ⟨fun n k hk => ?_, hann⟩,
        fun n k hk => hmono n k (hmono₁ n k hk)⟩
      rw [hdef] at hk
      cases hk
      exact hmono name kind hkind

theorem sound_of_announceAll {definitions : List Definition} {d : Draft}
    (h : announceAll definitions = .ok d) :
    d.Sound ∧ ∀ definition ∈ definitions, d.Announces definition := by
  rw [announceAll, bind_eq_ok_iff] at h
  obtain ⟨d₀, h₀, h⟩ := h
  obtain ⟨-, h⟩ := then_eq_ok_iff.1 h
  obtain ⟨aliases, -, h⟩ := bind_eq_ok_iff.1 h
  cases h
  have hget : ∀ id, Draft.empty.graph.get? id = none := fun _ => rfl
  have hempty : Draft.empty.Indexed :=
    ⟨rfl, fun id e he => by simp [hget] at he, fun _ _ hn => by cases hn⟩
  obtain ⟨hi, ha, hann, -⟩ := hempty.announceAll (fun id e he => by simp [hget] at he) h₀
  exact ⟨⟨⟨hi.isOpen, hi.bound, hi.held⟩, fun id e he => .inl (ha id e he)⟩, hann⟩

/-! ## The entities of definitions -/

theorem addMember_spec {r : Record} (hr : (Entity.record r).Distinct) (m : RecordMember) :
    (addMember r m).name = r.name ∧ (addMember r m).kind = r.kind ∧
      (Entity.record (addMember r m)).Distinct := by
  cases m with
  | primitive p => exact ⟨rfl, rfl, hr.1.put _ _, hr.2⟩
  | field f => exact ⟨rfl, rfl, hr.1, hr.2.put _ _⟩

theorem fillRecord_spec {d : Draft} {r r' : Record} {seen : List String} {members : List Member}
    (hr : (Entity.record r).Distinct) (h : d.fillRecord r seen members = .ok r') :
    r'.name = r.name ∧ r'.kind = r.kind ∧ (Entity.record r').Distinct := by
  induction members generalizing r seen with
  | nil =>
    cases h
    exact ⟨rfl, rfl, hr⟩
  | cons m members ih =>
    rw [Draft.fillRecord] at h
    split at h
    · cases h
    · obtain ⟨member, -, h⟩ := bind_eq_ok_iff.1 h
      obtain ⟨hname, hkind, hdistinct⟩ := addMember_spec hr member
      obtain ⟨hname', hkind', hdistinct'⟩ := ih hdistinct h
      exact ⟨hname'.trans hname, hkind'.trans hkind, hdistinct'⟩

theorem fillUnion_spec {d : Draft} {u u' : Union} {variants : List VariantDef}
    (hu : (Entity.union u).Distinct) (h : d.fillUnion u variants = .ok u') :
    u'.name = u.name ∧ (Entity.union u').Distinct := by
  induction variants generalizing u with
  | nil =>
    cases h
    exact ⟨rfl, hu⟩
  | cons v variants ih =>
    rw [Draft.fillUnion] at h
    split at h
    · cases h
    · obtain ⟨target, -, h⟩ := bind_eq_ok_iff.1 h
      split at h
      · cases h
      · exact ih (u := { u with variants := Entries.put u.variants v.tag target })
          (Entries.Distinct.put hu _ _) h

/-- The entity of a definition has the name and kind that were announced. -/
theorem entity?_spec {d : Draft} {definition : Definition} {e : Entity}
    (h : d.entity? definition = .ok (some e)) :
    definition.announced? = some (e.name, e.kind) ∧ e.Distinct := by
  rcases definition with ⟨name, base⟩ | ⟨kind, name, members⟩ | ⟨name, variants, tagField⟩
  · cases h
  · obtain ⟨r, hr, h⟩ := bind_eq_ok_iff.1 h
    cases h
    obtain ⟨hname, hkind, hdistinct⟩ :=
      fillRecord_spec ⟨Entries.distinct_nil, Entries.distinct_nil⟩ hr
    refine ⟨?_, hdistinct⟩
    cases kind <;> simp [Definition.announced?, Entity.name, Entity.kind, hname, hkind]
  · obtain ⟨u, hu, h⟩ := bind_eq_ok_iff.1 h
    cases h
    have hempty : (Entity.union ⟨name, [], none⟩).Distinct := Entries.distinct_nil
    obtain ⟨hname, hdistinct⟩ := fillUnion_spec hempty hu
    exact ⟨by simp [Definition.announced?, Entity.name, Entity.kind, hname], hdistinct⟩

/-! ## Completing -/

/-- Completing puts an entity in the place that its name is bound to; it must keep the rules. -/
theorem complete_eq_ok {d d' : Draft} (hd : d.Indexed) {e : Entity} (h : d.complete e = .ok d') :
    ∃ id old, d.registry.get? e.name = some id ∧ d.graph.get? id = some old ∧
      d'.graph = d.graph.set id e ∧ d'.graph.checkRules e = .ok () ∧
      d'.registry = ⟨d.registry.bindings, d.registry.announced.erase e.name, false⟩ := by
  unfold Draft.complete at h
  cases hid : d.registry.get? e.name with
  | none => simp [hid] at h
  | some id =>
    obtain ⟨old, hold, -⟩ := hd.held _ _ hid
    have hset : (d.graph.set id e).get? id = some e := by rw [Graph.get?_set hold, if_pos rfl]
    simp only [hid, Registry.register, hset, hd.isOpen, Bool.false_eq_true, if_false] at h
    split at h
    · next registry hreg =>
      cases h
      split at hreg
      · obtain ⟨hrules, hreg⟩ := then_eq_ok_iff.1 hreg
        cases hreg
        refine ⟨id, old, rfl, hold, rfl, hrules, ?_⟩
        rw [Registry.mk.injEq]
        exact ⟨Entries.put_of_get? hid, rfl, hd.isOpen⟩
      · cases hreg
    · cases h

theorem Draft.Indexed.complete {d d' : Draft} (hd : d.Indexed) {e : Entity}
    (h : d.complete e = .ok d') : d'.Indexed := by
  obtain ⟨id, old, hid, hold, hgraph, -, hregistry⟩ := complete_eq_ok hd h
  have hget : ∀ n, d'.registry.get? n = d.registry.get? n := by
    intro n
    rw [hregistry]
    rfl
  have hset : ∀ id', d'.graph.get? id' = if id' = id then some e else d.graph.get? id' := by
    intro id'
    rw [hgraph, Graph.get?_set hold]
  refine ⟨by rw [hregistry], ?_, ?_⟩
  · intro id' e' he'
    rw [hset] at he'
    rw [hget]
    split at he'
    · next hi => rw [hi, ← Option.some.inj he', hid]
    · exact hd.bound id' e' he'
  · intro n id' hn
    rw [hget] at hn
    obtain ⟨e', he', hname⟩ := hd.held n id' hn
    rw [hset]
    split
    · next hi =>
      obtain ⟨e'', he'', hname'⟩ := hd.held _ _ hid
      rw [← hi, he'] at he''
      exact ⟨e, rfl, by rw [← hname, Option.some.inj he'', hname']⟩
    · exact ⟨e', he', hname⟩

/-- Completing an entity of the kind that was announced keeps the draft sound and every kind. -/
theorem Draft.Sound.complete {d d' : Draft} (hd : d.Sound) {e : Entity} (he : e.Distinct)
    (hk : d.kind? e.name = some e.kind) (h : d.complete e = .ok d') :
    d'.Sound ∧ ∀ n k, d.kind? n = some k → d'.kind? n = some k := by
  obtain ⟨id, old, hid, hold, hgraph, hrules, hregistry⟩ := complete_eq_ok hd.toIndexed h
  have hkind : e.kind = old.kind := by
    rw [Draft.kind?, hid, Option.bind_some, hold, Option.map_some, Option.some.injEq] at hk
    exact hk.symm
  -- the other entities keep their rules, for these depend on the kinds alone
  have htargets : ∀ t, d'.graph.targetKind? t = d.graph.targetKind? t := by
    rw [hgraph]
    exact Graph.targetKind?_set hold hkind
  refine ⟨⟨hd.toIndexed.complete h, ?_⟩, ?_⟩
  · intro id' e' he'
    rw [hgraph, Graph.get?_set hold] at he'
    split at he'
    · rw [← Option.some.inj he']
      exact .inr ⟨hrules, he⟩
    · next hi =>
      rcases hd.finished id' e' he' with ha | ⟨hr, hdistinct⟩
      · have hne : e'.name ≠ e.name := by
          intro hn
          have hb := hd.bound id' e' he'
          rw [hn, hid] at hb
          exact hi (Option.some.inj hb).symm
        rw [hregistry]
        exact .inl (NameSet.mem_erase.2 ⟨ha, hne⟩)
      · exact .inr ⟨(Graph.checkRules_congr htargets e').trans hr, hdistinct⟩
  · intro n k hn
    have hget : d'.registry.get? n = d.registry.get? n := by
      rw [hregistry]
      rfl
    have hkinds : ∀ id', (d'.graph.get? id').map Entity.kind = (d.graph.get? id').map Entity.kind :=
      fun id' => htargets (.entity id')
    simpa only [Draft.kind?, hget, hkinds] using hn

/-- Completing what definitions define keeps the draft sound. -/
theorem Draft.Sound.defineAll {d d' : Draft} (hd : d.Sound) {definitions : List Definition}
    (hann : ∀ definition ∈ definitions, d.Announces definition)
    (h : d.defineAll definitions = (d', none)) : d'.Sound := by
  induction definitions generalizing d with
  | nil =>
    cases h
    exact hd
  | cons definition definitions ih =>
    obtain ⟨hdef, hrest⟩ := List.forall_mem_cons.1 hann
    rw [Draft.defineAll] at h
    split at h
    · next d₁ h₁ =>
      obtain ⟨o, ho, h₁⟩ := bind_eq_ok_iff.1 h₁
      cases o with
      | none =>
        cases h₁
        exact ih hd hrest h
      | some e =>
        obtain ⟨hannounced, hdistinct⟩ := entity?_spec ho
        obtain ⟨hd₁, hmono⟩ := hd.complete hdistinct (hdef _ _ hannounced) h₁
        exact ih hd₁ (fun definition hm n k hk => hmono n k (hrest definition hm n k hk)) h
    · cases h

theorem sound_of_resolve {definitions : List Definition} {d : Draft}
    (h : resolve definitions = .ok d) : d.Sound := by
  rw [resolve, resolveFar] at h
  cases ha : announceAll definitions with
  | error f => simp [ha] at h
  | ok d₀ =>
    obtain ⟨hd₀, hann⟩ := sound_of_announceAll ha
    cases hdef : d₀.defineAll definitions with
    | mk d₁ o =>
      cases o with
      | some f => simp [ha, hdef] at h
      | none =>
        simp only [ha, hdef, Except.ok.injEq] at h
        subst h
        exact hd₀.defineAll hann hdef

/-! ## Freezing -/

theorem Draft.Sound.closed {d : Draft} (hd : d.Sound) {r : Registry}
    (h : d.registry.freeze d.graph = .ok r) : d.graph.Closed := by
  obtain ⟨hcomplete, -⟩ := (Registry.freeze_eq_ok_iff hd.isOpen).1 h
  have hfinished := fun id e he => (hd.finished id e he).resolve_left (hcomplete.announced _)
  exact ⟨fun id e he => (hfinished id e he).1, fun id e he => (hfinished id e he).2⟩

/-- Every entity of a schema that is read from a text keeps the rules. -/
theorem closed_of_ofText {text : List Char} {limits : Limits} {s : Schema}
    (h : ofText text limits = .ok s) : s.graph.Closed := by
  obtain ⟨d, hd, h⟩ := bind_eq_ok_iff.1 h
  obtain ⟨definitions, -, hd⟩ := bind_eq_ok_iff.1 hd
  obtain ⟨registry, hr, h⟩ := bind_eq_ok_iff.1 (mapError_eq_ok_iff.1 h)
  cases h
  exact (sound_of_resolve (mapError_eq_ok_iff.1 hd)).closed hr

/-- Every name of a schema that is read from a text stands for an entity. -/
theorem exists_entity_of_ofText {text : List Char} {limits : Limits} {s : Schema}
    (h : ofText text limits = .ok s) {name : String} {id : EntityId}
    (hid : s.registry.get? name = some id) : ∃ e, s.graph.get? id = some e := by
  obtain ⟨d, hd, h⟩ := bind_eq_ok_iff.1 h
  obtain ⟨definitions, -, hd⟩ := bind_eq_ok_iff.1 hd
  obtain ⟨registry, hr, h⟩ := bind_eq_ok_iff.1 (mapError_eq_ok_iff.1 h)
  cases h
  have hsound := sound_of_resolve (mapError_eq_ok_iff.1 hd)
  obtain ⟨-, rfl⟩ := (Registry.freeze_eq_ok_iff hsound.isOpen).1 hr
  obtain ⟨e, he, -⟩ := hsound.held name id hid
  exact ⟨e, he⟩

end Shapewise.Schema
