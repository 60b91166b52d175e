import Shapewise.Proofs.Schema.Resolved

/-!
# Texts and frozen registries

What is read from a text can always be frozen (`draftOfText_freezes`). Every entity is completed by
the time that all definitions are, and an entity that is completed keeps the rules; so whatever an
entity leads to stands in the graph and, since names and entities belong to each other one to one, is
what its own name means. Of the checks of a registry only one can fail on the way: the tag field of a
union may be one of its tags. The announcements are of new names, members are looked up before they
are registered, and what the rules ask of them has been seen to then.
-/

namespace Shapewise.Schema

open Outcome

variable {definitions : List Definition} {d : Draft}

/-! ## Success -/

theorem announced_of_resolve (h : resolve definitions = .ok d) (name : String) :
    name ∉ d.registry.announced := by
  obtain ⟨-, known, -, os, -, rfl⟩ := resolve_eq_ok_iff.1 h
  exact NameSet.not_mem_empty name

theorem Draft.Sound.keepsRules (hd : d.Sound) (hannounced : ∀ name, name ∉ d.registry.announced)
    {id : EntityId} {e : Entity} (he : d.graph.get? id = some e) : d.graph.KeepsRules e :=
  Graph.checkRules_eq_ok_iff.1 ((hd.finished id e he).resolve_left (hannounced _)).1

/-- When all entities are completed, none leads out of the registry. -/
theorem Draft.Sound.complete_registry (hd : d.Sound)
    (hannounced : ∀ name, name ∉ d.registry.announced) : d.registry.Complete d.graph := by
  refine ⟨hannounced, fun name id e _ he t ht => ?_⟩
  have hrules := hd.keepsRules hannounced he
  obtain ⟨id', rfl⟩ := hrules.exists_entity ht
  obtain ⟨e', he'⟩ := hrules.exists_get? (Entity.leads_iff.2 ht)
  have hnamed : d.registry.Named d.graph := hd.held
  exact hnamed.isBound_iff.2 ⟨e', he', hd.bound id' e' he'⟩

theorem freezes_of_resolve (h : resolve definitions = .ok d) : d.registry.Closed d.graph ∧
    d.registry.freeze d.graph = .ok { d.registry with isFrozen := true } := by
  have hd := sound_of_resolve h
  have hannounced := announced_of_resolve h
  have hcomplete := hd.complete_registry hannounced
  refine ⟨hcomplete.closed fun name id hid => ?_,
    (Registry.freeze_eq_ok_iff hd.isOpen).2 ⟨hcomplete, rfl⟩⟩
  obtain ⟨e, he, hname⟩ := hd.held name id hid
  exact ⟨e, he, hname, hd.keepsRules hannounced he⟩

/-! ## Faults of the rules -/

/-- A fault that is not one of the rules. -/
def ResolveFault.IsNoRule (f : ResolveFault) : Prop :=
  ∀ s, f ≠ .rules s

/-- An outcome that is no fault of the rules. -/
abbrev BreaksNoRule {α : Type} : Except ResolveFault α → Prop :=
  Settles (fun _ => True) ResolveFault.IsNoRule

theorem breaksNoRule_target (name : String) : BreaksNoRule (d.target name) := by
  unfold Draft.target
  split
  · trivial
  · split
    · trivial
    · exact fun _ => ResolveFault.noConfusion

theorem breaksNoRule_argument (entity : String) (m : Member) (a : ArgumentDef) :
    BreaksNoRule (d.argument entity m a) := by
  refine (breaksNoRule_target a.type.name).bind fun t _ _ => ?_
  cases t with
  | scalar type => trivial
  | _ => exact fun _ => ResolveFault.noConfusion

theorem breaksNoRule_member (entity : String) (m : Member) : BreaksNoRule (d.member entity m) := by
  refine (breaksNoRule_target m.type.name).bind fun t _ _ => ?_
  cases m.kind with
  | relationship =>
    simp only
    split
    · trivial
    · exact fun _ => ResolveFault.noConfusion
  | calculation arguments =>
    cases arguments with
    | none => trivial
    | some arguments =>
      have hmapM : Settles _ ResolveFault.IsNoRule (arguments.mapM (d.argument entity m)) :=
        Settles.mapM fun a _ => breaksNoRule_argument entity m a
      exact hmapM.bind fun _ _ _ => trivial
  | plain =>
    simp only
    split
    · trivial
    · trivial
    · trivial
    · exact fun _ => ResolveFault.noConfusion

theorem breaksNoRule_fillRecord (r : Record) (seen : List String) (members : List Member) :
    BreaksNoRule (d.fillRecord r seen members) := by
  induction members generalizing r seen with
  | nil => trivial
  | cons m members ih =>
    unfold Draft.fillRecord
    split
    · exact fun _ => ResolveFault.noConfusion
    · exact (breaksNoRule_member r.name m).bind fun _ _ _ => ih _ _

theorem breaksNoRule_fillUnion (u : Union) (variants : List VariantDef) :
    BreaksNoRule (d.fillUnion u variants) := by
  induction variants generalizing u with
  | nil => trivial
  | cons v variants ih =>
    unfold Draft.fillUnion
    split
    · exact fun _ => ResolveFault.noConfusion
    · refine (breaksNoRule_target v.type).bind fun t _ _ => ?_
      split
      · exact fun _ => ResolveFault.noConfusion
      · exact ih _

/-- Looking up the members of a definition registers nothing. -/
theorem breaksNoRule_entity (definition : Definition) : BreaksNoRule (d.entity? definition) := by
  rcases definition with _ | ⟨kind, name, members⟩ | ⟨name, variants, tagField⟩
  · trivial
  · exact (breaksNoRule_fillRecord _ _ members).bind fun _ _ _ => trivial
  · exact (breaksNoRule_fillUnion _ variants).bind fun _ _ _ => trivial

/-- A definition announces under a new name or is refused beforehand. -/
theorem breaksNoRule_announceDefinition (d : Draft) (hd : ∃ pending, d = .stage [] [] pending)
    (definition : Definition) :
    Settles (fun d => ∃ pending, d = .stage [] [] pending) ResolveFault.IsNoRule
      (d.announceDefinition definition) := by
  obtain ⟨pending, rfl⟩ := hd
  rw [announceDefinition_eq]
  cases definition.announced? with
  | none => exact ⟨pending, rfl⟩
  | some entity =>
    obtain ⟨name, kind⟩ := entity
    simp only
    cases htaken : (Draft.stage [] [] pending).isTaken name with
    | false =>
      rw [announce_stage kind htaken]
      exact ⟨_, rfl⟩
    | true =>
      rw [Draft.announce, htaken]
      exact fun _ => ResolveFault.noConfusion

theorem breaksNoRule_checkAlias (aliases : List Alias) (a : Alias) :
    BreaksNoRule (d.checkAlias aliases a) := by
  unfold Draft.checkAlias
  split
  · exact fun _ => ResolveFault.noConfusion
  · trivial

theorem breaksNoRule_aliasPasses (known : List (String × Scalar)) (remaining : List Alias)
    (passes : Nat) : BreaksNoRule (aliasPasses known remaining passes) := by
  induction passes generalizing known remaining with
  | zero => trivial
  | succ passes ih =>
    unfold aliasPasses
    split
    · trivial
    · simp only
      split
      · exact fun _ => ResolveFault.noConfusion
      · exact ih _ _

theorem breaksNoRule_announceAll (definitions : List Definition) :
    BreaksNoRule (announceAll definitions) := by
  refine (Settles.foldlM breaksNoRule_announceDefinition definitions ⟨[], rfl⟩).bind fun d _ _ => ?_
  have hcheck : BreaksNoRule ((aliasesOf definitions).forM (d.checkAlias (aliasesOf definitions))) :=
    Settles.forM trivial fun a _ => breaksNoRule_checkAlias _ a
  refine hcheck.bind fun _ _ _ => ?_
  exact (breaksNoRule_aliasPasses [] (aliasesOf definitions) _).bind fun _ _ _ => trivial

/-- A union with a tag field that is one of its tags is among definitions. -/
def Collides (definitions : List Definition) (f : SchemaFault) : Prop :=
  ∃ name variants tag, .union name variants (some tag) ∈ definitions ∧
    tag ∈ variants.map VariantDef.tag ∧ f = .tagCollision name tag

variable {known : List (String × Scalar)} {finished : List Entity}

/-- The rules are broken by the tag field of a union only. -/
theorem collides_of_checkRules (hd : d.meaning.Grounded) {definition : Definition} {e : Entity}
    (he : d.entity? definition = .ok (some e)) {f : SchemaFault}
    (h : d.graph.checkRules e = .error f) : Collides [definition] f := by
  rcases definition with _ | ⟨kind, name, members⟩ | ⟨name, variants, tagField⟩
  · cases he
  · obtain ⟨ms, ⟨hnames, hmembers⟩, heq⟩ := entity?_record_eq_ok_iff.1 he
    cases heq
    have hrules : d.graph.KeepsRules (.record (recordOf kind name ms)) :=
      keepsRecord_recordOf hd hnames hmembers
    rw [Graph.checkRules_eq_ok_iff.2 hrules] at h
    cases h
  · obtain ⟨vs, ⟨-, hvariants⟩, heq⟩ := entity?_union_eq_ok_iff.1 he
    cases heq
    obtain ⟨tag, rfl, htag, rfl⟩ := checkRules_union_error hd hvariants h
    exact ⟨name, variants, tag, List.mem_singleton_self _, htag, rfl⟩

theorem collides_of_define {definition : Definition}
    (hnames : (Entries.keys (finished.map outline ++ announced (definition :: definitions))).Nodup)
    {f : SchemaFault} (h : (Draft.stage known finished
      (announced (definition :: definitions))).define definition = .error (.rules f)) :
    Collides [definition] f := by
  have hground := grounded_of known (finished.map outline ++ announced (definition :: definitions))
  rw [← meaning_stage] at hground
  rw [Draft.define] at h
  cases he : (Draft.stage known finished (announced (definition :: definitions))).entity?
      definition with
  | error fault =>
    rw [he] at h
    cases h
    exact absurd rfl ((breaksNoRule_entity definition).of_error he f)
  | ok o =>
    rw [he] at h
    cases o with
    | none => cases h
    | some e =>
      refine collides_of_checkRules hground he ?_
      rw [announced_cons_of_some (entity?_spec he).1] at hnames h ⊢
      have hcomplete : (Draft.stage known finished (outline e :: announced definitions)).complete e =
          .error (.rules f) := h
      rw [complete_stage_eq hnames] at hcomplete
      split at hcomplete
      · cases hcomplete
      · next hrules =>
        cases hcomplete
        exact hrules

/-- Completing definitions breaks the rules by the tag field of a union only. -/
theorem collides_of_defineAll
    (hnames : (Entries.keys (finished.map outline ++ announced definitions)).Nodup)
    {f : SchemaFault}
    (h : (Draft.stage known finished (announced definitions)).defineAll definitions =
      (d, some (.rules f))) : Collides definitions f := by
  induction definitions generalizing finished with
  | nil => cases h
  | cons definition definitions ih =>
    rw [Draft.defineAll] at h
    split at h
    · next d₁ h₁ =>
      obtain ⟨o, ho, rfl⟩ := (define_stage_iff hnames).1 h₁
      have hrest : (finished ++ o.toList).map outline ++ announced definitions =
          finished.map outline ++ announced (definition :: definitions) := by
        rw [announced_cons_of_defines ho, List.map_append, List.append_assoc]
      obtain ⟨name, variants, tag, hmem, htag, rfl⟩ := ih (hrest ▸ hnames) h
      exact ⟨name, variants, tag, List.mem_cons_of_mem _ hmem, htag, rfl⟩
    · next fault h₁ =>
      cases h
      obtain ⟨name, variants, tag, hmem, htag, rfl⟩ := collides_of_define hnames h₁
      rw [List.mem_singleton] at hmem
      exact ⟨name, variants, tag, hmem ▸ List.mem_cons_self, htag, rfl⟩

theorem collides_of_resolve {f : SchemaFault} (h : resolve definitions = .error (.rules f)) :
    Collides definitions f := by
  rw [resolve, resolveFar] at h
  cases hannounce : announceAll definitions with
  | error fault =>
    simp only [hannounce] at h
    cases h
    exact absurd rfl ((breaksNoRule_announceAll definitions).of_error hannounce f)
  | ok d₀ =>
    obtain ⟨hnamed, known, -, rfl⟩ := announceAll_eq_ok_iff.1 hannounce
    have hnames : (Entries.keys ([].map outline ++ announced definitions)).Nodup :=
      (named_iff.1 hnamed).1.1
    rw [hannounce] at h
    simp only at h
    split at h
    · cases h
    · next fault hdefine =>
      cases h
      exact collides_of_defineAll hnames hdefine

/-! ## Texts -/

theorem ofText_of_draftOfText {text : List Char} {limits : Limits} (h : draftOfText text = .ok d)
    {r : Registry} (hr : d.registry.freeze d.graph = .ok r) :
    ofText text limits = .ok ⟨d.graph, r, limits⟩ := by
  rw [ofText, h]
  show (ofRegistry d.graph d.registry limits).mapError SchemaTextFault.unfrozen = _
  rw [ofRegistry, hr]
  rfl

/-- Every text that is read gives a closed registry that can be frozen. So a text is no schema only
where it gives no registry; and it then breaks a rule only by a union whose tag field is a tag. -/
theorem draftOfText_freezes (text : List Char) (limits : Limits) :
    (∀ d, draftOfText text = .ok d → d.registry.Closed d.graph ∧
      d.registry.freeze d.graph = .ok { d.registry with isFrozen := true } ∧
      ofText text limits = .ok ⟨d.graph, { d.registry with isFrozen := true }, limits⟩) ∧
    (∀ f, ofText text limits = .error f ↔ draftOfText text = .error f) ∧
    ∀ f, draftOfText text ≠ .error (.unfrozen f) ∧
      (draftOfText text = .error (.unresolved (.rules f)) →
        ∃ definitions, readText text = .ok definitions ∧ Collides definitions f) := by
  have hok : ∀ d, draftOfText text = .ok d → d.registry.Closed d.graph ∧
      d.registry.freeze d.graph = .ok { d.registry with isFrozen := true } ∧
      ofText text limits = .ok ⟨d.graph, { d.registry with isFrozen := true }, limits⟩ := by
    intro d hd
    obtain ⟨definitions, -, hresolve⟩ := draftOfText_eq_ok_iff.1 hd
    obtain ⟨hclosed, hfreeze⟩ := freezes_of_resolve hresolve
    exact ⟨hclosed, hfreeze, ofText_of_draftOfText hd hfreeze⟩
  refine ⟨hok, fun f => ?_, fun f => ?_⟩
  · cases hd : draftOfText text with
    | ok d => simp [(hok d hd).2.2]
    | error f' =>
      rw [ofText, hd]
      show (Except.error f' : Except SchemaTextFault Schema) = .error f ↔ _
      rw [Except.error.injEq, Except.error.injEq]
  · rw [draftOfText]
    cases hread : readText text with
    | error fault => constructor <;> intro h <;> cases h
    | ok definitions =>
      show (resolve definitions).mapError _ ≠ _ ∧ ((resolve definitions).mapError _ = _ → _)
      cases hresolve : resolve definitions with
      | ok d => constructor <;> intro h <;> cases h
      | error fault =>
        constructor <;> intro h <;> cases h
        exact ⟨definitions, rfl, collides_of_resolve hresolve⟩

/-- Posts, users and owners, which lead to one another in circles. -/
def ownedText : List Char :=
  "resource Post { author: -> User?, owner: Owner }
   resource User { calc best(by: string?): Post }
   union Owner on kind { user: User, none: boolean }".toList

/-- A union whose tag field is one of its tags. -/
def collidingText : List Char :=
  "union Owner on none { none: boolean }".toList

theorem draftOfText_freezes_owned :
    (∃ d, draftOfText ownedText = .ok d ∧ d.registry.Closed d.graph ∧
      d.registry.freeze d.graph = .ok { d.registry with isFrozen := true } ∧
      ofText ownedText .standard =
        .ok ⟨d.graph, { d.registry with isFrozen := true }, .standard⟩) ∧
    ∃ f, draftOfText collidingText = .error (.unresolved (.rules f)) ∧
      ∃ definitions, readText collidingText = .ok definitions ∧ Collides definitions f := by
  have howned : Settles (fun _ => True) (fun _ => False) (draftOfText ownedText) := by
    decide +kernel
  obtain ⟨d, hd, -⟩ := howned.exists_ok
  have hcolliding : draftOfText collidingText =
      .error (.unresolved (.rules (.tagCollision "Owner" "none"))) := by
    decide +kernel
  exact ⟨⟨d, hd, (draftOfText_freezes ownedText .standard).1 d hd⟩, _, hcolliding,
    ((draftOfText_freezes collidingText .standard).2.2 _).2 hcolliding⟩

end Shapewise.Schema
