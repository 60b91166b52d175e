import Shapewise.Proofs.Selection.Contribution

/-!
# Projection by names

The shape of a selection, said name by name. `Grouped` takes all picks of a name together: what they
select is one list of fields, one pick behind the other, which is projected once. The code never
does this; it projects each pick for itself and merges the shapes at every level. The main result is
`projectList_eq_ok_iff_grouped`: both give the same object, with its keys in the same order.
-/

namespace Shapewise.Selection

open Outcome Shape

/-- The shape under a name with all of its picks taken together. -/
inductive Grouped (g : Graph) (items : List Value) : Entity → String → Shape → Prop
  | primitive {r : Record} {n : String} {p : Primitive} :
      r.primitive? n = some p →
      Grouped g items (.record r) n ((Shape.scalar p.type).wrap p.isArray p.isNullable)
  | relationship {r : Record} {n : String} {f : Field} {id : EntityId} {s : Shape} :
      r.field? n = some f → f.kind = .relationship → f.target = .entity id →
      project g id (.list (gathered items n)) = .ok s →
      Grouped g items (.record r) n (s.wrap f.isArray (f.isNullable && !f.isArray))
  /-- A nested map or a union field. -/
  | nested {r : Record} {n : String} {f : Field} {id : EntityId} {s : Shape} :
      r.field? n = some f → f.kind = .map ∨ f.kind = .union → f.target = .entity id →
      project g id (.list (gathered items n)) = .ok s →
      Grouped g items (.record r) n (s.wrap f.isArray f.isNullable)
  /-- A calculation of a plain value, with the arguments of the first pick. -/
  | value {r : Record} {n : String} {f : Field} {declared : Option (List Argument)}
      {type : Scalar} {v : Value} :
      r.field? n = some f → f.kind = .calculation declared → f.target = .scalar type →
      (selectedOf items n).head? = some v →
      Grouped g items (.record r) n (.calculation ((Shape.scalar type).wrap f.isArray f.isNullable)
        (selectedArguments declared v) (declared.map Arguments.shape))
  /-- A calculation of an entity, with the arguments of the first pick. -/
  | call {r : Record} {n : String} {f : Field} {declared : Option (List Argument)}
      {id : EntityId} {v : Value} {s : Shape} :
      r.field? n = some f → f.kind = .calculation declared → f.target = .entity id →
      (selectedOf items n).head? = some v →
      project g id (.list (gathered items n)) = .ok s →
      Grouped g items (.record r) n (.calculation (s.wrap f.isArray f.isNullable)
        (selectedArguments declared v) (declared.map Arguments.shape))
  | tagField {u : Union} {n : String} :
      u.tagField = some n → Grouped g items (.union u) n (.literal u.tags)
  /-- A variant that is a plain value. -/
  | scalar {u : Union} {n : String} {type : Scalar} :
      u.variant? n = some (.scalar type) →
      Grouped g items (.union u) n (.nullable (.scalar type))
  /-- A variant that is an entity. -/
  | variant {u : Union} {n : String} {id : EntityId} {s : Shape} :
      u.variant? n = some (.entity id) → project g id (.list (gathered items n)) = .ok s →
      Grouped g items (.union u) n (.nullable s)

/-! ## Merging name by name -/

/-- The shape that the picks of a name have when they are merged from left to right. -/
def MergedAt (g : Graph) (e : Entity) (items : List Value) (n : String) (s : Shape) : Prop :=
  ∃ shapes, (Entries.valuesOf (picks items) n).mapM (pickShape g e n) = .ok shapes ∧
    gather none shapes = .ok (some s)

variable {g : Graph} {e : Entity} {r : Record} {u : Union} {target : Target} {maxDepth depth : Nat}
  {items : List Value} {n : String}

theorem keys_of_contributions {ps : List (String × Option Value)} {cs : List (String × Shape)}
    (h : contributions g e ps = .ok cs) : Entries.keys cs = Entries.keys ps := by
  have hcs := contributions_eq_ok_iff.1 h
  clear h
  induction hcs with
  | nil => rfl
  | cons hc _ ih => rw [Entries.keys_cons, Entries.keys_cons, hc.1, ih]

theorem valuesOf_of_contributions {ps : List (String × Option Value)} {cs : List (String × Shape)}
    (h : contributions g e ps = .ok cs) (n : String) :
    (Entries.valuesOf ps n).mapM (pickShape g e n) = .ok (Entries.valuesOf cs n) := by
  have hcs := contributions_eq_ok_iff.1 h
  clear h
  rw [mapM_eq_ok_iff]
  induction hcs with
  | nil => exact .nil
  | @cons p c ps cs hc _ ih =>
    obtain ⟨k, o⟩ := p
    obtain ⟨l, s⟩ := c
    obtain ⟨rfl, hs⟩ := hc
    rw [Entries.valuesOf_cons, Entries.valuesOf_cons]
    split
    · next hk => exact .cons (hk ▸ hs) ih
    · exact ih

/-- A list of valid elements is projected name by name. -/
theorem projectList_eq_ok_iff_mergedAt (hg : g.Closed) (he : g.follow? target = some e)
    (hitems : ∀ item ∈ items, ValidElement g maxDepth e depth item) {s : Shape} :
    projectList g target items = .ok s ↔
      ∃ fields, s = .record fields ∧ Entries.keys fields = (pickedNames items).eraseDups ∧
        ∀ n t, (n, t) ∈ fields → MergedAt g e items n t := by
  rw [projectList_eq_ok_iff hg he hitems]
  constructor
  · rintro ⟨cs, hcs, hs⟩
    obtain ⟨fields, hfields, rfl⟩ := merged_eq_ok_iff.1 hs
    obtain ⟨hkeys, hd, hgather⟩ := (mergeFields_eq_ok_iff Entries.distinct_nil).1 hfields
    refine ⟨fields, rfl, ?_, fun n t ht => ?_⟩
    · rw [hkeys, Entries.keys_nil, List.nil_append, keys_of_contributions hcs]
      rfl
    · have hn := hgather n
      rw [Entries.get?_nil, (Entries.get?_eq_some_iff hd).2 ht] at hn
      exact ⟨_, valuesOf_of_contributions hcs n, hn⟩
  · rintro ⟨fields, rfl, hkeys, hmerged⟩
    have hd : Entries.Distinct fields := by
      rw [Entries.Distinct, hkeys]
      exact Entries.nodup_eraseDups _
    have hmem : ∀ n, n ∈ pickedNames items → ∃ t, (n, t) ∈ fields := by
      intro n hn
      rw [← Entries.mem_keys, hkeys, List.mem_eraseDups]
      exact hn
    -- every pick stands under a name that is merged, so each of them has a shape of its own
    obtain ⟨cs, hcs⟩ : ∃ cs, contributions g e (picks items) = .ok cs := by
      refine exists_mapM_eq_ok fun p hp => ?_
      obtain ⟨t, ht⟩ := hmem p.1 (Entries.mem_keys.2 ⟨p.2, hp⟩)
      obtain ⟨shapes, hshapes, -⟩ := hmerged p.1 t ht
      obtain ⟨s, -, hs⟩ := exists_of_forall₂_left (mapM_eq_ok_iff.1 hshapes)
        (Entries.mem_valuesOf.2 hp)
      exact ⟨(p.1, s), map_eq_ok_iff.2 ⟨s, hs, rfl⟩⟩
    refine ⟨cs, hcs, merged_eq_ok_iff.2 ⟨fields, ?_, rfl⟩⟩
    refine (mergeFields_eq_ok_iff Entries.distinct_nil).2 ⟨?_, hd, fun n => ?_⟩
    · rw [hkeys, Entries.keys_nil, List.nil_append, keys_of_contributions hcs]
      rfl
    · rw [Entries.get?_nil]
      by_cases hn : n ∈ pickedNames items
      · obtain ⟨t, ht⟩ := hmem n hn
        obtain ⟨shapes, hshapes, hgather⟩ := hmerged n t ht
        rw [valuesOf_of_contributions hcs n] at hshapes
        rw [Except.ok.inj hshapes, hgather, (Entries.get?_eq_some_iff hd).2 ht]
      · have hnone : Entries.valuesOf cs n = [] := by
          refine List.eq_nil_iff_forall_not_mem.2 fun t ht => hn ?_
          rw [pickedNames, ← keys_of_contributions hcs]
          exact Entries.mem_keys.2 ⟨t, Entries.mem_valuesOf.1 ht⟩
        have hget : Entries.get? fields n = none := by
          rw [Entries.get?_eq_none_iff, hkeys, List.mem_eraseDups]
          exact hn
        rw [hnone, hget, gather_nil]

/-! ## What a valid pick selects -/

section selects

variable {f : Field} {v : Value} {declared : Option (List Argument)} {id : EntityId}

theorem Valid.eq_list (h : Valid g maxDepth target depth v) : v = .list (fieldList v) := by
  cases h
  rfl

theorem Valid.elements (h : Valid g maxDepth target depth (.list items)) :
    ∃ e, g.follow? target = some e ∧
      (∀ item ∈ items, ValidElement g maxDepth e depth item) ∧ Agreeing e items := by
  obtain ⟨-, -, he, hitems, hagree⟩ := h
  exact ⟨_, he, hitems, hagree⟩

/-- Lists of fields behind one another hold valid elements of one entity. -/
theorem elements_flatMap {vs : List Value} (hne : vs ≠ [])
    (hvs : ∀ v ∈ vs, Valid g maxDepth target depth (.list (fieldList v))) :
    ∃ e, g.follow? target = some e ∧
      ∀ item ∈ vs.flatMap fieldList, ValidElement g maxDepth e depth item := by
  obtain ⟨v₀, hv₀⟩ := List.exists_mem_of_ne_nil _ hne
  obtain ⟨e, he, -, -⟩ := (hvs v₀ hv₀).elements
  refine ⟨e, he, fun item hm => ?_⟩
  obtain ⟨v, hv, hm⟩ := List.mem_flatMap.1 hm
  obtain ⟨e', he', hitems, -⟩ := (hvs v hv).elements
  cases he.symm.trans he'
  exact hitems item hm

theorem validName_of_pick (hitems : ∀ item ∈ items, ValidElement g maxDepth e depth item)
    (h : (n, none) ∈ picks items) : ValidName e n := by
  obtain ⟨item, hm, hp⟩ := mem_picks.1 h
  cases hitems item hm with
  | name hn =>
    cases List.mem_singleton.1 hp
    exact hn
  | object _ _ =>
    obtain ⟨entry, -, hentry⟩ := List.mem_map.1 hp
    cases hentry

theorem validEntry_of_selected (hitems : ∀ item ∈ items, ValidElement g maxDepth e depth item)
    (h : v ∈ selectedOf items n) : ValidEntry g maxDepth e depth n v := by
  obtain ⟨entries, hm, hentry⟩ := mem_selectedOf_iff.1 h
  exact (validElement_obj_iff.1 (hitems _ hm)).2 n v hentry

theorem ValidEntry.selects_field (hf : r.field? n = some f)
    (hk : ∀ declared, f.kind ≠ .calculation declared)
    (h : ValidEntry g maxDepth (.record r) depth n v) :
    Valid g maxDepth f.target (depth + 1) (.list (fieldList v)) ∧
      pickShape g (.record r) n (some v) = f.wrap <$> projectList g f.target (fieldList v) := by
  have hv := (validEntry_field_iff hf hk).1 h
  have heq := hv.eq_list
  refine ⟨heq ▸ hv, ?_⟩
  rw [pickShape_field hf hk, heq, projectNode]
  rfl

theorem ValidEntry.selects_call (hf : r.field? n = some f) (hk : f.kind = .calculation declared)
    (ht : f.target = .entity id) (h : ValidEntry g maxDepth (.record r) depth n v) :
    Valid g maxDepth (.entity id) (depth + 1) (.list (fieldList v)) ∧
      pickShape g (.record r) n (some v) =
        calculationShape f declared v <$> projectList g (.entity id) (fieldList v) := by
  rw [pickShape_call hf hk ht]
  rcases h with ⟨hf', hk', -⟩ | ⟨hf', -, ht', -, hv⟩ | ⟨hf', -, ht', -, -, hfields, hv⟩ |
    ⟨hf', -, ht', -⟩
  all_goals obtain rfl := Option.some.inj (hf.symm.trans hf')
  · exact absurd hk (hk' declared)
  · cases ht.symm.trans ht'
    exact ⟨hv, by rw [projectResult]; rfl⟩
  · cases ht.symm.trans ht'
    obtain ⟨xs, rfl⟩ : ∃ xs, _ = Value.list xs := ⟨_, hv.eq_list⟩
    have hlist : ∀ {es}, Entries.get? es "fields" = some (.list xs) → fieldList (.obj es) = xs :=
      fun h => by rw [fieldList, h]
    refine ⟨by rwa [hlist hfields], ?_⟩
    rw [projectResult, projectFields_of_get? hfields, projectNode, hlist hfields]
  · rw [ht] at ht'
    cases ht'

theorem ValidEntry.selects_variant (hu : u.variant? n = some (.entity id))
    (h : ValidEntry g maxDepth (.union u) depth n v) :
    Valid g maxDepth (.entity id) (depth + 1) (.list (fieldList v)) ∧
      pickShape g (.union u) n (some v) =
        Shape.orNull <$> projectList g (.entity id) (fieldList v) := by
  obtain ⟨id', hu', hv⟩ := validEntry_variant_iff.1 h
  cases hu.symm.trans hu'
  have heq := hv.eq_list
  refine ⟨heq ▸ hv, ?_⟩
  rw [pickShape_variant hu, heq, projectNode]
  rfl

theorem selectedOf_ne_nil (hn : n ∈ pickedNames items) (hnone : (n, none) ∉ picks items) :
    selectedOf items n ≠ [] := by
  obtain ⟨o, ho⟩ := Entries.mem_keys.1 hn
  cases o with
  | none => exact absurd ho hnone
  | some v => exact List.ne_nil_of_mem (mem_selectedOf.2 ho)

/-- A name is picked, and every time a selection of one target with it. -/
structure Selects (g : Graph) (maxDepth depth : Nat) (items : List Value) (n : String)
    (target : Target) : Prop where
  never_alone : (n, none) ∉ picks items
  nonempty : selectedOf items n ≠ []
  valid : ∀ v ∈ selectedOf items n, Valid g maxDepth target depth (.list (fieldList v))

/-- What a name that is picked in a list of valid elements is. -/
inductive PickedAs (g : Graph) (maxDepth depth : Nat) (items : List Value) (n : String) :
    Entity → Prop
  | primitive {r : Record} {p : Primitive} :
      r.primitive? n = some p → r.field? n = none → PickedAs g maxDepth depth items n (.record r)
  | field {r : Record} {f : Field} {id : EntityId} :
      r.primitive? n = none → r.field? n = some f → (∀ declared, f.kind ≠ .calculation declared) →
      f.target = .entity id → Selects g maxDepth (depth + 1) items n (.entity id) →
      PickedAs g maxDepth depth items n (.record r)
  | value {r : Record} {f : Field} {declared : Option (List Argument)} {type : Scalar} :
      r.primitive? n = none → r.field? n = some f → f.kind = .calculation declared →
      f.target = .scalar type → (n, none) ∉ picks items → selectedOf items n ≠ [] →
      PickedAs g maxDepth depth items n (.record r)
  | call {r : Record} {f : Field} {declared : Option (List Argument)} {id : EntityId} :
      r.primitive? n = none → r.field? n = some f → f.kind = .calculation declared →
      f.target = .entity id → Selects g maxDepth (depth + 1) items n (.entity id) →
      PickedAs g maxDepth depth items n (.record r)
  | tagField {u : Union} :
      u.tagField = some n → u.variant? n = none → PickedAs g maxDepth depth items n (.union u)
  | scalar {u : Union} {type : Scalar} :
      u.tagField ≠ some n → u.variant? n = some (.scalar type) →
      PickedAs g maxDepth depth items n (.union u)
  | variant {u : Union} {id : EntityId} :
      u.tagField ≠ some n → u.variant? n = some (.entity id) →
      Selects g maxDepth (depth + 1) items n (.entity id) →
      PickedAs g maxDepth depth items n (.union u)

theorem pickedAs_record (hg : g.Closed) (hid : g.get? id = some (.record r))
    (hitems : ∀ item ∈ items, ValidElement g maxDepth (.record r) depth item)
    (hn : n ∈ pickedNames items) : PickedAs g maxDepth depth items n (.record r) := by
  cases hp : r.primitive? n with
  | some p => exact .primitive hp (hg.field?_eq_none hid hp)
  | none =>
    have hnone : (n, none) ∉ picks items := fun h =>
      Entries.get?_eq_none_iff.1 hp (validName_of_pick hitems h)
    have hne := selectedOf_ne_nil hn hnone
    obtain ⟨v, hv⟩ := List.exists_mem_of_ne_nil _ hne
    have hentry := validEntry_of_selected hitems hv
    obtain ⟨f, hf⟩ := hentry.exists_field?
    by_cases hk : ∃ declared, f.kind = .calculation declared
    · obtain ⟨declared, hk⟩ := hk
      by_cases ht : f.target.isEntity = true
      · obtain ⟨id', ht⟩ : ∃ id', f.target = .entity id' := by
          cases hft : f.target with
          | entity id' => exact ⟨id', rfl⟩
          | _ => simp [hft, Target.isEntity] at ht
        exact .call hp hf hk ht ⟨hnone, hne, fun v hv =>
          ((validEntry_of_selected hitems hv).selects_call hf hk ht).1⟩
      · obtain ⟨type, ht⟩ := hg.scalar_of_calculation hid hf hk (Bool.eq_false_iff.2 ht)
        exact .value hp hf hk ht hnone hne
    · have hk : ∀ declared, f.kind ≠ .calculation declared := fun d h => hk ⟨d, h⟩
      have hvalid := fun v hv => ((validEntry_of_selected hitems hv).selects_field hf hk (v := v)).1
      obtain ⟨e, he, -⟩ := (hvalid v hv).elements
      obtain ⟨id', ht, -⟩ := Graph.get?_of_follow? he
      exact .field hp hf hk ht ⟨hnone, hne, ht ▸ hvalid⟩

theorem pickedAs_union (hg : g.Closed) (hid : g.get? id = some (.union u))
    (hitems : ∀ item ∈ items, ValidElement g maxDepth (.union u) depth item)
    (hn : n ∈ pickedNames items) : PickedAs g maxDepth depth items n (.union u) := by
  by_cases ht : u.tagField = some n
  · exact .tagField ht (hg.variant?_eq_none hid ht)
  · by_cases hu : ∃ type, u.variant? n = some (.scalar type)
    · obtain ⟨type, hu⟩ := hu
      exact .scalar ht hu
    · have hnone : (n, none) ∉ picks items := by
        intro h
        rcases validName_of_pick hitems h with ht' | ⟨type, hm⟩
        · exact ht ht'
        · exact hu ⟨type, hg.variant?_of_mem hid hm⟩
      have hne := selectedOf_ne_nil hn hnone
      obtain ⟨v, hv⟩ := List.exists_mem_of_ne_nil _ hne
      obtain ⟨id', hu, -⟩ := validEntry_variant_iff.1 (validEntry_of_selected hitems hv)
      exact .variant ht hu ⟨hnone, hne, fun v hv =>
        ((validEntry_of_selected hitems hv).selects_variant hu).1⟩

theorem pickedAs (hg : g.Closed) (hid : g.get? id = some e)
    (hitems : ∀ item ∈ items, ValidElement g maxDepth e depth item) (hn : n ∈ pickedNames items) :
    PickedAs g maxDepth depth items n e := by
  cases e with
  | record r => exact pickedAs_record hg hid hitems hn
  | union u => exact pickedAs_union hg hid hitems hn

theorem Selects.gathered_ne_nil (h : Selects g maxDepth depth items n target) :
    gathered items n ≠ [] := by
  obtain ⟨v, hv⟩ := List.exists_mem_of_ne_nil _ h.nonempty
  obtain ⟨-, hne, -⟩ := valid_list_iff.1 (h.valid v hv)
  obtain ⟨item, hitem⟩ := List.exists_mem_of_ne_nil _ hne
  exact List.ne_nil_of_mem (List.mem_flatMap.2 ⟨v, hv, hitem⟩)

/-- What holds of a list of valid elements, once it holds of all that is selected of its names, holds
of every list of valid elements. -/
theorem elements_induction {P : Target → List Value → Prop}
    (step : ∀ {target : Target} {e : Entity} {depth : Nat} {items : List Value},
      g.follow? target = some e → (∀ item ∈ items, ValidElement g maxDepth e depth item) →
      (∀ n next, Selects g maxDepth (depth + 1) items n next → P next (gathered items n)) →
      P target items)
    (he : g.follow? target = some e)
    (hitems : ∀ item ∈ items, ValidElement g maxDepth e depth item) : P target items := by
  -- what is selected of a name is one level deeper, and valid selections end at the limit
  induction hleft : maxDepth - depth using Nat.strong_induction_on
    generalizing target e depth items with
  | _ left ih =>
    refine step he hitems fun n next hs => ?_
    obtain ⟨e', he', hitems'⟩ := elements_flatMap hs.nonempty hs.valid
    obtain ⟨v, hv⟩ := List.exists_mem_of_ne_nil _ hs.nonempty
    have hdepth := (valid_list_iff.1 (hs.valid v hv)).1
    exact ih (maxDepth - (depth + 1)) (by omega) he' hitems' rfl

end selects

/-! ## Gathering the picks of a name -/

section gather

/-- Where all have one shape, it is what is gathered. -/
theorem gather_const {α : Type} {as : List α} (hne : as ≠ []) {c : Shape}
    {f : α → Except ProjectionFault Shape} (hf : ∀ a ∈ as, f a = .ok c) {s : Shape} :
    (∃ shapes, as.mapM f = .ok shapes ∧ gather none shapes = .ok (some s)) ↔ s = c := by
  have hgather : ∀ ss : List Shape, (∀ a ∈ ss, a = c) → gather (some c) ss = .ok (some c) := by
    intro ss hss
    induction ss with
    | nil => exact gather_nil _
    | cons a ss ih =>
      obtain ⟨rfl, hss⟩ := List.forall_mem_cons.1 hss
      exact gather_some_cons_eq_ok_iff.2 ⟨a, merge_self a, ih hss⟩
  have hconst : ∀ shapes, as.mapM f = .ok shapes → gather none shapes = .ok (some c) := by
    intro shapes hshapes
    have hall := mapM_eq_ok_iff.1 hshapes
    have hss : ∀ a ∈ shapes, a = c := by
      intro a ha
      obtain ⟨b, hb, hba⟩ := exists_of_forall₂_right hall ha
      exact Except.ok.inj (hba.symm.trans (hf b hb))
    cases shapes with
    | nil => exact absurd (List.forall₂_nil_right_iff.1 hall) hne
    | cons a ss =>
      obtain ⟨rfl, hss⟩ := List.forall_mem_cons.1 hss
      exact hgather ss hss
  constructor
  · rintro ⟨shapes, hshapes, hs⟩
    rw [hconst shapes hshapes] at hs
    exact (Option.some.inj (Except.ok.inj hs)).symm
  · rintro rfl
    obtain ⟨shapes, hshapes⟩ := exists_mapM_eq_ok fun a ha => ⟨s, hf a ha⟩
    exact ⟨shapes, hshapes, hconst shapes hshapes⟩

theorem mergedAt_of_const {s t : Shape} (hn : n ∈ pickedNames items)
    (hs : ∀ o ∈ Entries.valuesOf (picks items) n, pickShape g e n o = .ok s) :
    MergedAt g e items n t ↔ t = s := by
  obtain ⟨o, ho⟩ := Entries.mem_keys.1 hn
  exact gather_const (List.ne_nil_of_mem (Entries.mem_valuesOf.2 ho)) hs

theorem mergedAt_iff_of_selected (hnone : (n, none) ∉ picks items) {t : Shape} :
    MergedAt g e items n t ↔
      ∃ shapes, (selectedOf items n).mapM (fun v => pickShape g e n (some v)) = .ok shapes ∧
        gather none shapes = .ok (some t) := by
  rw [MergedAt, valuesOf_picks hnone, List.mapM_map]
  rfl

/-- Wrapped projections of lists of fields are gathered by projecting the lists behind one
another. -/
theorem gather_projections (hg : g.Closed) {vs : List Value} (hne : vs ≠ [])
    (hvs : ∀ v ∈ vs, Valid g maxDepth target depth (.list (fieldList v)))
    {isArray isNullable : Bool} {t : Shape} :
    (∃ shapes, vs.mapM (fun v => (fun s => s.wrap isArray isNullable) <$>
          projectList g target (fieldList v)) = .ok shapes ∧ gather none shapes = .ok (some t)) ↔
      ∃ s, projectList g target (vs.flatMap fieldList) = .ok s ∧ t = s.wrap isArray isNullable := by
  obtain ⟨e, he, hitems⟩ := elements_flatMap hne hvs
  have hfits : ∀ v ∈ vs, ∀ s, projectList g target (fieldList v) = .ok s → Fits g target s := by
    intro v hv s hs
    have hsettles := (hvs v hv).settles hg
    rw [projectNode] at hsettles
    exact hsettles.of_ok hs
  have hmerge : ∀ {shapes : List Shape},
      vs.mapM (fun v => projectList g target (fieldList v)) = .ok shapes →
        (gather none (shapes.map fun s => s.wrap isArray isNullable) = .ok (some t) ↔
          ∃ s, mergePicks shapes = .ok s ∧ t = s.wrap isArray isNullable) := by
    intro shapes hshapes
    have hall := mapM_eq_ok_iff.1 hshapes
    refine gather_wrap_eq_ok_iff ?_ fun s hs => ?_
    · rintro rfl
      exact hne (List.forall₂_nil_right_iff.1 hall)
    · obtain ⟨v, hv, hvs⟩ := exists_of_forall₂_right hall hs
      have hs := hfits v hv s hvs
      obtain ⟨fs, rfl⟩ := hs.eq_record
      exact ⟨fs, rfl, hs.proper⟩
  simp only [projectList_flatMap hg he hitems, mapM_map_eq_ok_iff]
  constructor
  · rintro ⟨_, ⟨shapes, hshapes, rfl⟩, ht⟩
    obtain ⟨s, hs, rfl⟩ := (hmerge hshapes).1 ht
    exact ⟨s, ⟨shapes, hshapes, hs⟩, rfl⟩
  · rintro ⟨s, ⟨shapes, hshapes, hs⟩, rfl⟩
    exact ⟨_, ⟨shapes, hshapes, rfl⟩, (hmerge hshapes).2 ⟨s, hs, rfl⟩⟩

theorem mergedAt_wrap (hg : g.Closed) (hs : Selects g maxDepth depth items n target)
    {isArray isNullable : Bool}
    (hpick : ∀ v ∈ selectedOf items n, pickShape g e n (some v) =
      (fun s => s.wrap isArray isNullable) <$> projectList g target (fieldList v)) {t : Shape} :
    MergedAt g e items n t ↔ ∃ s, projectList g target (gathered items n) = .ok s ∧
      t = s.wrap isArray isNullable := by
  rw [mergedAt_iff_of_selected hs.never_alone, mapM_congr_of_mem hpick, gathered]
  exact gather_projections hg hs.nonempty hs.valid

/-- Calculations are gathered where all picks agree with the first one, whose arguments stay. -/
theorem mergedAt_calculation (hnone : (n, none) ∉ picks items) {arguments : Value → Value}
    {argumentShape : Option Shape} {result : Value → Except ProjectionFault Shape}
    (hpick : ∀ v ∈ selectedOf items n, pickShape g e n (some v) =
      (fun s => .calculation s (arguments v) argumentShape) <$> result v) {t : Shape} :
    MergedAt g e items n t ↔
      (∀ v ∈ selectedOf items n, ∀ w ∈ selectedOf items n, (arguments v).Equal (arguments w)) ∧
        ∃ v, (selectedOf items n).head? = some v ∧
          ∃ s, (∃ results, (selectedOf items n).mapM result = .ok results ∧
              gather none results = .ok (some s)) ∧
            t = .calculation s (arguments v) argumentShape := by
  rw [mergedAt_iff_of_selected hnone, mapM_congr_of_mem hpick]
  simp only [mapM_zipWith_eq_ok_iff]
  have hlength : ∀ {results}, (selectedOf items n).mapM result = .ok results →
      (selectedOf items n).length = results.length := fun h => (mapM_eq_ok_iff.1 h).length_eq
  constructor
  · rintro ⟨_, ⟨results, hresults, rfl⟩, ht⟩
    obtain ⟨hagree, v, hv, s, hs, rfl⟩ := (gather_calculations (hlength hresults)).1 ht
    exact ⟨hagree, v, hv, s, ⟨results, hresults, hs⟩, rfl⟩
  · rintro ⟨hagree, v, hv, s, ⟨results, hresults, hs⟩, rfl⟩
    exact ⟨_, ⟨results, hresults, rfl⟩,
      (gather_calculations (hlength hresults)).2 ⟨hagree, v, hv, s, hs, rfl⟩⟩

end gather

/-! ## The picks of a name taken together -/

section grouped

variable {f : Field} {id : EntityId} {t : Shape} {declared : Option (List Argument)}

theorem project_list (g : Graph) (id : EntityId) (items : List Value) :
    project g id (.list items) = projectList g (.entity id) items := by
  rw [project, projectNode]

theorem agreeingAt_of_field?_eq_none (hf : r.field? n = none) : AgreeingAt (.record r) items n := by
  rintro _ f declared ⟨⟩ hf'
  cases hf.symm.trans hf'

theorem agreeingAt_of_not_calculation (hf : r.field? n = some f)
    (hk : ∀ declared, f.kind ≠ .calculation declared) : AgreeingAt (.record r) items n := by
  rintro _ f' declared ⟨⟩ hf' hk'
  cases hf.symm.trans hf'
  exact absurd hk' (hk declared)

theorem agreeingAt_calculation_iff (hf : r.field? n = some f) (hk : f.kind = .calculation declared) :
    AgreeingAt (.record r) items n ↔ ∀ v ∈ selectedOf items n, ∀ w ∈ selectedOf items n,
      (selectedArguments declared v).Equal (selectedArguments declared w) := by
  constructor
  · intro h
    exact h r f declared rfl hf hk
  · rintro h _ f' declared' ⟨⟩ hf' hk'
    cases hf.symm.trans hf'
    cases hk.symm.trans hk'
    exact h

/-- A primitive field has its declared shape, however often it is picked. -/
theorem mergedAt_primitive (hg : g.Closed) (hid : g.get? id = some (.record r))
    (hitems : ∀ item ∈ items, ValidElement g maxDepth (.record r) depth item)
    (hn : n ∈ pickedNames items) {p : Primitive} (hp : r.primitive? n = some p) :
    MergedAt g (.record r) items n t ↔ t = p.shape := by
  refine mergedAt_of_const hn fun o ho => ?_
  cases o with
  | none => exact pickShape_primitive hp
  | some v =>
    have hv := validEntry_of_selected hitems (mem_selectedOf.2 (Entries.mem_valuesOf.1 ho))
    obtain ⟨f, hf⟩ := hv.exists_field?
    simp [hg.field?_eq_none hid hp] at hf

theorem mergedAt_field (hg : g.Closed)
    (hitems : ∀ item ∈ items, ValidElement g maxDepth (.record r) depth item)
    (hs : Selects g maxDepth (depth + 1) items n f.target) (hf : r.field? n = some f)
    (hk : ∀ declared, f.kind ≠ .calculation declared) :
    MergedAt g (.record r) items n t ↔
      ∃ s, projectList g f.target (gathered items n) = .ok s ∧ t = f.wrap s := by
  obtain ⟨isNullable, hw⟩ := exists_wrap f
  have hpick : ∀ v ∈ selectedOf items n, pickShape g (.record r) n (some v) =
      f.wrap <$> projectList g f.target (fieldList v) := fun v hv =>
    ((validEntry_of_selected hitems hv).selects_field hf hk).2
  rw [funext hw] at hpick
  simp only [hw]
  exact mergedAt_wrap hg hs hpick

theorem mergedAt_value
    (hnone : (n, none) ∉ picks items) (hne : selectedOf items n ≠ []) (hf : r.field? n = some f)
    (hk : f.kind = .calculation declared) {type : Scalar} (ht : f.target = .scalar type) :
    MergedAt g (.record r) items n t ↔ AgreeingAt (.record r) items n ∧
      ∃ v, (selectedOf items n).head? = some v ∧
        t = calculationShape f declared v (.scalar type) := by
  have hpick : ∀ v ∈ selectedOf items n, pickShape g (.record r) n (some v) =
      (fun s => .calculation s (selectedArguments declared v) (declared.map Arguments.shape)) <$>
        (.ok (f.wrap (.scalar type)) : Except ProjectionFault Shape) := fun v _ =>
    pickShape_value hf hk ht
  rw [mergedAt_calculation hnone hpick, agreeingAt_calculation_iff hf hk]
  simp only [gather_const hne fun _ _ => rfl, exists_eq_left]
  rfl

theorem mergedAt_call (hg : g.Closed)
    (hitems : ∀ item ∈ items, ValidElement g maxDepth (.record r) depth item)
    (hs : Selects g maxDepth (depth + 1) items n (.entity id)) (hf : r.field? n = some f)
    (hk : f.kind = .calculation declared) (ht : f.target = .entity id) :
    MergedAt g (.record r) items n t ↔ AgreeingAt (.record r) items n ∧
      ∃ v, (selectedOf items n).head? = some v ∧
        ∃ s, projectList g (.entity id) (gathered items n) = .ok s ∧
          t = calculationShape f declared v s := by
  obtain ⟨isNullable, hw⟩ := exists_wrap f
  have hpick : ∀ v ∈ selectedOf items n, pickShape g (.record r) n (some v) =
      (fun s => .calculation s (selectedArguments declared v) (declared.map Arguments.shape)) <$>
        (fun s => s.wrap f.isArray isNullable) <$> projectList g (.entity id) (fieldList v) := by
    intro v hv
    rw [((validEntry_of_selected hitems hv).selects_call hf hk ht).2, Functor.map_map]
    simp only [← hw]
    rfl
  rw [mergedAt_calculation hs.never_alone hpick, agreeingAt_calculation_iff hf hk]
  refine and_congr_right fun _ => exists_congr fun v => and_congr_right fun _ => ?_
  simp only [gather_projections hg hs.nonempty hs.valid]
  constructor
  · rintro ⟨_, ⟨s, hs, rfl⟩, rfl⟩
    exact ⟨s, hs, by rw [calculationShape, hw]⟩
  · rintro ⟨s, hs, rfl⟩
    exact ⟨_, ⟨s, hs, rfl⟩, by rw [calculationShape, hw]⟩

theorem mergedAt_tagField (hg : g.Closed) (hid : g.get? id = some (.union u))
    (hitems : ∀ item ∈ items, ValidElement g maxDepth (.union u) depth item)
    (hn : n ∈ pickedNames items) (ht : u.tagField = some n) :
    MergedAt g (.union u) items n t ↔ t = .literal u.tags := by
  refine mergedAt_of_const hn fun o ho => ?_
  cases o with
  | none => exact pickShape_tagField ht
  | some v =>
    have hv := validEntry_of_selected hitems (mem_selectedOf.2 (Entries.mem_valuesOf.1 ho))
    obtain ⟨id', hu, -⟩ := validEntry_variant_iff.1 hv
    simp [hg.variant?_eq_none hid ht] at hu

theorem mergedAt_scalar (hg : g.Closed) (hid : g.get? id = some (.union u))
    (hitems : ∀ item ∈ items, ValidElement g maxDepth (.union u) depth item)
    (hn : n ∈ pickedNames items) {type : Scalar} (hu : u.variant? n = some (.scalar type)) :
    MergedAt g (.union u) items n t ↔ t = .nullable (.scalar type) := by
  refine mergedAt_of_const hn fun o ho => ?_
  cases o with
  | none => exact pickShape_scalar (fun ht => by simp [hg.variant?_eq_none hid ht] at hu) hu
  | some v =>
    have hv := validEntry_of_selected hitems (mem_selectedOf.2 (Entries.mem_valuesOf.1 ho))
    obtain ⟨id', hu', -⟩ := validEntry_variant_iff.1 hv
    cases hu.symm.trans hu'

theorem mergedAt_variant (hg : g.Closed)
    (hitems : ∀ item ∈ items, ValidElement g maxDepth (.union u) depth item)
    (hs : Selects g maxDepth (depth + 1) items n (.entity id))
    (hu : u.variant? n = some (.entity id)) :
    MergedAt g (.union u) items n t ↔
      ∃ s, projectList g (.entity id) (gathered items n) = .ok s ∧ t = .nullable s := by
  obtain ⟨e, he, helements⟩ := elements_flatMap hs.nonempty hs.valid
  have hnull : ∀ s, projectList g (.entity id) (gathered items n) = .ok s →
      s.wrap false true = .nullable s := by
    intro s hs
    obtain ⟨fields, rfl, -⟩ := (projectList_eq_ok_iff_mergedAt hg he helements).1 hs
    rfl
  have hpick : ∀ v ∈ selectedOf items n, pickShape g (.union u) n (some v) =
      (fun s => s.wrap false true) <$> projectList g (.entity id) (fieldList v) := fun v hv =>
    ((validEntry_of_selected hitems hv).selects_variant hu).2
  refine (mergedAt_wrap hg hs hpick).trans ?_
  exact exists_congr fun s => and_congr_right fun hs => by rw [hnull s hs]

/-! ## The reference by what an entity declares -/

theorem grouped_primitive_iff (hf : r.field? n = none) {p : Primitive}
    (hp : r.primitive? n = some p) : Grouped g items (.record r) n t ↔ t = p.shape := by
  constructor
  · rintro (hp' | ⟨hf', -⟩ | ⟨hf', -⟩ | ⟨hf', -⟩ | ⟨hf', -⟩)
    · cases hp.symm.trans hp'
      rfl
    all_goals cases hf.symm.trans hf'
  · rintro rfl
    exact .primitive hp

theorem grouped_field_iff (hp : r.primitive? n = none) (hf : r.field? n = some f)
    (hk : ∀ declared, f.kind ≠ .calculation declared) (ht : f.target = .entity id) :
    Grouped g items (.record r) n t ↔
      ∃ s, projectList g f.target (gathered items n) = .ok s ∧ t = f.wrap s := by
  simp only [ht, ← project_list]
  constructor
  · rintro (hp' | ⟨hf', hk', ht', hs⟩ | ⟨hf', hk', ht', hs⟩ | ⟨hf', hk', -⟩ | ⟨hf', hk', -⟩)
    · cases hp.symm.trans hp'
    all_goals cases hf.symm.trans hf'
    · cases ht.symm.trans ht'
      exact ⟨_, hs, by rw [Field.wrap, hk']⟩
    · cases ht.symm.trans ht'
      refine ⟨_, hs, ?_⟩
      rcases hk' with hk' | hk' <;> rw [Field.wrap, hk']
    all_goals exact absurd hk' (hk _)
  · rintro ⟨s, hs, rfl⟩
    cases hkind : f.kind with
    | relationship =>
      rw [Field.wrap, hkind]
      exact .relationship hf hkind ht hs
    | calculation declared => exact absurd hkind (hk declared)
    | map =>
      rw [Field.wrap, hkind]
      exact .nested hf (.inl hkind) ht hs
    | union =>
      rw [Field.wrap, hkind]
      exact .nested hf (.inr hkind) ht hs

theorem calculationShape_eq (hk : f.kind = .calculation declared) (v : Value) (s : Shape) :
    calculationShape f declared v s = .calculation (s.wrap f.isArray f.isNullable)
      (selectedArguments declared v) (declared.map Arguments.shape) := by
  rw [calculationShape, Field.wrap, hk]

theorem grouped_value_iff (hp : r.primitive? n = none) (hf : r.field? n = some f)
    (hk : f.kind = .calculation declared) {type : Scalar} (ht : f.target = .scalar type) :
    Grouped g items (.record r) n t ↔ ∃ v, (selectedOf items n).head? = some v ∧
      t = calculationShape f declared v (.scalar type) := by
  simp only [calculationShape_eq hk]
  constructor
  · rintro (hp' | ⟨hf', hk', -⟩ | ⟨hf', hk', -⟩ | ⟨hf', hk', ht', hv⟩ | ⟨hf', hk', ht', -⟩)
    · cases hp.symm.trans hp'
    all_goals cases hf.symm.trans hf'
    · cases hk.symm.trans hk'
    · rcases hk' with hk' | hk' <;> cases hk.symm.trans hk'
    · cases hk.symm.trans hk'
      cases ht.symm.trans ht'
      exact ⟨_, hv, rfl⟩
    · cases ht.symm.trans ht'
  · rintro ⟨v, hv, rfl⟩
    exact .value hf hk ht hv

theorem grouped_call_iff (hp : r.primitive? n = none) (hf : r.field? n = some f)
    (hk : f.kind = .calculation declared) (ht : f.target = .entity id) :
    Grouped g items (.record r) n t ↔ ∃ v, (selectedOf items n).head? = some v ∧
      ∃ s, projectList g (.entity id) (gathered items n) = .ok s ∧
        t = calculationShape f declared v s := by
  simp only [calculationShape_eq hk, ← project_list]
  constructor
  · rintro (hp' | ⟨hf', hk', -⟩ | ⟨hf', hk', -⟩ | ⟨hf', hk', ht', -⟩ | ⟨hf', hk', ht', hv, hs⟩)
    · cases hp.symm.trans hp'
    all_goals cases hf.symm.trans hf'
    · cases hk.symm.trans hk'
    · rcases hk' with hk' | hk' <;> cases hk.symm.trans hk'
    · cases ht.symm.trans ht'
    · cases hk.symm.trans hk'
      cases ht.symm.trans ht'
      exact ⟨_, hv, _, hs, rfl⟩
  · rintro ⟨v, hv, s, hs, rfl⟩
    exact .call hf hk ht hv hs

theorem grouped_tagField_iff (hu : u.variant? n = none) (ht : u.tagField = some n) :
    Grouped g items (.union u) n t ↔ t = .literal u.tags := by
  constructor
  · rintro (_ | _ | _ | _ | _ | - | hu' | ⟨hu', -⟩)
    · rfl
    all_goals cases hu.symm.trans hu'
  · rintro rfl
    exact .tagField ht

theorem grouped_scalar_iff (ht : u.tagField ≠ some n) {type : Scalar}
    (hu : u.variant? n = some (.scalar type)) :
    Grouped g items (.union u) n t ↔ t = .nullable (.scalar type) := by
  constructor
  · rintro (_ | _ | _ | _ | _ | ht' | hu' | ⟨hu', -⟩)
    · exact absurd ht' ht
    all_goals cases hu.symm.trans hu'
    rfl
  · rintro rfl
    exact .scalar hu

theorem grouped_variant_iff (ht : u.tagField ≠ some n) (hu : u.variant? n = some (.entity id)) :
    Grouped g items (.union u) n t ↔
      ∃ s, projectList g (.entity id) (gathered items n) = .ok s ∧ t = .nullable s := by
  simp only [← project_list]
  constructor
  · rintro (_ | _ | _ | _ | _ | ht' | hu' | ⟨hu', hs⟩)
    · exact absurd ht' ht
    all_goals cases hu.symm.trans hu'
    exact ⟨_, hs, rfl⟩
  · rintro ⟨s, hs, rfl⟩
    exact .variant hu hs

/-! ## The two projections agree -/

/-- Merging the picks of a name gives what the picks taken together have, where those of a
calculation agree. -/
theorem mergedAt_iff_grouped (hg : g.Closed) (hid : g.get? id = some e)
    (hitems : ∀ item ∈ items, ValidElement g maxDepth e depth item) (hn : n ∈ pickedNames items) :
    MergedAt g e items n t ↔ AgreeingAt e items n ∧ Grouped g items e n t := by
  cases pickedAs hg hid hitems hn with
  | primitive hp hf =>
    rw [mergedAt_primitive hg hid hitems hn hp, grouped_primitive_iff hf hp]
    exact (and_iff_right (agreeingAt_of_field?_eq_none hf)).symm
  | field hp hf hk ht hs =>
    rw [mergedAt_field hg hitems (ht ▸ hs) hf hk, grouped_field_iff hp hf hk ht]
    exact (and_iff_right (agreeingAt_of_not_calculation hf hk)).symm
  | value hp hf hk ht hnone hne =>
    rw [mergedAt_value hnone hne hf hk ht, grouped_value_iff hp hf hk ht]
  | call hp hf hk ht hs =>
    rw [mergedAt_call hg hitems hs hf hk ht, grouped_call_iff hp hf hk ht]
  | tagField ht hu =>
    rw [mergedAt_tagField hg hid hitems hn ht, grouped_tagField_iff hu ht]
    exact (and_iff_right (agreeing_union _ items n)).symm
  | scalar ht hu =>
    rw [mergedAt_scalar hg hid hitems hn hu, grouped_scalar_iff ht hu]
    exact (and_iff_right (agreeing_union _ items n)).symm
  | variant ht hu hs =>
    rw [mergedAt_variant hg hitems hs hu, grouped_variant_iff ht hu]
    exact (and_iff_right (agreeing_union _ items n)).symm

end grouped

/-- A list of valid elements has a shape exactly when the picks of each calculation agree and every
name that is picked has one; the names stand in the order of their first picks. -/
theorem projectList_eq_ok_iff_grouped (hg : g.Closed) (he : g.follow? target = some e)
    (hitems : ∀ item ∈ items, ValidElement g maxDepth e depth item) {s : Shape} :
    projectList g target items = .ok s ↔ Agreeing e items ∧
      ∃ fields, s = .record fields ∧ Entries.keys fields = (pickedNames items).eraseDups ∧
        ∀ n t, (n, t) ∈ fields → Grouped g items e n t := by
  obtain ⟨id, -, hid⟩ := Graph.get?_of_follow? he
  have hpicked : ∀ {fields : List (String × Shape)} {n t},
      Entries.keys fields = (pickedNames items).eraseDups → (n, t) ∈ fields →
        n ∈ pickedNames items := by
    intro fields n t hkeys hm
    rw [← List.mem_eraseDups, ← hkeys]
    exact Entries.mem_keys.2 ⟨t, hm⟩
  rw [projectList_eq_ok_iff_mergedAt hg he hitems]
  constructor
  · rintro ⟨fields, rfl, hkeys, hmerged⟩
    have hgrouped := fun n t (hm : (n, t) ∈ fields) =>
      (mergedAt_iff_grouped hg hid hitems (hpicked hkeys hm)).1 (hmerged n t hm)
    refine ⟨fun n r f declared hr hf hk v hv => ?_, fields, rfl, hkeys,
      fun n t hm => (hgrouped n t hm).2⟩
    have hn : n ∈ Entries.keys fields := by
      rw [hkeys, List.mem_eraseDups]
      exact Entries.mem_keys.2 ⟨some v, mem_selectedOf.1 hv⟩
    obtain ⟨t, hm⟩ := Entries.mem_keys.1 hn
    exact (hgrouped n t hm).1 r f declared hr hf hk v hv
  · rintro ⟨hagree, fields, rfl, hkeys, hgrouped⟩
    exact ⟨fields, rfl, hkeys, fun n t hm =>
      (mergedAt_iff_grouped hg hid hitems (hpicked hkeys hm)).2 ⟨hagree n, hgrouped n t hm⟩⟩

end Shapewise.Selection
