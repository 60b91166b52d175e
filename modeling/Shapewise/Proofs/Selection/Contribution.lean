import Shapewise.Proofs.Selection.Fits
import Shapewise.Proofs.Selection.Valid

/-!
# What picks contribute

A projection taken apart into its picks. Each pick contributes one field, its name with the shape of
what is selected there; a valid selection is projected by merging the contributions of its picks
from left to right (`projectList_eq_ok_iff`), whether the picks stand in one object or in several
elements. Where that fails it does so because arguments are at odds (`Valid.settles`).
-/

namespace Shapewise.Selection

open Outcome Shape

/-! ## Contributions -/

/-- The shape of a complex field under what is selected of it. -/
def fieldShape (g : Graph) (f : Field) (v : Value) : Except ProjectionFault Shape :=
  match f.kind with
  | .calculation declared => do
    let result ← match f.target with
      | .scalar type => .ok (.scalar type)
      | target => projectResult g target v
    return calculationShape f declared v result
  | _ => f.wrap <$> projectNode g f.target v

/-- The shape under a name that is picked. -/
def pickShape (g : Graph) : Entity → String → Option Value → Except ProjectionFault Shape
  | .record r, name, none =>
    match r.primitive? name with
    | some p => .ok p.shape
    | none => .error (.missing name)
  | .record r, name, some v => do fieldShape g (← pickedField r name) v
  | .union u, tag, none =>
    if u.tagField = some tag then .ok (.literal u.tags)
    else
      match u.variant? tag with
      | some (.scalar type) => .ok (Shape.scalar type).orNull
      | some _ => .error .illFormed
      | none => .error (.missing tag)
  | .union u, tag, some v => do return (← projectNode g (← pickedVariant u tag) v).orNull

/-- The fields that picks contribute, one each. -/
def contributions (g : Graph) (e : Entity) (ps : List (String × Option Value)) :
    Except ProjectionFault (List (String × Shape)) :=
  ps.mapM fun p => (p.1, ·) <$> pickShape g e p.1 p.2

variable {g : Graph} {e : Entity} {r : Record} {u : Union} {target : Target}

theorem contributions_nil : contributions g e [] = .ok [] := rfl

theorem contributions_cons (p : String × Option Value) (ps : List (String × Option Value)) :
    contributions g e (p :: ps) =
      pickShape g e p.1 p.2 >>= fun s => ((p.1, s) :: ·) <$> contributions g e ps := by
  rw [contributions, List.mapM_cons, bind_map_left]
  rfl

theorem contributions_eq_ok_iff {ps : List (String × Option Value)} {cs : List (String × Shape)} :
    contributions g e ps = .ok cs ↔
      List.Forall₂ (fun p c => p.1 = c.1 ∧ pickShape g e p.1 p.2 = .ok c.2) ps cs := by
  rw [contributions, mapM_eq_ok_iff]
  refine iff_of_eq (congrArg (List.Forall₂ · ps cs) ?_)
  funext p c
  rw [map_eq_ok_iff, eq_iff_iff]
  constructor
  · rintro ⟨s, hs, rfl⟩
    exact ⟨rfl, hs⟩
  · rintro ⟨hk, hs⟩
    exact ⟨c.2, hs, Prod.ext hk rfl⟩

theorem contributions_append_eq_ok_iff {ps qs : List (String × Option Value)}
    {cs : List (String × Shape)} :
    contributions g e (ps ++ qs) = .ok cs ↔
      ∃ as bs, contributions g e ps = .ok as ∧ contributions g e qs = .ok bs ∧ as ++ bs = cs := by
  rw [contributions, List.mapM_append]
  simp only [bind_eq_ok_iff, pure_eq_ok_iff]
  constructor
  · rintro ⟨as, ha, bs, hb, rfl⟩
    exact ⟨as, bs, ha, hb, rfl⟩
  · rintro ⟨as, bs, ha, hb, rfl⟩
    exact ⟨as, ha, bs, hb, rfl⟩

theorem contributions_flatMap_eq_ok_iff {α : Type} {h : α → List (String × Option Value)}
    {as : List α} {cs : List (String × Shape)} :
    contributions g e (as.flatMap h) = .ok cs ↔
      ∃ css, as.mapM (fun a => contributions g e (h a)) = .ok css ∧ css.flatten = cs := by
  simp only [mapM_eq_ok_iff]
  induction as generalizing cs with
  | nil => simp [contributions_nil]
  | cons a as ih =>
    rw [List.flatMap_cons, contributions_append_eq_ok_iff]
    constructor
    · rintro ⟨bs, ds, hb, hd, rfl⟩
      obtain ⟨css, hcss, rfl⟩ := ih.1 hd
      exact ⟨bs :: css, .cons hb hcss, rfl⟩
    · rintro ⟨_, _ | ⟨hb, hcss⟩, rfl⟩
      exact ⟨_, _, hb, ih.2 ⟨_, hcss, rfl⟩, rfl⟩

/-! ## The projection by its picks -/

theorem projectPicks_eq (entries : List (String × Value)) :
    projectPicks g r entries =
      (List.map fun c => .record [c]) <$> contributions g (.record r) (elementPicks (.obj entries)) := by
  induction entries with
  | nil => rfl
  | cons entry entries ih =>
    obtain ⟨k, v⟩ := entry
    rw [elementPicks_obj_cons, contributions_cons, projectPicks, ih, pickShape]
    simp only [bind_assoc, map_bind, bind_map_left, Functor.map_map]
    refine bind_congr fun f => ?_
    rw [fieldShape.eq_def]
    cases f.kind with
    | calculation declared =>
      cases f.target <;> simp only [bind_assoc, pure_bind, map_eq_pure_bind, List.map_cons]
    | _ => simp only [bind_assoc, pure_bind, map_eq_pure_bind, List.map_cons]

theorem projectItem_obj (entries : List (String × Value)) :
    projectItem g r (.obj entries) =
      contributions g (.record r) (elementPicks (.obj entries)) >>= fun cs =>
        mergePicks (cs.map fun c => .record [c]) := by
  rw [projectItem, projectPicks_eq, bind_map_left]

theorem projectItem_str (name : String) :
    projectItem g r (.str name) =
      (fun s => .record [(name, s)]) <$> pickShape g (.record r) name none := by
  rw [projectItem, projectPrimitive, pickShape]
  cases r.primitive? name <;> rfl

theorem projectVariantPicks_eq (entries : List (String × Value)) :
    projectVariantPicks g u entries = contributions g (.union u) (elementPicks (.obj entries)) := by
  induction entries with
  | nil => rfl
  | cons entry entries ih =>
    obtain ⟨k, v⟩ := entry
    rw [elementPicks_obj_cons, contributions_cons, projectVariantPicks, ih, pickShape]
    simp only [bind_assoc, pure_bind, map_eq_pure_bind]

theorem projectVariant_eq {item : Value}
    (hform : (∃ name, item = .str name) ∨ ∃ entries, item = .obj entries) :
    projectVariant g u item = record <$> contributions g (.union u) (elementPicks item) := by
  rcases hform with ⟨name, rfl⟩ | ⟨entries, rfl⟩
  · rw [projectVariant, projectTag, elementPicks, contributions_cons, pickShape, contributions_nil]
    split
    · rfl
    · rcases u.variant? name with _ | (_ | type | id) <;> rfl
  · rw [projectVariant, projectVariantPicks_eq]
    rfl

theorem projectItems_eq (items : List Value) :
    projectItems g r items = items.mapM (projectItem g r) := by
  induction items with
  | nil => rfl
  | cons item items ih => rw [projectItems, ih, List.mapM_cons]

theorem projectVariants_eq (items : List Value) :
    projectVariants g u items = items.mapM (projectVariant g u) := by
  induction items with
  | nil => rfl
  | cons item items ih => rw [projectVariants, ih, List.mapM_cons]

theorem projectList_union (he : g.follow? target = some (.union u)) (items : List Value) :
    projectList g target items = items.mapM (projectVariant g u) >>= mergePicks := by
  cases items with
  | nil => rw [projectList, he]; rfl
  | cons item items =>
    simp only [projectList, he, List.mapM_cons, projectVariants_eq, bind_assoc, pure_bind]

theorem projectList_record (he : g.follow? target = some (.record r)) {items : List Value}
    (hf : isFlat r items = false) :
    projectList g target items = items.mapM (projectItem g r) >>= mergePicks := by
  cases items with
  | nil => simp [isFlat] at hf
  | cons item items =>
    simp only [projectList, he, hf, List.mapM_cons, projectItems_eq, bind_assoc, pure_bind,
      Bool.false_eq_true, if_false]

theorem projectList_flat (he : g.follow? target = some (.record r)) {items : List Value}
    (hf : isFlat r items = true) : projectList g target items = projectPrimitives r items := by
  cases items with
  | nil => rw [projectList, he]; rfl
  | cons item items => simp only [projectList, he, hf, if_true]

/-! ## Merging contributions -/

/-- The record of fields that are merged from left to right. -/
def merged (cs : List (String × Shape)) : Except ProjectionFault Shape :=
  record <$> (mergeFields [] cs).mapError .conflict

theorem merged_eq_ok_iff {cs : List (String × Shape)} {s : Shape} :
    merged cs = .ok s ↔ ∃ fields, mergeFields [] cs = .ok fields ∧ record fields = s := by
  simp only [merged, map_eq_ok_iff, mapError_eq_ok_iff]

theorem exists_records {P : List (String × Shape) → Prop} {shapes : List Shape}
    (h : ∀ s ∈ shapes, ∃ cs, s = .record cs ∧ P cs) :
    ∃ css : List (List (String × Shape)), css.map record = shapes ∧ ∀ cs ∈ css, P cs := by
  refine ⟨shapes.map Shape.fields, ?_, fun cs hcs => ?_⟩
  · have hself : ∀ s ∈ shapes, (record ∘ Shape.fields) s = id s := by
      intro s hs
      obtain ⟨cs, rfl, -⟩ := h s hs
      rfl
    rw [List.map_map, List.map_congr_left hself, List.map_id]
  · obtain ⟨s, hs, rfl⟩ := List.mem_map.1 hcs
    obtain ⟨ds, rfl, hds⟩ := h s hs
    exact hds

theorem mergePicks_records {css : List (List (String × Shape))}
    (hc : ∀ cs ∈ css, ∀ c ∈ cs, Proper c.2) : mergePicks (css.map record) = merged css.flatten := by
  rw [mergePicks, mergeAll_records hc, merged]
  cases mergeFields [] css.flatten <;> rfl

theorem mergePicks_singles {cs : List (String × Shape)} (hc : ∀ c ∈ cs, Proper c.2) :
    mergePicks (cs.map fun c => .record [c]) = merged cs := by
  have hsingle : (cs.map fun c => Shape.record [c]) = (cs.map fun c => [c]).map record := by
    rw [List.map_map]
    rfl
  have hflat : (cs.map fun c => [c]).flatten = cs := by
    rw [← List.flatMap_def, List.flatMap_singleton']
  rw [hsingle, mergePicks_records, hflat]
  intro ds hds c hcd
  obtain ⟨c', hc', rfl⟩ := List.mem_map.1 hds
  rw [List.mem_singleton.1 hcd]
  exact hc c' hc'

theorem merged_contributions_flatMap {α : Type} {h : α → List (String × Option Value)}
    {as : List α} {s : Shape} :
    (∃ cs, contributions g e (as.flatMap h) = .ok cs ∧ merged cs = .ok s) ↔
      ∃ css, as.mapM (fun a => contributions g e (h a)) = .ok css ∧ merged css.flatten = .ok s := by
  simp only [contributions_flatMap_eq_ok_iff]
  constructor
  · rintro ⟨_, ⟨css, hcss, rfl⟩, hs⟩
    exact ⟨css, hcss, hs⟩
  · rintro ⟨css, hcss, hs⟩
    exact ⟨_, ⟨css, hcss, rfl⟩, hs⟩

/-- Groups of fields may each be merged before they are merged with one another. -/
theorem merged_flatten {css : List (List (String × Shape))}
    (hc : ∀ cs ∈ css, ∀ c ∈ cs, Proper c.2) {s : Shape} :
    merged css.flatten = .ok s ↔
      ∃ shapes, css.mapM merged = .ok shapes ∧ mergePicks shapes = .ok s := by
  have hmapM : ∀ {shapes : List Shape}, css.mapM merged = .ok shapes ↔
      ∃ bss, List.Forall₂ (fun cs bs => mergeFields [] cs = .ok bs) css bss ∧
        bss.map record = shapes := by
    intro shapes
    show css.mapM (fun cs => record <$> (mergeFields [] cs).mapError _) = _ ↔ _
    rw [mapM_map_eq_ok_iff]
    simp only [mapM_eq_ok_iff, mapError_eq_ok_iff]
  have hpicks : ∀ {bss : List (List (String × Shape))},
      List.Forall₂ (fun cs bs => mergeFields [] cs = .ok bs) css bss →
        mergePicks (bss.map record) = merged bss.flatten := by
    intro bss hbss
    refine mergePicks_records fun bs hbs => ?_
    obtain ⟨cs, hcs, hm⟩ := exists_of_forall₂_right hbss hbs
    exact proper_of_mergeFields (by simp) (hc cs hcs) hm
  rw [merged_eq_ok_iff]
  constructor
  · rintro ⟨fields, hfields, rfl⟩
    obtain ⟨bss, hbss, hfields⟩ := (mergeFields_flatten Entries.distinct_nil (by simp) hc).1 hfields
    refine ⟨_, hmapM.2 ⟨bss, hbss, rfl⟩, ?_⟩
    rw [hpicks hbss, merged_eq_ok_iff]
    exact ⟨fields, hfields, rfl⟩
  · rintro ⟨shapes, hshapes, hs⟩
    obtain ⟨bss, hbss, rfl⟩ := hmapM.1 hshapes
    rw [hpicks hbss, merged_eq_ok_iff] at hs
    obtain ⟨fields, hfields, rfl⟩ := hs
    exact ⟨fields, (mergeFields_flatten Entries.distinct_nil (by simp) hc).2 ⟨bss, hbss, hfields⟩,
      rfl⟩

/-- Merging groups of fields and then their records is merging all the fields. -/
theorem exists_merged_flatten_iff {X : List (List (String × Shape)) → Prop}
    (hp : ∀ css, X css → ∀ cs ∈ css, ∀ c ∈ cs, Proper c.2) {s : Shape} :
    (∃ shapes, (∃ css, X css ∧ css.mapM merged = .ok shapes) ∧ mergePicks shapes = .ok s) ↔
      ∃ css, X css ∧ merged css.flatten = .ok s := by
  constructor
  · rintro ⟨shapes, ⟨css, hcss, hshapes⟩, hs⟩
    exact ⟨css, hcss, (merged_flatten (hp css hcss)).2 ⟨shapes, hshapes, hs⟩⟩
  · rintro ⟨css, hcss, hs⟩
    obtain ⟨shapes, hshapes, hs⟩ := (merged_flatten (hp css hcss)).1 hs
    exact ⟨shapes, ⟨css, hcss, hshapes⟩, hs⟩

/-- Wrapped records are gathered by merging the records. -/
theorem gather_wrap_eq_ok_iff {shapes : List Shape} (hne : shapes ≠ [])
    (hs : ∀ s ∈ shapes, ∃ fs, s = .record fs ∧ Proper (.record fs)) {isArray isNullable : Bool}
    {t : Shape} :
    gather none (shapes.map fun s => s.wrap isArray isNullable) = .ok (some t) ↔
      ∃ s, mergePicks shapes = .ok s ∧ t = s.wrap isArray isNullable := by
  obtain ⟨css, rfl, hcss⟩ := exists_records hs
  have hproper : ∀ cs ∈ css, ∀ c ∈ cs, Proper c.2 := fun cs hcs =>
    (proper_record_iff.1 (hcss cs hcs)).2
  rw [mergePicks_records hproper]
  cases css with
  | nil => exact absurd rfl hne
  | cons cs css =>
    obtain ⟨hcs, -⟩ := List.forall_mem_cons.1 hcss
    obtain ⟨-, hrest⟩ := List.forall_mem_cons.1 hproper
    have hflat : mergeFields [] (cs :: css).flatten = mergeFields cs css.flatten := by
      rw [List.flatten_cons, mergeFields_append, mergeFields_nil_left (proper_record_iff.1 hcs).1]
      rfl
    rw [List.map_cons, List.map_cons, gather_none_cons, List.map_map]
    refine (gather_wrap hcs hrest).trans ?_
    simp only [merged_eq_ok_iff, hflat]
    constructor
    · rintro ⟨ms, hms, rfl⟩
      exact ⟨_, ⟨ms, hms, rfl⟩, rfl⟩
    · rintro ⟨_, ⟨ms, hms, rfl⟩, rfl⟩
      exact ⟨ms, hms, rfl⟩

/-! ## Valid elements -/

section elements

variable {maxDepth depth : Nat} {item : Value} {items : List Value}

theorem ValidElement.form (h : ValidElement g maxDepth e depth item) :
    (∃ name, item = .str name) ∨ ∃ entries, item = .obj entries := by
  cases h with
  | name _ => exact .inl ⟨_, rfl⟩
  | object _ _ => exact .inr ⟨_, rfl⟩

theorem ValidEntry.exists_field? {k : String} {v : Value}
    (h : ValidEntry g maxDepth (.record r) depth k v) : ∃ f, r.field? k = some f := by
  rcases h with ⟨hf, -, -⟩ | ⟨hf, -⟩ | ⟨hf, -⟩ | ⟨hf, -⟩
  all_goals exact ⟨_, hf⟩

theorem exists_str_of_isFlat (hf : isFlat r items = true)
    (h : ∀ item ∈ items, ValidElement g maxDepth (.record r) depth item) :
    ∀ item ∈ items, ∃ name, item = .str name := by
  intro item hm
  rcases (h item hm).form with hstr | ⟨entries, rfl⟩
  · exact hstr
  · obtain ⟨hne, hentries⟩ := validElement_obj_iff.1 (h _ hm)
    obtain ⟨⟨k, v⟩, hk⟩ := List.exists_mem_of_ne_nil _ hne
    obtain ⟨f, hfield⟩ := (hentries k v hk).exists_field?
    rw [isFlat, Bool.or_eq_true, List.isEmpty_iff, List.all_eq_true] at hf
    rcases hf with hf | hf
    · rw [Record.field?, hf] at hfield
      cases hfield
    · cases hf _ hm

/-- What names alone contribute is what is picked by each of them. -/
theorem pickShape_of_contributions (h : ∀ item ∈ items, ∃ name, item = .str name)
    {cs : List (String × Shape)} (hcs : contributions g e (picks items) = .ok cs) :
    ∀ c ∈ cs, pickShape g e c.1 none = .ok c.2 := by
  intro c hc
  obtain ⟨p, hp, hk, hs⟩ := exists_of_forall₂_right (contributions_eq_ok_iff.1 hcs) hc
  obtain ⟨item, hm, hp⟩ := mem_picks.1 hp
  obtain ⟨name, rfl⟩ := h item hm
  obtain rfl : p = (name, none) := List.mem_singleton.1 hp
  rwa [← hk]

theorem projectPrimitives_eq (h : ∀ item ∈ items, ∃ name, item = .str name) :
    projectPrimitives r items = contributions g (.record r) (picks items) >>= merged := by
  have hmap : items.mapM (projectPrimitive r) = contributions g (.record r) (picks items) := by
    induction items with
    | nil => rfl
    | cons item items ih =>
      obtain ⟨⟨name, rfl⟩, hitems⟩ := List.forall_mem_cons.1 h
      rw [List.mapM_cons, ih hitems, picks_cons, elementPicks, List.singleton_append,
        contributions_cons, projectPrimitive, pickShape]
      cases r.primitive? name <;> rfl
  rw [projectPrimitives, hmap]
  refine bind_congr_of_ok fun cs hcs => ?_
  have hshape := pickShape_of_contributions h hcs
  -- the code only puts these fields: all picks of a name alone contribute one shape
  rw [merged, mergeFields_of_consistent]
  · rfl
  · intro k s t hs ht
    exact Except.ok.inj ((hshape _ hs).symm.trans (hshape _ ht))

/-! ## A list of fields by its picks -/

theorem projectItem_eq (hform : (∃ name, item = .str name) ∨ ∃ entries, item = .obj entries)
    (hp : ∀ cs, contributions g (.record r) (elementPicks item) = .ok cs → ∀ c ∈ cs, Proper c.2) :
    projectItem g r item = contributions g (.record r) (elementPicks item) >>= merged := by
  rcases hform with ⟨name, rfl⟩ | ⟨entries, rfl⟩
  · rw [projectItem_str, elementPicks, contributions_cons, contributions_nil]
    cases pickShape g (.record r) name none with
    | error f => rfl
    | ok s =>
      show _ = merged [(name, s)]
      rw [merged, mergeFields_cons_of_none (Entries.get?_nil name), mergeFields]
      rfl
  · rw [projectItem_obj]
    exact bind_congr_of_ok fun cs hcs => mergePicks_singles (hp cs hcs)

/-- A list of valid elements is projected by merging what its picks contribute. -/
theorem projectList_eq_ok_iff_of_proper (he : g.follow? target = some e)
    (hitems : ∀ item ∈ items, ValidElement g maxDepth e depth item)
    (hp : ∀ item ∈ items, ∀ cs, contributions g e (elementPicks item) = .ok cs →
      ∀ c ∈ cs, Proper c.2) {s : Shape} :
    projectList g target items = .ok s ↔
      ∃ cs, contributions g e (picks items) = .ok cs ∧ merged cs = .ok s := by
  have hproper : ∀ {css : List (List (String × Shape))},
      items.mapM (fun item => contributions g e (elementPicks item)) = .ok css →
        ∀ cs ∈ css, ∀ c ∈ cs, Proper c.2 := by
    intro css hcss cs hcs
    obtain ⟨item, hm, hc⟩ := exists_of_forall₂_right (mapM_eq_ok_iff.1 hcss) hcs
    exact hp item hm cs hc
  cases e with
  | record r =>
    cases hf : isFlat r items with
    | true =>
      rw [projectList_flat he hf, projectPrimitives_eq (exists_str_of_isFlat hf hitems),
        bind_eq_ok_iff]
    | false =>
      have hmap : items.mapM (projectItem g r) =
          items.mapM fun item => contributions g (.record r) (elementPicks item) >>= merged :=
        mapM_congr_of_mem fun item hm => projectItem_eq (hitems item hm).form (hp item hm)
      rw [picks, merged_contributions_flatMap, projectList_record he hf, hmap, bind_eq_ok_iff]
      simp only [mapM_bind_eq_ok_iff]
      exact exists_merged_flatten_iff fun css hcss => hproper hcss
  | union u =>
    have hmap : items.mapM (projectVariant g u) =
        items.mapM fun item => record <$> contributions g (.union u) (elementPicks item) :=
      mapM_congr_of_mem fun item hm => projectVariant_eq (hitems item hm).form
    rw [picks, merged_contributions_flatMap, projectList_union he, hmap, bind_eq_ok_iff]
    simp only [mapM_map_eq_ok_iff]
    constructor
    · rintro ⟨_, ⟨css, hcss, rfl⟩, hs⟩
      exact ⟨css, hcss, mergePicks_records (hproper hcss) ▸ hs⟩
    · rintro ⟨css, hcss, hs⟩
      exact ⟨_, ⟨css, hcss, rfl⟩, (mergePicks_records (hproper hcss)).trans hs⟩

/-! ## Why a projection can fail -/

/-- Only the arguments of calculations are at odds. -/
abbrev OnlyConflict : ProjectionFault → Prop := (· = .conflict .arguments)

theorem contributions_settles {ps : List (String × Option Value)}
    (h : ∀ p ∈ ps, Settles (FitsName g e p.1) OnlyConflict (pickShape g e p.1 p.2)) :
    Settles (fun cs => ∀ c ∈ cs, FitsName g e c.1 c.2) OnlyConflict (contributions g e ps) := by
  have hmap : Settles (List.Forall₂ (fun _ c => FitsName g e c.1 c.2) ps) OnlyConflict
      (contributions g e ps) :=
    Settles.mapM fun p hp => (h p hp).map fun s _ hs => hs
  refine hmap.imp fun cs _ hcs c hc => ?_
  obtain ⟨_, -, hfits⟩ := exists_of_forall₂_right hcs hc
  exact hfits

theorem merged_settles (hg : g.Closed) (he : g.follow? target = some e)
    {cs : List (String × Shape)} (hc : ∀ c ∈ cs, FitsName g e c.1 c.2) :
    Settles (Fits g target) OnlyConflict (merged cs) := by
  obtain ⟨id, -, hid⟩ := Graph.get?_of_follow? he
  have hfields : Settles (fun ms => ∀ f ∈ ms, FitsName g e f.1 f.2) OnlyArguments
      (mergeFields [] cs) :=
    mergeFields_settles (by simp) hc fun c hcs a ha => (hc c hcs).merge hg hid ha
  have hrecord : Settles (fun ms => Fits g target (.record ms)) OnlyArguments (mergeFields [] cs) :=
    hfields.imp fun ms hms hfits =>
      (fits_record_iff he).2 ⟨distinct_of_mergeFields Entries.distinct_nil hms, hfits⟩
  have hconflict : ∀ c, OnlyArguments c → OnlyConflict (.conflict c) := by
    rintro _ rfl
    rfl
  exact (hrecord.mapError hconflict).map fun ms _ hms => hms

theorem mergePicks_settles (hg : g.Closed) (he : g.follow? target = some e) {shapes : List Shape}
    (hs : ∀ s ∈ shapes, ∃ cs, s = .record cs ∧ ∀ c ∈ cs, FitsName g e c.1 c.2) :
    Settles (Fits g target) OnlyConflict (mergePicks shapes) := by
  obtain ⟨css, rfl, hcss⟩ := exists_records hs
  rw [mergePicks_records fun cs hcs c hc => (hcss cs hcs c hc).proper]
  refine merged_settles hg he fun c hc => ?_
  obtain ⟨cs, hcs, hc⟩ := List.mem_flatten.1 hc
  exact hcss cs hcs c hc

theorem projectList_settles (hg : g.Closed) (he : g.follow? target = some e)
    (hitems : ∀ item ∈ items, ValidElement g maxDepth e depth item)
    (hs : ∀ p ∈ picks items, Settles (FitsName g e p.1) OnlyConflict (pickShape g e p.1 p.2)) :
    Settles (Fits g target) OnlyConflict (projectList g target items) := by
  have helement : ∀ item ∈ items, Settles (fun cs => ∀ c ∈ cs, FitsName g e c.1 c.2) OnlyConflict
      (contributions g e (elementPicks item)) := fun item hm =>
    contributions_settles fun p hp => hs p (mem_picks.2 ⟨item, hm, hp⟩)
  have hall : ∀ {f : Value → Except ProjectionFault Shape},
      (∀ item ∈ items, Settles (fun s => ∃ cs, s = .record cs ∧ ∀ c ∈ cs, FitsName g e c.1 c.2)
        OnlyConflict (f item)) →
      Settles (Fits g target) OnlyConflict (items.mapM f >>= mergePicks) := by
    intro f hf
    refine (Settles.mapM hf).bind fun shapes _ hshapes => mergePicks_settles hg he fun s hsm => ?_
    obtain ⟨_, -, h⟩ := exists_of_forall₂_right hshapes hsm
    exact h
  cases e with
  | record r =>
    cases hf : isFlat r items with
    | true =>
      rw [projectList_flat he hf, projectPrimitives_eq (exists_str_of_isFlat hf hitems)]
      exact (contributions_settles hs).bind fun cs _ hcs => merged_settles hg he hcs
    | false =>
      rw [projectList_record he hf]
      refine hall fun item hm => ?_
      rw [projectItem_eq (hitems item hm).form fun cs hcs c hc =>
        ((helement item hm).of_ok hcs c hc).proper]
      refine (helement item hm).bind fun cs _ hcs => (merged_settles hg he hcs).imp fun s _ hs => ?_
      obtain ⟨fields, rfl⟩ := hs.eq_record
      exact ⟨fields, rfl, ((fits_record_iff he).1 hs).2⟩
  | union u =>
    rw [projectList_union he]
    refine hall fun item hm => ?_
    rw [projectVariant_eq (hitems item hm).form]
    exact (helement item hm).map fun cs _ hcs => ⟨cs, rfl, hcs⟩

end elements

/-! ## The shapes of valid picks -/

section shapes

variable {f : Field} {k : String} {v : Value} {declared : Option (List Argument)}

theorem pickShape_primitive {p : Primitive} (hp : r.primitive? k = some p) :
    pickShape g (.record r) k none = .ok p.shape := by
  rw [pickShape, hp]

theorem pickShape_eq_fieldShape (hf : r.field? k = some f) :
    pickShape g (.record r) k (some v) = fieldShape g f v := by
  rw [pickShape, pickedField, hf]
  rfl

theorem pickShape_field (hf : r.field? k = some f)
    (hk : ∀ declared, f.kind ≠ .calculation declared) :
    pickShape g (.record r) k (some v) = f.wrap <$> projectNode g f.target v := by
  rw [pickShape_eq_fieldShape hf, fieldShape.eq_def]
  cases hkind : f.kind with
  | calculation declared => exact absurd hkind (hk declared)
  | _ => rfl

theorem pickShape_value (hf : r.field? k = some f) (hk : f.kind = .calculation declared)
    {type : Scalar} (ht : f.target = .scalar type) :
    pickShape g (.record r) k (some v) = .ok (calculationShape f declared v (.scalar type)) := by
  rw [pickShape_eq_fieldShape hf, fieldShape.eq_def, hk, ht]
  rfl

theorem pickShape_call (hf : r.field? k = some f) (hk : f.kind = .calculation declared)
    {id : EntityId} (ht : f.target = .entity id) :
    pickShape g (.record r) k (some v) =
      calculationShape f declared v <$> projectResult g (.entity id) v := by
  rw [pickShape_eq_fieldShape hf, fieldShape.eq_def]
  simp only [hk, ht, map_eq_pure_bind]

theorem pickShape_tagField (ht : u.tagField = some k) :
    pickShape g (.union u) k none = .ok (.literal u.tags) := by
  rw [pickShape, if_pos ht]

theorem pickShape_scalar (ht : u.tagField ≠ some k) {type : Scalar}
    (hv : u.variant? k = some (.scalar type)) :
    pickShape g (.union u) k none = .ok (Shape.scalar type).orNull := by
  rw [pickShape, if_neg ht, hv]

theorem pickShape_variant (hv : u.variant? k = some target) :
    pickShape g (.union u) k (some v) = Shape.orNull <$> projectNode g target v := by
  rw [pickShape, pickedVariant, hv, map_eq_pure_bind]
  rfl

end shapes

theorem projectFields_of_get? {entries : List (String × Value)} {v : Value}
    (h : Entries.get? entries "fields" = some v) :
    projectFields g target entries = projectNode g target v := by
  induction entries with
  | nil => cases h
  | cons entry entries ih =>
    obtain ⟨k, w⟩ := entry
    rw [Entries.get?_cons] at h
    rw [projectFields]
    split
    · next hk =>
      rw [if_pos hk] at h
      rw [Option.some.inj h]
    · next hk =>
      rw [if_neg hk] at h
      exact ih h

section valid

variable {maxDepth : Nat}

theorem ValidName.settles (hg : g.Closed) {id : EntityId} (hid : g.get? id = some e) {k : String}
    (h : ValidName e k) : Settles (FitsName g e k) OnlyConflict (pickShape g e k none) := by
  cases e with
  | record r =>
    obtain ⟨p, hp⟩ := Entries.exists_get?_iff.2 h
    rw [pickShape_primitive hp]
    exact .primitive hp
  | union u =>
    rcases h with ht | ⟨type, hm⟩
    · rw [pickShape_tagField ht]
      exact .tagField ht
    · have hv := hg.variant?_of_mem hid hm
      have ht : u.tagField ≠ some k := fun ht => by simp [hg.variant?_eq_none hid ht] at hv
      rw [pickShape_scalar ht hv]
      exact .scalar hv

mutual
/-- The projection of a valid selection gives a shape of its target, unless arguments are at odds. -/
theorem Valid.settles (hg : g.Closed) : ∀ {target : Target} {depth : Nat} {v : Value},
    Valid g maxDepth target depth v → Settles (Fits g target) OnlyConflict (projectNode g target v)
  | _, _, _, .list _ _ he hitems _ => by
    obtain ⟨id, -, hid⟩ := Graph.get?_of_follow? he
    rw [projectNode]
    refine projectList_settles hg he hitems fun p hp => ?_
    obtain ⟨item, hm, hp⟩ := mem_picks.1 hp
    exact (hitems item hm).settles hg hid p hp
theorem ValidElement.settles (hg : g.Closed) : ∀ {e : Entity} {depth : Nat} {item : Value},
    ValidElement g maxDepth e depth item → ∀ {id : EntityId}, g.get? id = some e →
      ∀ p ∈ elementPicks item, Settles (FitsName g e p.1) OnlyConflict (pickShape g e p.1 p.2)
  | _, _, _, .name h, id, hid, p, hp => by
    rw [elementPicks, List.mem_singleton] at hp
    rw [hp]
    exact h.settles hg hid
  | _, _, _, .object _ hentries, id, hid, p, hp => by
    obtain ⟨⟨k, v⟩, hm, rfl⟩ := List.mem_map.1 hp
    exact (hentries k v hm).settles hg hid
theorem ValidEntry.settles (hg : g.Closed) : ∀ {e : Entity} {depth : Nat} {k : String} {v : Value},
    ValidEntry g maxDepth e depth k v → ∀ {id : EntityId}, g.get? id = some e →
      Settles (FitsName g e k) OnlyConflict (pickShape g e k (some v))
  | _, _, _, _, .field hf hk hv, id, hid => by
    rw [pickShape_field hf hk]
    exact (hv.settles hg).map fun s _ hs => .field hf hk hs
  | _, _, _, _, .shorthand hf hk ht _ hv, id, hid => by
    rw [pickShape_call hf hk ht, projectResult, ← projectNode]
    exact (hv.settles hg).map fun s _ hs => .call hf hk ht hs
  | _, _, _, _, .call hf hk ht _ _ hfields hv, id, hid => by
    rw [pickShape_call hf hk ht, projectResult, projectFields_of_get? hfields]
    exact (hv.settles hg).map fun s _ hs => .call hf hk ht hs
  | _, _, _, _, .value hf hk ht _ _, id, hid => by
    obtain ⟨type, ht⟩ := hg.scalar_of_calculation hid hf hk ht
    rw [pickShape_value hf hk ht]
    exact .value hf hk ht
  | _, _, _, _, .variant hv hs, id, hid => by
    rw [pickShape_variant hv]
    exact (hs.settles hg).map fun s _ hs => .variant hv hs
end

/-- A list of valid elements is projected by merging what its picks contribute. -/
theorem projectList_eq_ok_iff (hg : g.Closed) (he : g.follow? target = some e) {depth : Nat}
    {items : List Value} (hitems : ∀ item ∈ items, ValidElement g maxDepth e depth item)
    {s : Shape} :
    projectList g target items = .ok s ↔
      ∃ cs, contributions g e (picks items) = .ok cs ∧ merged cs = .ok s := by
  refine projectList_eq_ok_iff_of_proper he hitems fun item hm cs hcs c hc => ?_
  obtain ⟨id, -, hid⟩ := Graph.get?_of_follow? he
  have hsettles := contributions_settles ((hitems item hm).settles hg hid)
  exact (hsettles.of_ok hcs c hc).proper

/-- So it is where the projection fails, since it fails in one way only. -/
theorem projectList_eq_merged (hg : g.Closed) (he : g.follow? target = some e) {depth : Nat}
    {items : List Value} (hitems : ∀ item ∈ items, ValidElement g maxDepth e depth item) :
    projectList g target items = contributions g e (picks items) >>= merged := by
  obtain ⟨id, -, hid⟩ := Graph.get?_of_follow? he
  have hpicks : ∀ p ∈ picks items,
      Settles (FitsName g e p.1) OnlyConflict (pickShape g e p.1 p.2) := by
    intro p hp
    obtain ⟨item, hm, hp⟩ := mem_picks.1 hp
    exact (hitems item hm).settles hg hid p hp
  refine Agree.eq_of_settles (agree_iff.2 fun s => ?_) (projectList_settles hg he hitems hpicks)
    ((contributions_settles hpicks).bind fun cs _ hcs => merged_settles hg he hcs)
  rw [projectList_eq_ok_iff hg he hitems, bind_eq_ok_iff]

/-- Lists of fields behind one another are projected by merging their projections. -/
theorem projectList_flatMap (hg : g.Closed) (he : g.follow? target = some e) {depth : Nat}
    {vs : List Value} (hitems : ∀ item ∈ vs.flatMap fieldList, ValidElement g maxDepth e depth item)
    {s : Shape} :
    projectList g target (vs.flatMap fieldList) = .ok s ↔
      ∃ shapes, vs.mapM (fun v => projectList g target (fieldList v)) = .ok shapes ∧
        mergePicks shapes = .ok s := by
  obtain ⟨id, -, hid⟩ := Graph.get?_of_follow? he
  have hvs : ∀ v ∈ vs, ∀ item ∈ fieldList v, ValidElement g maxDepth e depth item :=
    fun v hv item hm => hitems item (List.mem_flatMap.2 ⟨v, hv, hm⟩)
  have hpicks : picks (vs.flatMap fieldList) = vs.flatMap fun v => picks (fieldList v) :=
    List.flatMap_assoc
  have hproper : ∀ {css : List (List (String × Shape))},
      vs.mapM (fun v => contributions g e (picks (fieldList v))) = .ok css →
        ∀ cs ∈ css, ∀ c ∈ cs, Proper c.2 := by
    intro css hcss cs hcs c hc
    obtain ⟨v, hv, hcv⟩ := exists_of_forall₂_right (mapM_eq_ok_iff.1 hcss) hcs
    refine ((contributions_settles fun p hp => ?_).of_ok hcv c hc).proper
    obtain ⟨item, hm, hp⟩ := mem_picks.1 hp
    exact (hvs v hv item hm).settles hg hid p hp
  have hshapes : ∀ {shapes : List Shape},
      vs.mapM (fun v => projectList g target (fieldList v)) = .ok shapes ↔
        ∃ css, vs.mapM (fun v => contributions g e (picks (fieldList v))) = .ok css ∧
          css.mapM merged = .ok shapes := by
    intro shapes
    rw [← mapM_bind_eq_ok_iff]
    refine mapM_eq_ok_congr fun v hv s => ?_
    rw [projectList_eq_ok_iff hg he (hvs v hv), bind_eq_ok_iff]
  rw [projectList_eq_ok_iff hg he hitems, hpicks, merged_contributions_flatMap]
  simp only [hshapes]
  exact (exists_merged_flatten_iff fun css hcss => hproper hcss).symm

end valid

end Shapewise.Selection
