import Shapewise.Proofs.Schema.Selection

/-!
# Regular shapes

The form of what is projected: null is never stacked, the elements of a list are neither lists nor
null, an object has keys and requires all of them, and a calculation stands under the name of a
calculation and nowhere else. `Regular` says this of the shapes of a target, whatever is selected
and declared there; `RegularUnder` says what the declaration of a name asks of the shape under it.

Merging keeps regular shapes regular (`Regular.merge`), however often names are picked, and every
description is regular (`described_shape_regular`).
-/

namespace Shapewise

/-! ## Kinds of shapes -/

namespace Shape

/-- A shape is a list. -/
def isArray : Shape → Bool
  | .array _ => true
  | _ => false

/-- A shape may be null. -/
def isNullable : Shape → Bool
  | .nullable _ => true
  | _ => false

/-- A shape is the result of a calculation. -/
def isCalculation : Shape → Bool
  | .calculation .. => true
  | _ => false

/-- The result of a calculation, and any other shape itself. -/
def content : Shape → Shape
  | .calculation result _ _ => result
  | s => s

/-- Merging keeps the kind of a shape. -/
theorem kind_of_merge {a b m : Shape} (h : merge a b = .ok m) :
    m.isArray = a.isArray ∧ m.isNullable = a.isNullable ∧ m.isCalculation = a.isCalculation := by
  cases mergedBy_of_merge h <;> exact ⟨rfl, rfl, rfl⟩

/-- Calculations are merged by their results. -/
theorem merge_content {a b m : Shape} (h : merge a b = .ok m) :
    merge a.content b.content = .ok m.content := by
  cases mergedBy_of_merge h with
  | equal he =>
    refine merge_of_equal ?_
    cases a with
    | calculation a x s =>
      obtain ⟨b, y, t, -, rfl, -, -, -⟩ := merge_calculation_eq_ok_iff.1 h
      exact (equal_calculation_iff.1 he).1
    | _ =>
      cases b with
      | calculation => exact absurd (ctorIdx_of_equal he) (by simp [Shape.ctorIdx])
      | _ => exact he
  | object | array | nullable => exact h
  | calculation _ hm => exact hm

end Shape

/-- What a name of an entity leads to; a primitive field and a tag field lead nowhere. -/
def Entity.member : Entity → String → Target
  | .record r, n => (r.field? n).elim .unset Field.target
  | .union u, n => (u.variant? n).getD .unset

/-- A name of an entity is a calculation. -/
def Entity.Calculates (e : Entity) (n : String) : Prop :=
  ∃ r f declared, e = .record r ∧ r.field? n = some f ∧ f.kind = .calculation declared

namespace Selection

open Outcome Shape

/-- What the declaration of a name asks of the shape under it. -/
structure RegularUnder (e : Entity) (n : String) (s : Shape) : Prop where
  calculation : s.isCalculation = true ↔ e.Calculates n
  /-- A relationship to many is a list and never null. -/
  toMany : ∀ r f, e = .record r → r.field? n = some f → f.kind = .relationship →
    f.isArray = true → s.isArray = true
  variant : ∀ u target, e = .union u → u.variant? n = some target → s.isNullable = true
  tagField : ∀ u, e = .union u → u.tagField = some n → s.isNullable = false

/-- A regular shape of a target. -/
inductive Regular (g : Graph) : Target → Shape → Prop
  | scalar {target : Target} {type : Scalar} : Regular g target (.scalar type)
  | literal {target : Target} {values : List String} : Regular g target (.literal values)
  | array {target : Target} {element : Shape} :
      element.isArray = false → element.isNullable = false → Regular g target element →
      Regular g target (.array element)
  | nullable {target : Target} {inner : Shape} :
      inner.isNullable = false → Regular g target inner → Regular g target (.nullable inner)
  | object {target : Target} {e : Entity} {fields : List (String × Shape)} {optionalKeys : NameSet} :
      g.follow? target = some e → fields ≠ [] → optionalKeys = .empty →
      (∀ n s, (n, s) ∈ fields → RegularUnder e n s) →
      (∀ n s, (n, s) ∈ fields → Regular g (e.member n) s.content) →
      Regular g target (.object fields optionalKeys)

variable {g : Graph} {target : Target} {e : Entity} {r : Record} {u : Union} {f : Field}
  {n : String} {a b m s : Shape} {fields : List (String × Shape)} {items : List Value}
  {maxDepth depth : Nat}

theorem regular_record_iff (he : g.follow? target = some e) :
    Regular g target (.record fields) ↔ fields ≠ [] ∧
      ∀ f ∈ fields, RegularUnder e f.1 f.2 ∧ Regular g (e.member f.1) f.2.content := by
  constructor
  · rintro (_ | _ | _ | _ | ⟨he', hne, -, hunder, hcontent⟩)
    cases he.symm.trans he'
    exact ⟨hne, fun f hf => ⟨hunder f.1 f.2 hf, hcontent f.1 f.2 hf⟩⟩
  · rintro ⟨hne, hf⟩
    exact .object he hne rfl (fun n s hm => (hf (n, s) hm).1) fun n s hm => (hf (n, s) hm).2

/-! ## Merging -/

theorem RegularUnder.merge (ha : RegularUnder e n a) (h : Shape.merge a b = .ok m) :
    RegularUnder e n m := by
  obtain ⟨harray, hnullable, hcalculation⟩ := kind_of_merge h
  constructor
  · rw [hcalculation]
    exact ha.calculation
  · rw [harray]
    exact ha.toMany
  · rw [hnullable]
    exact ha.variant
  · rw [hnullable]
    exact ha.tagField

/-- The fields merged of two regular objects are those of a regular object, where the shapes under
each name merge to regular ones. -/
theorem regular_mergeFields {fs gs ms : List (String × Shape)} (he : g.follow? target = some e)
    (ha : Regular g target (.record fs)) (hb : Regular g target (.record gs))
    (step : ∀ n s, (n, s) ∈ gs → ∀ a m, Regular g (e.member n) a →
      Shape.merge a s.content = .ok m → Regular g (e.member n) m)
    (hms : mergeFields fs gs = .ok ms) : Regular g target (.record ms) := by
  obtain ⟨-, hfs⟩ := (regular_record_iff he).1 ha
  obtain ⟨hne, hgs⟩ := (regular_record_iff he).1 hb
  have hmerged := mergeFields_settles (E := fun _ => True)
    (P := fun n s => RegularUnder e n s ∧ Regular g (e.member n) s.content) hfs hgs
    fun c hc a ha => .of_forall_ok fun m hm =>
      ⟨ha.1.merge hm, step c.1 c.2 hc _ _ ha.2 (merge_content hm)⟩
  refine (regular_record_iff he).2 ⟨?_, hmerged.of_ok hms⟩
  rintro rfl
  obtain ⟨c, hc⟩ := List.exists_mem_of_ne_nil _ hne
  have hkey := (mem_keys_of_mergeFields hms c.1).2 (.inr (Entries.mem_keys.2 ⟨c.2, hc⟩))
  cases hkey

/-- What is merged of two regular shapes of one target is regular. -/
theorem Regular.merge (hb : Regular g target b) (ha : Regular g target a)
    (h : Shape.merge a b = .ok m) : Regular g target m := by
  induction hb generalizing a m with
  | scalar =>
    cases mergedBy_of_merge h
    exact ha
  | literal =>
    cases mergedBy_of_merge h
    exact ha
  | array _ _ _ ih =>
    cases mergedBy_of_merge h with
    | equal => exact ha
    | array hm =>
      obtain ⟨harray, hnullable, -⟩ := kind_of_merge hm
      obtain _ | _ | ⟨hfirst, hnull, hinner⟩ := ha
      exact .array (harray.trans hfirst) (hnullable.trans hnull) (ih hinner hm)
  | nullable _ _ ih =>
    cases mergedBy_of_merge h with
    | equal => exact ha
    | nullable hm =>
      obtain ⟨-, hnullable, -⟩ := kind_of_merge hm
      obtain _ | _ | _ | ⟨hnull, hinner⟩ := ha
      exact .nullable (hnullable.trans hnull) (ih hinner hm)
  | object he hne hoptional hunder hcontent ih =>
    cases mergedBy_of_merge h with
    | equal => exact ha
    | object _ hms =>
      obtain rfl : _ = NameSet.empty := hoptional
      obtain rfl : _ = NameSet.empty := by
        obtain _ | _ | _ | _ | ⟨-, -, hempty, -⟩ := ha
        exact hempty
      rw [mergeOptional_empty hms]
      exact regular_mergeFields he ha (.object he hne rfl hunder hcontent)
        (fun n s hs a m => ih n s hs) hms

/-! ## Projecting -/

/-- A regular shape that is neither a list nor null stays regular under the wrappers of a field. -/
theorem Regular.wrap (h : Regular g target s) (harray : s.isArray = false)
    (hnullable : s.isNullable = false) (isArray isNullable : Bool) :
    Regular g target (s.wrap isArray isNullable) := by
  have horNull : ∀ t : Shape, t.isNullable = false → t.orNull = .nullable t := by
    intro t ht
    cases t with
    | nullable => cases ht
    | _ => rfl
  cases isArray <;> cases isNullable
  · exact h
  · show Regular g target s.orNull
    rw [horNull s hnullable]
    exact .nullable hnullable h
  · exact .array harray hnullable h
  · exact .nullable rfl (.array harray hnullable h)

theorem isCalculation_wrap (h : s.isCalculation = false) (isArray isNullable : Bool) :
    (s.wrap isArray isNullable).isCalculation = false := by
  cases isArray
  · cases isNullable
    · exact h
    · cases s <;> rfl
  · cases isNullable <;> rfl

theorem content_of_not_calculation (h : s.isCalculation = false) : s.content = s := by
  cases s with
  | calculation => cases h
  | _ => rfl

section under

theorem RegularUnder.of_field (hf : r.field? n = some f)
    (hcalculation : s.isCalculation = true ↔ ∃ declared, f.kind = .calculation declared)
    (hmany : f.kind = .relationship → f.isArray = true → s.isArray = true) :
    RegularUnder (.record r) n s := by
  constructor
  · rw [hcalculation]
    constructor
    · rintro ⟨declared, hk⟩
      exact ⟨r, f, declared, rfl, hf, hk⟩
    · rintro ⟨_, f', declared, ⟨⟩, hf', hk⟩
      cases hf.symm.trans hf'
      exact ⟨declared, hk⟩
  · rintro _ f' ⟨⟩ hf' hk ha
    cases hf.symm.trans hf'
    exact hmany hk ha
  · rintro u target ⟨⟩
  · rintro u ⟨⟩

theorem RegularUnder.of_primitive (hf : r.field? n = none) (hs : s.isCalculation = false) :
    RegularUnder (.record r) n s := by
  constructor
  · refine iff_of_false (by simp [hs]) ?_
    rintro ⟨_, f, declared, ⟨⟩, hf', -⟩
    cases hf.symm.trans hf'
  · rintro _ f ⟨⟩ hf'
    cases hf.symm.trans hf'
  · rintro u target ⟨⟩
  · rintro u ⟨⟩

theorem RegularUnder.of_union (hs : s.isCalculation = false)
    (hvariant : ∀ target, u.variant? n = some target → s.isNullable = true)
    (htag : u.tagField = some n → s.isNullable = false) : RegularUnder (.union u) n s := by
  constructor
  · refine iff_of_false (by simp [hs]) ?_
    rintro ⟨r, f, declared, ⟨⟩, -⟩
  · rintro r f ⟨⟩
  · rintro _ target ⟨⟩
    exact hvariant target
  · rintro _ ⟨⟩
    exact htag

end under

/-- The shape under a name that is picked is regular, where what is selected below it is. -/
theorem regular_of_grouped (h : PickedAs g maxDepth depth items n e) (hs : Grouped g items e n s)
    (ih : ∀ next t, Selects g maxDepth (depth + 1) items n next →
      projectList g next (gathered items n) = .ok t →
        ∃ fields, t = .record fields ∧ Regular g next (.record fields)) :
    RegularUnder e n s ∧ Regular g (e.member n) s.content := by
  cases h with
  | @primitive r p hp hf =>
    rw [(grouped_primitive_iff hf hp).1 hs]
    have hcalculation : p.shape.isCalculation = false := isCalculation_wrap rfl _ _
    refine ⟨.of_primitive hf hcalculation, ?_⟩
    rw [content_of_not_calculation hcalculation]
    exact Regular.scalar.wrap rfl rfl _ _
  | @field r f id hp hf hk ht hselects =>
    obtain ⟨t, hproject, rfl⟩ := (grouped_field_iff hp hf hk ht).1 hs
    obtain ⟨fields, rfl, hregular⟩ := ih _ _ hselects (ht ▸ hproject)
    obtain ⟨isNullable, hwrap⟩ := exists_wrap f
    have hcalculation := isCalculation_wrap (s := .record fields) rfl f.isArray isNullable
    have hmember : (Entity.record r).member n = .entity id := by
      rw [Entity.member, hf, Option.elim_some, ht]
    refine ⟨.of_field hf ?_ fun hkind ha => ?_, ?_⟩
    · rw [hwrap, hcalculation]
      exact iff_of_false (by simp) fun ⟨declared, h⟩ => hk declared h
    · rw [Field.wrap, hkind, ha, Bool.not_true, Bool.and_false]
      rfl
    · rw [hmember, hwrap, content_of_not_calculation hcalculation]
      exact hregular.wrap rfl rfl _ _
  | @value r f declared type hp hf hk ht hnone hne =>
    obtain ⟨v, -, rfl⟩ := (grouped_value_iff hp hf hk ht).1 hs
    obtain ⟨isNullable, hwrap⟩ := exists_wrap f
    refine ⟨.of_field hf (iff_of_true rfl ⟨declared, hk⟩) fun hkind => ?_, ?_⟩
    · cases hk.symm.trans hkind
    · rw [calculationShape, content, hwrap]
      exact Regular.scalar.wrap rfl rfl _ _
  | @call r f declared id hp hf hk ht hselects =>
    obtain ⟨v, -, t, hproject, rfl⟩ := (grouped_call_iff hp hf hk ht).1 hs
    obtain ⟨fields, rfl, hregular⟩ := ih _ _ hselects hproject
    obtain ⟨isNullable, hwrap⟩ := exists_wrap f
    have hmember : (Entity.record r).member n = .entity id := by
      rw [Entity.member, hf, Option.elim_some, ht]
    refine ⟨.of_field hf (iff_of_true rfl ⟨declared, hk⟩) fun hkind => ?_, ?_⟩
    · cases hk.symm.trans hkind
    · rw [hmember, calculationShape, content, hwrap]
      exact hregular.wrap rfl rfl _ _
  | tagField ht hu =>
    rw [(grouped_tagField_iff hu ht).1 hs]
    refine ⟨.of_union rfl (fun target hu' => ?_) fun _ => rfl, .literal⟩
    cases hu.symm.trans hu'
  | scalar ht hu =>
    rw [(grouped_scalar_iff ht hu).1 hs]
    exact ⟨.of_union rfl (fun _ _ => rfl) fun ht' => absurd ht' ht, .nullable rfl .scalar⟩
  | @variant u id ht hu hselects =>
    obtain ⟨t, hproject, rfl⟩ := (grouped_variant_iff ht hu).1 hs
    obtain ⟨fields, rfl, hregular⟩ := ih _ _ hselects hproject
    have hmember : (Entity.union u).member n = .entity id := by
      rw [Entity.member, hu, Option.getD_some]
    refine ⟨.of_union rfl (fun _ _ => rfl) fun ht' => absurd ht' ht, ?_⟩
    rw [hmember]
    exact .nullable rfl hregular

/-- A list of valid elements picks a name. -/
theorem pickedNames_ne_nil (hne : items ≠ [])
    (hitems : ∀ item ∈ items, ValidElement g maxDepth e depth item) : pickedNames items ≠ [] := by
  obtain ⟨item, hitem⟩ := List.exists_mem_of_ne_nil _ hne
  obtain ⟨p, hp⟩ : ∃ p, p ∈ elementPicks item := by
    cases hitems item hitem with
    | name => exact ⟨_, List.mem_cons_self⟩
    | object hentries =>
      obtain ⟨entry, hentry⟩ := List.exists_mem_of_ne_nil _ hentries
      exact ⟨_, List.mem_map_of_mem hentry⟩
  exact List.ne_nil_of_mem (Entries.mem_keys.2 ⟨p.2, mem_picks.2 ⟨item, hitem, hp⟩⟩)

/-- What is projected of a list of valid elements is a regular object. -/
theorem regular_of_projectList (hg : g.Closed) (he : g.follow? target = some e) (hne : items ≠ [])
    (hitems : ∀ item ∈ items, ValidElement g maxDepth e depth item)
    (h : projectList g target items = .ok s) :
    ∃ fields, s = .record fields ∧ Regular g target (.record fields) := by
  refine elements_induction (P := fun target items => items ≠ [] → ∀ s, projectList g target items = .ok s →
    ∃ fields, s = .record fields ∧ Regular g target (.record fields)) ?_ he hitems hne s h
  intro target e depth items he hitems hbelow hne s h
  obtain ⟨id, -, hid⟩ := Graph.get?_of_follow? he
  obtain ⟨-, fields, rfl, hkeys, hgrouped⟩ := (projectList_eq_ok_iff_grouped hg he hitems).1 h
  refine ⟨fields, rfl, (regular_record_iff he).2 ⟨?_, fun f hf => ?_⟩⟩
  · rintro rfl
    have hpicked := pickedNames_ne_nil hne hitems
    obtain ⟨n, hn⟩ := List.exists_mem_of_ne_nil _ hpicked
    rw [← List.mem_eraseDups, ← hkeys] at hn
    cases hn
  · have hn : f.1 ∈ pickedNames items := by
      rw [← List.mem_eraseDups, ← hkeys]
      exact Entries.mem_keys.2 ⟨f.2, hf⟩
    exact regular_of_grouped (pickedAs hg hid hitems hn) (hgrouped f.1 f.2 hf)
      fun next t hselects => hbelow f.1 next hselects hselects.gathered_ne_nil t

/-- Every description is a regular shape of its entity, and merging regular shapes of one target
gives a regular shape of it. -/
theorem described_shape_regular {text : List Char} {limits : Limits} {schema : Schema}
    (hs : Schema.ofText text limits = .ok schema) :
    (∀ L id selection s, describe schema.graph L id selection = .ok s →
      Regular schema.graph (.entity id) s) ∧
    (∀ target a b m, Regular schema.graph target a → Regular schema.graph target b →
      Shape.merge a b = .ok m → Regular schema.graph target m) := by
  refine ⟨fun L id selection s h => ?_, fun target a b m ha hb h => hb.merge ha h⟩
  rw [describe, then_eq_ok_iff, mapError_eq_ok_iff, mapError_eq_ok_iff] at h
  obtain ⟨hc, hp⟩ := h
  obtain ⟨e, items, he, rfl, hitems, -⟩ := elements_of_check hc
  have hfollow : schema.graph.follow? (.entity id) = some e := he
  have hne := (valid_list_iff.1 (valid_of_check hc)).2.1
  rw [project_list] at hp
  obtain ⟨fields, rfl, hregular⟩ :=
    regular_of_projectList (Schema.closed_of_ofText hs) hfollow hne hitems hp
  exact hregular

/-- Posts with many readers, the best post of a user, and owners of two kinds. -/
def forumText : List Char :=
  "resource Post { title: string, author: -> User?, readers: -> User[]?, owner: Owner? }
   resource User { name: string, calc best(by?: string): Post? }
   union Owner on kind { user: User, none: boolean }".toList

/-- Picks the readers of a post twice, the best post of the author, and the owner. -/
def forumPicks : Value :=
  .list [.obj [("readers", .list [.str "name"])],
    .obj [("readers", .list [.obj [("best", .list [.str "title"])]])],
    .obj [("author", .list [.obj [("best", .obj [("fields", .list [.str "title"])])]])],
    .obj [("owner", .list [.str "kind", .str "none", .obj [("user", .list [.str "name"])]])]]

theorem described_shape_regular_forum : ∃ schema s, Schema.ofText forumText .standard = .ok schema ∧
    describe schema.graph .standard ⟨0⟩ forumPicks = .ok s ∧
    (∀ L id selection s, describe schema.graph L id selection = .ok s →
      Regular schema.graph (.entity id) s) ∧
    (∀ target a b m, Regular schema.graph target a → Regular schema.graph target b →
      Shape.merge a b = .ok m → Regular schema.graph target m) := by
  have hdescribed : Settles (fun schema =>
      Settles (fun _ => True) (fun _ => False) (describe schema.graph .standard ⟨0⟩ forumPicks))
      (fun _ => False) (Schema.ofText forumText .standard) := by
    decide +kernel
  obtain ⟨schema, hs, hdescribed⟩ := hdescribed.exists_ok
  obtain ⟨s, hdescribe, -⟩ := hdescribed.exists_ok
  exact ⟨schema, s, hs, hdescribe, described_shape_regular hs⟩

end Selection

end Shapewise
