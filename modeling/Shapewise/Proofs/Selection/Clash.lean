import Shapewise.Proofs.Selection.Grouped

/-!
# Clashing picks

Picks of a calculation may stand in different elements of a selection and still end up under one
key: when they are reached along the same names. The check compares only the picks of one list. A
selection of valid elements has a shape exactly when no two picks that are reached along the same
names have different arguments (`exists_projectList_iff`).
-/

namespace Shapewise.Selection

open Outcome Shape

/-- A name of an entity leads to a target. -/
inductive Leads : Entity → String → Target → Prop
  | field {r : Record} {n : String} {f : Field} : r.field? n = some f → Leads (.record r) n f.target
  | variant {u : Union} {n : String} {target : Target} :
      u.variant? n = some target → Leads (.union u) n target

/-- A calculation is picked with the given arguments, in a place that is reached along the names of
a path; the last of them is the calculation. -/
inductive Called (g : Graph) : Target → List Value → List String → Value → Prop
  | here {target : Target} {items : List Value} {r : Record} {n : String} {f : Field}
      {declared : Option (List Argument)} {v : Value} :
      g.follow? target = some (.record r) → r.field? n = some f →
      f.kind = .calculation declared → v ∈ selectedOf items n →
      Called g target items [n] (selectedArguments declared v)
  | deeper {target next : Target} {items : List Value} {e : Entity} {n : String} {v : Value}
      {path : List String} {x : Value} :
      g.follow? target = some e → Leads e n next → v ∈ selectedOf items n →
      Called g next (fieldList v) path x → Called g target items (n :: path) x

/-- Two picks of one calculation, reached along the same names, have different arguments. -/
def Clash (g : Graph) (target : Target) (items : List Value) : Prop :=
  ∃ path x y, Called g target items path x ∧ Called g target items path y ∧ ¬ x.Equal y

variable {g : Graph} {e : Entity} {target next : Target} {items : List Value} {n : String}

theorem Leads.unique (h : Leads e n target) (h' : Leads e n next) : target = next := by
  cases h with
  | field hf =>
    obtain ⟨hf'⟩ := h'
    cases hf.symm.trans hf'
    rfl
  | variant hu =>
    obtain - | ⟨hu'⟩ := h'
    exact Option.some.inj (hu.symm.trans hu')

theorem Called.ne_nil {path : List String} {x : Value} (h : Called g target items path x) :
    path ≠ [] := by
  cases h <;> exact List.cons_ne_nil _ _

/-- What is picked in lists behind one another is picked in one of them. -/
theorem called_flatMap_iff {vs : List Value} {path : List String} {x : Value} :
    Called g target (vs.flatMap fieldList) path x ↔ ∃ v ∈ vs, Called g target (fieldList v) path x := by
  constructor
  · intro h
    generalize hitems : vs.flatMap fieldList = items at h
    cases h with
    | here he hf hk hw =>
      rw [← hitems] at hw
      obtain ⟨v, hv, hw⟩ := mem_selectedOf_flatMap.1 hw
      exact ⟨v, hv, .here he hf hk hw⟩
    | deeper he hl hw hbelow =>
      rw [← hitems] at hw
      obtain ⟨v, hv, hw⟩ := mem_selectedOf_flatMap.1 hw
      exact ⟨v, hv, .deeper he hl hw hbelow⟩
  · rintro ⟨v, hv, h⟩
    cases h with
    | here he hf hk hw => exact .here he hf hk (mem_selectedOf_flatMap.2 ⟨v, hv, hw⟩)
    | deeper he hl hw hbelow => exact .deeper he hl (mem_selectedOf_flatMap.2 ⟨v, hv, hw⟩) hbelow

/-- A clash is one between picks of one list, or one below a name whose picks are taken together. -/
theorem clash_iff (he : g.follow? target = some e) :
    Clash g target items ↔
      ¬ Agreeing e items ∨ ∃ n next, Leads e n next ∧ Clash g next (gathered items n) := by
  constructor
  · rintro ⟨path, x, y, hx, hy, hne⟩
    cases hx with
    | here he' hf hk hv =>
      cases he.symm.trans he'
      cases hy with
      | here he'' hf' hk' hw =>
        cases he.symm.trans he''
        cases hf.symm.trans hf'
        cases hk.symm.trans hk'
        exact .inl fun hagree => hne (hagree _ _ _ _ rfl hf hk _ hv _ hw)
      | deeper _ _ _ hbelow => exact absurd rfl hbelow.ne_nil
    | deeper he' hl hv hbelow =>
      cases he.symm.trans he'
      cases hy with
      | here => exact absurd rfl hbelow.ne_nil
      | deeper he'' hl' hw hbelow' =>
        cases he.symm.trans he''
        cases hl.unique hl'
        exact .inr ⟨_, _, hl, _, x, y, called_flatMap_iff.2 ⟨_, hv, hbelow⟩,
          called_flatMap_iff.2 ⟨_, hw, hbelow'⟩, hne⟩
  · rintro (hagree | ⟨n, next, hl, path, x, y, hx, hy, hne⟩)
    · simp only [Agreeing, AgreeingAt, not_forall] at hagree
      obtain ⟨n, r, f, declared, rfl, hf, hk, v, hv, w, hw, hne⟩ := hagree
      exact ⟨_, _, _, .here he hf hk hv, .here he hf hk hw, hne⟩
    · obtain ⟨v, hv, hx⟩ := called_flatMap_iff.1 hx
      obtain ⟨w, hw, hy⟩ := called_flatMap_iff.1 hy
      exact ⟨n :: path, x, y, .deeper he hl hv hx, .deeper he hl hw hy, hne⟩

theorem not_clash_scalar (g : Graph) (type : Scalar) (items : List Value) :
    ¬ Clash g (.scalar type) items := by
  rintro ⟨path, x, y, hx, -, -⟩
  cases hx with
  | here he => cases he
  | deeper he => cases he

theorem not_clash_nil (g : Graph) (target : Target) : ¬ Clash g target [] := by
  rintro ⟨path, x, y, hx, -, -⟩
  cases hx with
  | here _ _ _ hv => cases hv
  | deeper _ _ hv => cases hv

/-! ## Which selections have a shape -/

section shape

variable {maxDepth depth : Nat} (hg : g.Closed)

theorem exists_fields_iff {P : String → Shape → Prop} {names : List String} :
    (∃ fields : List (String × Shape), Entries.keys fields = names.eraseDups ∧
        ∀ n t, (n, t) ∈ fields → P n t) ↔
      ∀ n ∈ names, ∃ t, P n t := by
  constructor
  · rintro ⟨fields, hkeys, h⟩ n hn
    rw [← List.mem_eraseDups, ← hkeys] at hn
    obtain ⟨t, ht⟩ := Entries.mem_keys.1 hn
    exact ⟨t, h n t ht⟩
  · intro h
    have hall : ∀ n, ∃ t, n ∈ names → P n t := by
      intro n
      by_cases hn : n ∈ names
      · obtain ⟨t, ht⟩ := h n hn
        exact ⟨t, fun _ => ht⟩
      · exact ⟨default, fun h => absurd h hn⟩
    choose shape hshape using hall
    refine ⟨names.eraseDups.map fun n => (n, shape n), ?_, ?_⟩
    · rw [Entries.keys, List.map_map]
      exact List.map_id _
    · intro n t hm
      obtain ⟨m, hmem, he⟩ := List.mem_map.1 hm
      cases he
      exact hshape n (List.mem_eraseDups.1 hmem)

theorem forall_leads_iff (h : Leads e n target) {P : Target → Prop} :
    (∀ next, Leads e n next → P next) ↔ P target := by
  constructor
  · intro hall
    exact hall target h
  · intro hp next hl
    exact h.unique hl ▸ hp

theorem exists_head_of_ne_nil {vs : List Value} (hne : vs ≠ []) : ∃ v, vs.head? = some v := by
  cases vs with
  | nil => exact absurd rfl hne
  | cons v vs => exact ⟨v, rfl⟩

/-- A name that is picked has a shape when nothing clashes below it. -/
theorem exists_grouped_iff (h : PickedAs g maxDepth depth items n e)
    (ih : ∀ next, Selects g maxDepth (depth + 1) items n next →
      ((∃ s, projectList g next (gathered items n) = .ok s) ↔ ¬ Clash g next (gathered items n))) :
    (∃ t, Grouped g items e n t) ↔ ∀ next, Leads e n next → ¬ Clash g next (gathered items n) := by
  cases h with
  | primitive hp hf =>
    refine iff_of_true ⟨_, .primitive hp⟩ fun next hl => ?_
    obtain ⟨hf'⟩ := hl
    cases hf.symm.trans hf'
  | field hp hf hk ht hs =>
    simp only [grouped_field_iff hp hf hk ht]
    rw [forall_leads_iff (.field hf), ht, ← ih _ hs]
    constructor
    · rintro ⟨t, s, hs, -⟩
      exact ⟨s, hs⟩
    · rintro ⟨s, hs⟩
      exact ⟨_, s, hs, rfl⟩
  | value hp hf hk ht hnone hne =>
    obtain ⟨v, hv⟩ := exists_head_of_ne_nil hne
    refine iff_of_true ⟨_, .value hf hk ht hv⟩ ?_
    rw [forall_leads_iff (.field hf), ht]
    exact not_clash_scalar g _ _
  | call hp hf hk ht hs =>
    obtain ⟨v, hv⟩ := exists_head_of_ne_nil hs.nonempty
    simp only [grouped_call_iff hp hf hk ht]
    rw [forall_leads_iff (.field hf), ht, ← ih _ hs]
    constructor
    · rintro ⟨t, v, -, s, hs, -⟩
      exact ⟨s, hs⟩
    · rintro ⟨s, hs⟩
      exact ⟨_, v, hv, s, hs, rfl⟩
  | tagField ht hu =>
    refine iff_of_true ⟨_, .tagField ht⟩ fun next hl => ?_
    obtain - | ⟨hu'⟩ := hl
    cases hu.symm.trans hu'
  | scalar ht hu =>
    refine iff_of_true ⟨_, .scalar hu⟩ ?_
    rw [forall_leads_iff (.variant hu)]
    exact not_clash_scalar g _ _
  | variant ht hu hs =>
    simp only [grouped_variant_iff ht hu]
    rw [forall_leads_iff (.variant hu), ← ih _ hs]
    constructor
    · rintro ⟨t, s, hs, -⟩
      exact ⟨s, hs⟩
    · rintro ⟨s, hs⟩
      exact ⟨_, s, hs, rfl⟩

include hg in
/-- A list of valid elements has a shape exactly when no picks of it clash. -/
theorem exists_projectList_iff (he : g.follow? target = some e)
    (hitems : ∀ item ∈ items, ValidElement g maxDepth e depth item) :
    (∃ s, projectList g target items = .ok s) ↔ ¬ Clash g target items := by
  refine elements_induction
    (P := fun target items => (∃ s, projectList g target items = .ok s) ↔ ¬ Clash g target items)
    ?_ he hitems
  intro target e depth items he hitems hbelow
  obtain ⟨id, -, hid⟩ := Graph.get?_of_follow? he
  have hnames : (∃ fields : List (String × Shape),
      Entries.keys fields = (pickedNames items).eraseDups ∧
        ∀ n t, (n, t) ∈ fields → Grouped g items e n t) ↔
      ∀ n next, Leads e n next → ¬ Clash g next (gathered items n) := by
    rw [exists_fields_iff]
    constructor
    · intro h n next hl
      by_cases hn : n ∈ pickedNames items
      · exact (exists_grouped_iff (pickedAs hg hid hitems hn) (hbelow n)).1 (h n hn) next hl
      · have hnone : selectedOf items n = [] :=
          List.eq_nil_iff_forall_not_mem.2 fun v hv =>
            hn (Entries.mem_keys.2 ⟨some v, mem_selectedOf.1 hv⟩)
        rw [gathered, hnone]
        exact not_clash_nil g next
    · intro h n hn
      exact (exists_grouped_iff (pickedAs hg hid hitems hn) (hbelow n)).2 (h n)
  simp only [projectList_eq_ok_iff_grouped hg he hitems]
  rw [clash_iff he]
  constructor
  · rintro ⟨s, hagree, fields, -, hfields⟩ (hdisagree | ⟨n, next, hl, hclash⟩)
    · exact hdisagree hagree
    · exact hnames.1 ⟨fields, hfields⟩ n next hl hclash
  · intro h
    have hagree : Agreeing e items := by_contra fun hdisagree => h (.inl hdisagree)
    obtain ⟨fields, hfields⟩ := hnames.2 fun n next hl hclash => h (.inr ⟨n, next, hl, hclash⟩)
    exact ⟨_, hagree, fields, rfl, hfields⟩

end shape

end Shapewise.Selection
