import Mathlib.Data.List.ProdSigma
import Shapewise.Proofs.Schema.Selection

/-!
# Rearranged selections

The elements of a list of fields may stand in another order or more than once, in the list itself
and in the lists below it. `Rearranged` relates such selections: every element of one list has its
like in the other, and arguments stay as they are.

Rearranging changes nothing but the order of keys. The main result is
`rearranged_selection_outcome`: both selections pass the check or neither does, and then both have
equal shapes or both have arguments at odds. The picks of a name correspond in rearranged lists, and
what they select is rearranged in turn; validity, clashes and shapes follow from that.
-/

namespace Shapewise.Selection

open Outcome Shape

/-- What a value stands for in a selection. -/
inductive Part
  /-- A list of fields. -/
  | fields
  /-- An element of such a list. -/
  | element
  /-- What is selected of a name in an object. -/
  | selected

/-- Two values are the same but for the order of the elements in lists of fields and for how often
they stand there. -/
inductive Rearranged : Part → Value → Value → Prop
  | refl (part : Part) (v : Value) : Rearranged part v v
  /-- The elements of two lists are paired up; an element may be in several pairs. -/
  | fields {xs ys : List Value} (pairs : List (Value × Value)) :
      (∀ x y, (x, y) ∈ pairs → Rearranged .element x y) →
      (∀ x, x ∈ xs ↔ ∃ y, (x, y) ∈ pairs) → (∀ y, y ∈ ys ↔ ∃ x, (x, y) ∈ pairs) →
      Rearranged .fields (.list xs) (.list ys)
  /-- Two objects have the same names; what they select stands side by side. -/
  | element (both : List (String × Value × Value)) :
      (∀ k v w, (k, v, w) ∈ both → Rearranged .selected v w) →
      Rearranged .element (.obj (Entries.mapValues Prod.fst both))
        (.obj (Entries.mapValues Prod.snd both))
  | selected {xs ys : List Value} :
      Rearranged .fields (.list xs) (.list ys) → Rearranged .selected (.list xs) (.list ys)
  /-- What an object for a calculation says beside its fields is the same. -/
  | call (both : List (String × Value × Value)) :
      (∀ v w, ("fields", v, w) ∈ both → Rearranged .fields v w) →
      (∀ k v w, (k, v, w) ∈ both → k ≠ "fields" → v = w) →
      Rearranged .selected (.obj (Entries.mapValues Prod.fst both))
        (.obj (Entries.mapValues Prod.snd both))

namespace Rearranged

variable {part : Part} {v w x y : Value} {xs ys : List Value} {n : String}

theorem symm (h : Rearranged part v w) : Rearranged part w v := by
  have hswap : ∀ {both : List (String × Value × Value)},
      Entries.mapValues Prod.fst (Entries.mapValues Prod.swap both) =
          Entries.mapValues Prod.snd both ∧
        Entries.mapValues Prod.snd (Entries.mapValues Prod.swap both) =
          Entries.mapValues Prod.fst both := by
    intro both
    constructor <;> simp [Entries.mapValues]
  have hmem : ∀ {both : List (String × Value × Value)} {k : String} {v w : Value},
      (k, v, w) ∈ Entries.mapValues Prod.swap both → (k, w, v) ∈ both := by
    intro both k v w hm
    obtain ⟨⟨a, b⟩, hab, he⟩ := Entries.mem_mapValues.1 hm
    cases he
    exact hab
  induction h with
  | refl part v => exact .refl part v
  | fields pairs _ hxs hys ih =>
    refine .fields (pairs.map Prod.swap) (fun y x hm => ?_) (fun y => ?_) fun x => ?_
    · obtain ⟨⟨a, b⟩, hab, he⟩ := List.mem_map.1 hm
      cases he
      exact ih _ _ hab
    · simp [hys]
    · simp [hxs]
  | element both _ ih =>
    have h := element (Entries.mapValues Prod.swap both) fun k v w hm => ih k w v (hmem hm)
    rwa [hswap.1, hswap.2] at h
  | selected _ ih => exact .selected ih
  | call both _ hrest ih =>
    have h := call (Entries.mapValues Prod.swap both) (fun v w hm => ih w v (hmem hm))
      fun k v w hm hk => (hrest k w v (hmem hm) hk).symm
    rwa [hswap.1, hswap.2] at h

/-! ## Elements and picks -/

theorem exists_element (h : Rearranged .fields (.list xs) (.list ys)) (hx : x ∈ xs) :
    ∃ y ∈ ys, Rearranged .element x y := by
  cases h with
  | refl => exact ⟨x, hx, .refl _ x⟩
  | fields pairs hpairs hxs hys =>
    obtain ⟨y, hm⟩ := (hxs x).1 hx
    exact ⟨y, (hys y).2 ⟨x, hm⟩, hpairs x y hm⟩

/-- Lists are rearranged when each element of one has its like in the other. -/
theorem of_elements (hxs : ∀ x ∈ xs, ∃ y ∈ ys, Rearranged .element x y)
    (hys : ∀ y ∈ ys, ∃ x ∈ xs, Rearranged .element x y) :
    Rearranged .fields (.list xs) (.list ys) := by
  classical
  have hmem : ∀ x y, (x, y) ∈ (xs.product ys).filter (fun p => Rearranged .element p.1 p.2) ↔
      (x ∈ xs ∧ y ∈ ys) ∧ Rearranged .element x y := by
    intro x y
    rw [List.mem_filter, List.pair_mem_product, decide_eq_true_iff]
  refine .fields _ (fun x y hm => ((hmem x y).1 hm).2) (fun x => ?_) fun y => ?_
  · simp only [hmem]
    constructor
    · intro hx
      obtain ⟨y, hy, hxy⟩ := hxs x hx
      exact ⟨y, ⟨hx, hy⟩, hxy⟩
    · rintro ⟨y, ⟨hx, -⟩, -⟩
      exact hx
  · simp only [hmem]
    constructor
    · intro hy
      obtain ⟨x, hx, hxy⟩ := hys y hy
      exact ⟨x, ⟨hx, hy⟩, hxy⟩
    · rintro ⟨x, ⟨-, hy⟩, -⟩
      exact hy

/-- The elements of a list may stand in any order and any number of times. -/
theorem of_mem_iff (h : ∀ x, x ∈ xs ↔ x ∈ ys) : Rearranged .fields (.list xs) (.list ys) :=
  of_elements (fun x hx => ⟨x, (h x).1 hx, .refl _ x⟩) fun y hy => ⟨y, (h y).2 hy, .refl _ y⟩

/-- What is selected of a name in one list is selected in the other, perhaps rearranged. -/
theorem exists_selected (h : Rearranged .fields (.list xs) (.list ys)) (hv : v ∈ selectedOf xs n) :
    ∃ w ∈ selectedOf ys n, Rearranged .selected v w := by
  obtain ⟨entries, hentries, hm⟩ := mem_selectedOf_iff.1 hv
  obtain ⟨y, hy, hxy⟩ := h.exists_element hentries
  cases hxy with
  | refl => exact ⟨v, mem_selectedOf_iff.2 ⟨entries, hy, hm⟩, .refl _ v⟩
  | element both hboth =>
    obtain ⟨⟨v, w⟩, hvw, rfl⟩ := Entries.mem_mapValues.1 hm
    have hw : (n, w) ∈ Entries.mapValues Prod.snd both := Entries.mem_mapValues.2 ⟨_, hvw, rfl⟩
    exact ⟨w, mem_selectedOf_iff.2 ⟨_, hy, hw⟩, hboth n v w hvw⟩

theorem mem_pickedNames (h : Rearranged .fields (.list xs) (.list ys)) (hn : n ∈ pickedNames xs) :
    n ∈ pickedNames ys := by
  obtain ⟨o, ho⟩ := Entries.mem_keys.1 hn
  cases o with
  | some v =>
    obtain ⟨w, hw, -⟩ := h.exists_selected (mem_selectedOf.2 ho)
    exact Entries.mem_keys.2 ⟨some w, mem_selectedOf.1 hw⟩
  | none =>
    obtain ⟨x, hx, hp⟩ := mem_picks.1 ho
    obtain ⟨y, hy, hxy⟩ := h.exists_element hx
    cases hxy with
    | refl => exact Entries.mem_keys.2 ⟨none, mem_picks.2 ⟨x, hy, hp⟩⟩
    | element => simp [elementPicks] at hp

theorem mem_pickedNames_iff (h : Rearranged .fields (.list xs) (.list ys)) :
    n ∈ pickedNames xs ↔ n ∈ pickedNames ys :=
  ⟨h.mem_pickedNames, h.symm.mem_pickedNames⟩

/-! ## What is selected of a name -/

/-- Beside the fields an object for a calculation says the same, so the arguments are the same. -/
theorem get?_args_eq {both : List (String × Value × Value)}
    (hrest : ∀ k v w, (k, v, w) ∈ both → k ≠ "fields" → v = w) :
    Entries.get? (Entries.mapValues Prod.fst both) "args" =
      Entries.get? (Entries.mapValues Prod.snd both) "args" := by
  rw [Entries.get?_mapValues, Entries.get?_mapValues]
  cases hargs : Entries.get? both "args" with
  | none => rfl
  | some p =>
    have hp : p.1 = p.2 := hrest "args" p.1 p.2 (Entries.mem_of_get? hargs) (by decide)
    rw [Option.map_some, Option.map_some, hp]

theorem selectedArguments_eq (h : Rearranged .selected v w) (declared : Option (List Argument)) :
    selectedArguments declared v = selectedArguments declared w := by
  cases declared with
  | none => cases v <;> cases w <;> rfl
  | some args =>
    cases h with
    | refl => rfl
    | selected => rfl
    | call both _ hrest => rw [selectedArguments, selectedArguments, get?_args_eq hrest]

theorem fieldList (h : Rearranged .selected v w) :
    Rearranged .fields (.list (fieldList v)) (.list (fieldList w)) := by
  cases h with
  | refl => exact .refl _ _
  | selected h => exact h
  | call both hfields _ =>
    rw [Selection.fieldList, Selection.fieldList, Entries.get?_mapValues, Entries.get?_mapValues]
    cases hp : Entries.get? both "fields" with
    | none => exact .refl _ _
    | some p =>
      have hvw := hfields p.1 p.2 (Entries.mem_of_get? hp)
      rw [Option.map_some, Option.map_some]
      generalize p.1 = v at hvw
      generalize p.2 = w at hvw
      cases hvw with
      | refl => exact .refl _ _
      | fields pairs hpairs hxs hys => exact .fields pairs hpairs hxs hys

/-- The fields selected of a name in all of its picks are rearranged in turn. -/
theorem gathered (h : Rearranged .fields (.list xs) (.list ys)) (n : String) :
    Rearranged .fields (.list (gathered xs n)) (.list (gathered ys n)) := by
  have hhalf : ∀ {xs ys : List Value}, Rearranged .fields (.list xs) (.list ys) →
      ∀ x ∈ Selection.gathered xs n, ∃ y ∈ Selection.gathered ys n, Rearranged .element x y := by
    intro xs ys h x hx
    obtain ⟨v, hv, hxv⟩ := List.mem_flatMap.1 hx
    obtain ⟨w, hw, hvw⟩ := h.exists_selected hv
    obtain ⟨y, hyw, hxy⟩ := hvw.fieldList.exists_element hxv
    exact ⟨y, List.mem_flatMap.2 ⟨w, hw, hyw⟩, hxy⟩
  refine of_elements (hhalf h) fun y hy => ?_
  obtain ⟨x, hx, hyx⟩ := hhalf h.symm y hy
  exact ⟨x, hx, hyx.symm⟩

end Rearranged

/-! ## Validity -/

section valid

variable {g : Graph} {e : Entity} {r : Record} {maxDepth depth : Nat} {part : Part}
  {v w : Value} {xs ys : List Value} {k : String}

theorem agreeing_rearranged (h : Rearranged .fields (.list xs) (.list ys)) (hx : Agreeing e xs) :
    Agreeing e ys := by
  intro n r f declared hr hf hk v hv w hw
  obtain ⟨v', hv', hvv⟩ := h.symm.exists_selected hv
  obtain ⟨w', hw', hww⟩ := h.symm.exists_selected hw
  rw [hvv.selectedArguments_eq, hww.selectedArguments_eq]
  exact hx n r f declared hr hf hk v' hv' w' hw'

/-- Two values are valid in the same places of a selection. -/
def ValidAlike (g : Graph) (maxDepth : Nat) : Part → Value → Value → Prop
  | .fields, v, w => ∀ target depth, Valid g maxDepth target depth v → Valid g maxDepth target depth w
  | .element, x, y =>
    ∀ e depth, ValidElement g maxDepth e depth x → ValidElement g maxDepth e depth y
  | .selected, v, w =>
    ∀ e depth k, ValidEntry g maxDepth e depth k v → ValidEntry g maxDepth e depth k w

theorem not_valid_obj {target : Target} {entries : List (String × Value)} :
    ¬ Valid g maxDepth target depth (.obj entries) := by
  intro h
  cases h

/-- A list of fields is valid in the place of another that is selected of a name. -/
theorem validEntry_list {ys : List Value}
    (ih : ∀ target depth, Valid g maxDepth target depth (.list xs) →
      Valid g maxDepth target depth (.list ys))
    (h : ValidEntry g maxDepth e depth k (.list xs)) : ValidEntry g maxDepth e depth k (.list ys) := by
  cases h with
  | field hf hk hv => exact .field hf hk (ih _ _ hv)
  | shorthand hf hk ht hfit hv => exact .shorthand hf hk ht hfit (ih _ _ hv)
  | variant hu hv => exact .variant hu (ih _ _ hv)

theorem validAlike_of_rearranged (h : Rearranged part v w) : ValidAlike g maxDepth part v w := by
  induction h with
  | refl part v =>
    cases part with
    | fields => exact fun _ _ h => h
    | element => exact fun _ _ h => h
    | selected => exact fun _ _ _ h => h
  | @fields xs ys pairs hpairs hxs hys ih =>
    intro target depth hv
    rw [valid_list_iff] at hv ⊢
    obtain ⟨hd, hne, e, he, hitems, hagree⟩ := hv
    have hr : Rearranged .fields (.list xs) (.list ys) := .fields pairs hpairs hxs hys
    refine ⟨hd, ?_, e, he, fun y hy => ?_, agreeing_rearranged hr hagree⟩
    · obtain ⟨x, hx⟩ := List.exists_mem_of_ne_nil _ hne
      obtain ⟨y, hy, -⟩ := hr.exists_element hx
      exact List.ne_nil_of_mem hy
    · obtain ⟨x, hm⟩ := (hys y).1 hy
      exact ih x y hm e depth (hitems x ((hxs x).2 ⟨y, hm⟩))
  | element both _ ih =>
    intro e depth hv
    rw [validElement_obj_iff] at hv ⊢
    obtain ⟨hne, hentries⟩ := hv
    refine ⟨?_, fun k w hw => ?_⟩
    · simpa [Entries.mapValues] using hne
    · obtain ⟨⟨v, w⟩, hm, rfl⟩ := Entries.mem_mapValues.1 hw
      exact ih k v w hm e depth k (hentries k v (Entries.mem_mapValues.2 ⟨_, hm, rfl⟩))
  | selected _ ih => exact fun e depth k hv => validEntry_list ih hv
  | call both _ hrest ih =>
    intro e depth k hv
    have hargs := Rearranged.get?_args_eq hrest
    have hkeys : Entries.keys (Entries.mapValues Prod.fst both) =
        Entries.keys (Entries.mapValues Prod.snd both) := by
      simp [Entries.keys, Entries.mapValues]
    cases hv with
    | field _ _ hv => exact absurd hv not_valid_obj
    | @call _ _ _ _ _ _ _ w hf hk ht hnames hfit hw hv =>
      rw [Entries.get?_mapValues] at hw
      obtain ⟨p, hp, rfl⟩ := Option.map_eq_some_iff.1 hw
      have hw' : Entries.get? (Entries.mapValues Prod.snd both) "fields" = some p.2 := by
        rw [Entries.get?_mapValues, hp, Option.map_some]
      have hv' := ih p.1 p.2 (Entries.mem_of_get? hp) _ _ hv
      exact .call hf hk ht (hkeys ▸ hnames) (hargs ▸ hfit) hw' hv'
    | value hf hk ht hnames hfit => exact .value hf hk ht (hkeys ▸ hnames) (hargs ▸ hfit)
    | variant _ hv => exact absurd hv not_valid_obj

theorem valid_rearranged_iff {target : Target} (h : Rearranged .fields v w) :
    Valid g maxDepth target depth v ↔ Valid g maxDepth target depth w :=
  ⟨validAlike_of_rearranged h target depth, validAlike_of_rearranged h.symm target depth⟩

end valid

/-! ## Clashes -/

section clash

variable {g : Graph} {target : Target} {xs ys : List Value}

theorem called_rearranged {path : List String} {x : Value} (hx : Called g target xs path x)
    (h : Rearranged .fields (.list xs) (.list ys)) : Called g target ys path x := by
  induction hx generalizing ys with
  | here he hf hk hv =>
    obtain ⟨w, hw, hvw⟩ := h.exists_selected hv
    rw [hvw.selectedArguments_eq]
    exact .here he hf hk hw
  | deeper he hl hv _ ih =>
    obtain ⟨w, hw, hvw⟩ := h.exists_selected hv
    exact .deeper he hl hw (ih hvw.fieldList)

theorem clash_rearranged (h : Rearranged .fields (.list xs) (.list ys))
    (hx : Clash g target xs) : Clash g target ys := by
  obtain ⟨path, x, y, hx, hy, hne⟩ := hx
  exact ⟨path, x, y, called_rearranged hx h, called_rearranged hy h, hne⟩

end clash

/-! ## Shapes -/

section shape

variable {g : Graph} {e : Entity} {target : Target} {maxDepth depth : Nat} {xs ys : List Value}
  {n : String}

theorem equal_fieldWrap (f : Field) {s t : Shape} (h : Equal s t) : Equal (f.wrap s) (f.wrap t) := by
  obtain ⟨isNullable, hw⟩ := exists_wrap f
  rw [hw, hw]
  exact h.wrap f.isArray isNullable

/-- The first picks of a calculation in rearranged lists have equal arguments. -/
theorem equal_arguments {r : Record} {f : Field} {declared : Option (List Argument)} {v w : Value}
    (h : Rearranged .fields (.list xs) (.list ys)) (hagree : Agreeing (.record r) xs)
    (hf : r.field? n = some f) (hk : f.kind = .calculation declared)
    (hv : (selectedOf xs n).head? = some v) (hw : (selectedOf ys n).head? = some w) :
    (selectedArguments declared v).Equal (selectedArguments declared w) := by
  obtain ⟨w', hw', hww⟩ := h.symm.exists_selected (List.mem_of_head? hw)
  rw [hww.selectedArguments_eq]
  exact hagree n r f declared rfl hf hk v (List.mem_of_head? hv) w' hw'

theorem equal_calculation {f : Field} {declared : Option (List Argument)} {v w : Value} {s t : Shape}
    (hst : Equal s t) (hvw : (selectedArguments declared v).Equal (selectedArguments declared w)) :
    Equal (calculationShape f declared v s) (calculationShape f declared w t) := by
  rw [calculationShape, calculationShape, equal_calculation_iff]
  exact ⟨equal_fieldWrap f hst, hvw, rfl⟩

/-- The shapes under a name are equal when the ones below it are. -/
theorem equal_grouped (hn : PickedAs g maxDepth depth xs n e)
    (h : Rearranged .fields (.list xs) (.list ys)) (hagree : Agreeing e xs)
    (hbelow : ∀ next s t, Selects g maxDepth (depth + 1) xs n next →
      projectList g next (gathered xs n) = .ok s → projectList g next (gathered ys n) = .ok t →
      Equal s t)
    {s t : Shape} (hs : Grouped g xs e n s) (ht : Grouped g ys e n t) : Equal s t := by
  cases hn with
  | primitive hp hf =>
    rw [grouped_primitive_iff hf hp] at hs ht
    rw [hs, ht]
    exact Equal.refl _
  | field hp hf hk htarget hsel =>
    rw [grouped_field_iff hp hf hk htarget, htarget] at hs ht
    obtain ⟨s, hs, rfl⟩ := hs
    obtain ⟨t, ht, rfl⟩ := ht
    exact equal_fieldWrap _ (hbelow _ s t hsel hs ht)
  | value hp hf hk htarget =>
    rw [grouped_value_iff hp hf hk htarget] at hs ht
    obtain ⟨v, hv, rfl⟩ := hs
    obtain ⟨w, hw, rfl⟩ := ht
    exact equal_calculation (Equal.refl _) (equal_arguments h hagree hf hk hv hw)
  | call hp hf hk htarget hsel =>
    rw [grouped_call_iff hp hf hk htarget] at hs ht
    obtain ⟨v, hv, s, hs, rfl⟩ := hs
    obtain ⟨w, hw, t, ht, rfl⟩ := ht
    exact equal_calculation (hbelow _ s t hsel hs ht) (equal_arguments h hagree hf hk hv hw)
  | tagField htag hu =>
    rw [grouped_tagField_iff hu htag] at hs ht
    rw [hs, ht]
    exact Equal.refl _
  | scalar htag hu =>
    rw [grouped_scalar_iff htag hu] at hs ht
    rw [hs, ht]
    exact Equal.refl _
  | variant htag hu hsel =>
    rw [grouped_variant_iff htag hu] at hs ht
    obtain ⟨s, hs, rfl⟩ := hs
    obtain ⟨t, ht, rfl⟩ := ht
    exact equal_nullable_iff.2 (hbelow _ s t hsel hs ht)

/-- Rearranged lists of valid elements have equal shapes, where they have one. -/
theorem equal_of_rearranged (hg : g.Closed) (he : g.follow? target = some e)
    (hxs : ∀ x ∈ xs, ValidElement g maxDepth e depth x)
    (h : Rearranged .fields (.list xs) (.list ys)) {s t : Shape}
    (hs : projectList g target xs = .ok s) (ht : projectList g target ys = .ok t) : Equal s t := by
  refine elements_induction (P := fun target xs => ∀ ys s t, Rearranged .fields (.list xs) (.list ys) →
    projectList g target xs = .ok s → projectList g target ys = .ok t → Equal s t) ?_ he hxs ys s t h hs ht
  intro target e depth xs he hxs hbelow ys s t h hs ht
  obtain ⟨id, -, hid⟩ := Graph.get?_of_follow? he
  have hys : ∀ y ∈ ys, ValidElement g maxDepth e depth y := by
    intro y hy
    obtain ⟨x, hx, hyx⟩ := h.symm.exists_element hy
    exact validAlike_of_rearranged hyx.symm e depth (hxs x hx)
  obtain ⟨hagree, fs, rfl, hkeys, hfs⟩ := (projectList_eq_ok_iff_grouped hg he hxs).1 hs
  obtain ⟨-, gs, rfl, hkeys', hgs⟩ := (projectList_eq_ok_iff_grouped hg he hys).1 ht
  have hmem : ∀ n, n ∈ Entries.keys fs ↔ n ∈ pickedNames xs := by
    intro n
    rw [hkeys, List.mem_eraseDups]
  refine equal_object ?_ ?_ (fun n => ?_) fun n a b ha hb => ?_
  · rw [Entries.Distinct, hkeys]
    exact Entries.nodup_eraseDups _
  · rw [Entries.Distinct, hkeys']
    exact Entries.nodup_eraseDups _
  · rw [hmem, hkeys', List.mem_eraseDups, h.mem_pickedNames_iff]
  · have hn := pickedAs hg hid hxs ((hmem n).1 (Entries.mem_keys.2 ⟨a, ha⟩))
    exact equal_grouped hn h hagree (fun next s t hsel => hbelow n next hsel _ s t (h.gathered n))
      (hfs n a ha) (hgs n b hb)

end shape

/-! ## The outcome of a selection -/

section outcome

variable {text : List Char} {limits L : Limits} {schema : Schema} {id : EntityId}
  {s s' : Value}

theorem check_rearranged_iff {g : Graph} (h : Rearranged .fields s s') :
    check g L id s = .ok () ↔ check g L id s' = .ok () := by
  rw [check_eq_ok_iff, check_eq_ok_iff, valid_rearranged_iff h]

theorem project_of_clash {g : Graph} (hg : g.Closed) {items : List Value}
    (hc : check g L id (.list items) = .ok ()) (hclash : Clash g (.entity id) items) :
    project g id (.list items) = .error (.conflict .arguments) := by
  cases hp : project g id (.list items) with
  | ok s => exact absurd hclash ((exists_project_iff hg hc).1 ⟨s, hp⟩)
  | error f => rw [(project_settles hg hc).of_error hp]

/-- Rearranging the fields of a selection does not change whether it passes the check, nor, up to
the order of keys, what its shape is; where it has none, the fault is the same. -/
theorem rearranged_selection_outcome (hs : Schema.ofText text limits = .ok schema)
    (h : Rearranged .fields s s') :
    (check schema.graph L id s = .ok () ↔ check schema.graph L id s' = .ok ()) ∧
    (check schema.graph L id s = .ok () →
      (∃ t t', project schema.graph id s = .ok t ∧ project schema.graph id s' = .ok t' ∧
        t.Equal t') ∨
      project schema.graph id s = .error (.conflict .arguments) ∧
        project schema.graph id s' = .error (.conflict .arguments)) := by
  have hg := Schema.closed_of_ofText hs
  refine ⟨check_rearranged_iff h, fun hc => ?_⟩
  have hc' := (check_rearranged_iff h).1 hc
  obtain ⟨e, xs, he, rfl, hxs, -⟩ := elements_of_check hc
  obtain ⟨-, ys, -, rfl, -, -⟩ := elements_of_check hc'
  by_cases hclash : Clash schema.graph (.entity id) xs
  · exact .inr ⟨project_of_clash hg hc hclash, project_of_clash hg hc' (clash_rearranged h hclash)⟩
  · have hclash' : ¬ Clash schema.graph (.entity id) ys :=
      fun hy => hclash (clash_rearranged h.symm hy)
    obtain ⟨t, ht⟩ := (exists_project_iff hg hc).2 hclash
    obtain ⟨t', ht'⟩ := (exists_project_iff hg hc').2 hclash'
    have he' : schema.graph.follow? (.entity id) = some e := he
    exact .inl ⟨t, t', ht, ht', equal_of_rearranged hg he' hxs h
      (project_list _ _ _ ▸ ht) (project_list _ _ _ ▸ ht')⟩

/-- The fields of `authorTwice` in another order and partly repeated. -/
def authorThrice : Value :=
  .list [.obj [("author", .list [.str "email"])], .obj [("author", .list [.str "name", .str "name"])],
    .str "title", .obj [("author", .list [.str "email"])]]

theorem rearranged_authorThrice : Rearranged .fields authorTwice authorThrice := by
  have hname : Rearranged .element (.obj [("author", .list [.str "name"])])
      (.obj [("author", .list [.str "name", .str "name"])]) := by
    refine .element [("author", .list [.str "name"], .list [.str "name", .str "name"])] ?_
    intro k v w hm
    cases List.mem_singleton.1 hm
    exact .selected (.of_mem_iff (by simp))
  refine .of_elements ?_ ?_
  · simp only [List.forall_mem_cons]
    exact ⟨⟨_, by simp, hname⟩, ⟨_, by simp, .refl _ _⟩, ⟨_, by simp, .refl _ _⟩, by simp⟩
  · simp only [List.forall_mem_cons]
    exact ⟨⟨_, by simp, .refl _ _⟩, ⟨_, by simp, hname⟩, ⟨_, by simp, .refl _ _⟩,
      ⟨_, by simp, .refl _ _⟩, by simp⟩

theorem rearranged_selection_outcome_authors : ∃ schema,
    Schema.ofText postsText .standard = .ok schema ∧ Rearranged .fields authorTwice authorThrice ∧
    (check schema.graph .standard ⟨0⟩ authorTwice = .ok () ↔
      check schema.graph .standard ⟨0⟩ authorThrice = .ok ()) ∧
    (check schema.graph .standard ⟨0⟩ authorTwice = .ok () →
      (∃ t t', project schema.graph ⟨0⟩ authorTwice = .ok t ∧
        project schema.graph ⟨0⟩ authorThrice = .ok t' ∧ t.Equal t') ∨
      project schema.graph ⟨0⟩ authorTwice = .error (.conflict .arguments) ∧
        project schema.graph ⟨0⟩ authorThrice = .error (.conflict .arguments)) := by
  have hread : Settles (fun _ => True) (fun _ => False) (Schema.ofText postsText .standard) := by
    decide +kernel
  obtain ⟨schema, hs, -⟩ := hread.exists_ok
  exact ⟨schema, hs, rearranged_authorThrice, rearranged_selection_outcome hs rearranged_authorThrice⟩

end outcome

end Shapewise.Selection
