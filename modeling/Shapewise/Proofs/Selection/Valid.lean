import Shapewise.Proofs.Outcome
import Shapewise.Proofs.Selection.Picks

/-!
# Valid selections

The grammar of selections, said without an order in which it is checked: `Valid` holds of a
selection of an entity at a depth when the depth is within the limit, the selection is a list that
is not empty, each of its elements is valid by itself, and the picks of each calculation agree in
their arguments.

The main result is `check_eq_ok_iff`: exactly the valid selections pass the check. The check carries
the arguments of the last pick of each calculation along; `notePicks_isOk_iff` says that this
compares every two of them.
-/

namespace Shapewise.Selection

open Outcome

/-! ## The grammar -/

/-- The arguments given with a calculation fit those it declares: each is declared and takes its
value, and none that is required is left out. -/
def ArgumentsFit (declared : Option (List Argument)) : Option Value → Prop
  | none => ∀ a ∈ declared.getD [], a.isRequired = false
  | some given => ∃ supplied, given = .obj supplied ∧
      (∀ name value, (name, value) ∈ supplied →
        ∃ a, Arguments.find? (declared.getD []) name = some a ∧ a.accepts value = true) ∧
      ∀ a ∈ declared.getD [], a.isRequired = true → a.name ∈ Entries.keys supplied

/-- A name that may stand alone: a primitive field, the tag field or the tag of a scalar. -/
def ValidName : Entity → String → Prop
  | .record r, name => name ∈ Entries.keys r.primitives
  | .union u, name => u.tagField = some name ∨ ∃ type, (name, Target.scalar type) ∈ u.variants

/-- Every two picks of a name that is a calculation have equal arguments. -/
def AgreeingAt (e : Entity) (items : List Value) (name : String) : Prop :=
  ∀ r f declared, e = .record r → r.field? name = some f → f.kind = .calculation declared →
    ∀ v ∈ selectedOf items name, ∀ w ∈ selectedOf items name,
      (selectedArguments declared v).Equal (selectedArguments declared w)

/-- Every two picks of one calculation have equal arguments. -/
def Agreeing (e : Entity) (items : List Value) : Prop :=
  ∀ name, AgreeingAt e items name

mutual
/-- A selection of a target at a depth. -/
inductive Valid (g : Graph) (maxDepth : Nat) : Target → Nat → Value → Prop
  | list {target : Target} {depth : Nat} {items : List Value} {e : Entity} :
      depth ≤ maxDepth → items ≠ [] → g.follow? target = some e →
      (∀ item ∈ items, ValidElement g maxDepth e depth item) → Agreeing e items →
      Valid g maxDepth target depth (.list items)
/-- An element of a selection: a name alone or an object. -/
inductive ValidElement (g : Graph) (maxDepth : Nat) : Entity → Nat → Value → Prop
  | name {e : Entity} {depth : Nat} {name : String} :
      ValidName e name → ValidElement g maxDepth e depth (.str name)
  | object {e : Entity} {depth : Nat} {entries : List (String × Value)} :
      entries ≠ [] → (∀ k v, (k, v) ∈ entries → ValidEntry g maxDepth e depth k v) →
      ValidElement g maxDepth e depth (.obj entries)
/-- A name in an object with what is selected of it. -/
inductive ValidEntry (g : Graph) (maxDepth : Nat) : Entity → Nat → String → Value → Prop
  /-- A relationship, a nested map or a union field. -/
  | field {r : Record} {depth : Nat} {k : String} {f : Field} {v : Value} :
      r.field? k = some f → (∀ declared, f.kind ≠ .calculation declared) →
      Valid g maxDepth f.target (depth + 1) v → ValidEntry g maxDepth (.record r) depth k v
  /-- A calculation of an entity with the fields alone. -/
  | shorthand {r : Record} {depth : Nat} {k : String} {f : Field}
      {declared : Option (List Argument)} {id : EntityId} {items : List Value} :
      r.field? k = some f → f.kind = .calculation declared → f.target = .entity id →
      ArgumentsFit declared none → Valid g maxDepth (.entity id) (depth + 1) (.list items) →
      ValidEntry g maxDepth (.record r) depth k (.list items)
  /-- A calculation of an entity with arguments and fields. -/
  | call {r : Record} {depth : Nat} {k : String} {f : Field}
      {declared : Option (List Argument)} {id : EntityId} {entries : List (String × Value)}
      {v : Value} :
      r.field? k = some f → f.kind = .calculation declared → f.target = .entity id →
      (∀ l ∈ Entries.keys entries, l = "args" ∨ l = "fields") →
      ArgumentsFit declared (Entries.get? entries "args") →
      Entries.get? entries "fields" = some v → Valid g maxDepth (.entity id) (depth + 1) v →
      ValidEntry g maxDepth (.record r) depth k (.obj entries)
  /-- A calculation of a plain value. -/
  | value {r : Record} {depth : Nat} {k : String} {f : Field}
      {declared : Option (List Argument)} {entries : List (String × Value)} :
      r.field? k = some f → f.kind = .calculation declared → f.target.isEntity = false →
      (∀ l ∈ Entries.keys entries, l = "args") →
      ArgumentsFit declared (Entries.get? entries "args") →
      ValidEntry g maxDepth (.record r) depth k (.obj entries)
  /-- A variant that is an entity. -/
  | variant {u : Union} {depth : Nat} {k : String} {id : EntityId} {v : Value} :
      u.variant? k = some (.entity id) → Valid g maxDepth (.entity id) (depth + 1) v →
      ValidEntry g maxDepth (.union u) depth k v
end

/-! ## Arguments and names -/

theorem checkSupplied_eq_ok_iff {declared : List Argument} {supplied : List (String × Value)} :
    checkSupplied declared supplied = .ok () ↔ ∀ name value, (name, value) ∈ supplied →
      ∃ a, Arguments.find? declared name = some a ∧ a.accepts value = true := by
  induction supplied with
  | nil => simp [checkSupplied]
  | cons e supplied ih =>
    obtain ⟨k, v⟩ := e
    rw [checkSupplied]
    cases hf : Arguments.find? declared k with
    | none =>
      refine iff_of_false (by simp) fun h => ?_
      obtain ⟨a, ha, -⟩ := h k v List.mem_cons_self
      rw [hf] at ha
      cases ha
    | some a =>
      by_cases hv : a.accepts v = true
      · simp only [hv, if_true, ih, List.mem_cons, Prod.mk.injEq]
        refine ⟨fun h name value hm => ?_, fun h name value hm => h name value (.inr hm)⟩
        rcases hm with ⟨rfl, rfl⟩ | hm
        · exact ⟨a, hf, hv⟩
        · exact h name value hm
      · refine iff_of_false (by simp [hv]) fun h => ?_
        obtain ⟨b, hb, hbv⟩ := h k v List.mem_cons_self
        rw [hf] at hb
        exact hv (Option.some.inj hb ▸ hbv)

theorem checkRequired_eq_ok_iff {supplied : List (String × Value)} {names : List String} :
    checkRequired supplied names = .ok () ↔ ∀ n ∈ names, n ∈ Entries.keys supplied := by
  induction names with
  | nil => simp [checkRequired]
  | cons n names ih =>
    rw [checkRequired, List.forall_mem_cons, ← ih, ← Entries.has_eq_true_iff]
    by_cases hn : Entries.has supplied n = true <;> simp [hn]

theorem mem_requiredNames {args : List Argument} {name : String} :
    name ∈ Arguments.requiredNames args ↔ ∃ a ∈ args, a.isRequired = true ∧ a.name = name := by
  simp [Arguments.requiredNames, Arguments.names, and_assoc]

theorem checkArguments_eq_ok_iff {calculation : String} {declared : Option (List Argument)}
    {given : Value} :
    checkArguments calculation declared given = .ok () ↔ ArgumentsFit declared (some given) := by
  cases given with
  | obj supplied =>
    cases declared with
    | none =>
      rw [checkArguments, ArgumentsFit]
      cases supplied with
      | nil => simp
      | cons e supplied =>
        refine iff_of_false (by simp) ?_
        rintro ⟨_, he, h, -⟩
        cases he
        obtain ⟨a, ha, -⟩ := h e.1 e.2 List.mem_cons_self
        simp [Arguments.find?] at ha
    | some args =>
      rw [checkArguments, bind_eq_ok_iff]
      constructor
      · rintro ⟨_, hs, hr⟩
        exact ⟨supplied, rfl, checkSupplied_eq_ok_iff.1 hs, fun a ha hreq =>
          checkRequired_eq_ok_iff.1 hr _ (mem_requiredNames.2 ⟨a, ha, hreq, rfl⟩)⟩
      · rintro ⟨_, he, hs, hr⟩
        cases he
        refine ⟨(), checkSupplied_eq_ok_iff.2 hs, checkRequired_eq_ok_iff.2 fun n hn => ?_⟩
        obtain ⟨a, ha, hreq, rfl⟩ := mem_requiredNames.1 hn
        exact hr a ha hreq
  | _ => cases declared <;> simp [checkArguments, ArgumentsFit]

theorem checkNoneRequired_eq_ok_iff {declared : Option (List Argument)} :
    checkNoneRequired declared = .ok () ↔ ArgumentsFit declared none := by
  cases declared with
  | none => simp [checkNoneRequired, ArgumentsFit]
  | some args =>
    rw [checkNoneRequired, ArgumentsFit, Option.getD_some]
    by_cases h : Arguments.hasRequired args = true
    · refine iff_of_false (by simp [h]) fun hn => ?_
      obtain ⟨a, ha, hr⟩ := List.any_eq_true.1 h
      rw [hn a ha] at hr
      cases hr
    · refine iff_of_true (by simp [h]) fun a ha => ?_
      rw [← Bool.not_eq_true]
      exact fun hr => h (List.any_eq_true.2 ⟨a, ha, hr⟩)

theorem strayKeys_isEmpty_iff {entries : List (String × Value)} :
    (strayKeys entries).names.isEmpty = true ↔
      ∀ l ∈ Entries.keys entries, l = "args" ∨ l = "fields" := by
  have hmem : ∀ l, l ∈ (strayKeys entries).names ↔
      l ∈ Entries.keys entries ∧ l ≠ "args" ∧ l ≠ "fields" := by
    intro l
    show l ∈ strayKeys entries ↔ _
    rw [strayKeys, NameSet.mem_ofList, List.mem_filter]
    simp
  rw [List.isEmpty_iff, List.eq_nil_iff_forall_not_mem]
  simp only [hmem, not_and, not_not]
  refine forall_congr' fun l => imp_congr_right fun _ => ?_
  tauto

theorem causeAt_eq_ok_iff {α : Type} {name : String} {x : Except SelectionCause α} {a : α} :
    causeAt name x = .ok a ↔ x = .ok a := by
  cases x <;> simp [causeAt, faultAt]

theorem within_eq_ok_iff {α : Type} {name : String} {x : Except SelectionFault α} {a : α} :
    within name x = .ok a ↔ x = .ok a := by
  cases x <;> simp [within]

theorem checkPrimitive_eq_ok_iff {r : Record} {name : String} :
    checkPrimitive r name = .ok () ↔ ValidName (.record r) name := by
  rw [checkPrimitive, ValidName, ← Entries.has_eq_true_iff]
  by_cases hp : Entries.has r.primitives name = true
  · simp [hp]
  · by_cases hf : Entries.has r.fields name = true <;> simp [hp, hf, faultAt]

theorem checkTag_eq_ok_iff {u : Union} {tag : String} :
    checkTag u tag = .ok () ↔ ValidName (.union u) tag := by
  have hsel : tag ∈ (Entity.union u).selectable ↔ ValidName (.union u) tag := by
    simp only [Entity.selectable, ValidName, NameSet.mem_ofList, List.mem_append,
      Option.mem_toList, Entries.mem_keys, List.mem_filter]
    refine or_congr_right ⟨?_, ?_⟩
    · rintro ⟨t, hm, ht⟩
      cases t with
      | scalar type => exact ⟨type, hm⟩
      | _ => cases ht
    · rintro ⟨type, hm⟩
      exact ⟨.scalar type, hm, rfl⟩
  rw [checkTag, ← hsel]
  by_cases h : tag ∈ (Entity.union u).selectable
  · simp [h]
  · by_cases hv : Entries.has u.variants tag = true <;> simp [h, hv, faultAt]

theorem complexField_eq_ok_iff {r : Record} {name : String} {f : Field} :
    complexField r name = .ok f ↔ r.field? name = some f := by
  unfold complexField
  cases r.field? name with
  | some f' => simp
  | none => by_cases hp : Entries.has r.primitives name = true <;> simp [hp, faultAt]

theorem variantEntity_eq_ok_iff {u : Union} {tag : String} {id : EntityId} :
    variantEntity u tag = .ok id ↔ u.variant? tag = some (.entity id) := by
  unfold variantEntity
  rcases u.variant? tag with _ | (_ | type | id') <;> simp [faultAt]

theorem checkCalculation_list_eq_ok_iff {name : String} {f : Field}
    {declared : Option (List Argument)} {items : List Value} :
    checkCalculation name f declared (.list items) = .ok () ↔
      ArgumentsFit declared none ∧ f.target.isEntity = true := by
  rw [checkCalculation, then_eq_ok_iff, checkNoneRequired_eq_ok_iff]
  by_cases ht : f.target.isEntity = true <;> simp [ht]

theorem checkCalculation_obj_eq_ok_iff {name : String} {f : Field}
    {declared : Option (List Argument)} {entries : List (String × Value)} :
    checkCalculation name f declared (.obj entries) = .ok () ↔
      (∀ l ∈ Entries.keys entries, l = "args" ∨ l = "fields") ∧
        ArgumentsFit declared (Entries.get? entries "args") ∧
        (f.target.isEntity = true ↔ "fields" ∈ Entries.keys entries) := by
  rw [checkCalculation, ← strayKeys_isEmpty_iff, ← Entries.has_eq_true_iff]
  by_cases hs : (strayKeys entries).names.isEmpty = true
  · rw [if_neg (by simp [hs])]
    cases Entries.get? entries "args" with
    | none =>
      simp only [then_eq_ok_iff, checkNoneRequired_eq_ok_iff, hs, true_and]
      refine and_congr_right fun _ => ?_
      cases f.target.isEntity <;> cases Entries.has entries "fields" <;> simp
    | some given =>
      simp only [then_eq_ok_iff, mapError_eq_ok_iff, checkArguments_eq_ok_iff, hs, true_and]
      refine and_congr_right fun _ => ?_
      cases f.target.isEntity <;> cases Entries.has entries "fields" <;> simp
  · rw [if_pos (by simpa using hs)]
    exact iff_of_false (by simp) fun h => hs h.1

/-! ## Agreement of picks -/

/-- The calculations among picks, each with the arguments of the pick. -/
def calls (r : Record) (ps : List (String × Option Value)) : List (String × Value) :=
  ps.filterMap fun p =>
    match r.field? p.1, p.2 with
    | some f, some v =>
      match f.kind with
      | .calculation declared => some (p.1, selectedArguments declared v)
      | _ => none
    | _, _ => none

/-- Notes the arguments of picks one after the other. -/
def notePicks (picked : Picked) (cs : List (String × Value)) : Except SelectionCause Picked :=
  cs.foldlM (fun picked c => notePick picked c.1 c.2) picked

theorem mem_calls {r : Record} {ps : List (String × Option Value)} {name : String} {x : Value} :
    (name, x) ∈ calls r ps ↔ ∃ v f declared, (name, some v) ∈ ps ∧ r.field? name = some f ∧
      f.kind = .calculation declared ∧ selectedArguments declared v = x := by
  rw [calls, List.mem_filterMap]
  constructor
  · rintro ⟨⟨n, o⟩, hp, h⟩
    split at h
    · next f v hf ho =>
      split at h
      · next declared hk =>
        obtain ⟨rfl, rfl⟩ := Prod.mk.inj (Option.some.inj h)
        exact ⟨v, f, declared, by rwa [← ho], hf, hk, rfl⟩
      · cases h
    · cases h
  · rintro ⟨v, f, declared, hp, hf, hk, rfl⟩
    exact ⟨(name, some v), hp, by simp [hf, hk]⟩

theorem calls_append (r : Record) (ps qs : List (String × Option Value)) :
    calls r (ps ++ qs) = calls r ps ++ calls r qs :=
  List.filterMap_append

@[simp] theorem calls_nil (r : Record) : calls r [] = [] := rfl

theorem calls_cons_none (r : Record) (name : String) (ps : List (String × Option Value)) :
    calls r ((name, none) :: ps) = calls r ps := by
  cases hf : r.field? name <;> simp [calls]

section cons

variable {r : Record} {name : String} {f : Field} (v : Value) (ps : List (String × Option Value))

theorem calls_cons_calculation {declared : Option (List Argument)} (hf : r.field? name = some f)
    (hk : f.kind = .calculation declared) :
    calls r ((name, some v) :: ps) = (name, selectedArguments declared v) :: calls r ps := by
  simp [calls, hf, hk]

theorem calls_cons_field (hf : r.field? name = some f)
    (hk : ∀ declared, f.kind ≠ .calculation declared) :
    calls r ((name, some v) :: ps) = calls r ps := by
  cases hkind : f.kind with
  | calculation declared => exact absurd hkind (hk declared)
  | _ => simp [calls, hf, hkind]

end cons

theorem notePicks_nil (picked : Picked) : notePicks picked [] = .ok picked := rfl

theorem notePicks_cons_eq_ok_iff {picked picked' : Picked} {name : String} {x : Value}
    {cs : List (String × Value)} :
    notePicks picked ((name, x) :: cs) = .ok picked' ↔
      ∃ p, notePick picked name x = .ok p ∧ notePicks p cs = .ok picked' := by
  rw [notePicks, List.foldlM_cons, bind_eq_ok_iff]
  rfl

theorem notePicks_append_eq_ok_iff {picked picked' : Picked} {cs ds : List (String × Value)} :
    notePicks picked (cs ++ ds) = .ok picked' ↔
      ∃ p, notePicks picked cs = .ok p ∧ notePicks p ds = .ok picked' := by
  rw [notePicks, List.foldlM_append, bind_eq_ok_iff]
  rfl

theorem notePick_eq_ok_iff {picked picked' : Picked} {name : String} {x : Value} :
    notePick picked name x = .ok picked' ↔
      (∀ y, Entries.get? picked name = some y → y.Equal x) ∧
        Entries.put picked name x = picked' := by
  unfold notePick
  cases Entries.get? picked name with
  | none => simp
  | some y => by_cases h : y.Equal x <;> simp [h]

/-- The arguments of picks of one name are equal, to one another and to what was noted for the name
before. -/
def AgreesWith (picked : Picked) (cs : List (String × Value)) : Prop :=
  ∀ n x, (n, x) ∈ cs →
    (∀ y, Entries.get? picked n = some y → y.Equal x) ∧ ∀ y, (n, y) ∈ cs → y.Equal x

/-- Picks agree when the first does with what was noted and the others do after it is noted. -/
theorem agreesWith_cons_iff {picked : Picked} {m : String} {z : Value}
    {cs : List (String × Value)} :
    AgreesWith picked ((m, z) :: cs) ↔ (∀ y, Entries.get? picked m = some y → y.Equal z) ∧
      AgreesWith (Entries.put picked m z) cs := by
  constructor
  · intro h
    refine ⟨(h m z List.mem_cons_self).1, fun n x hx => ⟨fun y hy => ?_, fun y hy => ?_⟩⟩
    · rw [Entries.get?_put] at hy
      split at hy
      · next hn =>
        subst hn
        rw [← Option.some.inj hy]
        exact (h m x (List.mem_cons_of_mem _ hx)).2 z List.mem_cons_self
      · exact (h n x (List.mem_cons_of_mem _ hx)).1 y hy
    · exact (h n x (List.mem_cons_of_mem _ hx)).2 y (List.mem_cons_of_mem _ hy)
  · rintro ⟨hz, h⟩ n x hx
    -- noting the first pick replaces what was noted; later picks agree with that by way of it
    have hlater : ∀ y, (m, y) ∈ cs → z.Equal y := fun y hy =>
      (h m y hy).1 z (by rw [Entries.get?_put, if_pos rfl])
    rcases List.mem_cons.1 hx with he | hx'
    · obtain ⟨rfl, rfl⟩ := Prod.mk.inj he
      refine ⟨hz, fun y hy => ?_⟩
      rcases List.mem_cons.1 hy with he | hy
      · exact (Prod.mk.inj he).2 ▸ Value.Equal.refl _
      · exact (hlater y hy).symm
    · obtain ⟨hput, hcs⟩ := h n x hx'
      refine ⟨fun y hy => ?_, fun y hy => ?_⟩
      · by_cases hn : m = n
        · subst hn
          exact (hz y hy).trans (hlater x hx')
        · exact hput y (by rw [Entries.get?_put, if_neg hn, hy])
      · rcases List.mem_cons.1 hy with he | hy
        · obtain ⟨hn, rfl⟩ := Prod.mk.inj he
          exact hlater x (hn ▸ hx')
        · exact hcs y hy

/-- Noting picks succeeds when they agree with one another and with what was noted before. -/
theorem notePicks_isOk_iff {picked : Picked} {cs : List (String × Value)} :
    (∃ picked', notePicks picked cs = .ok picked') ↔ AgreesWith picked cs := by
  induction cs generalizing picked with
  | nil => simp [notePicks_nil, AgreesWith]
  | cons c cs ih =>
    obtain ⟨m, z⟩ := c
    rw [agreesWith_cons_iff, ← ih]
    simp only [notePicks_cons_eq_ok_iff, notePick_eq_ok_iff]
    constructor
    · rintro ⟨picked', _, ⟨hz, rfl⟩, h⟩
      exact ⟨hz, picked', h⟩
    · rintro ⟨hz, picked', h⟩
      exact ⟨picked', _, ⟨hz, rfl⟩, h⟩

/-- The picks of a record agree when noting the arguments of their calculations succeeds. -/
theorem agreeing_record_iff {r : Record} {items : List Value} :
    Agreeing (.record r) items ↔ ∃ picked, notePicks [] (calls r (picks items)) = .ok picked := by
  rw [notePicks_isOk_iff]
  constructor
  · intro h n x hx
    obtain ⟨v, f, declared, hv, hf, hk, rfl⟩ := mem_calls.1 hx
    refine ⟨fun y hy => by simp at hy, fun y hy => ?_⟩
    obtain ⟨w, f', declared', hw, hf', hk', rfl⟩ := mem_calls.1 hy
    obtain rfl : f = f' := Option.some.inj (hf.symm.trans hf')
    obtain rfl : declared = declared' := FieldKind.calculation.inj (hk.symm.trans hk')
    exact h n r f declared rfl hf hk w (mem_selectedOf.2 hw) v (mem_selectedOf.2 hv)
  · rintro h n _ f declared ⟨⟩ hf hk v hv w hw
    exact (h n _ (mem_calls.2 ⟨w, f, declared, mem_selectedOf.1 hw, hf, hk, rfl⟩)).2 _
      (mem_calls.2 ⟨v, f, declared, mem_selectedOf.1 hv, hf, hk, rfl⟩)

theorem agreeing_union (u : Union) (items : List Value) : Agreeing (.union u) items := by
  rintro n r f declared ⟨⟩

/-! ## The grammar by what an entity declares -/

section grammar

variable {g : Graph} {maxDepth depth : Nat} {r : Record} {k : String} {f : Field} {v : Value}

theorem valid_list_iff {target : Target} {items : List Value} :
    Valid g maxDepth target depth (.list items) ↔ depth ≤ maxDepth ∧ items ≠ [] ∧
      ∃ e, g.follow? target = some e ∧ (∀ item ∈ items, ValidElement g maxDepth e depth item) ∧
        Agreeing e items := by
  constructor
  · rintro ⟨hd, hne, he, hitems, hagree⟩
    exact ⟨hd, hne, _, he, hitems, hagree⟩
  · rintro ⟨hd, hne, e, he, hitems, hagree⟩
    exact .list hd hne he hitems hagree

theorem validElement_str_iff {e : Entity} {name : String} :
    ValidElement g maxDepth e depth (.str name) ↔ ValidName e name := by
  constructor
  · rintro ⟨h⟩
    exact h
  · exact .name

theorem validElement_obj_iff {e : Entity} {entries : List (String × Value)} :
    ValidElement g maxDepth e depth (.obj entries) ↔
      entries ≠ [] ∧ ∀ k v, (k, v) ∈ entries → ValidEntry g maxDepth e depth k v := by
  constructor
  · rintro ⟨⟩
    exact ⟨‹_›, ‹_›⟩
  · rintro ⟨hne, h⟩
    exact .object hne h

theorem validEntry_field_iff (hf : r.field? k = some f)
    (hk : ∀ declared, f.kind ≠ .calculation declared) :
    ValidEntry g maxDepth (.record r) depth k v ↔ Valid g maxDepth f.target (depth + 1) v := by
  constructor
  · rintro (⟨hf', -, hv⟩ | ⟨hf', hk', -⟩ | ⟨hf', hk', -⟩ | ⟨hf', hk', -⟩)
    all_goals obtain rfl := Option.some.inj (hf.symm.trans hf')
    · exact hv
    all_goals exact absurd hk' (hk _)
  · exact .field hf hk

/-- A calculation is selected with what is said about it beside the fields and, where its result is
an entity, with a selection of that entity. -/
theorem validEntry_calculation_iff {declared : Option (List Argument)}
    (hf : r.field? k = some f) (hk : f.kind = .calculation declared) :
    ValidEntry g maxDepth (.record r) depth k v ↔
      checkCalculation k f declared v = .ok () ∧ (f.target.isEntity = true →
        (∀ items, v = .list items → Valid g maxDepth f.target (depth + 1) (.list items)) ∧
          ∀ entries w, v = .obj entries → Entries.get? entries "fields" = some w →
            Valid g maxDepth f.target (depth + 1) w) := by
  constructor
  · rintro (⟨hf', hk', -⟩ | ⟨hf', hk', ht, ha, hv⟩ | ⟨hf', hk', ht, hkeys, ha, hw, hv⟩ |
      ⟨hf', hk', ht, hkeys, ha⟩)
    all_goals obtain rfl := Option.some.inj (hf.symm.trans hf')
    · exact absurd hk (hk' declared)
    all_goals obtain rfl := FieldKind.calculation.inj (hk.symm.trans hk')
    · refine ⟨checkCalculation_list_eq_ok_iff.2 ⟨ha, by rw [ht]; rfl⟩, fun _ => ?_⟩
      rw [ht]
      exact ⟨fun _ he => by cases he; exact hv, by simp⟩
    · refine ⟨checkCalculation_obj_eq_ok_iff.2 ⟨hkeys, ha, ?_⟩, fun _ => ?_⟩
      · exact iff_of_true (by rw [ht]; rfl) (Entries.exists_get?_iff.1 ⟨_, hw⟩)
      · rw [ht]
        refine ⟨by simp, fun entries w' he hw' => ?_⟩
        cases he
        rw [hw] at hw'
        exact Option.some.inj hw' ▸ hv
    · refine ⟨checkCalculation_obj_eq_ok_iff.2 ⟨fun l hl => .inl (hkeys l hl), ha, ?_⟩, by simp [ht]⟩
      refine iff_of_false (by simp [ht]) fun hl => ?_
      exact absurd (hkeys _ hl) (by decide)
  · rintro ⟨hc, hv⟩
    cases v with
    | list items =>
      obtain ⟨ha, ht⟩ := checkCalculation_list_eq_ok_iff.1 hc
      have hv := (hv ht).1 items rfl
      cases hf' : f.target with
      | entity id => exact .shorthand hf hk hf' ha (hf' ▸ hv)
      | _ => simp [hf', Target.isEntity] at ht
    | obj entries =>
      obtain ⟨hkeys, ha, ht⟩ := checkCalculation_obj_eq_ok_iff.1 hc
      by_cases hent : f.target.isEntity = true
      · obtain ⟨w, hw⟩ := Entries.exists_get?_iff.2 (ht.1 hent)
        have hv := (hv hent).2 entries w rfl hw
        cases hf' : f.target with
        | entity id => exact .call hf hk hf' hkeys ha hw (hf' ▸ hv)
        | _ => simp [hf', Target.isEntity] at hent
      · refine .value hf hk (Bool.eq_false_iff.2 hent) (fun l hl => ?_) ha
        refine (hkeys l hl).resolve_right ?_
        rintro rfl
        exact hent (ht.2 hl)
    | _ => simp [checkCalculation] at hc

theorem validEntry_variant_iff {u : Union} :
    ValidEntry g maxDepth (.union u) depth k v ↔
      ∃ id, u.variant? k = some (.entity id) ∧ Valid g maxDepth (.entity id) (depth + 1) v := by
  constructor
  · rintro ⟨⟩
    exact ⟨_, ‹_›, ‹_›⟩
  · rintro ⟨id, hu, hv⟩
    exact .variant hu hv

end grammar

/-! ## The check -/

section picks

variable {g : Graph} {limits : Limits} {r : Record} {depth : Nat} {picked picked' : Picked}
  {k : String} {f : Field} {v : Value} {rest : List (String × Value)}

theorem checkPicks_cons_calculation_eq_ok_iff {declared : Option (List Argument)}
    (hf : r.field? k = some f) (hk : f.kind = .calculation declared) :
    checkPicks g limits r depth picked ((k, v) :: rest) = .ok picked' ↔
      checkCalculation k f declared v = .ok () ∧
        (f.target.isEntity = true → checkResult g limits f.target k (depth + 1) v = .ok ()) ∧
        ∃ p, notePick picked k (selectedArguments declared v) = .ok p ∧
          checkPicks g limits r depth p rest = .ok picked' := by
  rw [checkPicks, bind_eq_ok_iff]
  simp only [complexField_eq_ok_iff, hf, Option.some.injEq, exists_eq_left', hk, then_eq_ok_iff,
    causeAt_eq_ok_iff]
  by_cases ht : f.target.isEntity = true
  · rw [if_pos ht, then_eq_ok_iff, within_eq_ok_iff, bind_eq_ok_iff]
    simp only [ht, causeAt_eq_ok_iff, true_implies]
  · rw [if_neg ht, bind_eq_ok_iff]
    simp only [ht, causeAt_eq_ok_iff, false_implies, true_and, Bool.false_eq_true]

theorem checkPicks_cons_field_eq_ok_iff (hf : r.field? k = some f)
    (hk : ∀ declared, f.kind ≠ .calculation declared) :
    checkPicks g limits r depth picked ((k, v) :: rest) = .ok picked' ↔
      checkNode g limits f.target (some k) (depth + 1) v = .ok () ∧
        checkPicks g limits r depth picked rest = .ok picked' := by
  rw [checkPicks, bind_eq_ok_iff]
  simp only [complexField_eq_ok_iff, hf, Option.some.injEq, exists_eq_left']
  cases hkind : f.kind with
  | calculation declared => exact absurd hkind (hk declared)
  | _ => simp only [then_eq_ok_iff, within_eq_ok_iff]

end picks

section check

variable (g : Graph) (limits : Limits)

mutual
theorem checkNode_eq_ok_iff : ∀ (v : Value) (target : Target) (label : Option String) (depth : Nat),
    checkNode g limits target label depth v = .ok () ↔ Valid g limits.maxDepth target depth v
  | .list items, target, label, depth => by
    rw [checkNode]
    exact checkList_eq_ok_iff items target label depth
  | .null, _, _, depth | .bool _, _, _, depth | .int _, _, _, depth | .float _, _, _, depth
  | .str _, _, _, depth | .obj _, _, _, depth => by
    rw [checkNode]
    · refine iff_of_false ?_ (by rintro ⟨⟩)
      split <;> simp [faultHere]
    · simp
theorem checkList_eq_ok_iff : ∀ (items : List Value) (target : Target) (label : Option String)
    (depth : Nat), checkList g limits target label depth items = .ok () ↔
      Valid g limits.maxDepth target depth (.list items)
  | [], _, _, depth => by
    rw [checkList]
    refine iff_of_false ?_ ?_
    · split <;> simp [faultHere]
    · rintro ⟨-, hne, -⟩
      exact hne rfl
  | item :: rest, target, _, depth => by
    rw [checkList, valid_list_iff]
    by_cases hd : limits.maxDepth < depth
    · rw [if_pos hd]
      exact iff_of_false (by simp [faultHere]) fun h => absurd h.1 (Nat.not_le.2 hd)
    rw [if_neg hd]
    cases g.follow? target with
    | none => simp [faultHere]
    | some e =>
      cases e with
      | record r =>
        simp only [bind_eq_ok_iff, pure_eq_ok_iff, checkItem_eq_ok_iff item,
          checkItems_eq_ok_iff rest, Option.some.injEq]
        constructor
        · rintro ⟨p, ⟨h1, h2⟩, q, ⟨h3, h4⟩, -⟩
          refine ⟨Nat.not_lt.1 hd, List.cons_ne_nil _ _, _, rfl, List.forall_mem_cons.2 ⟨h1, h3⟩, ?_⟩
          rw [agreeing_record_iff, picks_cons, calls_append]
          exact ⟨q, notePicks_append_eq_ok_iff.2 ⟨p, h2, h4⟩⟩
        · rintro ⟨-, -, _, rfl, hall, hagree⟩
          obtain ⟨h1, h3⟩ := List.forall_mem_cons.1 hall
          rw [agreeing_record_iff, picks_cons, calls_append] at hagree
          obtain ⟨q, hq⟩ := hagree
          obtain ⟨p, h2, h4⟩ := notePicks_append_eq_ok_iff.1 hq
          exact ⟨p, ⟨h1, h2⟩, q, ⟨h3, h4⟩, trivial⟩
      | union u =>
        simp only [then_eq_ok_iff, checkVariant_eq_ok_iff item, checkVariants_eq_ok_iff rest,
          Option.some.injEq]
        constructor
        · rintro ⟨h1, h2⟩
          exact ⟨Nat.not_lt.1 hd, List.cons_ne_nil _ _, _, rfl, List.forall_mem_cons.2 ⟨h1, h2⟩,
            agreeing_union u _⟩
        · rintro ⟨-, -, _, rfl, hall, -⟩
          exact List.forall_mem_cons.1 hall
theorem checkItems_eq_ok_iff : ∀ (items : List Value) (r : Record) (depth : Nat)
    (picked picked' : Picked), checkItems g limits r depth picked items = .ok picked' ↔
      (∀ item ∈ items, ValidElement g limits.maxDepth (.record r) depth item) ∧
        notePicks picked (calls r (picks items)) = .ok picked'
  | [], r, depth, picked, picked' => by
    simp [checkItems, notePicks_nil]
  | item :: rest, r, depth, picked, picked' => by
    rw [checkItems, bind_eq_ok_iff, picks_cons, calls_append, List.forall_mem_cons]
    simp only [checkItem_eq_ok_iff item, checkItems_eq_ok_iff rest, notePicks_append_eq_ok_iff]
    constructor
    · rintro ⟨p, ⟨h1, h2⟩, h3, h4⟩
      exact ⟨⟨h1, h3⟩, p, h2, h4⟩
    · rintro ⟨⟨h1, h3⟩, p, h2, h4⟩
      exact ⟨p, ⟨h1, h2⟩, h3, h4⟩
theorem checkItem_eq_ok_iff : ∀ (item : Value) (r : Record) (depth : Nat) (picked picked' : Picked),
    checkItem g limits r depth picked item = .ok picked' ↔
      ValidElement g limits.maxDepth (.record r) depth item ∧
        notePicks picked (calls r (elementPicks item)) = .ok picked'
  | .str name, r, depth, picked, picked' => by
    rw [checkItem, then_eq_ok_iff, checkPrimitive_eq_ok_iff, validElement_str_iff]
    rw [elementPicks, calls_cons_none, calls_nil, notePicks_nil, pure_eq_ok_iff, Except.ok.injEq]
  | .obj entries, r, depth, picked, picked' => by
    rw [checkItem, validElement_obj_iff, ← List.isEmpty_eq_false_iff]
    cases entries.isEmpty with
    | true => simp [faultHere]
    | false =>
      rw [if_neg (by simp), checkPicks_eq_ok_iff entries]
      simp
  | .null, _, _, _, _ | .bool _, _, _, _, _ | .int _, _, _, _, _ | .float _, _, _, _, _
  | .list _, _, _, _, _ => by
    rw [checkItem]
    · refine iff_of_false (by simp [faultHere]) ?_
      rintro ⟨⟨⟩, -⟩
    all_goals simp
theorem checkPicks_eq_ok_iff : ∀ (entries : List (String × Value)) (r : Record) (depth : Nat)
    (picked picked' : Picked), checkPicks g limits r depth picked entries = .ok picked' ↔
      (∀ k v, (k, v) ∈ entries → ValidEntry g limits.maxDepth (.record r) depth k v) ∧
        notePicks picked (calls r (elementPicks (.obj entries))) = .ok picked'
  | [], r, depth, picked, picked' => by
    simp [checkPicks, elementPicks, notePicks_nil]
  | (k, v) :: rest, r, depth, picked, picked' => by
    rw [Entries.forall_mem_cons, elementPicks_obj_cons]
    cases hf : r.field? k with
    | none =>
      refine iff_of_false ?_ fun h => ?_
      · rw [checkPicks, bind_eq_ok_iff]
        simp [complexField_eq_ok_iff, hf]
      · cases h.1.1 <;> simp_all
    | some f =>
      by_cases hk : ∃ declared, f.kind = .calculation declared
      · obtain ⟨declared, hk⟩ := hk
        rw [validEntry_calculation_iff hf hk, calls_cons_calculation v _ hf hk,
          notePicks_cons_eq_ok_iff, ← checkResult_eq_ok_iff v f.target k (depth + 1),
          checkPicks_cons_calculation_eq_ok_iff hf hk]
        simp only [checkPicks_eq_ok_iff rest]
        constructor
        · rintro ⟨hc, hr, p, hp, hrest, hps⟩
          exact ⟨⟨⟨hc, hr⟩, hrest⟩, p, hp, hps⟩
        · rintro ⟨⟨⟨hc, hr⟩, hrest⟩, p, hp, hps⟩
          exact ⟨hc, hr, p, hp, hrest, hps⟩
      · have hk' : ∀ declared, f.kind ≠ .calculation declared := fun d h => hk ⟨d, h⟩
        rw [validEntry_field_iff hf hk', calls_cons_field v _ hf hk',
          checkPicks_cons_field_eq_ok_iff hf hk', checkNode_eq_ok_iff v, checkPicks_eq_ok_iff rest,
          and_assoc]
theorem checkResult_eq_ok_iff : ∀ (v : Value) (target : Target) (label : String) (depth : Nat),
    checkResult g limits target label depth v = .ok () ↔
      (∀ items, v = .list items → Valid g limits.maxDepth target depth (.list items)) ∧
        ∀ entries w, v = .obj entries → Entries.get? entries "fields" = some w →
          Valid g limits.maxDepth target depth w
  | .list items, target, label, depth => by
    rw [checkResult, checkList_eq_ok_iff items]
    simp
  | .obj entries, target, label, depth => by
    rw [checkResult, checkFields_eq_ok_iff entries]
    constructor
    · rintro h
      exact ⟨by simp, fun _ w he => by cases he; exact h w⟩
    · rintro ⟨-, h⟩ w
      exact h entries w rfl
  | .null, _, _, _ | .bool _, _, _, _ | .int _, _, _, _ | .float _, _, _, _
  | .str _, _, _, _ => by
    rw [checkResult] <;> simp
theorem checkFields_eq_ok_iff : ∀ (entries : List (String × Value)) (target : Target)
    (label : String) (depth : Nat), checkFields g limits target label depth entries = .ok () ↔
      ∀ w, Entries.get? entries "fields" = some w → Valid g limits.maxDepth target depth w
  | [], target, label, depth => by
    simp [checkFields]
  | (k, v) :: rest, target, label, depth => by
    rw [checkFields, Entries.get?_cons]
    split
    · rw [checkNode_eq_ok_iff v]
      simp
    · exact checkFields_eq_ok_iff rest target label depth
theorem checkVariants_eq_ok_iff : ∀ (items : List Value) (u : Union) (depth : Nat),
    checkVariants g limits u depth items = .ok () ↔
      ∀ item ∈ items, ValidElement g limits.maxDepth (.union u) depth item
  | [], u, depth => by
    simp [checkVariants]
  | item :: rest, u, depth => by
    rw [checkVariants, then_eq_ok_iff, checkVariant_eq_ok_iff item, checkVariants_eq_ok_iff rest,
      List.forall_mem_cons]
theorem checkVariant_eq_ok_iff : ∀ (item : Value) (u : Union) (depth : Nat),
    checkVariant g limits u depth item = .ok () ↔
      ValidElement g limits.maxDepth (.union u) depth item
  | .str tag, u, depth => by
    rw [checkVariant, checkTag_eq_ok_iff, validElement_str_iff]
  | .obj entries, u, depth => by
    rw [checkVariant, validElement_obj_iff, ← List.isEmpty_eq_false_iff]
    cases entries.isEmpty with
    | true => simp [faultHere]
    | false =>
      rw [if_neg (by simp), checkVariantPicks_eq_ok_iff entries]
      simp
  | .null, _, _ | .bool _, _, _ | .int _, _, _ | .float _, _, _ | .list _, _, _ => by
    rw [checkVariant]
    · exact iff_of_false (by simp [faultHere]) (by rintro ⟨⟩)
    all_goals simp
theorem checkVariantPicks_eq_ok_iff : ∀ (entries : List (String × Value)) (u : Union)
    (depth : Nat), checkVariantPicks g limits u depth entries = .ok () ↔
      ∀ k v, (k, v) ∈ entries → ValidEntry g limits.maxDepth (.union u) depth k v
  | [], u, depth => by
    simp [checkVariantPicks]
  | (k, v) :: rest, u, depth => by
    rw [checkVariantPicks, bind_eq_ok_iff, Entries.forall_mem_cons, validEntry_variant_iff]
    simp only [then_eq_ok_iff, within_eq_ok_iff, variantEntity_eq_ok_iff, checkNode_eq_ok_iff v,
      checkVariantPicks_eq_ok_iff rest]
    constructor
    · rintro ⟨id, hu, hv, hrest⟩
      exact ⟨⟨id, hu, hv⟩, hrest⟩
    · rintro ⟨⟨id, hu, hv⟩, hrest⟩
      exact ⟨id, hu, hv, hrest⟩
end

end check

/-! ## The grammar is what passes the check -/

/-- A selection of an entity passes the check exactly when it is valid at depth 1. -/
theorem check_eq_ok_iff (g : Graph) (limits : Limits) (id : EntityId) (selection : Value) :
    check g limits id selection = .ok () ↔ Valid g limits.maxDepth (.entity id) 1 selection :=
  checkNode_eq_ok_iff g limits selection (.entity id) none 1

end Shapewise.Selection
