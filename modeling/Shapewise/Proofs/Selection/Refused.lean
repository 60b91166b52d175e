import Shapewise.Proofs.Selection.Steps

/-!
# How a selection is refused

Where the fault of a refused selection comes from. `Refused` tells it along the selection: the node
cannot be opened, one of its elements picks no name, a pick is out of order, or the node below a
pick is refused in turn. Every fault of the check is of this kind (`refused_of_checkNode`), so what
is said of faults is proved by induction over it.
-/

namespace Shapewise.Selection

open Outcome

variable {g : Graph} {limits : Limits} {e : Entity} {r : Record} {u : Union} {depth : Nat}
  {picked : Picked} {target : Target} {label : Option String} {k : String} {o : Option Value}
  {v w : Value} {items : List Value} {f : SelectionFault} {cause : SelectionCause}

/-! ## Opening a node -/

theorem openNode_eq_ok_iff :
    openNode g limits target label depth v = .ok (e, items) ↔
      depth ≤ limits.maxDepth ∧ v = .list items ∧ items ≠ [] ∧ g.follow? target = some e := by
  unfold openNode
  by_cases hd : limits.maxDepth < depth
  · simp [hd, Nat.not_le.2 hd]
  · rw [if_neg hd, and_iff_right (Nat.not_lt.1 hd)]
    cases v with
    | list vs =>
      cases vs with
      | nil =>
        refine iff_of_false (by simp) ?_
        rintro ⟨⟨⟩, hne, -⟩
        exact hne rfl
      | cons v vs =>
        cases hfollow : g.follow? target with
        | none => simp
        | some e' =>
          constructor
          · rintro ⟨⟩
            exact ⟨rfl, List.cons_ne_nil _ _, rfl⟩
          · rintro ⟨⟨⟩, -, ⟨⟩⟩
            rfl
    | _ => simp

/-- A node is not opened beyond the limit, and within it where it is no list, names no field or
leads to no entity. -/
theorem openNode_eq_error_cases (h : openNode g limits target label depth v = .error cause) :
    (limits.maxDepth < depth ∧ cause = .tooDeep limits.maxDepth) ∨
      depth ≤ limits.maxDepth ∧
        ((∀ items, v ≠ .list items) ∧ cause = .form (.notList v.typeName) ∨
          v = .list [] ∧ cause = .needsSelection label ∨
          g.follow? target = none ∧ cause = .form .noEntity) := by
  unfold openNode at h
  by_cases hd : limits.maxDepth < depth
  · rw [if_pos hd] at h
    cases h
    exact .inl ⟨hd, rfl⟩
  · rw [if_neg hd] at h
    refine .inr ⟨Nat.not_lt.1 hd, ?_⟩
    cases v with
    | list vs =>
      cases vs with
      | nil =>
        cases h
        exact .inr (.inl ⟨rfl, rfl⟩)
      | cons v vs =>
        cases hfollow : g.follow? target with
        | none =>
          rw [hfollow] at h
          cases h
          exact .inr (.inr ⟨rfl, rfl⟩)
        | some e =>
          rw [hfollow] at h
          cases h
    | _ =>
      cases h
      exact .inl ⟨by simp, rfl⟩

/-! ## Faults at a pick -/

/-- A cause is another one than the depth. -/
def NotDepth (cause : SelectionCause) : Prop :=
  ∀ n, cause ≠ .tooDeep n

/-- A fault at a name, for another reason than the depth. -/
def NamedFault (k : String) (f : SelectionFault) : Prop :=
  ∃ cause, f = ⟨[k], cause⟩ ∧ NotDepth cause

/-- The cause is about a name: it is not declared in this way, or stands with fields or without. -/
def AboutName : SelectionCause → Prop
  | .unknownPrimitive .. | .unknownComplex .. | .unknownVariant .. => True
  | .needsSelection _ | .takesNoSelection _ => True
  | _ => False

/-- A fault at a name, about this name. -/
def NameFault (k : String) (f : SelectionFault) : Prop :=
  ∃ cause, f = ⟨[k], cause⟩ ∧ AboutName cause

theorem AboutName.notDepth (h : AboutName cause) : NotDepth cause := by
  rintro n rfl
  exact h

theorem NameFault.named (h : NameFault k f) : NamedFault k f := by
  obtain ⟨cause, hf, hcause⟩ := h
  exact ⟨cause, hf, hcause.notDepth⟩

theorem checkPrimitive_fault : Settles (fun _ => True) (NameFault k) (checkPrimitive r k) := by
  rw [checkPrimitive]
  split
  · trivial
  · split
    · exact ⟨_, rfl, trivial⟩
    · exact ⟨_, rfl, trivial⟩

theorem complexField_fault : Settles (fun _ => True) (NameFault k) (complexField r k) := by
  rw [complexField]
  split
  · trivial
  · split
    · exact ⟨_, rfl, trivial⟩
    · exact ⟨_, rfl, trivial⟩

theorem checkTag_fault : Settles (fun _ => True) (NameFault k) (checkTag u k) := by
  rw [checkTag]
  split
  · trivial
  · split
    · exact ⟨_, rfl, trivial⟩
    · exact ⟨_, rfl, trivial⟩

theorem variantEntity_fault : Settles (fun _ => True) (NameFault k) (variantEntity u k) := by
  rw [variantEntity]
  split
  · trivial
  · exact ⟨_, rfl, trivial⟩
  · exact ⟨_, rfl, trivial⟩

/-- Where no arguments are given, the only fault is that some are required. -/
theorem checkNoneRequired_fault {declared : Option (List Argument)} :
    Settles (fun _ => True) (fun cause => ∃ names, cause = .missingArguments names)
      (checkNoneRequired declared) := by
  unfold checkNoneRequired
  split
  · trivial
  · split
    · exact ⟨_, rfl⟩
    · trivial

/-- What can be wrong with what is said about a calculation beside its fields. -/
inductive CalculationFault (k : String) : SelectionCause → Prop
  | missingArguments (names : List String) : CalculationFault k (.missingArguments names)
  | invalidArguments (fault : ArgumentFault) : CalculationFault k (.invalidArguments fault)
  | notCalculation : CalculationFault k (.form (.notCalculation k))
  | calculationKeys (keys : List String) : CalculationFault k (.form (.calculationKeys keys))
  | needsSelection : CalculationFault k (.needsSelection (some k))
  | takesNoSelection : CalculationFault k (.takesNoSelection k)

theorem CalculationFault.notDepth (h : CalculationFault k cause) : NotDepth cause := by
  rintro n rfl
  cases h

theorem checkCalculation_fault {f : Field} {declared : Option (List Argument)} :
    Settles (fun _ => True) (CalculationFault k) (checkCalculation k f declared v) := by
  have hrequired : Settles (fun _ => True) (CalculationFault k) (checkNoneRequired declared) := by
    refine checkNoneRequired_fault.imp_error ?_
    rintro _ ⟨names, rfl⟩
    exact .missingArguments names
  cases v with
  | list vs =>
    refine hrequired.bind fun _ _ _ => ?_
    split
    · trivial
    · exact .takesNoSelection
  | obj entries =>
    rw [checkCalculation]
    split
    · exact .calculationKeys _
    · cases Entries.get? entries "args" with
      | none =>
        refine hrequired.bind fun _ _ _ => ?_
        cases f.target.isEntity <;> cases Entries.has entries "fields"
        · trivial
        · exact .takesNoSelection
        · exact .needsSelection
        · trivial
      | some arguments =>
        have harguments : Settles (fun _ => True) (CalculationFault k)
            ((checkArguments f.name declared arguments).mapError .invalidArguments) := by
          cases checkArguments f.name declared arguments with
          | ok _ => trivial
          | error fault => exact .invalidArguments fault
        refine harguments.bind fun _ _ _ => ?_
        cases f.target.isEntity <;> cases Entries.has entries "fields"
        · trivial
        · exact .takesNoSelection
        · exact .needsSelection
        · trivial
  | _ => exact .notCalculation

/-- A pick is not in order by itself where its name is not, or where something is wrong with what is
said about a calculation beside its fields. -/
theorem pickPlan_eq_error_cases (h : pickPlan e k o = .error f) :
    NameFault k f ∨ ∃ r c declared v cause, e = .record r ∧ o = some v ∧ r.field? k = some c ∧
      c.kind = .calculation declared ∧ checkCalculation k c declared v = .error cause ∧
      f = ⟨[k], cause⟩ := by
  cases e with
  | record r =>
    cases o with
    | none =>
      obtain hf | ⟨-, -, hf⟩ := bind_eq_error_iff.1 h
      · exact .inl (checkPrimitive_fault.of_error hf)
      · cases hf
    | some v =>
      obtain hf | ⟨c, hc, hf⟩ := bind_eq_error_iff.1 h
      · exact .inl (complexField_fault.of_error hf)
      · split at hf
        · next declared hk =>
          obtain hf | ⟨-, -, hf⟩ := bind_eq_error_iff.1 hf
          · cases hcheck : checkCalculation k c declared v with
            | ok _ =>
              rw [hcheck] at hf
              cases hf
            | error cause =>
              rw [hcheck] at hf
              cases hf
              exact .inr ⟨r, c, declared, v, cause, rfl, rfl, complexField_eq_ok_iff.1 hc, hk, hcheck,
                rfl⟩
          · cases hf
        · cases hf
  | union u =>
    cases o with
    | none =>
      obtain hf | ⟨-, -, hf⟩ := bind_eq_error_iff.1 h
      · exact .inl (checkTag_fault.of_error hf)
      · cases hf
    | some v =>
      obtain hf | ⟨_, -, hf⟩ := bind_eq_error_iff.1 h
      · exact .inl (variantEntity_fault.of_error hf)
      · cases hf

theorem pickPlan_fault (h : pickPlan e k o = .error f) : NamedFault k f := by
  obtain hname | ⟨r, c, declared, v, cause, -, -, -, -, hcheck, rfl⟩ := pickPlan_eq_error_cases h
  · exact hname.named
  · exact ⟨cause, rfl, (checkCalculation_fault.of_error hcheck).notDepth⟩

/-! ## Nodes below a node -/

/-- A node of a target stands below a pick of a name: what is selected of the name, or the fields
in it where the name is a calculation. -/
def NodeBelow (e : Entity) (items : List Value) (k : String) (target : Target) (w : Value) : Prop :=
  ∃ o plan, (k, o) ∈ picks items ∧ pickPlan e k o = .ok plan ∧ plan.node = some (target, w)

theorem sizeOf_resultNode? (h : resultNode? v = some w) : sizeOf w ≤ sizeOf v := by
  cases v with
  | list items =>
    cases h
    exact le_rfl
  | obj entries =>
    have := List.sizeOf_lt_of_mem (Entries.mem_of_get? h)
    simp only [Value.obj.sizeOf_spec, Prod.mk.sizeOf_spec] at this ⊢
    omega
  | _ => cases h

theorem sizeOf_selected (h : (k, some v) ∈ picks items) : sizeOf v < sizeOf (Value.list items) := by
  obtain ⟨entries, hitem, hv⟩ := mem_selectedOf_iff.1 (mem_selectedOf.2 h)
  have hobject := List.sizeOf_lt_of_mem hitem
  have hentry := List.sizeOf_lt_of_mem hv
  simp only [Value.obj.sizeOf_spec, Value.list.sizeOf_spec, Prod.mk.sizeOf_spec] at hobject hentry ⊢
  omega

/-- Nodes below a node are smaller than it. -/
theorem NodeBelow.sizeOf_lt {next : Target} (h : NodeBelow e items k next w)
    (hopen : openNode g limits target label depth v = .ok (e, items)) : sizeOf w < sizeOf v := by
  obtain ⟨-, rfl, -, -⟩ := openNode_eq_ok_iff.1 hopen
  obtain ⟨o, plan, hp, hplan, hnode⟩ := h
  cases planned_of_pickPlan hplan with
  | name => cases hnode
  | field =>
    cases hnode
    exact sizeOf_selected hp
  | variant =>
    cases hnode
    exact sizeOf_selected hp
  | calculation =>
    simp only [Option.ite_none_right_eq_some, Option.map_eq_some_iff] at hnode
    obtain ⟨-, w, hw, hnode⟩ := hnode
    cases hnode
    exact (sizeOf_resultNode? hw).trans_lt (sizeOf_selected hp)

/-! ## Faults of a node -/

/-- How the check of a node fails. -/
inductive Refused (g : Graph) (limits : Limits) :
    Target → Option String → Nat → Value → SelectionFault → Prop
  | node {target : Target} {label : Option String} {depth : Nat} {v : Value}
      {cause : SelectionCause} :
      openNode g limits target label depth v = .error cause →
      Refused g limits target label depth v ⟨[], cause⟩
  | element {target : Target} {label : Option String} {depth : Nat} {v : Value} {e : Entity}
      {items : List Value} {item : Value} {fault : FormFault} :
      openNode g limits target label depth v = .ok (e, items) → item ∈ items →
      formFault? e item = some fault → Refused g limits target label depth v ⟨[], .form fault⟩
  | pick {target : Target} {label : Option String} {depth : Nat} {v : Value} {e : Entity}
      {items : List Value} {k : String} {cause : SelectionCause} :
      openNode g limits target label depth v = .ok (e, items) → k ∈ pickedNames items →
      NotDepth cause → Refused g limits target label depth v ⟨[k], cause⟩
  | deeper {target next : Target} {label : Option String} {depth : Nat} {v w : Value} {e : Entity}
      {items : List Value} {k : String} {f : SelectionFault} :
      openNode g limits target label depth v = .ok (e, items) → NodeBelow e items k next w →
      Refused g limits next (some k) (depth + 1) w f →
      Refused g limits target label depth v ⟨k :: f.path, f.cause⟩

/-- A run fails at a step that fails, or at arguments that are at odds with those before. -/
theorem run_eq_error_cases {ss : List Step} (h : run picked ss = .error f) :
    .error f ∈ ss ∨ ∃ n x, .ok (some (n, x)) ∈ ss ∧ f = ⟨[n], .duplicate n⟩ := by
  induction ss generalizing picked with
  | nil => cases h
  | cons s ss ih =>
    rw [run_cons, bind_eq_error_iff] at h
    obtain hs | ⟨p, -, h⟩ := h
    · cases s with
      | error f' =>
        cases hs
        exact .inl List.mem_cons_self
      | ok noted =>
        cases noted with
        | none => cases hs
        | some noted =>
          obtain ⟨n, x⟩ := noted
          refine .inr ⟨n, x, List.mem_cons_self, ?_⟩
          have hs : causeAt n (notePick picked n x) = .error f := hs
          unfold notePick at hs
          split at hs
          · split at hs <;> cases hs
            rfl
          · cases hs
    · obtain hf | ⟨n, x, hx, hf⟩ := ih h
      · exact .inl (List.mem_cons_of_mem s hf)
      · exact .inr ⟨n, x, List.mem_cons_of_mem s hx, hf⟩

/-- The step of a pick fails where the pick is not in order by itself, or where the node below it is
refused. -/
theorem pickStep_eq_error_cases (h : pickStep g limits e depth (k, o) = .error f) :
    pickPlan e k o = .error f ∨
      ∃ plan next w f', pickPlan e k o = .ok plan ∧ plan.node = some (next, w) ∧
        checkNode g limits next (some k) (depth + 1) w = .error f' ∧
        f = ⟨k :: f'.path, f'.cause⟩ := by
  rw [pickStep, bind_eq_error_iff] at h
  obtain hf | ⟨plan, hplan, h⟩ := h
  · exact .inl hf
  · rw [bind_eq_error_iff] at h
    obtain hf | ⟨-, -, hf⟩ := h
    · refine .inr ⟨plan, ?_⟩
      cases hnode : plan.node with
      | none =>
        rw [hnode] at hf
        cases hf
      | some node =>
        obtain ⟨next, w⟩ := node
        rw [hnode, checkBelow] at hf
        cases hw : checkNode g limits next (some k) (depth + 1) w with
        | ok u =>
          rw [hw] at hf
          cases hf
        | error f' =>
          rw [hw] at hf
          cases hf
          exact ⟨next, w, f', hplan, rfl, hw, rfl⟩
    · cases hf

/-- What is said of the faults of nodes holds where it holds of a node that cannot be opened, of an
element that picks no name, of a pick that is not in order by itself and of one whose arguments are at
odds with those before, and where it passes from a node below to the node. -/
theorem checkNode_fault_induction
    {P : Target → Option String → Nat → Value → SelectionFault → Prop}
    (node : ∀ {target label depth v cause},
      openNode g limits target label depth v = .error cause → P target label depth v ⟨[], cause⟩)
    (element : ∀ {target label depth v e items item fault},
      openNode g limits target label depth v = .ok (e, items) → item ∈ items →
      formFault? e item = some fault → P target label depth v ⟨[], .form fault⟩)
    (plan : ∀ {target label depth v e items k o f},
      openNode g limits target label depth v = .ok (e, items) → (k, o) ∈ picks items →
      pickPlan e k o = .error f → P target label depth v f)
    (clash : ∀ {target label depth v e items k o},
      openNode g limits target label depth v = .ok (e, items) → (k, o) ∈ picks items →
      P target label depth v ⟨[k], .duplicate k⟩)
    (below : ∀ {target label depth v e items k next w f},
      openNode g limits target label depth v = .ok (e, items) → NodeBelow e items k next w →
      checkNode g limits next (some k) (depth + 1) w = .error f →
      P next (some k) (depth + 1) w f → P target label depth v ⟨k :: f.path, f.cause⟩)
    (h : checkNode g limits target label depth v = .error f) : P target label depth v f := by
  induction hn : sizeOf v using Nat.strong_induction_on generalizing target label depth v f with
  | _ n ih =>
    subst hn
    rw [checkNode_eq] at h
    cases hopen : openNode g limits target label depth v with
    | error cause =>
      rw [hopen] at h
      cases h
      exact node hopen
    | ok opened =>
      obtain ⟨e, items⟩ := opened
      rw [hopen] at h
      obtain hstep | ⟨n, x, hstep, rfl⟩ := run_eq_error_cases (map_eq_error_iff.1 h)
      · obtain ⟨item, hitem, fault, hfault, hs⟩ | ⟨⟨k, o⟩, hp, hs⟩ := exists_of_mem_steps hstep
        · cases hs
          exact element hopen hitem hfault
        · obtain hplan | ⟨p, next, w, f', hplan, hnode, hw, rfl⟩ := pickStep_eq_error_cases hs.symm
          · exact plan hopen hp hplan
          · have hbelow : NodeBelow e items k next w := ⟨o, p, hp, hplan, hnode⟩
            exact below hopen hbelow hw (ih _ (hbelow.sizeOf_lt hopen) hw rfl)
      · obtain ⟨o, -, hp, -, -⟩ := exists_plan_of_noted hstep
        exact clash hopen hp

/-- Every fault of the check of a node comes from the node, from one of its elements, from a pick or
from a node below. -/
theorem refused_of_checkNode (h : checkNode g limits target label depth v = .error f) :
    Refused g limits target label depth v f := by
  refine checkNode_fault_induction (P := Refused g limits) .node .element ?_ ?_ ?_ h
  · intro target label depth v e items k o f hopen hp hplan
    obtain ⟨cause, rfl, hcause⟩ := pickPlan_fault hplan
    exact .pick hopen (Entries.mem_keys.2 ⟨o, hp⟩) hcause
  · intro target label depth v e items k o hopen hp
    exact .pick hopen (Entries.mem_keys.2 ⟨o, hp⟩) fun n => by simp
  · intro target label depth v e items k next w f hopen hbelow _ hrefused
    exact .deeper hopen hbelow hrefused

end Shapewise.Selection
