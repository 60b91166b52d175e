import Shapewise.Proofs.Selection.Valid

/-!
# The check as a run of steps

The check of a list of fields, taken apart by what each part of it depends on. A pick is planned
from the entity alone: whether it is in order by itself, which node below it is to be checked and
which arguments are to be noted (`pickPlan`). Only the check of the node below depends on the limit
and the depth (`pickStep`), and only noting arguments depends on the picks before (`takeStep`).

The check of a node opens it and runs the steps of its elements in reading order (`checkNode_eq`).
What several runs of the check have to do with one another is said of these steps.
-/

namespace Shapewise.Selection

open Outcome

/-! ## Steps -/

/-- The node that selects of a calculation's result: a list of fields, or what an object has under
`fields`. -/
def resultNode? : Value → Option Value
  | .list items => some (.list items)
  | .obj entries => Entries.get? entries "fields"
  | _ => none

/-- What is left to do at a pick that is in order by itself: the node below it to check, with its
target, and the arguments to note. -/
structure Plan where
  node : Option (Target × Value)
  arguments : Option Value

/-- What the check finds at a pick itself. -/
def pickPlan : Entity → String → Option Value → Except SelectionFault Plan
  | .record r, name, none => do
    checkPrimitive r name
    return ⟨none, none⟩
  | .record r, name, some v => do
    let f ← complexField r name
    match f.kind with
    | .calculation declared =>
      causeAt name (checkCalculation name f declared v)
      return ⟨if f.target.isEntity then (resultNode? v).map (f.target, ·) else none,
        some (selectedArguments declared v)⟩
    | _ => return ⟨some (f.target, v), none⟩
  | .union u, tag, none => do
    checkTag u tag
    return ⟨none, none⟩
  | .union u, tag, some v => do
    let id ← variantEntity u tag
    return ⟨some (.entity id, v), none⟩

/-- What is wrong with an element that picks no name. -/
def formFault? : Entity → Value → Option FormFault
  | _, .str _ => none
  | .record _, .obj entries => if entries.isEmpty then some .emptyObject else none
  | .union _, .obj entries => if entries.isEmpty then some .emptyVariants else none
  | .record _, v => some (.notElement v.typeName)
  | .union _, v => some (.notVariant v.typeName)

/-- What the check of a pick by itself comes to: a fault, or the arguments to note of a
calculation. -/
abbrev Step := Except SelectionFault (Option (String × Value))

/-- Checks the node below a pick. -/
def checkBelow (g : Graph) (limits : Limits) (depth : Nat) (name : String) :
    Option (Target × Value) → Except SelectionFault Unit
  | some (target, v) => within name (checkNode g limits target (some name) (depth + 1) v)
  | none => .ok ()

/-- The step of a pick. -/
def pickStep (g : Graph) (limits : Limits) (e : Entity) (depth : Nat)
    (p : String × Option Value) : Step := do
  let plan ← pickPlan e p.1 p.2
  checkBelow g limits depth p.1 plan.node
  return plan.arguments.map (p.1, ·)

/-- The steps of an element: one for each name that it picks, and one that fails where it picks
none. -/
def elementSteps (g : Graph) (limits : Limits) (e : Entity) (depth : Nat) (item : Value) :
    List Step :=
  match formFault? e item with
  | some fault => [faultHere (.form fault)]
  | none => (elementPicks item).map (pickStep g limits e depth)

/-- The steps of a list of fields in reading order. -/
def steps (g : Graph) (limits : Limits) (e : Entity) (depth : Nat) (items : List Value) :
    List Step :=
  items.flatMap (elementSteps g limits e depth)

/-- Takes a step: arguments are noted, and must be those of the pick before. -/
def takeStep (picked : Picked) (step : Step) : Except SelectionFault Picked := do
  match ← step with
  | some (name, arguments) => causeAt name (notePick picked name arguments)
  | none => return picked

/-- Takes steps one after the other. -/
def run (picked : Picked) (steps : List Step) : Except SelectionFault Picked :=
  steps.foldlM takeStep picked

/-- The entity and the elements of a node, or why none of its elements is looked at. -/
def openNode (g : Graph) (limits : Limits) (target : Target) (label : Option String)
    (depth : Nat) (v : Value) : Except SelectionCause (Entity × List Value) :=
  if limits.maxDepth < depth then .error (.tooDeep limits.maxDepth)
  else
    match v with
    | .list [] => .error (.needsSelection label)
    | .list items =>
      match g.follow? target with
      | some e => .ok (e, items)
      | none => .error (.form .noEntity)
    | v => .error (.form (.notList v.typeName))

variable {g : Graph} {limits : Limits} {e : Entity} {r : Record} {u : Union} {depth : Nat}
  {picked : Picked} {target : Target} {label : Option String}

/-! ## Plans -/

/-- How a pick that is in order by itself is planned. -/
inductive Planned : Entity → String → Option Value → Plan → Prop
  | name {e : Entity} {k : String} : ValidName e k → Planned e k none ⟨none, none⟩
  | field {r : Record} {k : String} {f : Field} {v : Value} :
      r.field? k = some f → (∀ declared, f.kind ≠ .calculation declared) →
      Planned (.record r) k (some v) ⟨some (f.target, v), none⟩
  | calculation {r : Record} {k : String} {f : Field} {declared : Option (List Argument)}
      {v : Value} :
      r.field? k = some f → f.kind = .calculation declared →
      Planned (.record r) k (some v)
        ⟨if f.target.isEntity then (resultNode? v).map (f.target, ·) else none,
          some (selectedArguments declared v)⟩
  | variant {u : Union} {k : String} {id : EntityId} {v : Value} :
      u.variant? k = some (.entity id) →
      Planned (.union u) k (some v) ⟨some (.entity id, v), none⟩

theorem planned_of_pickPlan {k : String} {o : Option Value} {plan : Plan}
    (h : pickPlan e k o = .ok plan) : Planned e k o plan := by
  cases e with
  | record r =>
    cases o with
    | none =>
      obtain ⟨hk, h⟩ := then_eq_ok_iff.1 h
      rw [← pure_eq_ok_iff.1 h]
      exact .name (checkPrimitive_eq_ok_iff.1 hk)
    | some v =>
      obtain ⟨f, hf, h⟩ := bind_eq_ok_iff.1 h
      have hf := complexField_eq_ok_iff.1 hf
      split at h
      · next declared hk =>
        obtain ⟨-, h⟩ := then_eq_ok_iff.1 h
        rw [← pure_eq_ok_iff.1 h]
        exact .calculation hf hk
      · next hk =>
        rw [← pure_eq_ok_iff.1 h]
        exact .field hf hk
  | union u =>
    cases o with
    | none =>
      obtain ⟨hk, h⟩ := then_eq_ok_iff.1 h
      rw [← pure_eq_ok_iff.1 h]
      exact .name (checkTag_eq_ok_iff.1 hk)
    | some v =>
      obtain ⟨id, hid, h⟩ := bind_eq_ok_iff.1 h
      rw [← pure_eq_ok_iff.1 h]
      exact .variant (variantEntity_eq_ok_iff.1 hid)

theorem pickStep_eq_ok_iff {p : String × Option Value} {noted : Option (String × Value)} :
    pickStep g limits e depth p = .ok noted ↔
      ∃ plan, pickPlan e p.1 p.2 = .ok plan ∧ checkBelow g limits depth p.1 plan.node = .ok () ∧
        plan.arguments.map (p.1, ·) = noted := by
  rw [pickStep, bind_eq_ok_iff]
  simp only [then_eq_ok_iff, pure_eq_ok_iff]

/-! ## Runs -/

theorem run_cons (s : Step) (ss : List Step) :
    run picked (s :: ss) = takeStep picked s >>= fun picked => run picked ss :=
  List.foldlM_cons

theorem run_append (ss ts : List Step) :
    run picked (ss ++ ts) = run picked ss >>= fun picked => run picked ts :=
  List.foldlM_append

theorem run_singleton (s : Step) : run picked [s] = takeStep picked s := by
  rw [run_cons]
  exact bind_pure _

theorem steps_cons (item : Value) (items : List Value) :
    steps g limits e depth (item :: items) =
      elementSteps g limits e depth item ++ steps g limits e depth items := rfl

theorem steps_append (xs ys : List Value) :
    steps g limits e depth (xs ++ ys) = steps g limits e depth xs ++ steps g limits e depth ys :=
  List.flatMap_append

theorem exists_of_mem_steps {items : List Value} {s : Step} (h : s ∈ steps g limits e depth items) :
    (∃ item ∈ items, ∃ fault, formFault? e item = some fault ∧ s = faultHere (.form fault)) ∨
      ∃ p ∈ picks items, s = pickStep g limits e depth p := by
  obtain ⟨item, hitem, hs⟩ := List.mem_flatMap.1 h
  rw [elementSteps] at hs
  split at hs
  · next fault hfault => exact .inl ⟨item, hitem, fault, hfault, List.mem_singleton.1 hs⟩
  · obtain ⟨p, hp, rfl⟩ := List.mem_map.1 hs
    exact .inr ⟨p, mem_picks.2 ⟨item, hitem, hp⟩, rfl⟩

/-- A step that notes arguments is that of a pick, which plans to note them. -/
theorem exists_plan_of_noted {items : List Value} {n : String} {x : Value}
    (h : .ok (some (n, x)) ∈ steps g limits e depth items) :
    ∃ o plan, (n, o) ∈ picks items ∧ pickPlan e n o = .ok plan ∧ plan.arguments = some x := by
  obtain ⟨_, -, _, -, hstep⟩ | ⟨⟨k, o⟩, hp, hstep⟩ := exists_of_mem_steps h
  · cases hstep
  · obtain ⟨plan, hplan, -, hnoted⟩ := pickStep_eq_ok_iff.1 hstep.symm
    obtain ⟨y, harguments, hy⟩ := Option.map_eq_some_iff.1 hnoted
    cases hy
    exact ⟨o, plan, hp, hplan, harguments⟩

theorem elementSteps_of_form {item : Value} {fault : FormFault}
    (h : formFault? e item = some fault) :
    elementSteps g limits e depth item = [faultHere (.form fault)] := by
  rw [elementSteps, h]

theorem elementSteps_of_picks {item : Value} (h : formFault? e item = none) :
    elementSteps g limits e depth item = (elementPicks item).map (pickStep g limits e depth) := by
  rw [elementSteps, h]

/-! ## The parts of the check -/

theorem checkFields_eq (entries : List (String × Value)) (name : String) :
    checkFields g limits target name depth entries =
      match Entries.get? entries "fields" with
      | some v => checkNode g limits target (some name) depth v
      | none => .ok () := by
  induction entries with
  | nil => rfl
  | cons entry entries ih =>
    obtain ⟨k, v⟩ := entry
    rw [checkFields, Entries.get?_cons]
    split
    · rfl
    · exact ih

theorem checkResult_eq (v : Value) (name : String) :
    checkResult g limits target name depth v =
      match resultNode? v with
      | some w => checkNode g limits target (some name) depth w
      | none => .ok () := by
  cases v with
  | list items =>
    rw [checkResult]
    exact (checkNode.eq_1 g limits target (some name) depth items).symm
  | obj entries => rw [checkResult, resultNode?, checkFields_eq]
  | _ => rw [checkResult] <;> simp [resultNode?]

theorem checkBelow_result (f : Field) (v : Value) (name : String) :
    checkBelow g limits depth name
        (if f.target.isEntity then (resultNode? v).map (f.target, ·) else none) =
      if f.target.isEntity then within name (checkResult g limits f.target name (depth + 1) v)
      else .ok () := by
  split
  · rw [checkResult_eq]
    cases resultNode? v <;> rfl
  · rfl

theorem checkPicks_eq_run (entries : List (String × Value)) :
    checkPicks g limits r depth picked entries =
      run picked ((elementPicks (.obj entries)).map (pickStep g limits (.record r) depth)) := by
  induction entries generalizing picked with
  | nil => rfl
  | cons entry entries ih =>
    obtain ⟨k, v⟩ := entry
    rw [elementPicks_obj_cons, List.map_cons, run_cons, checkPicks, takeStep, pickStep, pickPlan]
    simp only [bind_assoc, ih]
    refine bind_congr fun f => ?_
    cases f.kind with
    | calculation declared =>
      simp only [bind_assoc, pure_bind, checkBelow_result]
      refine bind_congr fun _ => ?_
      split <;> rfl
    | _ =>
      simp only [pure_bind]
      rfl

theorem checkItem_eq_run (item : Value) :
    checkItem g limits r depth picked item =
      run picked (elementSteps g limits (.record r) depth item) := by
  cases item with
  | str name =>
    rw [checkItem, elementSteps_of_picks rfl, elementPicks, List.map_singleton, run_singleton]
    rw [takeStep, pickStep, pickPlan]
    simp only [bind_assoc, pure_bind]
    rfl
  | obj entries =>
    rw [checkItem]
    cases h : entries.isEmpty with
    | true =>
      have hform : formFault? (.record r) (.obj entries) = some .emptyObject := by
        rw [formFault?, if_pos h]
      rw [elementSteps_of_form hform, run_singleton]
      rfl
    | false =>
      have hform : formFault? (.record r) (.obj entries) = none := by simp [formFault?, h]
      rw [elementSteps_of_picks hform]
      exact checkPicks_eq_run entries
  | _ =>
    rw [checkItem, elementSteps_of_form rfl, run_singleton]
    · rfl
    all_goals simp

theorem checkItems_eq_run (items : List Value) :
    checkItems g limits r depth picked items =
      run picked (steps g limits (.record r) depth items) := by
  induction items generalizing picked with
  | nil => rfl
  | cons item items ih =>
    rw [checkItems, checkItem_eq_run, steps_cons, run_append]
    exact bind_congr fun _ => ih

theorem checkVariantPicks_eq_run (entries : List (String × Value)) :
    (fun _ => picked) <$> checkVariantPicks g limits u depth entries =
      run picked ((elementPicks (.obj entries)).map (pickStep g limits (.union u) depth)) := by
  induction entries with
  | nil => rfl
  | cons entry entries ih =>
    obtain ⟨k, v⟩ := entry
    rw [elementPicks_obj_cons, List.map_cons, run_cons, checkVariantPicks, takeStep, pickStep, pickPlan]
    simp only [bind_assoc, pure_bind, map_bind, ih]
    rfl

theorem checkVariant_eq_run (item : Value) :
    (fun _ => picked) <$> checkVariant g limits u depth item =
      run picked (elementSteps g limits (.union u) depth item) := by
  cases item with
  | str tag =>
    rw [checkVariant, elementSteps_of_picks rfl, elementPicks, List.map_singleton, run_singleton]
    rw [takeStep, pickStep, pickPlan]
    simp only [bind_assoc, pure_bind, map_eq_pure_bind]
    rfl
  | obj entries =>
    rw [checkVariant]
    cases h : entries.isEmpty with
    | true =>
      have hform : formFault? (.union u) (.obj entries) = some .emptyVariants := by
        rw [formFault?, if_pos h]
      rw [elementSteps_of_form hform, run_singleton]
      rfl
    | false =>
      have hform : formFault? (.union u) (.obj entries) = none := by simp [formFault?, h]
      rw [elementSteps_of_picks hform]
      exact checkVariantPicks_eq_run entries
  | _ =>
    rw [checkVariant, elementSteps_of_form rfl, run_singleton]
    · rfl
    all_goals simp

theorem checkVariants_eq_run (items : List Value) :
    (fun _ => picked) <$> checkVariants g limits u depth items =
      run picked (steps g limits (.union u) depth items) := by
  induction items with
  | nil => rfl
  | cons item items ih =>
    rw [checkVariants, steps_cons, run_append, ← checkVariant_eq_run, map_bind, bind_map_left]
    exact bind_congr fun _ => ih

/-- Within the limit the elements of an entity's list are checked by running their steps. -/
theorem checkList_eq_run (he : g.follow? target = some e) (hd : ¬ limits.maxDepth < depth)
    (item : Value) (items : List Value) :
    checkList g limits target label depth (item :: items) =
      (fun _ => ()) <$> run [] (steps g limits e depth (item :: items)) := by
  rw [checkList, if_neg hd, he]
  cases e with
  | record r =>
    rw [← checkItems_eq_run, checkItems, map_bind]
    simp only [map_eq_pure_bind]
  | union u =>
    rw [← checkVariants_eq_run, Functor.map_map, checkVariants]
    exact (id_map _).symm

/-- The check of a node opens it and runs the steps of its elements. -/
theorem checkNode_eq (v : Value) :
    checkNode g limits target label depth v =
      match openNode g limits target label depth v with
      | .ok (e, items) => (fun _ => ()) <$> run [] (steps g limits e depth items)
      | .error cause => faultHere cause := by
  by_cases hd : limits.maxDepth < depth
  · cases v with
    | list items => cases items <;> simp only [checkNode, checkList, openNode, if_pos hd]
    | _ => simp only [checkNode, openNode, if_pos hd]
  · cases v with
    | list items =>
      cases items with
      | nil => simp only [checkNode, checkList, openNode, if_neg hd]
      | cons item items =>
        cases he : g.follow? target with
        | none => simp only [checkNode, checkList, openNode, if_neg hd, he]
        | some e =>
          simp only [checkNode, openNode, if_neg hd, he]
          exact checkList_eq_run he hd item items
    | _ => simp only [checkNode, openNode, if_neg hd]

end Shapewise.Selection
