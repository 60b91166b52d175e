import Shapewise.Proofs.Schema.Selection
import Shapewise.Proofs.Selection.Refused

/-!
# The limit of the depth

What the limit decides about a selection. The check counts depth along its calls; `nesting` reads it
off the selection, and `valid_iff_nesting` says that the limit asks for nothing else. Two runs of the
check under different limits are compared step by step: they agree, or the one under the smaller
limit has stopped at it (`SameUnlessTooDeep`). Every step down adds a name to the path of a fault, so
the path tells how deep the fault is (`Refused.path_length`). Together these say that the limit is
exact and otherwise invisible (`depth_limit_exact`).
-/

namespace Shapewise.Selection

open Outcome

/-! ## Nesting -/

mutual
/-- How deep lists of fields are nested in a node. -/
def nesting : Value → Nat
  | .list items => 1 + nestingItems items
  | _ => 0
/-- The greatest nesting in the elements of a list of fields. -/
def nestingItems : List Value → Nat
  | [] => 0
  | item :: items => max (nestingItem item) (nestingItems items)
/-- The nesting in an element of a list of fields. -/
def nestingItem : Value → Nat
  | .obj entries => nestingEntries entries
  | _ => 0
/-- The greatest nesting in what the entries of an object select. -/
def nestingEntries : List (String × Value) → Nat
  | [] => 0
  | (_, v) :: entries => max (nestingSelected v) (nestingEntries entries)
/-- The nesting in what is selected of a name: a list of fields, or an object for a calculation. -/
def nestingSelected : Value → Nat
  | .list items => 1 + nestingItems items
  | .obj entries => nestingFields entries
  | _ => 0
/-- The nesting in what the object for a calculation has under `fields`. -/
def nestingFields : List (String × Value) → Nat
  | [] => 0
  | (k, v) :: entries => if k = "fields" then nesting v else nestingFields entries
end

variable {g : Graph} {L L' : Limits} {M N depth : Nat} {target : Target} {e : Entity}
  {label : Option String} {k : String} {v : Value} {items : List Value}
  {entries : List (String × Value)} {f : SelectionFault}

theorem nestingItems_le_iff : nestingItems items ≤ N ↔ ∀ item ∈ items, nestingItem item ≤ N := by
  induction items with
  | nil => simp [nestingItems]
  | cons item items ih => rw [nestingItems, Nat.max_le, ih, List.forall_mem_cons]

theorem nestingEntries_le_iff :
    nestingEntries entries ≤ N ↔ ∀ k v, (k, v) ∈ entries → nestingSelected v ≤ N := by
  induction entries with
  | nil => simp [nestingEntries]
  | cons entry entries ih =>
    obtain ⟨k, v⟩ := entry
    rw [nestingEntries, Nat.max_le, ih, Entries.forall_mem_cons]

theorem nestingFields_eq :
    nestingFields entries = (Entries.get? entries "fields").elim 0 nesting := by
  induction entries with
  | nil => rfl
  | cons entry entries ih =>
    obtain ⟨k, v⟩ := entry
    rw [nestingFields, Entries.get?_cons]
    split
    · rfl
    · exact ih

section entries

variable {r : Record} {u : Union} {c : Field} {declared : Option (List Argument)} {id : EntityId}

theorem validEntry_shorthand_iff (hf : r.field? k = some c) (hk : c.kind = .calculation declared)
    (ht : c.target = .entity id) (ha : ArgumentsFit declared none) :
    ValidEntry g N (.record r) depth k (.list items) ↔
      Valid g N (.entity id) (depth + 1) (.list items) := by
  refine ⟨fun h => ?_, .shorthand hf hk ht ha⟩
  obtain ⟨-, hresult⟩ := (validEntry_calculation_iff hf hk).1 h
  rw [ht] at hresult
  exact (hresult rfl).1 items rfl

theorem validEntry_call_iff (hf : r.field? k = some c) (hk : c.kind = .calculation declared)
    (ht : c.target = .entity id) (hkeys : ∀ l ∈ Entries.keys entries, l = "args" ∨ l = "fields")
    (ha : ArgumentsFit declared (Entries.get? entries "args"))
    (hv : Entries.get? entries "fields" = some v) :
    ValidEntry g N (.record r) depth k (.obj entries) ↔ Valid g N (.entity id) (depth + 1) v := by
  refine ⟨fun h => ?_, .call hf hk ht hkeys ha hv⟩
  obtain ⟨-, hresult⟩ := (validEntry_calculation_iff hf hk).1 h
  rw [ht] at hresult
  exact (hresult rfl).2 entries v rfl hv

theorem validEntry_entity_iff (hu : u.variant? k = some (.entity id)) :
    ValidEntry g N (.union u) depth k v ↔ Valid g N (.entity id) (depth + 1) v := by
  refine ⟨fun h => ?_, .variant hu⟩
  obtain ⟨id', hu', hv⟩ := validEntry_variant_iff.1 h
  cases hu.symm.trans hu'
  exact hv

end entries

/-- An object for a calculation that has arguments only holds no list of fields. -/
theorem nestingSelected_of_arguments (hkeys : ∀ l ∈ Entries.keys entries, l = "args") :
    nestingSelected (.obj entries) = 0 := by
  have hnone : Entries.get? entries "fields" = none :=
    Entries.get?_eq_none_iff.2 fun hfields => absurd (hkeys _ hfields) (by decide)
  rw [nestingSelected, nestingFields_eq, hnone, Option.elim_none]

theorem nestingSelected_of_valid (h : Valid g M target depth v) :
    nestingSelected v = nesting v := by
  rw [h.eq_list, nestingSelected, nesting]

mutual
/-- A valid selection stays valid under another limit exactly when its nesting is within it. -/
theorem valid_iff_nesting :
    ∀ {target : Target} {depth : Nat} {v : Value}, Valid g M target depth v →
      (Valid g N target depth v ↔ nesting v + depth ≤ N + 1)
  | _, depth, .list items, .list _ hne he hitems hagree => by
    rw [valid_list_iff, nesting]
    constructor
    · rintro ⟨hd, -, e', he', hitems', -⟩
      cases he.symm.trans he'
      have hle : nestingItems items ≤ N - depth := by
        refine nestingItems_le_iff.2 fun item hitem => ?_
        have := (validElement_iff_nesting (hitems item hitem) hd).1 (hitems' item hitem)
        omega
      omega
    · intro h
      have hd : depth ≤ N := by omega
      have hle : nestingItems items ≤ N - depth := by omega
      refine ⟨hd, hne, _, he, fun item hitem => ?_, hagree⟩
      have := nestingItems_le_iff.1 hle item hitem
      exact (validElement_iff_nesting (hitems item hitem) hd).2 (by omega)
theorem validElement_iff_nesting :
    ∀ {e : Entity} {depth : Nat} {item : Value}, ValidElement g M e depth item → depth ≤ N →
      (ValidElement g N e depth item ↔ nestingItem item + depth ≤ N)
  | _, depth, _, .name h, hd => by
    refine iff_of_true (.name h) ?_
    rw [nestingItem]
    · omega
    · simp
  | _, depth, .obj entries, .object hne hentries, hd => by
    rw [validElement_obj_iff, and_iff_right hne, nestingItem]
    constructor
    · intro h
      have hle : nestingEntries entries ≤ N - depth := by
        refine nestingEntries_le_iff.2 fun k v hv => ?_
        have := (validEntry_iff_nesting (hentries k v hv) hd).1 (h k v hv)
        omega
      omega
    · intro h k v hv
      have hle : nestingEntries entries ≤ N - depth := by omega
      have := nestingEntries_le_iff.1 hle k v hv
      exact (validEntry_iff_nesting (hentries k v hv) hd).2 (by omega)
theorem validEntry_iff_nesting :
    ∀ {e : Entity} {depth : Nat} {k : String} {v : Value}, ValidEntry g M e depth k v →
      depth ≤ N → (ValidEntry g N e depth k v ↔ nestingSelected v + depth ≤ N)
  | _, _, _, _, .field hf hk hv, _ => by
    rw [validEntry_field_iff hf hk, valid_iff_nesting hv, nestingSelected_of_valid hv]
    omega
  | _, _, _, .list items, .shorthand hf hk ht ha hv, _ => by
    rw [validEntry_shorthand_iff hf hk ht ha, valid_iff_nesting hv, nestingSelected_of_valid hv]
    omega
  | _, _, _, .obj entries, .call hf hk ht hkeys ha hw hv, _ => by
    rw [validEntry_call_iff hf hk ht hkeys ha hw, valid_iff_nesting hv, nestingSelected,
      nestingFields_eq, hw, Option.elim_some]
    omega
  | _, _, _, .obj entries, .value hf hk ht hkeys ha, hd => by
    refine iff_of_true (.value hf hk ht hkeys ha) ?_
    rw [nestingSelected_of_arguments hkeys]
    omega
  | _, _, _, _, .variant hu hv, _ => by
    rw [validEntry_entity_iff hu, valid_iff_nesting hv, nestingSelected_of_valid hv]
    omega
end

/-! ## Two limits -/

/-- The first outcome is the second, or a fault for the depth. -/
def SameUnlessTooDeep {α : Type} (x y : Except SelectionFault α) : Prop :=
  x = y ∨ ∃ path n, x = .error ⟨path, .tooDeep n⟩

namespace SameUnlessTooDeep

variable {α β : Type} {x y : Except SelectionFault α}

theorem refl (x : Except SelectionFault α) : SameUnlessTooDeep x x :=
  .inl rfl

theorem bind {h h' : α → Except SelectionFault β} (hxy : SameUnlessTooDeep x y)
    (hh : ∀ a, x = .ok a → SameUnlessTooDeep (h a) (h' a)) :
    SameUnlessTooDeep (x >>= h) (y >>= h') := by
  obtain rfl | ⟨path, n, rfl⟩ := hxy
  · cases x with
    | ok a => exact hh a rfl
    | error f => exact refl _
  · exact .inr ⟨path, n, rfl⟩

theorem map (h : α → β) (hxy : SameUnlessTooDeep x y) : SameUnlessTooDeep (h <$> x) (h <$> y) := by
  obtain rfl | ⟨path, n, rfl⟩ := hxy
  · exact refl _
  · exact .inr ⟨path, n, rfl⟩

theorem within (k : String) (hxy : SameUnlessTooDeep x y) :
    SameUnlessTooDeep (Shapewise.within k x) (Shapewise.within k y) := by
  obtain rfl | ⟨path, n, rfl⟩ := hxy
  · exact refl _
  · exact .inr ⟨k :: path, n, rfl⟩

end SameUnlessTooDeep

theorem sameUnlessTooDeep_run {ss ts : List Step} (h : List.Forall₂ SameUnlessTooDeep ss ts)
    (picked : Picked) : SameUnlessTooDeep (run picked ss) (run picked ts) := by
  induction h generalizing picked with
  | nil => exact .refl _
  | cons hstep _ ih =>
    rw [run_cons, run_cons]
    exact (hstep.bind fun noted _ => .refl _).bind fun p _ => ih p

/-- Runs over the same elements differ only as the steps of their picks do. -/
theorem forall₂_steps {R : Step → Step → Prop} (hrefl : ∀ s, R s s)
    (h : ∀ p ∈ picks items, R (pickStep g L e depth p) (pickStep g L' e depth p)) :
    List.Forall₂ R (steps g L e depth items) (steps g L' e depth items) := by
  induction items with
  | nil => exact .nil
  | cons item items ih =>
    obtain ⟨hitem, hitems⟩ := List.forall_mem_append.1 h
    rw [steps_cons, steps_cons]
    refine List.rel_append ?_ (ih hitems)
    rw [elementSteps, elementSteps]
    split
    · exact .cons (hrefl _) .nil
    · rw [List.forall₂_map_left_iff, List.forall₂_map_right_iff, List.forall₂_same]
      exact hitem

theorem openNode_of_le (h : L.maxDepth ≤ L'.maxDepth) :
    openNode g L target label depth v = .error (.tooDeep L.maxDepth) ∨
      openNode g L target label depth v = openNode g L' target label depth v := by
  unfold openNode
  by_cases hd : L.maxDepth < depth
  · exact .inl (if_pos hd)
  · have hd' : ¬ L'.maxDepth < depth := by omega
    rw [if_neg hd, if_neg hd']
    exact .inr rfl

/-- The step of a pick is the same under a greater limit, or too deep, where that holds of the nodes
below the pick. -/
theorem sameUnlessTooDeep_pickStep {p : String × Option Value} (hp : p ∈ picks items)
    (h : ∀ next w, NodeBelow e items p.1 next w →
      SameUnlessTooDeep (checkNode g L next (some p.1) (depth + 1) w)
        (checkNode g L' next (some p.1) (depth + 1) w)) :
    SameUnlessTooDeep (pickStep g L e depth p) (pickStep g L' e depth p) := by
  refine SameUnlessTooDeep.bind (.refl _) fun plan hplan => ?_
  have hbelow : SameUnlessTooDeep (checkBelow g L depth p.1 plan.node)
      (checkBelow g L' depth p.1 plan.node) := by
    cases hnode : plan.node with
    | none => exact .refl _
    | some node =>
      obtain ⟨next, w⟩ := node
      exact (h next w ⟨p.2, plan, hp, hplan, hnode⟩).within p.1
  exact hbelow.bind fun _ _ => .refl _

/-- Under a greater limit a node is checked with the same outcome, unless it is too deep for the
smaller one. -/
theorem checkNode_of_le (h : L.maxDepth ≤ L'.maxDepth) :
    SameUnlessTooDeep (checkNode g L target label depth v)
      (checkNode g L' target label depth v) := by
  induction hn : sizeOf v using Nat.strong_induction_on generalizing target label depth v with
  | _ n ih =>
    subst hn
    rw [checkNode_eq, checkNode_eq]
    obtain hdeep | hopen : openNode g L target label depth v = .error (.tooDeep L.maxDepth) ∨
        openNode g L target label depth v = openNode g L' target label depth v :=
      openNode_of_le h
    · rw [hdeep]
      exact .inr ⟨[], L.maxDepth, rfl⟩
    · rw [← hopen]
      cases hnode : openNode g L target label depth v with
      | error cause => exact .refl _
      | ok opened =>
        obtain ⟨e, items⟩ := opened
        refine (sameUnlessTooDeep_run (forall₂_steps .refl fun p hp => ?_) []).map _
        exact sameUnlessTooDeep_pickStep hp fun next w hbelow =>
          ih _ (hbelow.sizeOf_lt hnode) rfl

/-! ## Paths of faults -/

/-- A fault for the depth is one list beyond the limit, and every other fault is within the limit,
where the path has a name for every list that is entered. -/
theorem Refused.path_length (h : Refused g L target label depth v f)
    (hd : depth ≤ L.maxDepth + 1) :
    f.cause = .tooDeep L.maxDepth ∧ f.path.length + depth = L.maxDepth + 1 ∨
      NotDepth f.cause ∧ f.path.length + depth ≤ L.maxDepth + 1 := by
  induction h with
  | node hopen =>
    obtain ⟨hlt, rfl⟩ | ⟨hle, hcause⟩ := openNode_eq_error_cases hopen
    · refine .inl ⟨rfl, ?_⟩
      rw [List.length_nil]
      omega
    · refine .inr ⟨?_, ?_⟩
      · obtain ⟨-, rfl⟩ | ⟨-, rfl⟩ | ⟨-, rfl⟩ := hcause
        all_goals exact fun n => by simp
      · rw [List.length_nil]
        omega
  | element hopen =>
    refine .inr ⟨fun n => by simp, ?_⟩
    rw [List.length_nil]
    omega
  | pick hopen _ hcause =>
    have hle := (openNode_eq_ok_iff.1 hopen).1
    refine .inr ⟨hcause, ?_⟩
    rw [List.length_singleton]
    omega
  | deeper hopen _ _ ih =>
    have hle := (openNode_eq_ok_iff.1 hopen).1
    rw [List.length_cons]
    obtain ⟨hcause, hlength⟩ | ⟨hcause, hlength⟩ := ih (by omega)
    · exact .inl ⟨hcause, by omega⟩
    · exact .inr ⟨hcause, by omega⟩

/-! ## The limit -/

section limit

variable {id : EntityId} {s : Value}

/-- A greater limit changes the outcome of a check only where the fault was the depth. A selection is
accepted within a limit exactly when some limit accepts it and its nesting is within this one. A
fault for the depth has a path of as many names as the limit says, and no fault has a longer one. -/
theorem depth_limit_exact (h : L.maxDepth ≤ L'.maxDepth) :
    ((∀ f, check g L id s = .error f → NotDepth f.cause) → check g L' id s = check g L id s) ∧
    (check g L id s = .ok () ↔
      (∃ L₀ : Limits, check g L₀ id s = .ok ()) ∧ nesting s ≤ L.maxDepth) ∧
    (∀ f, check g L id s = .error f →
      f.cause = .tooDeep L.maxDepth ∧ f.path.length = L.maxDepth ∨
        NotDepth f.cause ∧ f.path.length ≤ L.maxDepth) := by
  refine ⟨fun hdepth => ?_, ⟨fun hc => ?_, ?_⟩, fun f hf => ?_⟩
  · obtain hsame | ⟨path, n, hdeep⟩ : SameUnlessTooDeep (check g L id s) (check g L' id s) :=
      checkNode_of_le h
    · exact hsame.symm
    · exact absurd rfl (hdepth _ hdeep n)
  · have hnesting := (valid_iff_nesting (valid_of_check hc)).1 (valid_of_check hc)
    exact ⟨⟨L, hc⟩, by omega⟩
  · rintro ⟨⟨L₀, hc⟩, hnesting⟩
    rw [check_eq_ok_iff]
    exact (valid_iff_nesting (valid_of_check hc)).2 (by omega)
  · have hpositive := L.positive
    obtain ⟨hcause, hlength⟩ | ⟨hcause, hlength⟩ :=
      (refused_of_checkNode hf).path_length (by omega)
    · exact .inl ⟨hcause, by omega⟩
    · exact .inr ⟨hcause, by omega⟩

/-- A limit within which no list of fields stands in another one. -/
def flatLimit : Limits :=
  ⟨1, le_rfl⟩

theorem depth_limit_exact_author : ∃ schema, Schema.ofText postsText .standard = .ok schema ∧
    flatLimit.maxDepth ≤ Limits.standard.maxDepth ∧
    ((∀ f, check schema.graph flatLimit ⟨0⟩ authorTwice = .error f → NotDepth f.cause) →
      check schema.graph .standard ⟨0⟩ authorTwice = check schema.graph flatLimit ⟨0⟩ authorTwice) ∧
    (check schema.graph flatLimit ⟨0⟩ authorTwice = .ok () ↔
      (∃ L₀ : Limits, check schema.graph L₀ ⟨0⟩ authorTwice = .ok ()) ∧
        nesting authorTwice ≤ flatLimit.maxDepth) ∧
    (∀ f, check schema.graph flatLimit ⟨0⟩ authorTwice = .error f →
      f.cause = .tooDeep flatLimit.maxDepth ∧ f.path.length = flatLimit.maxDepth ∨
        NotDepth f.cause ∧ f.path.length ≤ flatLimit.maxDepth) := by
  have hread : Settles (fun _ => True) (fun _ => False) (Schema.ofText postsText .standard) := by
    decide +kernel
  obtain ⟨schema, hs, -⟩ := hread.exists_ok
  have hle : flatLimit.maxDepth ≤ Limits.standard.maxDepth := by decide
  exact ⟨schema, hs, hle, depth_limit_exact hle⟩

-- the authors of a post are one list beyond the limit, and the path has one name
example : Settles (fun schema =>
    nesting authorTwice = 2 ∧ check schema.graph .standard ⟨0⟩ authorTwice = .ok () ∧
      check schema.graph flatLimit ⟨0⟩ authorTwice = .error ⟨["author"], .tooDeep 1⟩)
    (fun _ => False) (Schema.ofText postsText .standard) := by
  decide +kernel

end limit

end Shapewise.Selection
