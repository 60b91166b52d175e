import Shapewise.Proofs.Schema.Selection
import Shapewise.Proofs.Selection.Refused

/-!
# Where faults point

The path of a fault as a way down the selection. `Walks` follows names from the list of the root:
under each name it goes on in the list that some element has there, or in the fields of a call. The
path of every fault is such a walk with one more name, which is picked where the walk ends; a fault
without a path is about the root or an element of it that has no name (`check_fault_points`).
-/

namespace Shapewise.Selection

open Outcome

/-! ## Walks -/

/-- What some element of a list of fields has under a name, as a list of fields of a target. -/
inductive Descends : Entity → List Value → String → Target → List Value → Prop
  | value {e : Entity} {items inner : List Value} {n : String} {next : Target}
      {entries : List (String × Value)} :
      Leads e n next → .obj entries ∈ items → (n, .list inner) ∈ entries →
      Descends e items n next inner
  /-- The object for a calculation has the list under `fields`. -/
  | fields {r : Record} {items inner : List Value} {n : String} {f : Field}
      {declared : Option (List Argument)} {entries call : List (String × Value)} :
      r.field? n = some f → f.kind = .calculation declared → .obj entries ∈ items →
      (n, .obj call) ∈ entries → Entries.get? call "fields" = some (.list inner) →
      Descends (.record r) items n f.target inner

/-- Names lead from a list of fields of a target to another list of fields. -/
inductive Walks (g : Graph) : Target → List Value → List String → List Value → Prop
  | here {target : Target} {items : List Value} : Walks g target items [] items
  | step {target next : Target} {e : Entity} {items inner last : List Value} {n : String}
      {q : List String} :
      g.follow? target = some e → Descends e items n next inner → Walks g next inner q last →
      Walks g target items (n :: q) last

/-- An element without a name: an object without entries, or neither a text nor an object. -/
def Nameless (item : Value) : Prop :=
  item = .obj [] ∨ (∀ s, item ≠ .str s) ∧ ∀ entries, item ≠ .obj entries

variable {g : Graph} {L : Limits} {e : Entity} {target next : Target} {label : Option String}
  {depth : Nat} {v w : Value} {items inner : List Value} {k n : String} {q : List String}
  {f : SelectionFault} {id : EntityId}

theorem nameless_of_formFault? {item : Value} {fault : FormFault}
    (h : formFault? e item = some fault) : Nameless item := by
  cases item with
  | str s => cases e <;> cases h
  | obj entries =>
    cases entries with
    | nil => exact .inl rfl
    | cons entry entries => cases e <;> simp [formFault?] at h
  | _ => exact .inr ⟨by simp, by simp⟩

/-- A name is picked where it stands alone or is a name of an object. -/
theorem mem_pickedNames_iff :
    n ∈ pickedNames items ↔
      .str n ∈ items ∨ ∃ entries, .obj entries ∈ items ∧ n ∈ Entries.keys entries := by
  simp only [pickedNames, Entries.mem_keys]
  constructor
  · rintro ⟨o, hp⟩
    cases o with
    | none =>
      obtain ⟨item, hitem, hp⟩ := mem_picks.1 hp
      cases item with
      | str s =>
        cases List.mem_singleton.1 hp
        exact .inl hitem
      | obj entries => simp [elementPicks] at hp
      | _ => cases hp
    | some v =>
      obtain ⟨entries, hitem, hv⟩ := mem_selectedOf_iff.1 (mem_selectedOf.2 hp)
      exact .inr ⟨entries, hitem, v, hv⟩
  · rintro (hitem | ⟨entries, hitem, v, hv⟩)
    · exact ⟨none, mem_picks.2 ⟨_, hitem, List.mem_cons_self⟩⟩
    · exact ⟨some v, mem_selectedOf.1 (mem_selectedOf_iff.2 ⟨entries, hitem, hv⟩)⟩

/-! ## The path of a fault -/

theorem NodeBelow.mem_pickedNames (h : NodeBelow e items k next w) : k ∈ pickedNames items := by
  obtain ⟨o, -, hp, -, -⟩ := h
  exact Entries.mem_keys.2 ⟨o, hp⟩

theorem NodeBelow.descends (h : NodeBelow e items k next (.list inner)) :
    Descends e items k next inner := by
  obtain ⟨o, plan, hp, hplan, hnode⟩ := h
  cases planned_of_pickPlan hplan with
  | name => cases hnode
  | field hf =>
    cases hnode
    obtain ⟨entries, hitem, hv⟩ := mem_selectedOf_iff.1 (mem_selectedOf.2 hp)
    exact .value (.field hf) hitem hv
  | variant hu =>
    cases hnode
    obtain ⟨entries, hitem, hv⟩ := mem_selectedOf_iff.1 (mem_selectedOf.2 hp)
    exact .value (.variant hu) hitem hv
  | @calculation r _ f declared v hf hkind =>
    simp only [Option.ite_none_right_eq_some, Option.map_eq_some_iff] at hnode
    obtain ⟨-, w, hw, hnode⟩ := hnode
    cases hnode
    obtain ⟨entries, hitem, hv⟩ := mem_selectedOf_iff.1 (mem_selectedOf.2 hp)
    cases v with
    | list items =>
      cases hw
      exact .value (.field hf) hitem hv
    | obj call => exact .fields hf hkind hitem hv hw
    | _ => cases hw

/-- The names of a path but the last lead to a list of fields that picks the last one. -/
theorem Refused.walks (h : Refused g L target label depth v f) (hpath : f.path = q ++ [n]) :
    ∃ root last, v = .list root ∧ Walks g target root q last ∧ n ∈ pickedNames last := by
  induction h generalizing q with
  | node => simp at hpath
  | element => simp at hpath
  | pick hopen hk =>
    obtain ⟨-, rfl, -, -⟩ := openNode_eq_ok_iff.1 hopen
    cases q with
    | nil =>
      cases hpath
      exact ⟨_, _, rfl, .here, hk⟩
    | cons m q => simp at hpath
  | deeper hopen hbelow _ ih =>
    obtain ⟨-, rfl, -, he⟩ := openNode_eq_ok_iff.1 hopen
    cases q with
    | nil =>
      obtain ⟨rfl, -⟩ := List.cons_eq_cons.1 hpath
      exact ⟨_, _, rfl, .here, hbelow.mem_pickedNames⟩
    | cons m q =>
      obtain ⟨rfl, hrest⟩ := List.cons_eq_cons.1 hpath
      obtain ⟨root, last, rfl, hwalk, hn⟩ := ih hrest
      exact ⟨_, last, rfl, .step he hbelow.descends hwalk, hn⟩

/-- Within the limit a fault without a path is about the node or an element without a name. -/
theorem Refused.root (h : Refused g L target label depth v f) (hd : depth ≤ L.maxDepth)
    (he : g.follow? target = some e) (hpath : f.path = []) :
    ((∀ items, v ≠ .list items) ∧ f.cause = .form (.notList v.typeName)) ∨
      v = .list [] ∧ f.cause = .needsSelection label ∨
      ∃ items, v = .list items ∧ ∃ item ∈ items, Nameless item ∧
        ∃ fault, formFault? e item = some fault ∧ f.cause = .form fault := by
  cases h with
  | node hopen =>
    obtain ⟨hlt, -⟩ | ⟨-, hlist | hempty | ⟨hnone, -⟩⟩ := openNode_eq_error_cases hopen
    · exact absurd hd (Nat.not_le.2 hlt)
    · exact .inl hlist
    · exact .inr (.inl hempty)
    · rw [he] at hnone
      cases hnone
  | element hopen hitem hfault =>
    obtain ⟨-, rfl, -, he'⟩ := openNode_eq_ok_iff.1 hopen
    cases he.symm.trans he'
    exact .inr (.inr ⟨_, rfl, _, hitem, nameless_of_formFault? hfault, _, hfault, rfl⟩)
  | pick => cases hpath
  | deeper => cases hpath

/-- The path of a fault points into the selection: its names but the last lead down to a list of
fields in which the last one is picked. A fault without a path says that the selection is no list,
that it is empty, or what is wrong with the form of an element without a name. -/
theorem check_fault_points (he : g.get? id = some e) (h : check g L id v = .error f) :
    (∀ q n, f.path = q ++ [n] → ∃ root last, v = .list root ∧ Walks g (.entity id) root q last ∧
      (.str n ∈ last ∨ ∃ entries, .obj entries ∈ last ∧ n ∈ Entries.keys entries)) ∧
    (f.path = [] →
      ((∀ items, v ≠ .list items) ∧ f.cause = .form (.notList v.typeName)) ∨
        v = .list [] ∧ f.cause = .needsSelection none ∨
        ∃ items, v = .list items ∧ ∃ item ∈ items, Nameless item ∧
          ∃ fault, formFault? e item = some fault ∧ f.cause = .form fault) := by
  have hrefused := refused_of_checkNode h
  constructor
  · intro q n hpath
    obtain ⟨root, last, hroot, hwalk, hn⟩ := hrefused.walks hpath
    exact ⟨root, last, hroot, hwalk, mem_pickedNames_iff.1 hn⟩
  · exact hrefused.root L.positive he

/-- Picks the author of a post with a name that an author does not have. -/
def authorAge : Value :=
  .list [.str "title", .obj [("author", .list [.str "name", .str "age"])]]

theorem check_fault_points_age : ∃ schema e f, Schema.ofText postsText .standard = .ok schema ∧
    schema.graph.get? ⟨0⟩ = some e ∧
    check schema.graph .standard ⟨0⟩ authorAge = .error f ∧ f.path = ["author"] ++ ["age"] ∧
    (∀ q n, f.path = q ++ [n] →
      ∃ root last, authorAge = .list root ∧ Walks schema.graph (.entity ⟨0⟩) root q last ∧
        (.str n ∈ last ∨ ∃ entries, .obj entries ∈ last ∧ n ∈ Entries.keys entries)) ∧
    (f.path = [] →
      ((∀ items, authorAge ≠ .list items) ∧ f.cause = .form (.notList authorAge.typeName)) ∨
        authorAge = .list [] ∧ f.cause = .needsSelection none ∨
        ∃ items, authorAge = .list items ∧ ∃ item ∈ items, Nameless item ∧
          ∃ fault, formFault? e item = some fault ∧ f.cause = .form fault) := by
  have hchecked : Settles (fun schema => (schema.graph.get? ⟨0⟩).isSome = true ∧
      check schema.graph .standard ⟨0⟩ authorAge =
        .error ⟨["author", "age"], .unknownPrimitive "age" "User"⟩)
      (fun _ => False) (Schema.ofText postsText .standard) := by
    decide +kernel
  obtain ⟨schema, hs, hsome, hf⟩ := hchecked.exists_ok
  obtain ⟨e, he⟩ := Option.isSome_iff_exists.1 hsome
  exact ⟨schema, e, _, hs, he, hf, rfl, check_fault_points he hf⟩

end Shapewise.Selection
