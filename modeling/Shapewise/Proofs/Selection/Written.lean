import Shapewise.Proofs.Selection.Recognition
import Shapewise.Proofs.Selection.Paths

/-!
# Selections that were written as text

What a text can say is narrower than what a client can send. A field that is written down is a name
alone or an object with one name, under which stands a list of fields or, where arguments are
written, an object with nothing but `args` and `fields`. So of all that the check says about the form
of a selection a text gets to see one thing: arguments were written where a list of fields is
expected (`read_selection_form`).
-/

namespace Shapewise.Selection

open Outcome Text

/-! ## Fields as they are written -/

/-- The fields of a list in order. -/
def FieldListTree.toList : FieldListTree → List FieldTree
  | .single f => [f]
  | .more items f => items.toList ++ [f]

/-- The fields of a selection in order. -/
def SelectionTree.fields : SelectionTree → List FieldTree
  | .empty => []
  | .list items _ => items.toList

namespace FieldTree

/-- The name of a field. -/
def field : FieldTree → String
  | .name field | .block field _ | .call field _ | .callBlock field _ _ => field

/-- The arguments with which a field is written. -/
def arguments? : FieldTree → Option ArgumentsTree
  | .call _ arguments | .callBlock _ arguments _ => some arguments
  | _ => none

/-- The fields in the braces of a field. -/
def fields? : FieldTree → Option (List FieldTree)
  | .block _ fields | .callBlock _ _ fields => some fields.fields
  | _ => none

/-- What a field selects of its name. -/
def selected? : FieldTree → Option Value
  | .name _ => none
  | .block _ fields => some (.list fields.values)
  | .call _ arguments => some (.obj [("args", .obj arguments.entries)])
  | .callBlock _ arguments fields =>
    some (.obj [("args", .obj arguments.entries), ("fields", .list fields.values)])

end FieldTree

/-- A name of an entity stands with a list of fields and with nothing else: a relationship, a nested
map, a union field or a variant that is an entity. -/
inductive Nests : Entity → String → Prop
  | field {r : Record} {n : String} {f : Field} :
      r.field? n = some f → f.kind = .relationship ∨ f.kind = .map ∨ f.kind = .union →
      Nests (.record r) n
  | variant {u : Union} {n : String} {id : EntityId} :
      u.variant? n = some (.entity id) → Nests (.union u) n

/-- A written field stands at the end of a path, as a name of the entity to which the names before it
lead. -/
inductive Stands (g : Graph) : Target → List FieldTree → List String → Entity → FieldTree → Prop
  | here {target : Target} {fields : List FieldTree} {e : Entity} {field : FieldTree} :
      g.follow? target = some e → field ∈ fields → Stands g target fields [field.field] e field
  | deeper {target next : Target} {fields inner : List FieldTree} {path : List String}
      {e e' : Entity} {outer field : FieldTree} :
      g.follow? target = some e → outer ∈ fields → outer.fields? = some inner →
      Leads e outer.field next → Stands g next inner path e' field →
      Stands g target fields (outer.field :: path) e' field

variable {g : Graph} {L : Limits} {target next : Target} {label : Option String} {depth : Nat}
  {e : Entity} {id : EntityId} {k : String} {o : Option Value} {v w : Value}
  {f : SelectionFault} {cause : SelectionCause} {field : FieldTree} {fields : List FieldTree}

/-! ## What a written field picks -/

theorem FieldListTree.values_eq (items : FieldListTree) :
    items.values = items.toList.map FieldTree.value := by
  cases items with
  | single f => rfl
  | more items f =>
    rw [toList, List.map_append, ← items.values_eq]
    rfl

theorem SelectionTree.values_eq (s : SelectionTree) : s.values = s.fields.map FieldTree.value := by
  cases s with
  | empty => rfl
  | list items comma => exact items.values_eq

theorem elementPicks_value (field : FieldTree) :
    elementPicks field.value = [(field.field, field.selected?)] := by
  cases field <;> rfl

theorem mem_picks_values (h : (k, o) ∈ picks (fields.map FieldTree.value)) :
    ∃ field ∈ fields, field.field = k ∧ field.selected? = o := by
  obtain ⟨item, hitem, hp⟩ := mem_picks.1 h
  obtain ⟨field, hfield, rfl⟩ := List.mem_map.1 hitem
  rw [elementPicks_value, List.mem_singleton] at hp
  obtain ⟨rfl, rfl⟩ := Prod.mk.inj hp
  exact ⟨field, hfield, rfl, rfl⟩

/-- Every element that is written picks a name. -/
theorem formFault?_value (e : Entity) (field : FieldTree) : formFault? e field.value = none := by
  cases e <;> cases field <;> rfl

/-- A field selects the list in its braces, or an object where arguments are written. -/
theorem FieldTree.selected?_cases (h : field.selected? = some v) :
    (∃ inner, field.fields? = some inner ∧ v = .list (inner.map FieldTree.value)) ∨
      field.arguments?.isSome = true ∧ ∃ entries, v = .obj entries := by
  cases field with
  | name => cases h
  | block _ fields =>
    cases h
    exact .inl ⟨_, rfl, congrArg Value.list fields.values_eq⟩
  | call | callBlock =>
    cases h
    exact .inr ⟨rfl, _, rfl⟩

/-- What is selected of a calculation's result is the list in the braces. -/
theorem FieldTree.resultNode?_selected (h : field.selected? = some v) (hw : resultNode? v = some w) :
    ∃ inner, field.fields? = some inner ∧ w = .list (inner.map FieldTree.value) := by
  cases field with
  | name => cases h
  | block _ fields =>
    cases h
    cases hw
    exact ⟨_, rfl, congrArg Value.list fields.values_eq⟩
  | call =>
    cases h
    cases hw
  | callBlock _ _ fields =>
    cases h
    cases hw
    exact ⟨_, rfl, congrArg Value.list fields.values_eq⟩

/-! ## Faults at a pick -/

/-- A cause is neither the form of a selection nor that arguments are no object. -/
def Formed (cause : SelectionCause) : Prop :=
  (∀ fault, cause ≠ .form fault) ∧ ∀ typeName, cause ≠ .invalidArguments (.notObject typeName)

theorem AboutName.formed (h : AboutName cause) : Formed cause := by
  constructor <;> rintro _ rfl <;> exact h

theorem formed_takesNoSelection (k : String) : Formed (.takesNoSelection k) :=
  AboutName.formed trivial

theorem formed_needsSelection (label : Option String) : Formed (.needsSelection label) :=
  AboutName.formed trivial

theorem formed_invalidArguments {fault : ArgumentFault}
    (h : ∀ typeName, fault ≠ .notObject typeName) : Formed (.invalidArguments fault) := by
  refine ⟨fun _ => by simp, fun typeName heq => h typeName ?_⟩
  exact SelectionCause.invalidArguments.inj heq

theorem checkSupplied_fault {declared : List Argument} {supplied : List (String × Value)} :
    Settles (fun _ => True) (fun fault => ∀ typeName, fault ≠ .notObject typeName)
      (checkSupplied declared supplied) := by
  induction supplied with
  | nil => trivial
  | cons entry supplied ih =>
    rw [checkSupplied]
    split
    · exact fun _ => by simp
    · split
      · exact ih
      · exact fun _ => by simp

theorem checkRequired_fault {supplied : List (String × Value)} {names : List String} :
    Settles (fun _ => True) (fun fault => ∀ typeName, fault ≠ .notObject typeName)
      (checkRequired supplied names) := by
  induction names with
  | nil => trivial
  | cons name names ih =>
    rw [checkRequired]
    split
    · exact ih
    · exact fun _ => by simp

theorem checkArguments_fault {calculation : String} {declared : Option (List Argument)}
    {entries : List (String × Value)} :
    Settles (fun _ => True) Formed
      ((checkArguments calculation declared (.obj entries)).mapError .invalidArguments) := by
  refine Settles.mapError (E := fun fault => ∀ typeName, fault ≠ .notObject typeName) ?_
    fun fault => formed_invalidArguments
  cases declared with
  | none =>
    rw [checkArguments]
    split
    · trivial
    · exact fun _ => by simp
  | some declared => exact checkSupplied_fault.bind fun _ _ _ => checkRequired_fault

/-- Beside its fields a written calculation has arguments or nothing, and the arguments are an
object. -/
theorem checkCalculation_formed {c : Field} {declared : Option (List Argument)}
    (hv : field.selected? = some v) :
    Settles (fun _ => True) Formed (checkCalculation k c declared v) := by
  cases field with
  | name => cases hv
  | block _ fields =>
    cases hv
    have hrequired : Settles (fun _ => True) Formed (checkNoneRequired declared) := by
      refine checkNoneRequired_fault.imp_error ?_
      rintro _ ⟨names, rfl⟩
      exact ⟨fun _ => by simp, fun _ => by simp⟩
    refine hrequired.bind fun _ _ _ => ?_
    split
    · trivial
    · exact formed_takesNoSelection k
  | call _ arguments =>
    cases hv
    refine checkArguments_fault.bind fun _ _ _ => ?_
    cases c.target.isEntity
    · trivial
    · exact formed_needsSelection (some k)
  | callBlock _ arguments fields =>
    cases hv
    refine checkArguments_fault.bind fun _ _ _ => ?_
    cases c.target.isEntity
    · exact formed_takesNoSelection k
    · trivial

theorem pickPlan_formed (h : pickPlan e field.field field.selected? = .error f) : Formed f.cause := by
  obtain ⟨cause, rfl, hcause⟩ | ⟨r, c, declared, v, cause, -, hv, -, -, hcheck, rfl⟩ :=
    pickPlan_eq_error_cases h
  · exact hcause.formed
  · exact (checkCalculation_formed hv).of_error hcheck

/-! ## Nodes below a written field -/

/-- In a closed graph the names of an entity below which something is checked lead to an entity. -/
theorem NodeBelow.follows {items : List Value} (hg : g.Closed) (he : g.follow? target = some e)
    (h : NodeBelow e items k next w) : ∃ e', g.follow? next = some e' := by
  obtain ⟨id, -, hid⟩ := Graph.get?_of_follow? he
  have hrules : g.KeepsRules e := Graph.checkRules_eq_ok_iff.1 (hg.rules id e hid)
  have hentity : ∀ {id' : EntityId}, e.Leads id' → ∃ e', g.follow? (.entity id') = some e' :=
    fun hleads => hrules.exists_get? hleads
  obtain ⟨o, plan, -, hplan, hnode⟩ := h
  cases planned_of_pickPlan hplan with
  | name => cases hnode
  | @field r _ c v hf hk =>
    cases hnode
    obtain ⟨-, hadmits⟩ := (hg.keepsRecord hid).fields _ _ (Entries.mem_of_get? hf)
    have hknown : ∃ kind, g.targetKind? c.target = some kind := by
      cases hkind : c.kind with
      | calculation declared => exact absurd hkind (hk declared)
      | relationship | map | union =>
        rw [hkind] at hadmits
        exact ⟨_, hadmits⟩
    obtain ⟨kind, hkind⟩ := hknown
    obtain ⟨id', htarget⟩ := Graph.eq_entity_of_targetKind? hkind
    rw [htarget]
    exact hentity (.field (Entries.mem_of_get? hf) htarget)
  | @calculation r _ c declared v hf hk =>
    simp only [Option.ite_none_right_eq_some, Option.map_eq_some_iff] at hnode
    obtain ⟨htarget, w, -, hnode⟩ := hnode
    cases hnode
    cases hc : c.target with
    | entity id' => exact hentity (.field (Entries.mem_of_get? hf) hc)
    | _ => simp [hc, Target.isEntity] at htarget
  | variant hu =>
    cases hnode
    exact hentity (.variant (Entries.mem_of_get? hu))

/-- Below a written field stands the list in its braces, or the object of a field that was written
with arguments and takes none. -/
theorem NodeBelow.written (h : NodeBelow e (fields.map FieldTree.value) k next w) :
    ∃ field ∈ fields, field.field = k ∧ Leads e k next ∧
      ((∃ inner, field.fields? = some inner ∧ w = .list (inner.map FieldTree.value)) ∨
        field.arguments?.isSome = true ∧ Nests e k ∧ ∃ entries, w = .obj entries) := by
  obtain ⟨o, plan, hp, hplan, hnode⟩ := h
  obtain ⟨field, hfield, rfl, hselected⟩ := mem_picks_values hp
  refine ⟨field, hfield, rfl, ?_⟩
  cases planned_of_pickPlan hplan with
  | name => cases hnode
  | @field r _ c v hf hk =>
    cases hnode
    have hnests : Nests (.record r) field.field := by
      refine .field hf ?_
      cases hkind : c.kind with
      | calculation declared => exact absurd hkind (hk declared)
      | _ => simp
    refine ⟨.field hf, (FieldTree.selected?_cases hselected).imp_right ?_⟩
    exact fun ⟨harguments, hv⟩ => ⟨harguments, hnests, hv⟩
  | calculation hf hk =>
    simp only [Option.ite_none_right_eq_some, Option.map_eq_some_iff] at hnode
    obtain ⟨-, w, hw, hnode⟩ := hnode
    cases hnode
    exact ⟨.field hf, .inl (FieldTree.resultNode?_selected hselected hw)⟩
  | variant hu =>
    cases hnode
    refine ⟨.variant hu, (FieldTree.selected?_cases hselected).imp_right ?_⟩
    exact fun ⟨harguments, hv⟩ => ⟨harguments, .variant hu, hv⟩

/-! ## The faults of a text -/

/-- What a fault of written fields can say about form: at a field that was written with arguments
stands an object where a list of fields is expected. -/
structure WrittenFault (g : Graph) (target : Target) (fields : List FieldTree) (f : SelectionFault) :
    Prop where
  form : ∀ fault, f.cause = .form fault → fault = .notList "dict" ∧
    ∃ e field, Stands g target fields f.path e field ∧ field.arguments?.isSome = true ∧
      Nests e field.field
  arguments : ∀ typeName, f.cause ≠ .invalidArguments (.notObject typeName)

theorem Formed.writtenFault (h : Formed f.cause) : WrittenFault g target fields f :=
  ⟨fun fault hfault => absurd hfault (h.1 fault), h.2⟩

/-- A fault of the list in the braces of a field is one of the field. -/
theorem WrittenFault.within {inner : List FieldTree} (h : WrittenFault g next inner f)
    (he : g.follow? target = some e) (hfield : field ∈ fields) (hfields : field.fields? = some inner)
    (hleads : Leads e field.field next) :
    WrittenFault g target fields ⟨field.field :: f.path, f.cause⟩ := by
  refine ⟨fun fault hfault => ?_, h.arguments⟩
  obtain ⟨rfl, e', last, hstands, harguments, hnests⟩ := h.form fault hfault
  exact ⟨rfl, e', last, .deeper he hfield hfields hleads hstands, harguments, hnests⟩

/-- Where a list of fields is expected and an object stands, the fault is the depth or the form. -/
theorem checkNode_obj_fault {entries : List (String × Value)}
    (h : checkNode g L target label depth (.obj entries) = .error f) :
    f = ⟨[], .tooDeep L.maxDepth⟩ ∨ f = ⟨[], .form (.notList "dict")⟩ := by
  rw [checkNode] at h
  · split at h
    · cases h
      exact .inl rfl
    · cases h
      exact .inr rfl
  · simp

theorem writtenFault_of_checkNode (hg : g.Closed) (he : g.follow? target = some e)
    (h : checkNode g L target label depth (.list (fields.map FieldTree.value)) = .error f) :
    WrittenFault g target fields f := by
  refine checkNode_fault_induction (P := fun target _ _ v f => ∀ e fields,
    g.follow? target = some e → v = .list (fields.map FieldTree.value) →
      WrittenFault g target fields f) ?_ ?_ ?_ ?_ ?_ h e fields he rfl
  · rintro target label depth _ cause hopen e fields he rfl
    obtain ⟨-, rfl⟩ | ⟨-, ⟨hlist, -⟩ | ⟨-, rfl⟩ | ⟨hnone, -⟩⟩ := openNode_eq_error_cases hopen
    · exact Formed.writtenFault ⟨fun _ => by simp, fun _ => by simp⟩
    · exact absurd rfl (hlist _)
    · exact (formed_needsSelection label).writtenFault
    · cases he.symm.trans hnone
  · rintro target label depth _ e items item fault hopen hitem hfault - fields - rfl
    obtain ⟨-, ⟨⟩, -, -⟩ := openNode_eq_ok_iff.1 hopen
    obtain ⟨field, -, rfl⟩ := List.mem_map.1 hitem
    cases (formFault?_value e field).symm.trans hfault
  · rintro target label depth _ e items k o f hopen hp hplan - fields - rfl
    obtain ⟨-, ⟨⟩, -, -⟩ := openNode_eq_ok_iff.1 hopen
    obtain ⟨field, -, rfl, rfl⟩ := mem_picks_values hp
    exact (pickPlan_formed hplan).writtenFault
  · intros
    exact Formed.writtenFault ⟨fun _ => by simp, fun _ => by simp⟩
  · rintro target label depth _ e items k next w f hopen hbelow hw ih - fields - rfl
    obtain ⟨-, ⟨⟩, -, he⟩ := openNode_eq_ok_iff.1 hopen
    obtain ⟨e', he'⟩ := hbelow.follows hg he
    obtain ⟨field, hfield, rfl, hleads, ⟨inner, hinner, rfl⟩ | ⟨harguments, hnests, entries, rfl⟩⟩ :=
      hbelow.written
    · exact (ih e' inner he' rfl).within he hfield hinner hleads
    · obtain rfl | rfl := checkNode_obj_fault hw
      · exact Formed.writtenFault ⟨fun _ => by simp, fun _ => by simp⟩
      · refine ⟨fun fault hfault => ?_, fun _ => by simp⟩
        cases hfault
        exact ⟨rfl, e, field, .here he hfield, harguments, hnests⟩

/-- Writes arguments after a relationship. -/
def authorCall : List Char :=
  "title, author(by: 1) { name }".toList

/-- The selection that is written there. -/
def authorCalled : List Value :=
  [.str "title", .obj [("author", .obj [("args", .obj [("by", .int 1)]),
    ("fields", .list [.str "name"])])]]

end Shapewise.Selection
