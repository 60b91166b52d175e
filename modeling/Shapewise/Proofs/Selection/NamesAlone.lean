import Shapewise.Proofs.Selection.Contribution

/-!
# Names alone

A record is projected in one of two ways (`projectList_choice`). Where names alone are selected, or the
record has no complex field, the shape of each name is put under it, whatever stood there before
(`projectPrimitives`); otherwise every element is projected by itself, and what they give is merged
(`projectElements`). On a list of names the two ways come to the same, faults included
(`names_alone_projected_alike`), so the choice saves the merge and decides nothing.

The merge has nothing to decide either: all elements that pick one name give the same shape, so a name
that is picked again leaves the fields gathered so far as they are.
-/

namespace Shapewise.Selection

open Outcome Shape

variable {g : Graph} {r : Record} {names : List String}

/-- The shape of a record's selection by its elements: what each of them gives, merged. -/
def projectElements (g : Graph) (r : Record) (items : List Value) : Except ProjectionFault Shape := do
  mergePicks (← projectItems g r items)

/-- What a list of names gives of a record. -/
inductive NamesGive (r : Record) (names : List String) : Except ProjectionFault Shape → Prop
  /-- Every name has a primitive field: each is a key, in the order in which the names first occur,
  with the shape of its field, and none may be absent. -/
  | fields {fields : List (String × Shape)} (hkeys : Entries.keys fields = names.eraseDups)
      (hshapes : ∀ name s, (name, s) ∈ fields → ∃ p, r.primitive? name = some p ∧ s = p.shape) :
      NamesGive r names (.ok (.record fields))
  /-- The first name without a primitive field. -/
  | missing {before after : List String} {name : String} (hnames : names = before ++ name :: after)
      (hbefore : ∀ other ∈ before, ∃ p, r.primitive? other = some p)
      (hname : r.primitive? name = none) : NamesGive r names (.error (.missing name))

/-- A list of fields is projected in one way or the other. -/
theorem projectList_choice {target : Target} (he : g.follow? target = some (.record r))
    (items : List Value) :
    projectList g target items =
      if isFlat r items then projectPrimitives r items else projectElements g r items := by
  split
  · next hf => exact projectList_flat he hf
  · next hf => rw [projectList_record he (Bool.eq_false_iff.2 hf), projectElements, projectItems_eq]

/-! ## A primitive field -/

theorem projectPrimitive_eq_ok_iff {name : String} {field : String × Shape} :
    projectPrimitive r (.str name) = .ok field ↔
      ∃ p, r.primitive? name = some p ∧ (name, p.shape) = field := by
  rw [projectPrimitive]
  cases r.primitive? name <;> simp

theorem projectPrimitive_eq_error_iff {name : String} {f : ProjectionFault} :
    projectPrimitive r (.str name) = .error f ↔ r.primitive? name = none ∧ f = .missing name := by
  rw [projectPrimitive]
  cases r.primitive? name <;> simp [eq_comm]

/-- A name alone contributes a shape that can be merged. -/
theorem proper_of_pickShape {name : String} {s : Shape}
    (h : pickShape g (.record r) name none = .ok s) : Proper s := by
  rw [pickShape] at h
  cases hp : r.primitive? name with
  | none => simp [hp] at h
  | some p =>
    obtain rfl : p.shape = s := by simpa [hp] using h
    exact (proper_scalar p.type).wrap p.isArray p.isNullable

/-! ## Fields put under their names -/

theorem keys_of_projectPrimitive {cs : List (String × Shape)}
    (h : List.Forall₂ (fun name c => projectPrimitive r (.str name) = .ok c) names cs) :
    Entries.keys cs = names := by
  induction h with
  | nil => rfl
  | cons hfield _ ih =>
    obtain ⟨p, -, rfl⟩ := projectPrimitive_eq_ok_iff.1 hfield
    rw [Entries.keys_cons, ih]

/-- What is put under the names is what they give: the first of them that has no field ends it. -/
theorem namesGive_projectPrimitives (r : Record) (names : List String) :
    NamesGive r names (projectPrimitives r (names.map .str)) := by
  rw [projectPrimitives, List.mapM_map]
  cases h : names.mapM (projectPrimitive r ∘ .str) with
  | ok cs =>
    have hfields : List.Forall₂ (fun name c => projectPrimitive r (.str name) = .ok c) names cs :=
      mapM_eq_ok_iff.1 h
    have hkeys : Entries.keys (Entries.ofList cs) = names.eraseDups := by
      rw [Entries.keys_ofList, keys_of_projectPrimitive hfields]
    refine .fields hkeys fun name s hm => ?_
    obtain ⟨other, -, hfield⟩ := exists_of_forall₂_right hfields (Entries.mem_of_mem_ofList hm)
    obtain ⟨p, hp, heq⟩ := projectPrimitive_eq_ok_iff.1 hfield
    obtain ⟨rfl, rfl⟩ := Prod.mk.inj heq
    exact ⟨p, hp, rfl⟩
  | error f =>
    obtain ⟨before, name, after, hnames, hbefore, hname⟩ := exists_of_mapM_eq_error h
    obtain ⟨hnone, rfl⟩ := projectPrimitive_eq_error_iff.1 hname
    refine .missing hnames (fun other hm => ?_) hnone
    obtain ⟨field, hfield⟩ := hbefore other hm
    obtain ⟨p, hp, -⟩ := projectPrimitive_eq_ok_iff.1 hfield
    exact ⟨p, hp⟩

/-! ## Fields merged one after the other -/

/-- Each name gives an object of its own, with the one field that the name contributes. -/
theorem projectItems_names (names : List String) :
    projectItems g r (names.map .str) =
      (List.map fun c => .record [c]) <$> contributions g (.record r) (picks (names.map .str)) := by
  induction names with
  | nil => rfl
  | cons name names ih =>
    rw [List.map_cons, projectItems, ih, projectItem_str, picks_cons, elementPicks,
      List.singleton_append, contributions_cons]
    simp only [bind_map_left, map_bind, Functor.map_map, bind_pure_comp, List.map_cons]

theorem projectElements_names (g : Graph) (r : Record) (names : List String) :
    projectElements g r (names.map .str) = projectPrimitives r (names.map .str) := by
  have hstr : ∀ item ∈ names.map Value.str, ∃ name, item = .str name := by
    intro item hm
    obtain ⟨name, -, rfl⟩ := List.mem_map.1 hm
    exact ⟨name, rfl⟩
  rw [projectElements, projectItems_names, bind_map_left, projectPrimitives_eq (g := g) hstr]
  refine bind_congr_of_ok fun cs hcs => mergePicks_singles fun c hc => ?_
  exact proper_of_pickShape (pickShape_of_contributions hstr hcs c hc)

/-! ## The choice between the two -/

/-- Both ways give the same shape of a list of names, with a key for each name in the order in which
they first occur, or they miss the same first name. So nothing tells which of them was taken. -/
theorem names_alone_projected_alike (g : Graph) (r : Record) (names : List String) :
    NamesGive r names (projectPrimitives r (names.map .str)) ∧
    projectElements g r (names.map .str) = projectPrimitives r (names.map .str) ∧
    ∀ target, g.follow? target = some (.record r) →
      projectNode g target (.list (names.map .str)) = projectElements g r (names.map .str) := by
  refine ⟨namesGive_projectPrimitives r names, projectElements_names g r names, ?_⟩
  intro target he
  rw [projectNode, projectList_choice he, projectElements_names, ite_self]

/-- A task with a title, tags that may be null and the tasks that block it. -/
def task : Record :=
  ⟨.resource, "Task",
    [("title", ⟨"title", .string, false, false⟩), ("tags", ⟨"tags", .string, true, true⟩)],
    [("blockers", ⟨"blockers", .relationship, .entity ⟨0⟩, true, false⟩)]⟩

/-- Tasks alone. -/
def tasks : Graph := ⟨[.record task]⟩

theorem names_alone_projected_alike_task :
    tasks.follow? (.entity ⟨0⟩) = some (.record task) ∧
    projectNode tasks (.entity ⟨0⟩) (.list (["tags", "title", "tags"].map .str)) =
      projectElements tasks task (["tags", "title", "tags"].map .str) :=
  ⟨rfl, (names_alone_projected_alike tasks task ["tags", "title", "tags"]).2.2 (.entity ⟨0⟩) rfl⟩

-- The relationship is a field of the task, but no name that may stand alone.
example : projectElements tasks task (["title", "blockers", "done"].map .str) =
    .error (.missing "blockers") := by
  rfl

end Shapewise.Selection
