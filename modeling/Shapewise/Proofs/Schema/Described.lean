import Shapewise.Proofs.Schema.ReadBack

/-!
# Described schemas

A schema can be described without any text: entities in order, each with its members in order, where
what leads to an entity gives the place of that entity. The description has a text, in which types go
by their names, and the schema of that text is the one that was described (`draftOfText_print`):
forward, backward and cyclic references all lead to the entity that stands at the place given.
-/

namespace Shapewise

/-- The names of the arguments that a complex field declares. -/
def FieldKind.argumentNames : FieldKind → List String
  | .calculation (some arguments) => Arguments.names arguments
  | _ => []

/-- The name by which a target goes. -/
def Graph.typeName (g : Graph) : Target → String
  | .scalar type => type.name
  | .entity id => ((g.get? id).map Entity.name).getD ""
  | .unset => ""

namespace Schema

open Outcome

/-! ## Descriptions -/

/-- A described entity: a record with its members in order, or a union. -/
inductive Sketch
  | record (kind : RecordKind) (name : String) (members : List RecordMember)
  | union (u : Union)
  deriving DecidableEq

/-- The names in a member. -/
def RecordMember.names : RecordMember → List String
  | .primitive p => [p.name]
  | .field f => f.name :: f.kind.argumentNames

/-- A member leads to what it may lead to. -/
def RecordMember.Proper (g : Graph) : RecordMember → Prop
  | .primitive _ => True
  | .field f => f.kind.Admits g f.target

namespace Sketch

/-- The name of the entity. -/
def name : Sketch → String
  | .record _ name _ => name
  | .union u => u.name

/-- The entity that is described. -/
def entity : Sketch → Entity
  | .record kind name members => .record (recordOf kind name members)
  | .union u => .union u

/-- The names in a described entity. -/
def names : Sketch → List String
  | .record _ name members => name :: members.flatMap RecordMember.names
  | .union u => u.name :: (u.tags ++ u.tagField.toList)

/-- A described entity has members of different names that lead to what they may lead to; a union has
a variant, and its tag field is no tag. -/
def Proper (g : Graph) : Sketch → Prop
  | .record _ _ members => (members.map RecordMember.name).Nodup ∧ ∀ m ∈ members, m.Proper g
  | .union u => u.variants ≠ [] ∧ u.tags.Nodup ∧
    (∀ v ∈ u.variants, g.AdmitsVariant v.2) ∧ ∀ tag ∈ u.tagField, tag ∉ u.tags

end Sketch

/-- The graph that is described: each entity at its place. -/
def sketched (sketches : List Sketch) : Graph :=
  ⟨sketches.map Sketch.entity⟩

/-- A description of a schema: the names of entities are their own and no builtin ones, all names fit
between backticks, and the entities are as they may be among one another. -/
structure Describes (sketches : List Sketch) : Prop where
  nodup : (sketches.map Sketch.name).Nodup
  new : ∀ s ∈ sketches, Scalar.ofName? s.name = none
  quotable : ∀ s ∈ sketches, ∀ n ∈ s.names, Quotable n
  proper : ∀ s ∈ sketches, s.Proper (sketched sketches)

instance (g : Graph) : (m : RecordMember) → Decidable (m.Proper g)
  | .primitive _ => .isTrue trivial
  | .field f => inferInstanceAs (Decidable (f.kind.Admits g f.target))

instance (g : Graph) : (s : Sketch) → Decidable (s.Proper g)
  | .record _ _ _ => inferInstanceAs (Decidable (_ ∧ _))
  | .union _ => inferInstanceAs (Decidable (_ ∧ _))

instance (sketches : List Sketch) : Decidable (Describes sketches) :=
  decidable_of_iff ((sketches.map Sketch.name).Nodup ∧
      (∀ s ∈ sketches, Scalar.ofName? s.name = none) ∧
      (∀ s ∈ sketches, ∀ n ∈ s.names, Quotable n) ∧ ∀ s ∈ sketches, s.Proper (sketched sketches))
    ⟨fun h => ⟨h.1, h.2.1, h.2.2.1, h.2.2.2⟩, fun h => ⟨h.nodup, h.new, h.quotable, h.proper⟩⟩

/-! ## Definitions -/

/-- An argument as it is defined. -/
def argumentDef (a : Argument) : ArgumentDef :=
  ⟨a.name, ⟨a.type.name, a.isArray, a.isNullable⟩, !a.isRequired⟩

/-- How a complex field of a kind is written. -/
def memberKind : FieldKind → MemberKind
  | .relationship => .relationship
  | .calculation arguments => .calculation (arguments.map (List.map argumentDef))
  | .map => .plain
  | .union => .plain

/-- A member as it is defined. -/
def RecordMember.definition (g : Graph) : RecordMember → Member
  | .primitive p => ⟨p.name, .plain, ⟨p.type.name, p.isArray, p.isNullable⟩, 0⟩
  | .field f => ⟨f.name, memberKind f.kind, ⟨g.typeName f.target, f.isArray, f.isNullable⟩, 0⟩

/-- A variant as it is defined. -/
def variantDef (g : Graph) (v : String × Target) : VariantDef :=
  ⟨v.1, g.typeName v.2⟩

/-- A described entity as it is defined. -/
def Sketch.definition (g : Graph) : Sketch → Definition
  | .record kind name members => .record kind name (members.map (RecordMember.definition g))
  | .union u => .union u.name (u.variants.map (variantDef g)) u.tagField

/-- A description as definitions. -/
def definitionsOf (sketches : List Sketch) : List Definition :=
  sketches.map (Sketch.definition (sketched sketches))

variable {sketches : List Sketch} {s : Sketch} {t : Target}

/-! ## Places -/

@[simp] theorem get?_sketched (sketches : List Sketch) (id : EntityId) :
    (sketched sketches).get? id = (sketches[id.index]?).map Sketch.entity :=
  List.getElem?_map

@[simp] theorem name_entity (s : Sketch) : s.entity.name = s.name := by
  cases s <;> rfl

/-- A target that has a kind is the place of a described entity and goes by its name. -/
theorem exists_sketch (ht : ((sketched sketches).targetKind? t).isSome = true) :
    ∃ id s, t = .entity id ∧ sketches[id.index]? = some s ∧
      (sketched sketches).typeName t = s.name := by
  obtain ⟨kind, hkind⟩ := Option.isSome_iff_exists.1 ht
  obtain ⟨id, rfl⟩ := Graph.eq_entity_of_targetKind? hkind
  obtain ⟨e, he, -⟩ := Option.map_eq_some_iff.1 hkind
  have he : (sketched sketches).get? id = some e := he
  rw [get?_sketched] at he
  obtain ⟨s, hs, -⟩ := Option.map_eq_some_iff.1 he
  exact ⟨id, s, rfl, hs, by simp [Graph.typeName, hs]⟩

theorem exists_scalar (h : t.isScalar = true) : ∃ type, t = .scalar type := by
  cases t with
  | scalar type => exact ⟨type, rfl⟩
  | _ => cases h

theorem knows_of_kind {g : Graph} {kind : EntityKind} (h : g.targetKind? t = some kind) :
    g.Knows t :=
  .inr (by rw [h]; rfl)

theorem knows_of_admits {g : Graph} {kind : FieldKind} (h : kind.Admits g t) : g.Knows t := by
  cases kind with
  | calculation => exact h
  | relationship | map | union => exact knows_of_kind h

theorem knows_of_variant {g : Graph} (h : g.AdmitsVariant t) : g.Knows t := by
  rcases h with hs | hk | hk
  · exact .inl hs
  · exact knows_of_kind hk
  · exact knows_of_kind hk

theorem ne_union_of_variant {g : Graph} (h : g.AdmitsVariant t) :
    g.targetKind? t ≠ some .union := by
  rcases h with hs | hk | hk
  · obtain ⟨type, rfl⟩ := exists_scalar hs
    nofun
  · rw [hk]
    nofun
  · rw [hk]
    nofun

/-! ## Names -/

theorem quotable_scalar (type : Scalar) : Quotable type.name := by
  cases type
  all_goals exact ⟨by decide, by decide, by decide⟩

theorem mem_names (s : Sketch) : s.name ∈ s.names := by
  cases s <;> exact List.mem_cons_self

/-- A scalar type or an entity goes by a name that fits between backticks. -/
theorem Describes.quotable_typeName (h : Describes sketches)
    (ht : (sketched sketches).Knows t) : Quotable ((sketched sketches).typeName t) := by
  rcases ht with hs | hk
  · obtain ⟨type, rfl⟩ := exists_scalar hs
    exact quotable_scalar type
  · obtain ⟨id, s, -, hs, hname⟩ := exists_sketch hk
    rw [hname]
    exact h.quotable s (List.mem_of_getElem? hs) s.name (mem_names s)

theorem quotable_arguments {kind : FieldKind} (h : ∀ n ∈ kind.argumentNames, Quotable n) :
    ∀ n ∈ (memberKind kind).arguments.flatMap ArgumentDef.names, Quotable n := by
  rcases kind with _ | ⟨_ | arguments⟩ | _ | _
  case calculation.some =>
    intro n hn
    obtain ⟨_, hdef, hn⟩ := List.mem_flatMap.1 hn
    obtain ⟨a, ha, rfl⟩ := List.mem_map.1 hdef
    rcases List.mem_pair.1 hn with rfl | rfl
    · exact h _ (List.mem_map_of_mem ha)
    · exact quotable_scalar a.type
  all_goals exact nofun

/-- The names in a member as it is defined fit between backticks. -/
theorem Describes.quotable_member (h : Describes sketches) {rm : RecordMember}
    (hnames : ∀ n ∈ rm.names, Quotable n) (hproper : rm.Proper (sketched sketches)) :
    ∀ n ∈ (rm.definition (sketched sketches)).names, Quotable n := by
  cases rm with
  | primitive p =>
    simp only [RecordMember.definition, Member.names, List.forall_mem_cons]
    exact ⟨hnames p.name List.mem_cons_self, quotable_scalar p.type, List.forall_mem_nil _⟩
  | field f =>
    simp only [RecordMember.names, List.forall_mem_cons] at hnames
    simp only [RecordMember.definition, Member.names, List.forall_mem_cons]
    exact ⟨hnames.1, h.quotable_typeName (knows_of_admits hproper),
      quotable_arguments hnames.2⟩

/-- A described entity can be printed as it is defined. -/
theorem Describes.printable (h : Describes sketches) (hs : s ∈ sketches) :
    (s.definition (sketched sketches)).Printable := by
  have hnames := h.quotable s hs
  have hproper := h.proper s hs
  cases s with
  | record kind name members =>
    simp only [Sketch.names, List.forall_mem_cons, List.forall_mem_flatMap] at hnames
    refine ⟨?_, fun _ _ he => by cases he⟩
    simp only [Sketch.definition, Definition.names, List.forall_mem_cons, List.forall_mem_flatMap,
      List.forall_mem_map]
    exact ⟨hnames.1, fun rm hrm => h.quotable_member (hnames.2 rm hrm) (hproper.2 rm hrm)⟩
  | union u =>
    simp only [Sketch.names, List.forall_mem_cons, List.forall_mem_append] at hnames
    obtain ⟨hname, htags, htag⟩ := hnames
    obtain ⟨hne, -, hvariants, -⟩ := hproper
    refine ⟨?_, fun _ _ he => ?_⟩
    · simp only [Sketch.definition, Definition.names, List.forall_mem_cons, List.forall_mem_append,
        List.forall_mem_flatMap, List.forall_mem_map]
      refine ⟨hname, htag, fun v hv => List.forall_mem_cons.2 ⟨?_, List.forall_mem_singleton.2 ?_⟩⟩
      · exact htags v.1 (Entries.mem_keys.2 ⟨v.2, hv⟩)
      · exact h.quotable_typeName (knows_of_variant (hvariants v hv))
    · injection he with _ hvs _
      exact hne (List.map_eq_nil_iff.1 hvs)

/-! ## What the names of a description mean -/

theorem announced_definitionsOf (sketches : List Sketch) :
    announced (definitionsOf sketches) = sketches.map fun s => outline s.entity := by
  have hannounced : ∀ s : Sketch, (s.definition (sketched sketches)).announced? =
      some (outline s.entity) := by
    rintro (⟨_ | _, name, members⟩ | u) <;> rfl
  rw [announced, definitionsOf, List.filterMap_map]
  simp only [Function.comp_def, hannounced, List.filterMap_eq_map']

theorem aliasesOf_definitionsOf (sketches : List Sketch) :
    aliasesOf (definitionsOf sketches) = [] := by
  rw [aliasesOf, definitionsOf, List.filterMap_map, List.filterMap_eq_nil_iff]
  intro s _
  cases s <;> rfl

theorem names_definitionsOf (sketches : List Sketch) :
    (definitionsOf sketches).map Definition.name = sketches.map Sketch.name := by
  rw [definitionsOf, List.map_map]
  exact List.map_congr_left fun s _ => by cases s <;> rfl

theorem Describes.named (h : Describes sketches) : Named (definitionsOf sketches) := by
  rw [named_iff_names, names_definitionsOf]
  exact ⟨h.nodup, List.forall_mem_map.2 h.new⟩

/-- What type names mean in a description. -/
def meaningOf (sketches : List Sketch) : Meaning :=
  .of [] (announced (definitionsOf sketches))

theorem kind?_meaningOf (sketches : List Sketch) (t : Target) :
    (meaningOf sketches).kind? t = (sketched sketches).targetKind? t := by
  cases t with
  | entity id =>
    show ((announced (definitionsOf sketches))[id.index]?).map Prod.snd =
      ((sketched sketches).get? id).map Entity.kind
    rw [announced_definitionsOf, get?_sketched, List.getElem?_map, Option.map_map, Option.map_map]
    rfl
  | _ => rfl

/-- The name by which a target goes means that target. -/
theorem Describes.target?_typeName (h : Describes sketches)
    (ht : (sketched sketches).Knows t) :
    (meaningOf sketches).target? ((sketched sketches).typeName t) = some t := by
  rcases ht with hs | hk
  · obtain ⟨type, rfl⟩ := exists_scalar hs
    have htype : scalarOf? [] type.name = some type := by simp [scalarOf?]
    rw [meaningOf, target?_of, Graph.typeName, htype]
    rfl
  · obtain ⟨id, s, rfl, hs, hname⟩ := exists_sketch hk
    have hknown : resolveAliases (aliasesOf (definitionsOf sketches)) = .ok [] := by
      rw [aliasesOf_definitionsOf]
      rfl
    rw [hname, meaningOf, target?_entity_iff h.named hknown, announced_definitionsOf, Entries.keys,
      List.map_map, List.getElem?_map, hs]
    simp [outline]

theorem Describes.target?_scalar (h : Describes sketches) (type : Scalar) :
    (meaningOf sketches).target? type.name = some (.scalar type) :=
  @Describes.target?_typeName _ (.scalar type) h (.inl rfl)

/-! ## What a description defines -/

theorem Describes.declares (h : Describes sketches) {rm : RecordMember}
    (hproper : rm.Proper (sketched sketches)) :
    (meaningOf sketches).Declares (rm.definition (sketched sketches)) rm := by
  cases rm with
  | primitive p => exact .primitive rfl (h.target?_scalar p.type)
  | field f =>
    have htarget := h.target?_typeName (knows_of_admits hproper)
    obtain ⟨name, kind, t, isArray, isNullable⟩ := f
    rcases kind with _ | ⟨_ | arguments⟩ | _ | _
    · exact .relationship rfl htarget ((kind?_meaningOf _ _).trans hproper)
    · exact .value rfl htarget
    · refine .call rfl htarget (List.forall₂_map_left_iff.2 (List.forall₂_same.2 fun a _ => ?_))
      exact ⟨a.type, h.target?_scalar a.type, by simp [argumentDef, ArgumentDef.declared]⟩
    · exact .map rfl htarget ((kind?_meaningOf _ _).trans hproper)
    · exact .union rfl htarget ((kind?_meaningOf _ _).trans hproper)

theorem Describes.defines (h : Describes sketches) (hs : s ∈ sketches) :
    (meaningOf sketches).Defines (s.definition (sketched sketches)) (some s.entity) := by
  have hproper := h.proper s hs
  cases s with
  | record kind name members =>
    obtain ⟨hnodup, hmembers⟩ := hproper
    refine .record ?_ (List.forall₂_map_left_iff.2 (List.forall₂_same.2 fun rm hrm => ?_))
    · rw [List.map_map]
      have hnames : members.map (Member.name ∘ RecordMember.definition (sketched sketches)) =
          members.map RecordMember.name := List.map_congr_left fun rm _ => by cases rm <;> rfl
      rwa [hnames]
    · exact h.declares (hmembers rm hrm)
  | union u =>
    obtain ⟨-, hnodup, hvariants, htag⟩ := hproper
    have htags : (u.variants.map (variantDef (sketched sketches))).map VariantDef.tag = u.tags := by
      rw [List.map_map]
      rfl
    refine .union (htags ▸ hnodup) ?_ (htags ▸ htag)
    refine List.forall₂_map_left_iff.2 (List.forall₂_same.2 fun v hv => ⟨rfl, ?_, ?_⟩)
    · exact h.target?_typeName (knows_of_variant (hvariants v hv))
    · rw [kind?_meaningOf]
      exact ne_union_of_variant (hvariants v hv)

/-- A description resolves to its entities, each at its place. -/
theorem Describes.resolve_definitionsOf (h : Describes sketches) :
    resolve (definitionsOf sketches) = .ok (.stage [] (sketches.map Sketch.entity) []) := by
  have hdefines : List.Forall₂ (meaningOf sketches).Defines (definitionsOf sketches)
      (sketches.map fun s => some s.entity) :=
    List.forall₂_map_left_iff.2 (List.forall₂_map_right_iff.2
      (List.forall₂_same.2 fun s hs => h.defines hs))
  refine resolve_eq_ok_iff.2 ⟨h.named, [], ?_, _, hdefines, ?_⟩
  · rw [aliasesOf_definitionsOf]
    rfl
  · simp [List.reduceOption, List.filterMap_map]

/-- The text of a description, however it is laid out, gives the registry and the entities that were
described. -/
theorem draftOfText_print (l : Layout) (h : Describes sketches) :
    ∃ d, draftOfText (l.print (definitionsOf sketches)) = .ok d ∧
      d.registry.names = sketches.map Sketch.name ∧ d.graph = sketched sketches ∧
      ∀ id s, sketches[id.index]? = some s →
        d.registry.get? s.name = some id ∧ d.graph.get? id = some s.entity := by
  have hprintable : ∀ d ∈ definitionsOf sketches, d.Printable :=
    List.forall_mem_map.2 fun s hs => h.printable hs
  obtain ⟨ds, hread, hunlined⟩ := readText_print l hprintable
  have hkeys : Entries.keys ((sketches.map Sketch.entity).map outline ++ []) =
      sketches.map Sketch.name := by
    simp [Entries.keys, outline, Function.comp_def]
  have hgraph : (Draft.stage [] (sketches.map Sketch.entity) []).graph = sketched sketches := by
    simp [Draft.stage, sketched]
  refine ⟨_, draftOfText_eq_ok_iff.2
    ⟨ds, hread, resolve_of_unlined hunlined h.resolve_definitionsOf⟩, ?_, hgraph, fun id s hs => ?_⟩
  · rw [Draft.stage, Registry.names, keys_numbered, hkeys]
  · rw [hgraph, get?_sketched, hs]
    refine ⟨?_, rfl⟩
    rw [Draft.stage, Registry.get?, hkeys, get?_numbered h.nodup, List.getElem?_map, hs]
    rfl

/-- Posts with authors and owners, where users and posts lead to one another. -/
def postSketches : List Sketch := [
  .record .resource "Post" [
    .primitive ⟨"title", .string, true, false⟩,
    .field ⟨"author", .relationship, .entity ⟨1⟩, false, true⟩,
    .primitive ⟨"map", .unknown, false, true⟩,
    .field ⟨"owner", .union, .entity ⟨3⟩, false, false⟩,
    .field ⟨"score", .calculation none, .scalar .number, false, false⟩],
  .record .resource "User" [
    .field ⟨"posts", .relationship, .entity ⟨0⟩, true, false⟩,
    .field ⟨"best", .calculation (some [⟨"by", .string, false, true, true⟩]), .entity ⟨0⟩, false, true⟩,
    .field ⟨"draft", .calculation (some []), .entity ⟨0⟩, true, true⟩,
    .field ⟨"settings", .map, .entity ⟨2⟩, false, false⟩],
  .record .map "Settings" [.field ⟨"inner", .map, .entity ⟨2⟩, true, true⟩],
  .union ⟨"Owner", [("user", .entity ⟨1⟩), ("none", .scalar .boolean)], some "kind"⟩]

theorem draftOfText_print_posts : Describes postSketches ∧ ∃ d,
    draftOfText (Layout.perLine.print (definitionsOf postSketches)) = .ok d ∧
      d.registry.names = postSketches.map Sketch.name ∧ d.graph = sketched postSketches ∧
      ∀ id s, postSketches[id.index]? = some s →
        d.registry.get? s.name = some id ∧ d.graph.get? id = some s.entity := by
  have h : Describes postSketches := by decide
  exact ⟨h, draftOfText_print .perLine h⟩

end Schema

end Shapewise
