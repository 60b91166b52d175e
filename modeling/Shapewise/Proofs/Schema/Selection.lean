import Shapewise.Proofs.Schema.Closed
import Shapewise.Proofs.Selection.Clash
import Shapewise.Selection.Describe

/-!
# Selections from a schema

What the projection gives for a selection that passes the check, in every schema that is read from a
text. It is the shape that is told name by name (`project_accepted_iff_grouped`). It fails exactly
when picks clash, and then because arguments differ (`project_accepted_fails_iff_clash`); so a
description is given for the accepted selections without a clash (`describe_accepted_iff`).
-/

namespace Shapewise.Selection

open Outcome Shape

variable {text : List Char} {limits L : Limits} {schema : Schema} {id : EntityId}
  {selection : Value}

/-! ## Examples of selections -/

/-- Posts and their authors. -/
def postsText : List Char :=
  "resource Post { title: string, author: -> User? }
   resource User { name: string, email: string?, calc rank(scale: number): number }".toList

/-- Picks the author of a post twice, with different fields. -/
def authorTwice : Value :=
  .list [.obj [("author", .list [.str "name"])], .str "title",
    .obj [("author", .list [.str "email"])]]

/-- Picks the rank of an author on a scale. -/
def authorRank (scale : Int) : Value :=
  .obj [("author", .list [.obj [("rank", .obj [("args", .obj [("scale", .int scale)])])]])]

/-- Picks the author of a post twice, with ranks on different scales. -/
def clashingRanks : Value :=
  .list [authorRank 1, authorRank 2]

/-! ## Accepted selections -/

theorem valid_of_check {g : Graph} (hc : check g L id selection = .ok ()) :
    Valid g L.maxDepth (.entity id) 1 selection :=
  (checkNode_eq_ok_iff g L selection (.entity id) none 1).1 hc

/-- What an accepted selection is: a list of valid elements of an entity, whose picks agree. -/
theorem elements_of_check {g : Graph} (hc : check g L id selection = .ok ()) :
    ∃ e items, g.get? id = some e ∧ selection = .list items ∧
      (∀ item ∈ items, ValidElement g L.maxDepth e 1 item) ∧ Agreeing e items := by
  have hv := valid_of_check hc
  obtain ⟨items, rfl⟩ : ∃ items, selection = .list items := ⟨_, hv.eq_list⟩
  obtain ⟨e, he, hitems, hagree⟩ := hv.elements
  exact ⟨e, items, he, rfl, hitems, hagree⟩

/-- The shape of an accepted selection is the one told name by name. -/
theorem project_accepted_iff_grouped (hs : Schema.ofText text limits = .ok schema)
    (hc : check schema.graph L id selection = .ok ()) :
    ∃ e items, schema.graph.get? id = some e ∧ selection = .list items ∧
      ∀ s, project schema.graph id selection = .ok s ↔
        ∃ fields, s = .record fields ∧ Entries.keys fields = (pickedNames items).eraseDups ∧
          ∀ n t, (n, t) ∈ fields → Grouped schema.graph items e n t := by
  obtain ⟨e, items, he, rfl, hitems, hagree⟩ := elements_of_check hc
  have hfollow : schema.graph.follow? (.entity id) = some e := he
  refine ⟨e, items, he, rfl, fun s => ?_⟩
  rw [project_list, projectList_eq_ok_iff_grouped (Schema.closed_of_ofText hs) hfollow hitems]
  exact and_iff_right hagree

theorem project_accepted_iff_grouped_posts : ∃ schema,
    Schema.ofText postsText .standard = .ok schema ∧
      check schema.graph .standard ⟨0⟩ authorTwice = .ok () ∧
      ∃ e items, schema.graph.get? ⟨0⟩ = some e ∧ authorTwice = .list items ∧
        ∀ s, project schema.graph ⟨0⟩ authorTwice = .ok s ↔
          ∃ fields, s = .record fields ∧ Entries.keys fields = (pickedNames items).eraseDups ∧
            ∀ n t, (n, t) ∈ fields → Grouped schema.graph items e n t := by
  have haccepted : Settles (fun schema => check schema.graph .standard ⟨0⟩ authorTwice = .ok ())
      (fun _ => False) (Schema.ofText postsText .standard) := by
    decide +kernel
  obtain ⟨schema, hs, hc⟩ := haccepted.exists_ok
  exact ⟨schema, hs, hc, project_accepted_iff_grouped hs hc⟩

theorem describe_of_check_error {g : Graph} {f : SelectionFault}
    (h : check g L id selection = .error f) :
    describe g L id selection = .error (.refused f) := by
  rw [describe, h]
  rfl

theorem describe_of_check_ok {g : Graph} (h : check g L id selection = .ok ()) :
    describe g L id selection = (project g id selection).mapError .unprojected := by
  rw [describe, h]
  rfl

theorem describe_of_project {g : Graph} {s : Shape} (hc : check g L id selection = .ok ())
    (hp : project g id selection = .ok s) : describe g L id selection = .ok s := by
  rw [describe_of_check_ok hc, hp]
  rfl

theorem describe_of_project_error {g : Graph} {f : ProjectionFault}
    (hc : check g L id selection = .ok ()) (hp : project g id selection = .error f) :
    describe g L id selection = .error (.unprojected f) := by
  rw [describe_of_check_ok hc, hp]
  rfl

/-- An accepted selection has a shape, or the reason is that arguments are at odds. -/
theorem project_settles {g : Graph} (hg : g.Closed) (hc : check g L id selection = .ok ()) :
    Settles (Fits g (.entity id)) OnlyConflict (project g id selection) :=
  (valid_of_check hc).settles hg

/-- An accepted selection has a shape exactly when no picks of it clash. -/
theorem exists_project_iff {g : Graph} (hg : g.Closed) {items : List Value}
    (hc : check g L id (.list items) = .ok ()) :
    (∃ s, project g id (.list items) = .ok s) ↔ ¬ Clash g (.entity id) items := by
  obtain ⟨e, _, he, ⟨⟩, hitems, -⟩ := elements_of_check hc
  simp only [project_list]
  exact exists_projectList_iff hg he hitems

/-- An accepted selection has no shape exactly when two picks of a calculation that are reached
along the same names differ in their arguments, and this is what the fault says. -/
theorem project_accepted_fails_iff_clash (hs : Schema.ofText text limits = .ok schema)
    (hc : check schema.graph L id selection = .ok ()) :
    ∃ items, selection = .list items ∧
      ((∃ f, project schema.graph id selection = .error f) ↔
        Clash schema.graph (.entity id) items) ∧
      ∀ f, project schema.graph id selection = .error f → f = .conflict .arguments ∧
        Conflict.message .arguments =
          "Cannot merge calculations selected with different arguments" := by
  have hg := Schema.closed_of_ofText hs
  obtain ⟨-, items, -, rfl, -⟩ := elements_of_check hc
  have hshape := exists_project_iff hg hc
  refine ⟨items, rfl, ?_, fun f hf => ⟨(project_settles hg hc).of_error hf, rfl⟩⟩
  cases hp : project schema.graph id (.list items) with
  | ok s =>
    refine iff_of_false (by simp) ?_
    exact hshape.1 ⟨s, hp⟩
  | error f =>
    refine iff_of_true ⟨f, rfl⟩ ?_
    by_contra hclash
    obtain ⟨s, hs⟩ := hshape.2 hclash
    rw [hp] at hs
    cases hs

theorem project_accepted_fails_iff_clash_ranks : ∃ schema,
    Schema.ofText postsText .standard = .ok schema ∧
      check schema.graph .standard ⟨0⟩ clashingRanks = .ok () ∧
      ∃ items, clashingRanks = .list items ∧
        ((∃ f, project schema.graph ⟨0⟩ clashingRanks = .error f) ↔
          Clash schema.graph (.entity ⟨0⟩) items) ∧
        ∀ f, project schema.graph ⟨0⟩ clashingRanks = .error f → f = .conflict .arguments ∧
          Conflict.message .arguments =
            "Cannot merge calculations selected with different arguments" := by
  have haccepted : Settles (fun schema => check schema.graph .standard ⟨0⟩ clashingRanks = .ok ())
      (fun _ => False) (Schema.ofText postsText .standard) := by
    decide +kernel
  obtain ⟨schema, hs, hc⟩ := haccepted.exists_ok
  exact ⟨schema, hs, hc, project_accepted_fails_iff_clash hs hc⟩

/-- A description passes on the fault of a refused selection. An accepted selection is described by
an object, unless picks of it clash. -/
theorem describe_accepted_iff (hs : Schema.ofText text limits = .ok schema) :
    (∀ f, check schema.graph L id selection = .error f →
      describe schema.graph L id selection = .error (.refused f)) ∧
    (check schema.graph L id selection = .ok () → ∃ items, selection = .list items ∧
      (¬ Clash schema.graph (.entity id) items →
        ∃ fields, describe schema.graph L id selection = .ok (.record fields)) ∧
      (Clash schema.graph (.entity id) items →
        describe schema.graph L id selection = .error (.unprojected (.conflict .arguments)))) := by
  have hg := Schema.closed_of_ofText hs
  constructor
  · exact fun f hf => describe_of_check_error hf
  · intro hc
    obtain ⟨-, items, -, rfl, -⟩ := elements_of_check hc
    have hshape := exists_project_iff hg hc
    rw [describe_of_check_ok hc]
    refine ⟨items, rfl, fun hclash => ?_, fun hclash => ?_⟩
    · obtain ⟨s, hs⟩ := hshape.2 hclash
      obtain ⟨fields, rfl⟩ := ((project_settles hg hc).of_ok hs).eq_record
      exact ⟨fields, mapError_eq_ok_iff.2 hs⟩
    · cases hp : project schema.graph id (.list items) with
      | ok s => exact absurd hclash (hshape.1 ⟨s, hp⟩)
      | error f =>
        rw [(project_settles hg hc).of_error hp]
        rfl

theorem describe_accepted_iff_ranks : ∃ schema, Schema.ofText postsText .standard = .ok schema ∧
    (∀ f, check schema.graph .standard ⟨0⟩ clashingRanks = .error f →
      describe schema.graph .standard ⟨0⟩ clashingRanks = .error (.refused f)) ∧
    (check schema.graph .standard ⟨0⟩ clashingRanks = .ok () → ∃ items, clashingRanks = .list items ∧
      (¬ Clash schema.graph (.entity ⟨0⟩) items →
        ∃ fields, describe schema.graph .standard ⟨0⟩ clashingRanks = .ok (.record fields)) ∧
      (Clash schema.graph (.entity ⟨0⟩) items →
        describe schema.graph .standard ⟨0⟩ clashingRanks =
          .error (.unprojected (.conflict .arguments)))) := by
  have hread : Settles (fun _ => True) (fun _ => False) (Schema.ofText postsText .standard) := by
    decide +kernel
  obtain ⟨schema, hs, -⟩ := hread.exists_ok
  exact ⟨schema, hs, describe_accepted_iff hs⟩

/-- Not every accepted selection is described: these ranks pass the check and cannot be merged. -/
theorem describe_clashing_ranks : ∃ schema, Schema.ofText postsText .standard = .ok schema ∧
    check schema.graph .standard ⟨0⟩ clashingRanks = .ok () ∧
    describe schema.graph .standard ⟨0⟩ clashingRanks =
      .error (.unprojected (.conflict .arguments)) := by
  have haccepted : Settles (fun schema =>
      check schema.graph .standard ⟨0⟩ clashingRanks = .ok () ∧
        describe schema.graph .standard ⟨0⟩ clashingRanks =
          .error (.unprojected (.conflict .arguments)))
      (fun _ => False) (Schema.ofText postsText .standard) := by
    decide +kernel
  exact haccepted.exists_ok

end Shapewise.Selection
