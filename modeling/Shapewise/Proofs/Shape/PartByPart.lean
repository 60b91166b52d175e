import Shapewise.Proofs.Shape.Merge

/-!
# Merging part by part

`merge` keeps the left shape whole where the two are equal. Equality looks past the order of keys and
past the way in which arguments are written, and it compares the shapes of arguments, which merging
never does; so it is not plain that this is a shortcut and nothing else. `mergeParts` is the merge
without it: only scalars and literals are compared, and everything else is taken apart. On proper shapes
both give the same shape or fail with the same conflict (`merge_eq_mergeParts`).
-/

namespace Shapewise.Shape

open Outcome

mutual
/-- Merges two shapes part by part; none but scalars and literals are compared as wholes. -/
def mergeParts (left right : Shape) : Except Conflict Shape :=
  match left, right with
  | .scalar a, .scalar b => if a = b then .ok (.scalar a) else .error (.shapes (.scalar a) (.scalar b))
  | .literal vs, .literal ws =>
    if vs = ws then .ok (.literal vs) else .error (.shapes (.literal vs) (.literal ws))
  | .object fs os, .object gs ps => do
    let merged ← mergeFieldParts fs gs
    return .object merged (mergeOptional fs os gs ps merged)
  | .array a, .array b => return .array (← mergeParts a b)
  | .nullable a, .nullable b => return .nullable (← mergeParts a b)
  | .calculation a x s, .calculation b y _ =>
    if x.Equal y then return .calculation (← mergeParts a b) x s else .error .arguments
  | left, right => .error (.shapes left right)
termination_by structural right
/-- Merges fields part by part into those of an object, one after the other. -/
def mergeFieldParts (fields : List (String × Shape)) :
    List (String × Shape) → Except Conflict (List (String × Shape))
  | [] => .ok fields
  | (k, s) :: rest =>
    match Entries.get? fields k with
    | some old => do mergeFieldParts (Entries.put fields k (← mergeParts old s)) rest
    | none => mergeFieldParts (Entries.put fields k s) rest
termination_by structural rest => rest
end

variable {a b : Shape} {fs gs : List (String × Shape)} {os ps : NameSet}

/-! ## Shapes of different kinds -/

/-- Shapes of different kinds are in conflict as they are. -/
theorem merge_of_kind_ne (h : b.ctorIdx ≠ a.ctorIdx) : merge a b = .error (.shapes a b) := by
  have hne : ¬ Equal a b := fun he => h (ctorIdx_of_equal he)
  rw [merge.eq_def, if_neg hne]
  split
  all_goals first | exact absurd rfl h | rfl

theorem mergeParts_of_kind_ne (h : b.ctorIdx ≠ a.ctorIdx) :
    mergeParts a b = .error (.shapes a b) := by
  rw [mergeParts.eq_def]
  split
  all_goals first | exact absurd rfl h | rfl

/-! ## Shapes of one kind -/

theorem merge_scalar (type other : Scalar) :
    merge (.scalar type) (.scalar other) = mergeParts (.scalar type) (.scalar other) := by
  have hequal : Equal (.scalar type) (.scalar other) ↔ type = other := by
    simp [Equal, canonical]
  rw [merge.eq_def, mergeParts]
  simp only [hequal]

theorem merge_literal (values others : List String) :
    merge (.literal values) (.literal others) = mergeParts (.literal values) (.literal others) := by
  have hequal : Equal (.literal values) (.literal others) ↔ values = others := by
    simp [Equal, canonical]
  rw [merge.eq_def, mergeParts]
  simp only [hequal]

/-- Fields are merged part by part where each of them is, whatever proper shape stands there. -/
theorem mergeFields_eq_mergeFieldParts (hf : ∀ f ∈ fs, Proper f.2) (hg : ∀ g ∈ gs, Proper g.2)
    (step : ∀ g ∈ gs, ∀ a, Proper a → merge a g.2 = mergeParts a g.2) :
    mergeFields fs gs = mergeFieldParts fs gs := by
  induction gs generalizing fs with
  | nil => rw [mergeFields, mergeFieldParts]
  | cons g gs ih =>
    obtain ⟨k, t⟩ := g
    obtain ⟨ht, hgs⟩ := List.forall_mem_cons.1 hg
    obtain ⟨hstep, hsteps⟩ := List.forall_mem_cons.1 step
    have hput : ∀ m, Proper m → ∀ f ∈ Entries.put fs k m, Proper f.2 := by
      intro m hm f hfm
      rcases Entries.mem_put hfm with rfl | hfm
      · exact hm
      · exact hf f hfm
    rw [mergeFields, mergeFieldParts]
    cases hk : Entries.get? fs k with
    | none => exact ih (hput t ht) hgs hsteps
    | some a =>
      have ha : Proper a := hf (k, a) (Entries.mem_of_get? hk)
      show merge a t >>= _ = mergeParts a t >>= _
      rw [← hstep a ha]
      apply bind_congr_of_ok
      intro m hm
      exact ih (hput m (ha.merge ht hm)) hgs hsteps

/-! ## The shortcut -/

/-- Keeping the left of two equal shapes is only a shortcut: on proper shapes merging gives what it
gives part by part, conflicts included. -/
theorem merge_eq_mergeParts (ha : Proper a) (hb : Proper b) : merge a b = mergeParts a b := by
  induction b using inductParts generalizing a with
  | step b ih =>
    by_cases hkind : b.ctorIdx = a.ctorIdx
    · cases a with
      | scalar type =>
        cases b with
        | scalar other => exact merge_scalar type other
        | _ => simp [Shape.ctorIdx] at hkind
      | literal values =>
        cases b with
        | literal others => exact merge_literal values others
        | _ => simp [Shape.ctorIdx] at hkind
      | object fs os =>
        cases b with
        | object gs ps =>
          obtain ⟨-, -, hf⟩ := proper_object_iff.1 ha
          obtain ⟨-, -, hg⟩ := proper_object_iff.1 hb
          rw [merge_object ha, mergeParts, mergeFields_eq_mergeFieldParts hf hg]
          · rfl
          · intro g hgs c hc
            exact ih g.2 (List.mem_map_of_mem hgs) hc (hg g hgs)
        | _ => simp [Shape.ctorIdx] at hkind
      | array a =>
        cases b with
        | array b =>
          have hm : merge a b = mergeParts a b := ih b List.mem_cons_self ha hb
          rw [merge_array, mergeParts, hm]
          rfl
        | _ => simp [Shape.ctorIdx] at hkind
      | nullable a =>
        cases b with
        | nullable b =>
          have hm : merge a b = mergeParts a b := ih b List.mem_cons_self ha hb
          rw [merge_nullable, mergeParts, hm]
          rfl
        | _ => simp [Shape.ctorIdx] at hkind
      | calculation a x s =>
        cases b with
        | calculation b y t =>
          have hm : merge a b = mergeParts a b := ih b List.mem_cons_self ha hb
          rw [merge_calculation, mergeParts, hm]
          rfl
        | _ => simp [Shape.ctorIdx] at hkind
    · rw [merge_of_kind_ne hkind, mergeParts_of_kind_ne hkind]

/-- A post with its author and a rank of it. -/
def authorAndRank : Shape :=
  .record [("author", .nullable (.record [("name", .scalar .string), ("age", .scalar .number)])),
    ("rank", .calculation (.scalar .number) (.obj [("scale", .int 1)]) none)]

/-- The same post with its keys in another order, the arguments written in another way and a shape
for them. -/
def rankAndAuthor : Shape :=
  .record [("rank", .calculation (.scalar .number) (.obj [("scale", .bool true)])
      (some (.record [("scale", .scalar .number)]))),
    ("author", .nullable (.record [("age", .scalar .number), ("name", .scalar .string)]))]

theorem merge_eq_mergeParts_ranks : Proper authorAndRank ∧ Proper rankAndAuthor ∧
    merge authorAndRank rankAndAuthor = mergeParts authorAndRank rankAndAuthor := by
  have hleft : Proper authorAndRank := by
    simp [authorAndRank, proper_record_iff, Entries.Distinct, Entries.keys, Proper]
  have hright : Proper rankAndAuthor := by
    simp [rankAndAuthor, proper_record_iff, Entries.Distinct, Entries.keys, Proper]
  exact ⟨hleft, hright, merge_eq_mergeParts hleft hright⟩

-- Taken apart, the two still give the left shape whole: the order of its keys and its arguments.
example : mergeParts authorAndRank rankAndAuthor = .ok authorAndRank := by
  rfl

end Shapewise.Shape
