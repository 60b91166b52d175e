import Mathlib.Logic.Relation
import Shapewise.Proofs.Schema.Selection
import Shapewise.Proofs.Selection.Steps

/-!
# Unpacked selections

An object that is an element of a list of fields may pick several names, or each of them may stand
in an object of its own. `Unpacked` relates two lists where one such object is unpacked, in the list
itself or in a list below it.

The main result is `unpacked_selection_outcome`: however many objects are unpacked, the check ends
with the same outcome, a fault at the same path included, and what passes it is projected to the
same shape, key order included, or fails the same way. For the check it is enough that the elements
that change come to the same in any place (`CheckedAlike`). The projection of a valid list depends
on what its picks contribute alone, and unpacking keeps the picks.
-/

namespace Shapewise.Selection

open Outcome Shape

mutual
/-- One object among the elements of a list of fields, or in a list below it, is unpacked. -/
inductive Unpacked : List Value → List Value → Prop
  | element (pre post : List Value) {x : Value} {ys : List Value} :
      UnpackedElement x ys → Unpacked (pre ++ x :: post) (pre ++ ys ++ post)
/-- What takes the place of an element. -/
inductive UnpackedElement : Value → List Value → Prop
  /-- Each name is picked by an object of its own, in the order of the names. -/
  | split {entries : List (String × Value)} :
      entries ≠ [] → UnpackedElement (.obj entries) (entries.map fun entry => .obj [entry])
  | entry (pre post : List (String × Value)) (k : String) {v w : Value} :
      UnpackedSelected v w →
      UnpackedElement (.obj (pre ++ (k, v) :: post)) [.obj (pre ++ (k, w) :: post)]
/-- What is selected of a name, with an object unpacked in its list of fields. -/
inductive UnpackedSelected : Value → Value → Prop
  | list {xs ys : List Value} : Unpacked xs ys → UnpackedSelected (.list xs) (.list ys)
  | call (pre post : List (String × Value)) {xs ys : List Value} :
      Unpacked xs ys →
      UnpackedSelected (.obj (pre ++ ("fields", .list xs) :: post))
        (.obj (pre ++ ("fields", .list ys) :: post))
end

theorem UnpackedElement.ne_nil {x : Value} {ys : List Value} (h : UnpackedElement x ys) :
    ys ≠ [] := by
  cases h with
  | split hne => simpa using hne
  | entry => simp

/-! ## What is said of a calculation beside its fields -/

namespace UnpackedSelected

variable {v w : Value}

theorem selectedArguments_eq (h : UnpackedSelected v w) (declared : Option (List Argument)) :
    selectedArguments declared v = selectedArguments declared w := by
  cases h with
  | list => cases declared <;> rfl
  | call pre post =>
    cases declared with
    | none => rfl
    | some args =>
      rw [selectedArguments, selectedArguments, Entries.get?_exchange_of_ne pre post (by decide)]

theorem checkCalculation_eq (h : UnpackedSelected v w) (k : String) (f : Field)
    (declared : Option (List Argument)) :
    checkCalculation k f declared v = checkCalculation k f declared w := by
  cases h with
  | list => rfl
  | @call pre post xs ys =>
    have hkeys : Entries.keys (pre ++ ("fields", .list xs) :: post) =
        Entries.keys (pre ++ ("fields", .list ys) :: post) := Entries.keys_exchange pre post
    have hargs : Entries.get? (pre ++ ("fields", .list xs) :: post) "args" =
        Entries.get? (pre ++ ("fields", .list ys) :: post) "args" :=
      Entries.get?_exchange_of_ne pre post (by decide)
    have hfields : Entries.has (pre ++ ("fields", .list xs) :: post) "fields" =
        Entries.has (pre ++ ("fields", .list ys) :: post) "fields" := by
      rw [Bool.eq_iff_iff, Entries.has_eq_true_iff, Entries.has_eq_true_iff, hkeys]
    rw [checkCalculation, checkCalculation, strayKeys, hkeys, hargs, hfields]
    rfl

theorem calculationShape_eq (h : UnpackedSelected v w) (f : Field)
    (declared : Option (List Argument)) :
    calculationShape f declared v = calculationShape f declared w := by
  funext s
  rw [calculationShape, calculationShape, h.selectedArguments_eq]

end UnpackedSelected

/-! ## The check -/

section check

variable {g : Graph} {limits : Limits} {r : Record} {u : Union} {depth : Nat} {picked : Picked}
  {target : Target} {label : Option String}

theorem checkItems_append (xs ys : List Value) :
    checkItems g limits r depth picked (xs ++ ys) =
      checkItems g limits r depth picked xs >>= fun picked =>
        checkItems g limits r depth picked ys := by
  induction xs generalizing picked with
  | nil => rfl
  | cons x xs ih => simp only [List.cons_append, checkItems, ih, bind_assoc]

theorem checkVariants_append (xs ys : List Value) :
    checkVariants g limits u depth (xs ++ ys) =
      checkVariants g limits u depth xs >>= fun _ => checkVariants g limits u depth ys := by
  induction xs with
  | nil => rfl
  | cons x xs ih => simp only [List.cons_append, checkVariants, ih, bind_assoc]

theorem checkPicks_cons (entry : String × Value) (entries : List (String × Value)) :
    checkPicks g limits r depth picked (entry :: entries) =
      checkPicks g limits r depth picked [entry] >>= fun picked =>
        checkPicks g limits r depth picked entries := by
  obtain ⟨k, v⟩ := entry
  simp only [checkPicks, bind_assoc]
  refine bind_congr fun f => ?_
  cases f.kind with
  | calculation declared =>
    simp only [bind_assoc]
    split <;> simp only [bind_assoc] <;> rfl
  | _ =>
    simp only [bind_assoc]
    rfl

theorem checkVariantPicks_cons (entry : String × Value) (entries : List (String × Value)) :
    checkVariantPicks g limits u depth (entry :: entries) =
      checkVariantPicks g limits u depth [entry] >>= fun _ =>
        checkVariantPicks g limits u depth entries := by
  obtain ⟨k, v⟩ := entry
  simp only [checkVariantPicks, bind_assoc]
  rfl

theorem checkPicks_append (es fs : List (String × Value)) :
    checkPicks g limits r depth picked (es ++ fs) =
      checkPicks g limits r depth picked es >>= fun picked =>
        checkPicks g limits r depth picked fs := by
  induction es generalizing picked with
  | nil => rfl
  | cons e es ih =>
    rw [List.cons_append, checkPicks_cons, checkPicks_cons e es, bind_assoc]
    exact bind_congr fun _ => ih

theorem checkVariantPicks_append (es fs : List (String × Value)) :
    checkVariantPicks g limits u depth (es ++ fs) =
      checkVariantPicks g limits u depth es >>= fun _ =>
        checkVariantPicks g limits u depth fs := by
  induction es with
  | nil => rfl
  | cons e es ih =>
    rw [List.cons_append, checkVariantPicks_cons, checkVariantPicks_cons e es, bind_assoc, ih]

theorem checkItem_obj {entries : List (String × Value)} (hne : entries ≠ []) :
    checkItem g limits r depth picked (.obj entries) =
      checkPicks g limits r depth picked entries := by
  rw [checkItem, if_neg (by simpa using hne)]

theorem checkVariant_obj {entries : List (String × Value)} (hne : entries ≠ []) :
    checkVariant g limits u depth (.obj entries) = checkVariantPicks g limits u depth entries := by
  rw [checkVariant, if_neg (by simpa using hne)]

/-- Elements come to the same wherever they stand in a list of fields. -/
structure CheckedAlike (g : Graph) (limits : Limits) (xs ys : List Value) : Prop where
  items : ∀ r depth picked,
    checkItems g limits r depth picked xs = checkItems g limits r depth picked ys
  variants : ∀ u depth, checkVariants g limits u depth xs = checkVariants g limits u depth ys

/-- Values come to the same wherever they are selected of a name. -/
structure SelectedAlike (g : Graph) (limits : Limits) (v w : Value) : Prop where
  node : ∀ target label depth,
    checkNode g limits target label depth v = checkNode g limits target label depth w
  result : ∀ target label depth,
    checkResult g limits target label depth v = checkResult g limits target label depth w
  calculation : ∀ k f declared,
    checkCalculation k f declared v = checkCalculation k f declared w
  arguments : ∀ declared, selectedArguments declared v = selectedArguments declared w

theorem CheckedAlike.context {xs ys : List Value} (h : CheckedAlike g limits xs ys)
    (pre post : List Value) : CheckedAlike g limits (pre ++ xs ++ post) (pre ++ ys ++ post) where
  items r depth picked := by simp only [checkItems_append, h.items]
  variants u depth := by simp only [checkVariants_append, h.variants]

theorem CheckedAlike.checkList_eq {xs ys : List Value} (h : CheckedAlike g limits xs ys)
    (hxs : xs ≠ []) (hys : ys ≠ []) (target : Target) (label : Option String) (depth : Nat) :
    checkList g limits target label depth xs = checkList g limits target label depth ys := by
  obtain ⟨x, xs, rfl⟩ := List.exists_cons_of_ne_nil hxs
  obtain ⟨y, ys, rfl⟩ := List.exists_cons_of_ne_nil hys
  rw [checkList, checkList]
  split
  · rfl
  cases g.follow? target with
  | none => rfl
  | some e =>
    cases e with
    | record r =>
      have hitems := h.items r depth []
      simp only [checkItems] at hitems
      simp only [← bind_assoc, hitems]
    | union u =>
      have hvariants := h.variants u depth
      simpa only [checkVariants] using hvariants

/-- An object comes to the same as its names in objects of their own. -/
theorem checkedAlike_split {entries : List (String × Value)} (hne : entries ≠ []) :
    CheckedAlike g limits [.obj entries] (entries.map fun entry => .obj [entry]) where
  items r depth picked := by
    -- between two objects the arguments of earlier picks are carried along as within one
    have hsingles : ∀ (entries : List (String × Value)) (picked : Picked),
        checkItems g limits r depth picked (entries.map fun entry => .obj [entry]) =
          checkPicks g limits r depth picked entries := by
      intro entries
      induction entries with
      | nil => exact fun _ => rfl
      | cons e es ih =>
        intro picked
        rw [List.map_cons, checkItems, checkPicks_cons, checkItem_obj (List.cons_ne_nil e [])]
        exact bind_congr fun p => ih p
    rw [hsingles, checkItems, checkItem_obj hne]
    exact bind_pure _
  variants u depth := by
    have hsingles : ∀ entries : List (String × Value),
        checkVariants g limits u depth (entries.map fun entry => .obj [entry]) =
          checkVariantPicks g limits u depth entries := by
      intro entries
      induction entries with
      | nil => rfl
      | cons e es ih =>
        rw [List.map_cons, checkVariants, checkVariantPicks_cons,
          checkVariant_obj (List.cons_ne_nil e []), ih]
    rw [hsingles, checkVariants, checkVariant_obj hne]
    exact bind_pure _

/-- An object comes to the same when what is selected of a name in it does. -/
theorem SelectedAlike.checkedAlike {v w : Value} (h : SelectedAlike g limits v w)
    (pre post : List (String × Value)) (k : String) :
    CheckedAlike g limits [.obj (pre ++ (k, v) :: post)] [.obj (pre ++ (k, w) :: post)] where
  items r depth picked := by
    have hentry : ∀ picked, checkPicks g limits r depth picked ((k, v) :: post) =
        checkPicks g limits r depth picked ((k, w) :: post) := by
      intro picked
      simp only [checkPicks, h.node, h.result, h.calculation, h.arguments]
    simp only [checkItems, checkItem_obj (List.append_ne_nil_of_right_ne_nil pre
      (List.cons_ne_nil _ post)), checkPicks_append, hentry]
  variants u depth := by
    have hentry : checkVariantPicks g limits u depth ((k, v) :: post) =
        checkVariantPicks g limits u depth ((k, w) :: post) := by
      simp only [checkVariantPicks, h.node]
    simp only [checkVariants, checkVariant_obj (List.append_ne_nil_of_right_ne_nil pre
      (List.cons_ne_nil _ post)), checkVariantPicks_append, hentry]

mutual
theorem Unpacked.checkList_eq : ∀ {xs ys : List Value}, Unpacked xs ys →
    ∀ target label depth,
      checkList g limits target label depth xs = checkList g limits target label depth ys
  | _, _, .element pre post h, target, label, depth => by
    have halike := h.checkedAlike.context pre post
    rw [List.append_assoc] at halike
    refine halike.checkList_eq ?_ ?_ target label depth
    · simp
    · simp [h.ne_nil]
theorem UnpackedElement.checkedAlike : ∀ {x : Value} {ys : List Value}, UnpackedElement x ys →
    CheckedAlike g limits [x] ys
  | _, _, .split hne => checkedAlike_split hne
  | _, _, .entry pre post k h => h.selectedAlike.checkedAlike pre post k
theorem UnpackedSelected.selectedAlike : ∀ {v w : Value}, UnpackedSelected v w →
    SelectedAlike g limits v w
  | _, _, .list h =>
    { node := fun target label depth => by
        rw [checkNode, checkNode]
        exact h.checkList_eq target label depth
      result := fun target label depth => by
        rw [checkResult, checkResult]
        exact h.checkList_eq target (some label) depth
      calculation := (UnpackedSelected.list h).checkCalculation_eq
      arguments := (UnpackedSelected.list h).selectedArguments_eq }
  | _, _, .call pre post h =>
    { node := fun target label depth => rfl
      result := fun target label depth => by
        rw [checkResult, checkResult, checkFields_eq, checkFields_eq]
        rcases Entries.get?_exchange_self pre post with ⟨hv, hw⟩ | heq
        · rw [hv, hw]
          exact h.checkList_eq target (some label) depth
        · rw [heq]
      calculation := (UnpackedSelected.call pre post h).checkCalculation_eq
      arguments := (UnpackedSelected.call pre post h).selectedArguments_eq }
end

end check

/-! ## Shapes -/

section shape

variable {g : Graph} {e : Entity} {L : Limits} {id : EntityId}

theorem contributions_context {qs rs : List (String × Option Value)}
    (h : contributions g e qs = contributions g e rs) (ps ss : List (String × Option Value)) :
    contributions g e (ps ++ qs ++ ss) = contributions g e (ps ++ rs ++ ss) := by
  simp only [contributions, List.mapM_append] at h ⊢
  rw [h]

/-- An object picks what its names pick in objects of their own. -/
theorem picks_split (entries : List (String × Value)) :
    picks (entries.map fun entry => .obj [entry]) = elementPicks (.obj entries) := by
  induction entries with
  | nil => rfl
  | cons entry entries ih =>
    rw [List.map_cons, picks_cons, ih]
    rfl

/-- What a pick contributes depends on the shape of the list of fields in it alone. -/
theorem pickShape_list {depth : Nat} {k : String} {xs ys : List Value}
    (h : ∀ target depth, Valid g L.maxDepth target depth (.list xs) →
      projectList g target xs = projectList g target ys)
    (hv : ValidEntry g L.maxDepth e depth k (.list xs)) :
    pickShape g e k (some (.list xs)) = pickShape g e k (some (.list ys)) := by
  cases hv with
  | field hf hk hv =>
    rw [pickShape_field hf hk, pickShape_field hf hk, projectNode, projectNode, h _ _ hv]
  | @shorthand r _ _ f declared id' _ hf hk ht _ hv =>
    rw [pickShape_call hf hk ht, pickShape_call hf hk ht, projectResult, projectResult, h _ _ hv]
    cases declared <;> rfl
  | variant hu hv =>
    rw [pickShape_variant hu, pickShape_variant hu, projectNode, projectNode, h _ _ hv]

mutual
theorem Unpacked.projectList_eq (hg : g.Closed) : ∀ {xs ys : List Value}, Unpacked xs ys →
    ∀ {target : Target} {depth : Nat}, Valid g L.maxDepth target depth (.list xs) →
      projectList g target xs = projectList g target ys
  | _, _, @Unpacked.element pre post x ys h, target, depth, hv => by
    -- the check does not tell the lists apart, so what takes the place of the element is valid too
    have hv' : Valid g L.maxDepth target depth (.list (pre ++ ys ++ post)) := by
      rw [← checkList_eq_ok_iff g L _ target none] at hv ⊢
      exact ((Unpacked.element pre post h).checkList_eq target none depth).symm.trans hv
    obtain ⟨-, -, e, he, hxs, -⟩ := valid_list_iff.1 hv
    obtain ⟨-, -, e', he', hys, -⟩ := valid_list_iff.1 hv'
    obtain rfl := Option.some.inj (he.symm.trans he')
    obtain ⟨id, -, hid⟩ := Graph.get?_of_follow? he
    have hx := h.contributions_eq hg hid (hxs x (by simp))
    have hpicks : picks (pre ++ x :: post) = picks pre ++ elementPicks x ++ picks post := by
      simp [picks]
    have hpicks' : picks (pre ++ ys ++ post) = picks pre ++ picks ys ++ picks post := by
      simp [picks]
    rw [projectList_eq_merged hg he hxs, projectList_eq_merged hg he hys, hpicks, hpicks',
      contributions_context hx]
theorem UnpackedElement.contributions_eq (hg : g.Closed) : ∀ {x : Value} {ys : List Value},
    UnpackedElement x ys → ∀ {e : Entity} {depth : Nat} {id : EntityId}, g.get? id = some e →
      ValidElement g L.maxDepth e depth x →
        contributions g e (elementPicks x) = contributions g e (picks ys)
  | _, _, .split _, _, _, _, _, _ => by
    rw [picks_split]
  | _, _, @UnpackedElement.entry pre post k v w h, e, depth, id, hid, hx => by
    have hv := (validElement_obj_iff.1 hx).2 k v (by simp)
    have hpick : contributions g e [(k, some v)] = contributions g e [(k, some w)] := by
      simp only [contributions_cons, h.pickShape_eq hg hid hv]
    have hpicks : ∀ v : Value, elementPicks (.obj (pre ++ (k, v) :: post)) =
        elementPicks (.obj pre) ++ [(k, some v)] ++ elementPicks (.obj post) := by
      simp [elementPicks]
    rw [picks_cons, picks_nil, List.append_nil, hpicks, hpicks, contributions_context hpick]
theorem UnpackedSelected.pickShape_eq (hg : g.Closed) : ∀ {v w : Value}, UnpackedSelected v w →
    ∀ {e : Entity} {depth : Nat} {id : EntityId} {k : String}, g.get? id = some e →
      ValidEntry g L.maxDepth e depth k v →
        pickShape g e k (some v) = pickShape g e k (some w)
  | _, _, .list h, e, depth, id, k, hid, hv =>
    pickShape_list (fun _ _ hv => h.projectList_eq hg hv) hv
  | _, _, .call pre post h, e, depth, id, k, hid, hv => by
    have hargs := (UnpackedSelected.call pre post h).calculationShape_eq
    cases hv with
    | field _ _ hv => cases hv
    | @call r _ _ f declared id' _ v hf hk ht _ _ hfields hv =>
      rw [pickShape_call hf hk ht, pickShape_call hf hk ht, projectResult, projectResult, hargs]
      rcases Entries.get?_exchange_self pre post with ⟨hxs, hys⟩ | heq
      · obtain rfl := Option.some.inj (hxs.symm.trans hfields)
        rw [projectFields_of_get? hxs, projectFields_of_get? hys, projectNode, projectNode,
          h.projectList_eq hg hv]
      · rw [projectFields_of_get? hfields, projectFields_of_get? (heq.symm.trans hfields)]
    | value hf hk ht _ _ =>
      obtain ⟨type, ht⟩ := hg.scalar_of_calculation hid hf hk ht
      rw [pickShape_value hf hk ht, pickShape_value hf hk ht, hargs]
    | variant _ hv => cases hv
end

end shape

/-! ## The outcome of a selection -/

section outcome

variable {text : List Char} {limits L : Limits} {schema : Schema} {id : EntityId}
  {xs ys : List Value}

theorem check_unpacked {g : Graph} (h : Unpacked xs ys) :
    check g L id (.list xs) = check g L id (.list ys) := by
  rw [check, check, checkNode, checkNode]
  exact h.checkList_eq (.entity id) none 1

theorem project_unpacked {g : Graph} (hg : g.Closed) (h : Unpacked xs ys)
    (hc : check g L id (.list xs) = .ok ()) : project g id (.list xs) = project g id (.list ys) := by
  rw [project_list, project_list]
  exact h.projectList_eq hg (valid_of_check hc)

/-- Unpacking objects of a selection, however many and wherever they stand, changes neither the
outcome of the check nor, where it is passed, that of the projection. -/
theorem unpacked_selection_outcome (hs : Schema.ofText text limits = .ok schema)
    (h : Relation.ReflTransGen Unpacked xs ys) :
    check schema.graph L id (.list xs) = check schema.graph L id (.list ys) ∧
    (check schema.graph L id (.list xs) = .ok () →
      project schema.graph id (.list xs) = project schema.graph id (.list ys)) := by
  have hg := Schema.closed_of_ofText hs
  induction h with
  | refl => exact ⟨rfl, fun _ => rfl⟩
  | tail _ hstep ih =>
    obtain ⟨hcheck, hproject⟩ := ih
    refine ⟨hcheck.trans (check_unpacked hstep), fun hc => (hproject hc).trans ?_⟩
    exact project_unpacked hg hstep (hcheck ▸ hc)

/-- Posts, their owners and the posts that are best of their authors. -/
def bestText : List Char :=
  "resource Post { title: string, author: -> User?, owner: Owner }
   resource User { name: string, calc best(by?: string): Post }
   union Owner on kind { user: User, none: boolean }".toList

/-- Picks the best post of an author with the given fields. -/
def bestOfAuthor (fields : List Value) : String × Value :=
  ("author", .list [.obj [("best", .obj [("fields", .list fields)])]])

/-- Picks the owner of a post and whether it is an owner with a name. -/
def namedOwner : String × Value :=
  ("owner", .list [.str "kind", .obj [("user", .list [.str "name"])]])

/-- Two picks in one object, above and below the best post of an author. -/
def packedBest : List Value :=
  [.str "title", .obj [bestOfAuthor [.obj [("author", .list [.str "name"]), namedOwner]], namedOwner]]

/-- The same picks, each in an object of its own. -/
def unpackedBest : List Value :=
  [.str "title", .obj [bestOfAuthor [.obj [("author", .list [.str "name"])], .obj [namedOwner]]],
    .obj [namedOwner]]

theorem unpacked_best : Relation.ReflTransGen Unpacked packedBest unpackedBest := by
  have hinner : Unpacked [.obj [("author", .list [.str "name"]), namedOwner]]
      [.obj [("author", .list [.str "name"])], .obj [namedOwner]] :=
    .element [] [] (.split (by simp))
  have hbest := Unpacked.element [] [] (.entry [] [] "best" (.call [] [] hinner))
  exact .tail (.single (.element [.str "title"] [] (.entry [] [namedOwner] "author" (.list hbest))))
    (.element [.str "title"] [] (.split (List.cons_ne_nil _ _)))

theorem unpacked_selection_outcome_best : ∃ schema,
    Schema.ofText bestText .standard = .ok schema ∧
    Relation.ReflTransGen Unpacked packedBest unpackedBest ∧
    check schema.graph .standard ⟨0⟩ (.list packedBest) = .ok () ∧
    check schema.graph .standard ⟨0⟩ (.list unpackedBest) = .ok () ∧
    project schema.graph ⟨0⟩ (.list packedBest) = project schema.graph ⟨0⟩ (.list unpackedBest) := by
  have haccepted : Settles
      (fun schema => check schema.graph .standard ⟨0⟩ (.list packedBest) = .ok ())
      (fun _ => False) (Schema.ofText bestText .standard) := by
    decide +kernel
  obtain ⟨schema, hs, hc⟩ := haccepted.exists_ok
  obtain ⟨hcheck, hproject⟩ := unpacked_selection_outcome hs unpacked_best
  exact ⟨schema, hs, unpacked_best, hc, hcheck ▸ hc, hproject hc⟩

end outcome

end Shapewise.Selection
