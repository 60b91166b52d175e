import Shapewise.Proofs.Schema.Selection
import Shapewise.Proofs.Selection.Steps

/-!
# More fields behind a selection

What the check of a list of fields says when further fields are put behind it. The check goes on
with the arguments that the first fields have noted, so the two runs on the further fields, with
these arguments and without, are compared table by table: `Extends` says what the first fields may
have added, and every step keeps it or stops at a calculation that both lists pick with arguments
that are not the same. The first fault in reading order stands, whatever comes behind it
(`extended_selection_outcome`).
-/

namespace Shapewise.Selection

open Outcome

/-- A calculation that two lists of fields both pick, with arguments that are not the same. -/
def PickedApart (e : Entity) (xs ys : List Value) (n : String) : Prop :=
  ∃ r f declared, e = .record r ∧ r.field? n = some f ∧ f.kind = .calculation declared ∧
    ∃ v ∈ selectedOf xs n, ∃ w ∈ selectedOf ys n,
      ¬ (selectedArguments declared v).Equal (selectedArguments declared w)

variable {g : Graph} {L : Limits} {e : Entity} {depth : Nat} {picked picked₀ : Picked}
  {ss ts : List Step} {n : String} {x : Value} {f : SelectionFault} {id : EntityId}
  {xs ys : List Value}

/-! ## What steps note -/

/-- The step of a pick notes arguments only for a calculation. -/
theorem exists_selected_of_noted (h : .ok (some (n, x)) ∈ steps g L e depth xs) :
    ∃ r f declared v, e = .record r ∧ r.field? n = some f ∧ f.kind = .calculation declared ∧
      v ∈ selectedOf xs n ∧ x = selectedArguments declared v := by
  obtain ⟨o, plan, hp, hplan, harguments⟩ := exists_plan_of_noted h
  cases planned_of_pickPlan hplan with
  | name => cases harguments
  | field => cases harguments
  | variant => cases harguments
  | calculation hf hkind =>
    cases harguments
    exact ⟨_, _, _, _, rfl, hf, hkind, mem_selectedOf.2 hp, rfl⟩

theorem get?_of_takeStep {s : Step} {picked' : Picked} (h : takeStep picked s = .ok picked')
    (hn : Entries.get? picked' n = some x) :
    Entries.get? picked n = some x ∨ s = .ok (some (n, x)) := by
  cases s with
  | error f => cases h
  | ok noted =>
    cases noted with
    | none =>
      cases h
      exact .inl hn
    | some noted =>
      obtain ⟨m, y⟩ := noted
      obtain ⟨-, rfl⟩ := notePick_eq_ok_iff.1 (causeAt_eq_ok_iff.1 h)
      rw [Entries.get?_put] at hn
      split at hn
      · next hm =>
        cases hn
        rw [hm]
        exact .inr rfl
      · exact .inl hn

/-- The arguments in the table of a run were there before, or a step has noted them. -/
theorem get?_of_run {picked' : Picked} (h : run picked ss = .ok picked')
    (hn : Entries.get? picked' n = some x) :
    Entries.get? picked n = some x ∨ .ok (some (n, x)) ∈ ss := by
  induction ss generalizing picked with
  | nil =>
    cases h
    exact .inl hn
  | cons s ss ih =>
    rw [run_cons, bind_eq_ok_iff] at h
    obtain ⟨p, hp, h⟩ := h
    obtain hx | hx := ih h
    · refine (get?_of_takeStep hp hx).imp_right ?_
      rintro rfl
      exact List.mem_cons_self
    · exact .inr (List.mem_cons_of_mem s hx)

/-! ## Runs with more noted before -/

/-- A table has what another one has, and beside it only arguments that steps have noted. -/
def Extends (ss : List Step) (picked picked₀ : Picked) : Prop :=
  ∀ n, Entries.get? picked n = Entries.get? picked₀ n ∨
    Entries.get? picked₀ n = none ∧ ∃ y, Entries.get? picked n = some y ∧ .ok (some (n, y)) ∈ ss

theorem extends_of_run (h : run [] ss = .ok picked) : Extends ss picked [] := by
  intro n
  cases hn : Entries.get? picked n with
  | none => exact .inl rfl
  | some x =>
    obtain hx | hx := get?_of_run h hn
    · cases hx
    · exact .inr ⟨rfl, x, rfl, hx⟩

theorem Extends.put (h : Extends ss picked picked₀) (n : String) (x : Value) :
    Extends ss (Entries.put picked n x) (Entries.put picked₀ n x) := by
  intro m
  rw [Entries.get?_put, Entries.get?_put]
  split
  · exact .inl rfl
  · exact h m

/-- Two notes of one calculation that do not agree, one of them by the steps before. -/
def NotedApart (ss : List Step) (n : String) (x : Value) : Prop :=
  ∃ y, .ok (some (n, y)) ∈ ss ∧ ¬ y.Equal x

/-- A note is taken in both tables or in none, or it is at odds with a step before. -/
theorem Extends.notePick (h : Extends ss picked picked₀) (n : String) (x : Value) :
    (∃ cause, notePick picked n x = .error cause ∧ notePick picked₀ n x = .error cause) ∨
      (∃ p p₀, notePick picked n x = .ok p ∧ notePick picked₀ n x = .ok p₀ ∧ Extends ss p p₀) ∨
      NotedApart ss n x ∧ notePick picked n x = .error (.duplicate n) := by
  have hput := h.put n x
  unfold Selection.notePick
  rcases h n with hn | ⟨hn₀, y, hn, hy⟩
  · rw [hn]
    cases Entries.get? picked₀ n with
    | none => exact .inr (.inl ⟨_, _, rfl, rfl, hput⟩)
    | some y =>
      by_cases heq : y.Equal x
      · simp only [if_pos heq]
        exact .inr (.inl ⟨_, _, rfl, rfl, hput⟩)
      · simp only [if_neg heq]
        exact .inl ⟨_, rfl, rfl⟩
  · rw [hn, hn₀]
    by_cases heq : y.Equal x
    · simp only [if_pos heq]
      exact .inr (.inl ⟨_, _, rfl, rfl, hput⟩)
    · simp only [if_neg heq]
      exact .inr (.inr ⟨⟨y, hy, heq⟩, trivial⟩)

theorem Extends.takeStep (h : Extends ss picked picked₀) (s : Step) :
    (∃ f, takeStep picked s = .error f ∧ takeStep picked₀ s = .error f) ∨
      (∃ p p₀, takeStep picked s = .ok p ∧ takeStep picked₀ s = .ok p₀ ∧ Extends ss p p₀) ∨
      ∃ n x, s = .ok (some (n, x)) ∧ NotedApart ss n x ∧
        takeStep picked s = .error ⟨[n], .duplicate n⟩ := by
  cases s with
  | error f => exact .inl ⟨f, rfl, rfl⟩
  | ok noted =>
    cases noted with
    | none => exact .inr (.inl ⟨picked, picked₀, rfl, rfl, h⟩)
    | some noted =>
      obtain ⟨n, x⟩ := noted
      have htake : ∀ p, Selection.takeStep p (.ok (some (n, x))) =
          causeAt n (Selection.notePick p n x) := fun _ => rfl
      rw [htake, htake]
      obtain ⟨c, h₁, h₂⟩ | ⟨p, p₀, h₁, h₂, hext⟩ | ⟨hapart, h₁⟩ := h.notePick n x
      · rw [h₁, h₂]
        exact .inl ⟨_, rfl, rfl⟩
      · rw [h₁, h₂]
        exact .inr (.inl ⟨p, p₀, rfl, rfl, hext⟩)
      · rw [h₁]
        exact .inr (.inr ⟨n, x, rfl, hapart, rfl⟩)

/-- A run that fails would fail in the same way with less noted before, or at arguments that are at
odds with a step before. -/
theorem Extends.run_error (h : Extends ss picked picked₀) (hrun : run picked ts = .error f) :
    run picked₀ ts = .error f ∨
      ∃ n x, f = ⟨[n], .duplicate n⟩ ∧ .ok (some (n, x)) ∈ ts ∧ NotedApart ss n x := by
  induction ts generalizing picked picked₀ with
  | nil => cases hrun
  | cons s ts ih =>
    rw [run_cons] at hrun ⊢
    obtain ⟨f', h₁, h₂⟩ | ⟨p, p₀, h₁, h₂, hext⟩ | ⟨n, x, rfl, hapart, h₁⟩ := h.takeStep s
    · rw [h₁] at hrun
      rw [h₂]
      exact .inl hrun
    · rw [h₁] at hrun
      rw [h₂]
      refine (ih hext hrun).imp_right ?_
      rintro ⟨n, x, hf, hx, hapart⟩
      exact ⟨n, x, hf, List.mem_cons_of_mem s hx, hapart⟩
    · rw [h₁] at hrun
      cases hrun
      exact .inr ⟨n, x, rfl, List.mem_cons_self, hapart⟩

/-! ## Selections behind one another -/

/-- The check of fields of an entity runs their steps. -/
theorem check_eq_run (he : g.get? id = some e) (hxs : xs ≠ []) :
    check g L id (.list xs) = (fun _ => ()) <$> run [] (steps g L e 1 xs) := by
  obtain ⟨x, xs, rfl⟩ := List.exists_cons_of_ne_nil hxs
  have hfollow : g.follow? (.entity id) = some e := he
  have hdepth : ¬ L.maxDepth < 1 := by
    have := L.positive
    omega
  rw [check, checkNode]
  exact checkList_eq_run hfollow hdepth x xs

theorem pickedApart_of_noted (hx : .ok (some (n, x)) ∈ steps g L e depth ys)
    (hapart : NotedApart (steps g L e depth xs) n x) : PickedApart e xs ys n := by
  obtain ⟨y, hy, hne⟩ := hapart
  obtain ⟨r, f, declared, w, rfl, hf, hkind, hw, rfl⟩ := exists_selected_of_noted hx
  obtain ⟨r', f', declared', v, hr, hf', hkind', hv, rfl⟩ := exists_selected_of_noted hy
  cases hr
  cases hf.symm.trans hf'
  cases hkind.symm.trans hkind'
  exact ⟨r, f, declared, rfl, hf, hkind, v, hv, w, hw, hne⟩

theorem check_append_of_error (he : g.get? id = some e) (hxs : xs ≠ [])
    (hx : check g L id (.list xs) = .error f) : check g L id (.list (xs ++ ys)) = .error f := by
  rw [check_eq_run he hxs, map_eq_error_iff] at hx
  rw [check_eq_run he (List.append_ne_nil_of_left_ne_nil hxs ys), map_eq_error_iff, steps_append,
    run_append, bind_eq_error_iff]
  exact .inl hx

theorem check_append_of_ok (he : g.get? id = some e) (hxs : xs ≠ []) (hys : ys ≠ [])
    (hx : check g L id (.list xs) = .ok ()) (hxy : check g L id (.list (xs ++ ys)) = .error f) :
    check g L id (.list ys) = .error f ∨
      ∃ n, f = ⟨[n], .duplicate n⟩ ∧ PickedApart e xs ys n := by
  rw [check_eq_run he hxs, map_eq_ok_iff] at hx
  rw [check_eq_run he (List.append_ne_nil_of_left_ne_nil hxs ys), map_eq_error_iff, steps_append,
    run_append, bind_eq_error_iff] at hxy
  rw [check_eq_run he hys, map_eq_error_iff]
  obtain ⟨picked, hpicked, -⟩ := hx
  obtain hrun | ⟨picked', hpicked', hrun⟩ := hxy
  · rw [hpicked] at hrun
    cases hrun
  · cases hpicked.symm.trans hpicked'
    refine ((extends_of_run hpicked).run_error hrun).imp_right ?_
    rintro ⟨n, x, hf, hx, hapart⟩
    exact ⟨n, hf, pickedApart_of_noted hx hapart⟩

/-- In an accepted selection no calculation is picked with other arguments behind. -/
theorem not_pickedApart_of_check (he : g.get? id = some e)
    (hxy : check g L id (.list (xs ++ ys)) = .ok ()) : ¬ PickedApart e xs ys n := by
  obtain ⟨e', items, he', ⟨⟩, -, hagree⟩ := elements_of_check hxy
  cases he.symm.trans he'
  rintro ⟨r, f, declared, hr, hf, hkind, v, hv, w, hw, hne⟩
  obtain ⟨entries, hitem, hentry⟩ := mem_selectedOf_iff.1 hv
  obtain ⟨entries', hitem', hentry'⟩ := mem_selectedOf_iff.1 hw
  have hv : v ∈ selectedOf (xs ++ ys) n :=
    mem_selectedOf_iff.2 ⟨entries, List.mem_append_left ys hitem, hentry⟩
  have hw : w ∈ selectedOf (xs ++ ys) n :=
    mem_selectedOf_iff.2 ⟨entries', List.mem_append_right xs hitem', hentry'⟩
  exact hne (hagree n r f declared hr hf hkind v hv w hw)

/-- Fields behind a refused selection do not change why it is refused. Behind an accepted one they
are refused for the reason they have alone, or for a calculation that is picked with other
arguments before; where they are accepted alone, only such a calculation stands against them. -/
theorem extended_selection_outcome (he : g.get? id = some e) (hxs : xs ≠ []) :
    (∀ f, check g L id (.list xs) = .error f → check g L id (.list (xs ++ ys)) = .error f) ∧
    (∀ f, check g L id (.list xs) = .ok () → ys ≠ [] →
      check g L id (.list (xs ++ ys)) = .error f →
        check g L id (.list ys) = .error f ∨
          ∃ n, f = ⟨[n], .duplicate n⟩ ∧ PickedApart e xs ys n) ∧
    (check g L id (.list xs) = .ok () → check g L id (.list ys) = .ok () →
      (check g L id (.list (xs ++ ys)) = .ok () ↔ ∀ n, ¬ PickedApart e xs ys n)) := by
  refine ⟨fun f hx => check_append_of_error he hxs hx,
    fun f hx hys hxy => check_append_of_ok he hxs hys hx hxy, fun hx hy =>
      ⟨fun hxy n => not_pickedApart_of_check he hxy, fun hapart => ?_⟩⟩
  have hys : ys ≠ [] := by
    rintro rfl
    exact (valid_list_iff.1 (valid_of_check hy)).2.1 rfl
  cases hxy : check g L id (.list (xs ++ ys)) with
  | ok u => rfl
  | error f =>
    obtain hf | ⟨n, -, hn⟩ := check_append_of_ok he hxs hys hx hxy
    · rw [hy] at hf
      cases hf
    · exact absurd hn (hapart n)

/-- Picks the rank of a user on one scale. -/
def rankOnOne : List Value :=
  [.obj [("rank", .obj [("args", .obj [("scale", .int 1)])])]]

/-- Picks the name of a user and the rank on another scale. -/
def nameAndRankOnTwo : List Value :=
  [.str "name", .obj [("rank", .obj [("args", .obj [("scale", .int 2)])])]]

theorem extended_selection_outcome_ranks : ∃ schema e,
    Schema.ofText postsText .standard = .ok schema ∧ schema.graph.get? ⟨1⟩ = some e ∧
      rankOnOne ≠ [] ∧
      (∀ f, check schema.graph .standard ⟨1⟩ (.list rankOnOne) = .error f →
        check schema.graph .standard ⟨1⟩ (.list (rankOnOne ++ nameAndRankOnTwo)) = .error f) ∧
      (∀ f, check schema.graph .standard ⟨1⟩ (.list rankOnOne) = .ok () → nameAndRankOnTwo ≠ [] →
        check schema.graph .standard ⟨1⟩ (.list (rankOnOne ++ nameAndRankOnTwo)) = .error f →
          check schema.graph .standard ⟨1⟩ (.list nameAndRankOnTwo) = .error f ∨
            ∃ n, f = ⟨[n], .duplicate n⟩ ∧ PickedApart e rankOnOne nameAndRankOnTwo n) ∧
      (check schema.graph .standard ⟨1⟩ (.list rankOnOne) = .ok () →
        check schema.graph .standard ⟨1⟩ (.list nameAndRankOnTwo) = .ok () →
          (check schema.graph .standard ⟨1⟩ (.list (rankOnOne ++ nameAndRankOnTwo)) = .ok () ↔
            ∀ n, ¬ PickedApart e rankOnOne nameAndRankOnTwo n)) := by
  have hread : Settles (fun schema => (schema.graph.get? ⟨1⟩).isSome = true) (fun _ => False)
      (Schema.ofText postsText .standard) := by
    decide +kernel
  obtain ⟨schema, hs, hsome⟩ := hread.exists_ok
  obtain ⟨e, he⟩ := Option.isSome_iff_exists.1 hsome
  have hne : rankOnOne ≠ [] := List.cons_ne_nil _ _
  exact ⟨schema, e, hs, he, hne, extended_selection_outcome he hne⟩

-- the further fields are in order alone, and their rank is at odds with the one before
example : Settles (fun schema =>
    check schema.graph .standard ⟨1⟩ (.list rankOnOne) = .ok () ∧
      check schema.graph .standard ⟨1⟩ (.list nameAndRankOnTwo) = .ok () ∧
      check schema.graph .standard ⟨1⟩ (.list (rankOnOne ++ nameAndRankOnTwo)) =
        .error ⟨["rank"], .duplicate "rank"⟩)
    (fun _ => False) (Schema.ofText postsText .standard) := by
  decide +kernel

end Shapewise.Selection
