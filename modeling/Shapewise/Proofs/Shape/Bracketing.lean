import Shapewise.Proofs.Shape.Record

/-!
# Merging many shapes

Merging may be bracketed as one likes, the object without keys changes nothing, and a shape merged
with itself stays as it is; so several lists of objects may be merged each by itself first. The main
result is `merge_monoid_laws`. A merge that fails does so in whichever way it is bracketed, perhaps
with another conflict, so the laws say that outcomes agree.

Of two shapes the left one comes first (`LeftFirst`): bracketing changes nothing about that either.
-/

namespace Shapewise.Shape

open Outcome

/-! ## Objects -/

/-- A shape is an object. -/
def IsObject (s : Shape) : Prop :=
  ∃ fields optionalKeys, s = .object fields optionalKeys

theorem isObject_emptyObject : IsObject emptyObject := ⟨[], .empty, rfl⟩

variable {a b c m : Shape} {fs gs ms : List (String × Shape)} {os ps : NameSet} {xs ys : List Shape}

theorem IsObject.merge (ha : a.IsObject) (h : merge a b = .ok m) : m.IsObject := by
  obtain ⟨fs, os, rfl⟩ := ha
  have hkind := (ctorIdx_of_merge h).2
  cases m with
  | object ms qs => exact ⟨ms, qs, rfl⟩
  | _ => simp [Shape.ctorIdx] at hkind

/-- Against an object without keys the keys that may be absent stay the same. -/
theorem mergeOptional_of_subset (hsub : ∀ k ∈ os, k ∈ Entries.keys fs) :
    mergeOptional fs os [] .empty fs = os ∧ mergeOptional [] .empty fs os fs = os := by
  have hnone : ∀ k, requires ([] : List (String × Shape)) .empty k = false := fun k => rfl
  have hkeys : ∀ k, k ∈ os ↔ k ∈ Entries.keys fs ∧ requires fs os k = false := by
    intro k
    rw [← Bool.not_eq_true, requires_eq_true_iff]
    constructor
    · intro hk
      exact ⟨hsub k hk, fun h => h.2 hk⟩
    · rintro ⟨hk, h⟩
      exact not_not.1 fun hos => h ⟨hk, hos⟩
  constructor
  · refine NameSet.ext fun k => ?_
    rw [mem_mergeOptional, hkeys, hnone]
    tauto
  · refine NameSet.ext fun k => ?_
    rw [mem_mergeOptional, hkeys, hnone]
    tauto

theorem merge_emptyObject_left (h : Proper a) (ha : a.IsObject) : merge emptyObject a = .ok a := by
  obtain ⟨fs, os, rfl⟩ := ha
  obtain ⟨hd, hsub, -⟩ := proper_object_iff.1 h
  refine (merge_object_eq_ok_iff proper_emptyObject).2
    ⟨fs, os, fs, rfl, ?_, mergeFields_nil_left hd⟩
  rw [(mergeOptional_of_subset hsub).2]

theorem merge_emptyObject_right (h : Proper a) (ha : a.IsObject) : merge a emptyObject = .ok a := by
  obtain ⟨fs, os, rfl⟩ := ha
  obtain ⟨-, hsub, -⟩ := proper_object_iff.1 h
  refine (merge_object_eq_ok_iff h).2 ⟨[], .empty, fs, rfl, ?_, by rw [mergeFields]⟩
  rw [(mergeOptional_of_subset hsub).1]

/-! ## Lists of objects -/

/-- Proper objects merge to a proper object. -/
theorem proper_of_mergeAll (h : ∀ s ∈ xs, s.IsObject ∧ Proper s) (hm : mergeAll xs = .ok m) :
    m.IsObject ∧ Proper m := by
  have hfold : ∀ a : Shape, a.IsObject ∧ Proper a → xs.foldlM merge a = .ok m →
      m.IsObject ∧ Proper m := by
    clear hm
    induction xs with
    | nil =>
      intro a ha hm
      rw [List.foldlM_nil, pure_eq_ok_iff] at hm
      exact hm ▸ ha
    | cons x xs ih =>
      intro a ha hm
      obtain ⟨⟨-, hx⟩, hxs⟩ := List.forall_mem_cons.1 h
      rw [List.foldlM_cons, bind_eq_ok_iff] at hm
      obtain ⟨b, hb, hm⟩ := hm
      exact ih hxs b ⟨ha.1.merge hb, ha.2.merge hx hb⟩ hm
  exact hfold emptyObject ⟨isObject_emptyObject, proper_emptyObject⟩ hm

/-- Shapes can be merged with one another before they are merged into what is there. -/
theorem foldlM_merge_eq_ok_iff (ha : a.IsObject ∧ Proper a) (h : ∀ s ∈ xs, s.IsObject ∧ Proper s) :
    xs.foldlM merge a = .ok m ↔ ∃ q, mergeAll xs = .ok q ∧ merge a q = .ok m := by
  induction xs generalizing a m with
  | nil =>
    have hempty : mergeAll [] = .ok emptyObject := rfl
    simp [hempty, merge_emptyObject_right ha.2 ha.1, pure_eq_ok_iff]
  | cons x xs ih =>
    obtain ⟨hx, hxs⟩ := List.forall_mem_cons.1 h
    have hall : mergeAll (x :: xs) = xs.foldlM merge x := by
      rw [mergeAll, List.foldlM_cons, merge_emptyObject_left hx.2 hx.1]
      rfl
    rw [List.foldlM_cons, bind_eq_ok_iff, hall]
    simp only [ih hx hxs]
    constructor
    · rintro ⟨b, hb, hm⟩
      obtain ⟨q, hq, hm⟩ := (ih ⟨ha.1.merge hb, ha.2.merge hx.2 hb⟩ hxs).1 hm
      have hpq := (proper_of_mergeAll hxs hq).2
      obtain ⟨u, hu, hm⟩ := (merge_assoc ha.2 x q m hx.2 hpq).1 ⟨b, hb, hm⟩
      exact ⟨u, ⟨q, hq, hu⟩, hm⟩
    · rintro ⟨u, ⟨q, hq, hu⟩, hm⟩
      have hpq := (proper_of_mergeAll hxs hq).2
      obtain ⟨b, hb, hm⟩ := (merge_assoc ha.2 x q m hx.2 hpq).2 ⟨u, hu, hm⟩
      exact ⟨b, hb, (ih ⟨ha.1.merge hb, ha.2.merge hx.2 hb⟩ hxs).2 ⟨q, hq, hm⟩⟩

theorem agree_mergeAll_append (hx : ∀ s ∈ xs, s.IsObject ∧ Proper s)
    (hy : ∀ s ∈ ys, s.IsObject ∧ Proper s) :
    Agree (mergeAll (xs ++ ys)) (do merge (← mergeAll xs) (← mergeAll ys)) := by
  refine agree_iff.2 fun m => ?_
  have happend : mergeAll (xs ++ ys) = mergeAll xs >>= fun p => ys.foldlM merge p :=
    List.foldlM_append
  simp only [happend, bind_eq_ok_iff]
  constructor
  · rintro ⟨p, hp, hm⟩
    obtain ⟨q, hq, hm⟩ := (foldlM_merge_eq_ok_iff (proper_of_mergeAll hx hp) hy).1 hm
    exact ⟨p, hp, q, hq, hm⟩
  · rintro ⟨p, hp, q, hq, hm⟩
    exact ⟨p, hp, (foldlM_merge_eq_ok_iff (proper_of_mergeAll hx hp) hy).2 ⟨q, hq, hm⟩⟩

/-! ## Bracketing and sides -/

theorem agree_merge_assoc (ha : Proper a) (hb : Proper b) (hc : Proper c) :
    Agree (do merge (← merge a b) c) (do merge a (← merge b c)) := by
  refine agree_iff.2 fun m => ?_
  rw [bind_eq_ok_iff, bind_eq_ok_iff]
  exact merge_assoc ha b c m hb hc

/-- In a merged shape the left one comes first: its keys stand before those that only the right one
has, and a calculation has its arguments and their shape. -/
def LeftFirst : Shape → Shape → Shape → Prop
  | .object fs _, .object gs _, m =>
    Entries.keys m.fields = (Entries.keys fs ++ Entries.keys gs).eraseDups
  | .calculation _ x s, .calculation _ _ _, m => ∃ r, m = .calculation r x s
  | _, _, _ => True

theorem leftFirst_of_merge (ha : Proper a) (h : merge a b = .ok m) : LeftFirst a b m := by
  cases a with
  | object fs os =>
    obtain ⟨gs, ps, ms, rfl, rfl, hms⟩ := (merge_object_eq_ok_iff ha).1 h
    exact keys_of_mergeFields (proper_object_iff.1 ha).1 hms
  | calculation r x s =>
    obtain ⟨b', y, t, m', rfl, rfl, -, -⟩ := merge_calculation_eq_ok_iff.1 h
    exact ⟨m', rfl⟩
  | _ => trivial

/-- Merging is associative, idempotent and biased to the left, with the object without keys as
identity; so lists of objects may each be merged before they are merged with one another. -/
theorem merge_monoid_laws (ha : Proper a) (hb : Proper b) (hc : Proper c)
    (hxs : ∀ s ∈ xs, s.IsObject ∧ Proper s) (hys : ∀ s ∈ ys, s.IsObject ∧ Proper s) :
    Agree (do merge (← merge a b) c) (do merge a (← merge b c)) ∧
    merge a a = .ok a ∧
    (a.IsObject → merge emptyObject a = .ok a ∧ merge a emptyObject = .ok a) ∧
    (∀ m, merge a b = .ok m → LeftFirst a b m) ∧
    Agree (mergeAll (xs ++ ys)) (do merge (← mergeAll xs) (← mergeAll ys)) :=
  ⟨agree_merge_assoc ha hb hc, merge_self a,
    fun ho => ⟨merge_emptyObject_left ha ho, merge_emptyObject_right ha ho⟩,
    fun _ hm => leftFirst_of_merge ha hm, agree_mergeAll_append hxs hys⟩

/-- A record with its rank on a scale. -/
def rankOnOne : Shape :=
  .record [("id", .scalar .string),
    ("rank", .calculation (.scalar .number) (.obj [("scale", .int 1)]) none)]

/-- A record with tags that may be absent and the same rank, the scale given as a truth value. -/
def rankOnTrue : Shape :=
  .object [("tags", .array (.scalar .string)),
    ("rank", .calculation (.scalar .number) (.obj [("scale", .bool true)]) none)] (.ofList ["tags"])

/-- A record with tags and a name. -/
def namedTags : Shape :=
  .record [("tags", .array (.scalar .string)), ("name", .nullable (.scalar .string))]

theorem merge_monoid_laws_ranks :
    Proper rankOnOne ∧ Proper rankOnTrue ∧ Proper namedTags ∧
    (∀ s ∈ [rankOnOne, rankOnTrue], s.IsObject ∧ Proper s) ∧
    (∀ s ∈ [namedTags, rankOnOne], s.IsObject ∧ Proper s) ∧
    Agree (do merge (← merge rankOnOne rankOnTrue) namedTags)
      (do merge rankOnOne (← merge rankOnTrue namedTags)) ∧
    merge rankOnOne rankOnOne = .ok rankOnOne ∧
    (rankOnOne.IsObject →
      merge emptyObject rankOnOne = .ok rankOnOne ∧ merge rankOnOne emptyObject = .ok rankOnOne) ∧
    (∀ m, merge rankOnOne rankOnTrue = .ok m → LeftFirst rankOnOne rankOnTrue m) ∧
    Agree (mergeAll ([rankOnOne, rankOnTrue] ++ [namedTags, rankOnOne]))
      (do merge (← mergeAll [rankOnOne, rankOnTrue]) (← mergeAll [namedTags, rankOnOne])) := by
  have hone : rankOnOne.IsObject ∧ Proper rankOnOne :=
    ⟨⟨_, _, rfl⟩, by simp [rankOnOne, proper_record_iff, Entries.Distinct, Entries.keys, Proper]⟩
  have htrue : rankOnTrue.IsObject ∧ Proper rankOnTrue :=
    ⟨⟨_, _, rfl⟩, by simp [rankOnTrue, proper_object_iff, Entries.Distinct, Entries.keys, Proper]⟩
  have hnamed : namedTags.IsObject ∧ Proper namedTags :=
    ⟨⟨_, _, rfl⟩, by simp [namedTags, proper_record_iff, Entries.Distinct, Entries.keys, Proper]⟩
  have hxs : ∀ s ∈ [rankOnOne, rankOnTrue], s.IsObject ∧ Proper s := by
    simp [hone, htrue]
  have hys : ∀ s ∈ [namedTags, rankOnOne], s.IsObject ∧ Proper s := by
    simp [hnamed, hone]
  exact ⟨hone.2, htrue.2, hnamed.2, hxs, hys,
    merge_monoid_laws hone.2 htrue.2 hnamed.2 hxs hys⟩

end Shapewise.Shape
