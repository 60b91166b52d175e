import Shapewise.Proofs.Outcome
import Shapewise.Proofs.Shape.Proper
import Shapewise.Shape.Merge

/-!
# Merging proper shapes

On proper shapes the equality test of `merge` is only a shortcut: `merge_object`, `merge_array`,
`merge_nullable` and `merge_calculation` say that merging always descends. Merging fields into an
object is told name by name (`mergeFields_eq_ok_iff`): under each name the shapes are gathered from
left to right, and the names stand in the order in which they first occur.

The main result is `merge_assoc`: merging may be bracketed as one likes. For fields it says that
contributions can be merged among themselves first (`mergeFields_assoc`).
-/

namespace Shapewise.Shape

open Outcome

variable {fs gs cs ms : List (String × Shape)} {os ps : NameSet}

/-! ## One step of a merge -/

theorem merge_array (a b : Shape) :
    merge (.array a) (.array b) = Shape.array <$> merge a b := by
  rw [merge.eq_def]
  split
  · next h =>
    rw [merge_of_equal (equal_array_iff.1 h)]
    rfl
  · rfl

theorem merge_nullable (a b : Shape) :
    merge (.nullable a) (.nullable b) = Shape.nullable <$> merge a b := by
  rw [merge.eq_def]
  split
  · next h =>
    rw [merge_of_equal (equal_nullable_iff.1 h)]
    rfl
  · rfl

theorem merge_calculation (a b : Shape) (x y : Value) (s t : Option Shape) :
    merge (.calculation a x s) (.calculation b y t) =
      if x.Equal y then (Shape.calculation · x s) <$> merge a b else .error .arguments := by
  rw [merge.eq_def]
  split
  · next h =>
    obtain ⟨hr, hx, -⟩ := equal_calculation_iff.1 h
    rw [if_pos hx, merge_of_equal hr]
    rfl
  · rfl

theorem mergeFields_cons_of_none {k : String} {s : Shape} (h : Entries.get? fs k = none) :
    mergeFields fs ((k, s) :: cs) = mergeFields (Entries.put fs k s) cs := by
  rw [mergeFields, h]

theorem mergeFields_cons_of_some {k : String} {a s : Shape} (h : Entries.get? fs k = some a) :
    mergeFields fs ((k, s) :: cs) =
      merge a s >>= fun m => mergeFields (Entries.put fs k m) cs := by
  rw [mergeFields, h]

/-- Fields that equal those already there leave them as they are. -/
theorem mergeFields_of_equal (hd : Entries.Distinct fs)
    (h : ∀ k t, (k, t) ∈ gs → ∃ s, (k, s) ∈ fs ∧ Equal s t) : mergeFields fs gs = .ok fs := by
  induction gs with
  | nil => rw [mergeFields]
  | cons g gs ih =>
    obtain ⟨k, t⟩ := g
    obtain ⟨s, hs, he⟩ := h k t List.mem_cons_self
    have hget := (Entries.get?_eq_some_iff hd).2 hs
    rw [mergeFields_cons_of_some hget, merge_of_equal he]
    show mergeFields (Entries.put fs k s) gs = .ok fs
    rw [Entries.put_of_get? hget]
    exact ih fun l u hu => h l u (List.mem_cons_of_mem _ hu)

theorem requires_eq_true_iff {k : String} :
    requires fs os k = true ↔ k ∈ Entries.keys fs ∧ k ∉ os := by
  simp [requires, Entries.has_eq_true_iff]

theorem mem_mergeOptional {k : String} :
    k ∈ mergeOptional fs os gs ps ms ↔
      k ∈ Entries.keys ms ∧ requires fs os k = false ∧ requires gs ps k = false := by
  simp [mergeOptional]

/-- A merged object requires what one of the sides requires. -/
theorem requires_mergeOptional_iff
    (hms : ∀ k, k ∈ Entries.keys ms ↔ k ∈ Entries.keys fs ∨ k ∈ Entries.keys gs) (k : String) :
    requires ms (mergeOptional fs os gs ps ms) k = true ↔
      requires fs os k = true ∨ requires gs ps k = true := by
  rw [requires_eq_true_iff, mem_mergeOptional, hms, ← Bool.not_eq_true, ← Bool.not_eq_true,
    requires_eq_true_iff, requires_eq_true_iff]
  tauto

theorem merge_object (hl : Proper (.object fs os)) :
    merge (.object fs os) (.object gs ps) =
      (fun ms => .object ms (mergeOptional fs os gs ps ms)) <$> mergeFields fs gs := by
  rw [merge.eq_def]
  split
  · next h =>
    obtain ⟨hd, hsub, -⟩ := proper_object_iff.1 hl
    obtain ⟨rfl, hright, hleft⟩ := h.of_object
    have hopt : mergeOptional fs os gs os fs = os := by
      refine NameSet.ext fun k => ?_
      rw [mem_mergeOptional, ← Bool.not_eq_true, ← Bool.not_eq_true, requires_eq_true_iff,
        requires_eq_true_iff]
      constructor
      · rintro ⟨hk, hf, -⟩
        exact not_not.1 fun ho => hf ⟨hk, ho⟩
      · intro ho
        exact ⟨hsub k ho, fun hf => hf.2 ho, fun hg => hg.2 ho⟩
    rw [mergeFields_of_equal hd hright]
    show _ = Except.ok (Shape.object fs (mergeOptional fs os gs os fs))
    rw [hopt]
  · rfl

/-- Objects that are not equal are merged by their fields. -/
theorem merge_object_of_not_equal (h : ¬ Equal (.object fs os) (.object gs ps)) :
    merge (.object fs os) (.object gs ps) =
      (fun ms => .object ms (mergeOptional fs os gs ps ms)) <$> mergeFields fs gs := by
  rw [merge.eq_def, if_neg h]
  rfl

/-- How a merged shape comes about: by equality, or from merged parts. -/
inductive MergedBy : Shape → Shape → Shape → Prop
  | equal {a b : Shape} : Equal a b → MergedBy a b a
  | object {fs gs ms : List (String × Shape)} {os ps : NameSet} :
      ¬ Equal (.object fs os) (.object gs ps) → mergeFields fs gs = .ok ms →
      MergedBy (.object fs os) (.object gs ps) (.object ms (mergeOptional fs os gs ps ms))
  | array {a b m : Shape} : merge a b = .ok m → MergedBy (.array a) (.array b) (.array m)
  | nullable {a b m : Shape} :
      merge a b = .ok m → MergedBy (.nullable a) (.nullable b) (.nullable m)
  | calculation {a b m : Shape} {x y : Value} {s t : Option Shape} :
      x.Equal y → merge a b = .ok m →
      MergedBy (.calculation a x s) (.calculation b y t) (.calculation m x s)

theorem mergedBy_of_merge {a b m : Shape} (h : merge a b = .ok m) : MergedBy a b m := by
  rw [merge.eq_def] at h
  split at h
  · next he => exact Except.ok.inj h ▸ .equal he
  · next hne =>
    split at h
    · obtain ⟨ms, hms, h⟩ := bind_eq_ok_iff.1 h
      exact pure_eq_ok_iff.1 h ▸ .object hne hms
    · obtain ⟨m', hm, h⟩ := bind_eq_ok_iff.1 h
      exact pure_eq_ok_iff.1 h ▸ .array hm
    · obtain ⟨m', hm, h⟩ := bind_eq_ok_iff.1 h
      exact pure_eq_ok_iff.1 h ▸ .nullable hm
    · split at h
      · next hx =>
        obtain ⟨m', hm, h⟩ := bind_eq_ok_iff.1 h
        exact pure_eq_ok_iff.1 h ▸ .calculation hx hm
      · cases h
    · cases h

/-! ## What can be merged with what -/

theorem ctorIdx_of_equal {a b : Shape} (h : Equal a b) : b.ctorIdx = a.ctorIdx := by
  have hcanonical : ∀ s : Shape, s.canonical.ctorIdx = s.ctorIdx := by
    intro s
    cases s <;> rfl
  rw [← hcanonical a, ← hcanonical b, show a.canonical = b.canonical from h]

/-- Only shapes of one kind can be merged, and merging keeps the kind. -/
theorem ctorIdx_of_merge {a b m : Shape} (h : merge a b = .ok m) :
    b.ctorIdx = a.ctorIdx ∧ m.ctorIdx = a.ctorIdx := by
  cases mergedBy_of_merge h with
  | equal he => exact ⟨ctorIdx_of_equal he, rfl⟩
  | object | array | nullable | calculation => exact ⟨rfl, rfl⟩

/-- What is equal to nothing but itself, and can be merged with its equals only, merges with
itself alone. -/
theorem merge_leaf_eq_ok_iff {a b m : Shape} (hequal : ∀ b, Equal a b → b = a)
    (hmerge : ∀ b m, merge a b = .ok m → Equal a b) : merge a b = .ok m ↔ b = a ∧ m = a := by
  constructor
  · intro h
    have he : Equal a b := hmerge b m h
    rw [merge_of_equal he] at h
    exact ⟨hequal b he, (Except.ok.inj h).symm⟩
  · rintro ⟨rfl, rfl⟩
    exact merge_self _

theorem merge_scalar_eq_ok_iff {type : Scalar} {b m : Shape} :
    merge (.scalar type) b = .ok m ↔ b = .scalar type ∧ m = .scalar type := by
  apply merge_leaf_eq_ok_iff
  · intro b he
    cases b <;> simp_all [Equal, canonical]
  · intro b m h
    rw [merge.eq_def] at h
    split at h
    · assumption
    · cases h

theorem merge_literal_eq_ok_iff {values : List String} {b m : Shape} :
    merge (.literal values) b = .ok m ↔ b = .literal values ∧ m = .literal values := by
  apply merge_leaf_eq_ok_iff
  · intro b he
    cases b <;> simp_all [Equal, canonical]
  · intro b m h
    rw [merge.eq_def] at h
    split at h
    · assumption
    · cases h

/-- What wraps one shape and merges by it. -/
structure Wrapper (w : Shape → Shape) : Prop where
  inj : ∀ s t, w s = w t → s = t
  proper : ∀ s, Proper (w s) → Proper s
  kind : ∀ s t, s.ctorIdx = (w t).ctorIdx → ∃ s', s = w s'
  merge : ∀ a b, Shape.merge (w a) (w b) = w <$> Shape.merge a b

theorem wrapper_array : Wrapper .array where
  inj _ _ h := Shape.array.inj h
  proper _ h := h
  kind s _ h := by cases s <;> simp [Shape.ctorIdx] at h ⊢
  merge := merge_array

theorem wrapper_nullable : Wrapper .nullable where
  inj _ _ h := Shape.nullable.inj h
  proper _ h := h
  kind s _ h := by cases s <;> simp [Shape.ctorIdx] at h ⊢
  merge := merge_nullable

theorem Wrapper.merge_eq_ok_iff {w : Shape → Shape} (hw : Wrapper w) {a b m : Shape} :
    Shape.merge (w a) b = .ok m ↔
      ∃ b' m', b = w b' ∧ m = w m' ∧ Shape.merge a b' = .ok m' := by
  constructor
  · intro h
    obtain ⟨b', rfl⟩ := hw.kind b a (ctorIdx_of_merge h).1
    rw [hw.merge, map_eq_ok_iff] at h
    obtain ⟨m', h, rfl⟩ := h
    exact ⟨b', m', rfl, rfl, h⟩
  · rintro ⟨b', m', rfl, rfl, h⟩
    rw [hw.merge, h]
    rfl

theorem merge_calculation_eq_ok_iff {a b m : Shape} {x : Value} {s : Option Shape} :
    merge (.calculation a x s) b = .ok m ↔
      ∃ b' y t m', b = .calculation b' y t ∧ m = .calculation m' x s ∧ x.Equal y ∧
        merge a b' = .ok m' := by
  constructor
  · intro h
    cases b with
    | calculation b y t =>
      rw [merge_calculation] at h
      split at h
      · next hx =>
        obtain ⟨m', hm, rfl⟩ := map_eq_ok_iff.1 h
        exact ⟨b, y, t, m', rfl, rfl, hx, hm⟩
      · cases h
    | _ =>
      rw [merge.eq_def] at h
      simp [Equal, canonical] at h
  · rintro ⟨b', y, t, m', rfl, rfl, hx, h⟩
    rw [merge_calculation, if_pos hx, h]
    rfl

theorem merge_object_eq_ok_iff (hl : Proper (.object fs os)) {b m : Shape} :
    merge (.object fs os) b = .ok m ↔
      ∃ gs ps ms, b = .object gs ps ∧ m = .object ms (mergeOptional fs os gs ps ms) ∧
        mergeFields fs gs = .ok ms := by
  constructor
  · intro h
    cases b with
    | object gs ps =>
      rw [merge_object hl, map_eq_ok_iff] at h
      obtain ⟨ms, h, rfl⟩ := h
      exact ⟨gs, ps, ms, rfl, rfl, h⟩
    | _ =>
      rw [merge.eq_def] at h
      simp [Equal, canonical] at h
  · rintro ⟨gs, ps, ms, rfl, rfl, h⟩
    rw [merge_object hl, h]
    rfl

/-! ## Gathering under a name -/

/-- Merges shapes one after the other into what is there already, if anything is. -/
def gather : Option Shape → List Shape → Except Conflict (Option Shape)
  | o, [] => .ok o
  | none, s :: ss => gather (some s) ss
  | some a, s :: ss => do gather (some (← merge a s)) ss

@[simp] theorem gather_nil (o : Option Shape) : gather o [] = .ok o := by
  cases o <;> rfl

@[simp] theorem gather_none_cons (s : Shape) (ss : List Shape) :
    gather none (s :: ss) = gather (some s) ss := rfl

theorem gather_some_cons_eq_ok_iff {a s : Shape} {ss : List Shape} {r : Option Shape} :
    gather (some a) (s :: ss) = .ok r ↔ ∃ m, merge a s = .ok m ∧ gather (some m) ss = .ok r := by
  rw [gather, bind_eq_ok_iff]

@[simp] theorem gather_toList (o : Option Shape) : gather none o.toList = .ok o := by
  cases o <;> rfl

/-! ## Merging fields -/

theorem mergeFields_cons_eq_ok_iff {k : String} {s : Shape} :
    mergeFields fs ((k, s) :: cs) = .ok ms ↔
      ∃ m, gather (Entries.get? fs k) [s] = .ok (some m) ∧
        mergeFields (Entries.put fs k m) cs = .ok ms := by
  cases hk : Entries.get? fs k with
  | none => simp [mergeFields_cons_of_none hk]
  | some a =>
    simp only [mergeFields_cons_of_some hk, bind_eq_ok_iff, gather_some_cons_eq_ok_iff, gather_nil,
      Except.ok.injEq, Option.some.injEq, exists_eq_right]

/-- Fields behind one another are merged one list after the other. -/
theorem mergeFields_append (fs cs ds : List (String × Shape)) :
    mergeFields fs (cs ++ ds) = mergeFields fs cs >>= fun ms => mergeFields ms ds := by
  induction cs generalizing fs with
  | nil =>
    rw [List.nil_append, mergeFields]
    rfl
  | cons c cs ih =>
    obtain ⟨k, s⟩ := c
    rw [List.cons_append]
    cases hk : Entries.get? fs k with
    | none => rw [mergeFields_cons_of_none hk, mergeFields_cons_of_none hk, ih]
    | some a =>
      rw [mergeFields_cons_of_some hk, mergeFields_cons_of_some hk, bind_assoc]
      exact bind_congr fun m => ih _

theorem mergeFields_append_eq_ok_iff {ds : List (String × Shape)} :
    mergeFields fs (cs ++ ds) = .ok ms ↔
      ∃ bs, mergeFields fs cs = .ok bs ∧ mergeFields bs ds = .ok ms := by
  rw [mergeFields_append, bind_eq_ok_iff]

/-- The names of merged fields stand in the order in which they first occur. -/
theorem keys_of_mergeFields (hd : Entries.Distinct fs) (h : mergeFields fs cs = .ok ms) :
    Entries.keys ms = (Entries.keys fs ++ Entries.keys cs).eraseDups := by
  induction cs generalizing fs with
  | nil =>
    rw [mergeFields] at h
    rw [← Except.ok.inj h, Entries.keys_nil, List.append_nil, Entries.eraseDups_of_nodup hd]
  | cons c cs ih =>
    obtain ⟨m, -, h⟩ := mergeFields_cons_eq_ok_iff.1 h
    rw [ih (hd.put c.1 m) h, Entries.eraseDups_keys_put, Entries.keys_cons]

theorem distinct_of_mergeFields (hd : Entries.Distinct fs) (h : mergeFields fs cs = .ok ms) :
    Entries.Distinct ms := by
  rw [Entries.Distinct, keys_of_mergeFields hd h]
  exact Entries.nodup_eraseDups _

theorem mem_keys_of_mergeFields (h : mergeFields fs gs = .ok ms) (k : String) :
    k ∈ Entries.keys ms ↔ k ∈ Entries.keys fs ∨ k ∈ Entries.keys gs := by
  induction gs generalizing fs with
  | nil =>
    rw [mergeFields] at h
    rw [← Except.ok.inj h]
    simp
  | cons g gs ih =>
    obtain ⟨l, t⟩ := g
    obtain ⟨n, -, h⟩ := mergeFields_cons_eq_ok_iff.1 h
    rw [ih h, Entries.mem_keys_put, Entries.keys_cons, List.mem_cons]
    tauto

/-- Under each name stands what is gathered under it. -/
theorem gather_of_mergeFields (h : mergeFields fs cs = .ok ms) (k : String) :
    gather (Entries.get? fs k) (Entries.valuesOf cs k) = .ok (Entries.get? ms k) := by
  induction cs generalizing fs with
  | nil =>
    rw [mergeFields] at h
    rw [Entries.valuesOf_nil, gather_nil, Except.ok.inj h]
  | cons c cs ih =>
    obtain ⟨l, s⟩ := c
    obtain ⟨m, hm, h⟩ := mergeFields_cons_eq_ok_iff.1 h
    have hrest := ih h
    rw [Entries.get?_put] at hrest
    rw [Entries.valuesOf_cons]
    split at hrest
    · next hl =>
      subst hl
      rw [if_pos rfl]
      cases ho : Entries.get? fs l with
      | none =>
        rw [ho] at hm
        have hsm : s = m := by simpa using hm
        rw [gather_none_cons, hsm, hrest]
      | some a =>
        rw [ho, gather_some_cons_eq_ok_iff] at hm
        obtain ⟨n, hn, hnm⟩ := hm
        have hnm : n = m := by simpa using hnm
        exact gather_some_cons_eq_ok_iff.2 ⟨m, hnm ▸ hn, hrest⟩
    · next hl => rw [if_neg hl, hrest]

/-- Fields can be merged when under each name the shapes can be gathered. -/
theorem mergeFields_total
    (h : ∀ k, ∃ o, gather (Entries.get? fs k) (Entries.valuesOf cs k) = .ok o) :
    ∃ ms, mergeFields fs cs = .ok ms := by
  induction cs generalizing fs with
  | nil => exact ⟨fs, by rw [mergeFields]⟩
  | cons c cs ih =>
    obtain ⟨l, s⟩ := c
    obtain ⟨o, ho⟩ := h l
    rw [Entries.valuesOf_cons, if_pos rfl] at ho
    obtain ⟨m, hm, hrest⟩ : ∃ m, gather (Entries.get? fs l) [s] = .ok (some m) ∧
        gather (some m) (Entries.valuesOf cs l) = .ok o := by
      cases hl : Entries.get? fs l with
      | none => exact ⟨s, rfl, by rwa [hl] at ho⟩
      | some a =>
        rw [hl] at ho
        obtain ⟨m, hm, hr⟩ := gather_some_cons_eq_ok_iff.1 ho
        exact ⟨m, gather_some_cons_eq_ok_iff.2 ⟨m, hm, gather_nil _⟩, hr⟩
    have hput : ∀ k, ∃ o, gather (Entries.get? (Entries.put fs l m) k)
        (Entries.valuesOf cs k) = .ok o := by
      intro k
      rw [Entries.get?_put]
      split
      · next hl => exact ⟨o, hl ▸ hrest⟩
      · next hl =>
        have hk := h k
        rwa [Entries.valuesOf_cons, if_neg hl] at hk
    obtain ⟨ms, hms⟩ := ih hput
    exact ⟨ms, mergeFields_cons_eq_ok_iff.2 ⟨m, hm, hms⟩⟩

/-- Merging fields, name by name. -/
theorem mergeFields_eq_ok_iff (hd : Entries.Distinct fs) :
    mergeFields fs cs = .ok ms ↔
      Entries.keys ms = (Entries.keys fs ++ Entries.keys cs).eraseDups ∧
        Entries.Distinct ms ∧
        ∀ k, gather (Entries.get? fs k) (Entries.valuesOf cs k) = .ok (Entries.get? ms k) := by
  constructor
  · intro h
    exact ⟨keys_of_mergeFields hd h, distinct_of_mergeFields hd h, gather_of_mergeFields h⟩
  · rintro ⟨hk, hdm, hg⟩
    obtain ⟨ns, hns⟩ := mergeFields_total fun k => ⟨_, hg k⟩
    have : ns = ms := by
      refine Entries.ext (distinct_of_mergeFields hd hns) ?_ fun k => ?_
      · rw [keys_of_mergeFields hd hns, hk]
      · exact Except.ok.inj ((gather_of_mergeFields hns k).symm.trans (hg k))
    rw [hns, this]

/-- An object's own fields are what they merge to. -/
theorem mergeFields_nil_left (hd : Entries.Distinct fs) : mergeFields [] fs = .ok fs := by
  refine (mergeFields_eq_ok_iff Entries.distinct_nil).2 ⟨?_, hd, fun k => ?_⟩
  · rw [Entries.keys_nil, List.nil_append, Entries.eraseDups_of_nodup hd]
  · rw [Entries.get?_nil, Entries.valuesOf_of_distinct hd, gather_toList]

/-! ## What merging keeps -/

/-- A property of the fields under each name that is kept by merging in the shapes of some fields
holds of the merged fields; merging them cannot fail for another reason than merging two shapes. -/
theorem mergeFields_settles {P : String → Shape → Prop} {E : Conflict → Prop}
    (hf : ∀ f ∈ fs, P f.1 f.2) (hc : ∀ c ∈ cs, P c.1 c.2)
    (step : ∀ c ∈ cs, ∀ a, P c.1 a → Settles (P c.1) E (merge a c.2)) :
    Settles (fun ms => ∀ f ∈ ms, P f.1 f.2) E (mergeFields fs cs) := by
  induction cs generalizing fs with
  | nil =>
    rw [mergeFields]
    exact hf
  | cons c cs ih =>
    obtain ⟨k, s⟩ := c
    have hput : ∀ m, P k m → ∀ f ∈ Entries.put fs k m, P f.1 f.2 := by
      intro m hm f hfm
      rcases Entries.mem_put hfm with rfl | hfm
      · exact hm
      · exact hf f hfm
    have hrest := fun {m} (hm : P k m) => ih (hput m hm)
      (fun c hcs => hc c (List.mem_cons_of_mem _ hcs))
      (fun c hcs => step c (List.mem_cons_of_mem _ hcs))
    cases hget : Entries.get? fs k with
    | none =>
      rw [mergeFields_cons_of_none hget]
      exact hrest (hc (k, s) List.mem_cons_self)
    | some a =>
      rw [mergeFields_cons_of_some hget]
      have ha : P k a := hf (k, a) (Entries.mem_of_get? hget)
      exact (step (k, s) List.mem_cons_self a ha).bind fun m _ hm => hrest hm

theorem Proper.merge {a b m : Shape} (ha : Proper a) (hb : Proper b) (h : merge a b = .ok m) :
    Proper m := by
  induction b using inductParts generalizing a m with
  | step b ih =>
    cases a with
    | scalar type =>
      rw [(merge_scalar_eq_ok_iff.1 h).2]
      exact ha
    | literal values =>
      rw [(merge_literal_eq_ok_iff.1 h).2]
      exact ha
    | object fs os =>
      obtain ⟨gs, ps, ms, rfl, rfl, hms⟩ := (merge_object_eq_ok_iff ha).1 h
      obtain ⟨hd, -, hf⟩ := proper_object_iff.1 ha
      obtain ⟨-, -, hg⟩ := proper_object_iff.1 hb
      have step : ∀ g ∈ gs, ∀ a, Proper a →
          Settles Proper (fun _ => True) (Shape.merge a g.2) := fun g hgs a ha =>
        .of_forall_ok fun m hm => ih g.2 (List.mem_map_of_mem hgs) ha (hg g hgs) hm
      have hp := (mergeFields_settles (P := fun _ => Proper) hf hg step).of_ok hms
      exact proper_object_iff.2
        ⟨distinct_of_mergeFields hd hms, fun k hk => (mem_mergeOptional.1 hk).1, hp⟩
    | array a =>
      obtain ⟨b, m, rfl, rfl, hm⟩ := wrapper_array.merge_eq_ok_iff.1 h
      exact ih b List.mem_cons_self (a := a) (m := m) ha hb hm
    | nullable a =>
      obtain ⟨b, m, rfl, rfl, hm⟩ := wrapper_nullable.merge_eq_ok_iff.1 h
      exact ih b List.mem_cons_self (a := a) (m := m) ha hb hm
    | calculation a x s =>
      obtain ⟨b, y, t, m, rfl, rfl, -, hm⟩ := merge_calculation_eq_ok_iff.1 h
      exact ih b List.mem_cons_self (a := a) (m := m) ha hb hm

/-! ## Associativity -/

/-- Merging into a shape may be bracketed as one likes. -/
def AssocAt (a : Shape) : Prop :=
  ∀ b c m, Proper b → Proper c →
    ((∃ ab, merge a b = .ok ab ∧ merge ab c = .ok m) ↔ ∃ bc, merge b c = .ok bc ∧ merge a bc = .ok m)

theorem gather_assoc {o : Option Shape} {ss : List Shape} (ho : ∀ a ∈ o, AssocAt a)
    (hs : ∀ s ∈ ss, Proper s) {r : Option Shape} :
    gather o ss = .ok r ↔ ∃ q, gather none ss = .ok q ∧ gather o q.toList = .ok r := by
  cases o with
  | none => simp
  | some a =>
    have ha : AssocAt a := ho a rfl
    cases ss with
    | nil => simp
    | cons s ss =>
      rw [gather_none_cons]
      -- the first two shapes are merged into one that is proper again, and the rest is shorter
      induction ss generalizing s r with
      | nil => simp
      | cons t ss ih =>
        have hps : Proper s := hs s (by simp)
        have hpt : Proper t := hs t (by simp)
        constructor
        · intro h
          obtain ⟨m, hm, h⟩ := gather_some_cons_eq_ok_iff.1 h
          obtain ⟨n, hn, h⟩ := gather_some_cons_eq_ok_iff.1 h
          obtain ⟨u, hu, hau⟩ := (ha s t n hps hpt).1 ⟨m, hm, hn⟩
          have hu' : ∀ s ∈ u :: ss, Proper s := by
            intro s hsm
            rcases List.mem_cons.1 hsm with rfl | hsm
            · exact hps.merge hpt hu
            · exact hs s (by simp [hsm])
          obtain ⟨q, hq, hr⟩ := (ih u hu').1 (gather_some_cons_eq_ok_iff.2 ⟨n, hau, h⟩)
          exact ⟨q, gather_some_cons_eq_ok_iff.2 ⟨u, hu, hq⟩, hr⟩
        · rintro ⟨q, hq, hr⟩
          obtain ⟨u, hu, hq⟩ := gather_some_cons_eq_ok_iff.1 hq
          have hu' : ∀ s ∈ u :: ss, Proper s := by
            intro s hsm
            rcases List.mem_cons.1 hsm with rfl | hsm
            · exact hps.merge hpt hu
            · exact hs s (by simp [hsm])
          obtain ⟨n, hn, h⟩ := gather_some_cons_eq_ok_iff.1 ((ih u hu').2 ⟨q, hq, hr⟩)
          obtain ⟨m, hm, hmn⟩ := (ha s t n hps hpt).2 ⟨u, hu, hn⟩
          exact gather_some_cons_eq_ok_iff.2 ⟨m, hm, gather_some_cons_eq_ok_iff.2 ⟨n, hmn, h⟩⟩

theorem mergeFields_assocAt (hd : Entries.Distinct fs) (hf : ∀ f ∈ fs, AssocAt f.2)
    (hc : ∀ c ∈ cs, Proper c.2) :
    mergeFields fs cs = .ok ms ↔
      ∃ bs, mergeFields [] cs = .ok bs ∧ mergeFields fs bs = .ok ms := by
  have hassoc : ∀ k r, gather (Entries.get? fs k) (Entries.valuesOf cs k) = .ok r ↔
      ∃ q, gather none (Entries.valuesOf cs k) = .ok q ∧
        gather (Entries.get? fs k) q.toList = .ok r := fun k r =>
    gather_assoc (fun a ha => hf (k, a) (Entries.mem_of_get? ha))
      (fun s hs => hc (k, s) (Entries.mem_valuesOf.1 hs))
  constructor
  · intro h
    obtain ⟨hk, hdm, hg⟩ := (mergeFields_eq_ok_iff hd).1 h
    obtain ⟨bs, hbs⟩ : ∃ bs, mergeFields [] cs = .ok bs := by
      refine mergeFields_total fun k => ?_
      obtain ⟨q, hq, -⟩ := (hassoc k _).1 (hg k)
      exact ⟨q, hq⟩
    have hdb := distinct_of_mergeFields Entries.distinct_nil hbs
    refine ⟨bs, hbs, (mergeFields_eq_ok_iff hd).2 ⟨?_, hdm, fun k => ?_⟩⟩
    · rw [hk, keys_of_mergeFields Entries.distinct_nil hbs, Entries.keys_nil, List.nil_append,
        Entries.eraseDups_append_eraseDups]
    · obtain ⟨q, hq, hr⟩ := (hassoc k _).1 (hg k)
      have hqb := gather_of_mergeFields hbs k
      rw [Entries.get?_nil, hq] at hqb
      rw [Entries.valuesOf_of_distinct hdb, ← Except.ok.inj hqb]
      exact hr
  · rintro ⟨bs, hbs, h⟩
    have hdb := distinct_of_mergeFields Entries.distinct_nil hbs
    obtain ⟨hk, hdm, hg⟩ := (mergeFields_eq_ok_iff hd).1 h
    refine (mergeFields_eq_ok_iff hd).2 ⟨?_, hdm, fun k => ?_⟩
    · rw [hk, keys_of_mergeFields Entries.distinct_nil hbs, Entries.keys_nil, List.nil_append,
        Entries.eraseDups_append_eraseDups]
    · refine (hassoc k _).2 ⟨Entries.get? bs k, ?_, ?_⟩
      · exact gather_of_mergeFields hbs k
      · rw [← Entries.valuesOf_of_distinct hdb]
        exact hg k

/-- What wraps one shape and merges by it keeps associativity. -/
theorem Wrapper.assocAt {w : Shape → Shape} (hw : Wrapper w) {a : Shape} (ha : AssocAt a) :
    AssocAt (w a) := by
  intro b c m hb hc
  constructor
  · rintro ⟨_, hab, hm⟩
    obtain ⟨b, ab, rfl, rfl, hab'⟩ := hw.merge_eq_ok_iff.1 hab
    obtain ⟨c, m, rfl, rfl, hm'⟩ := hw.merge_eq_ok_iff.1 hm
    obtain ⟨bc, hbc, h⟩ := (ha b c m (hw.proper b hb) (hw.proper c hc)).1 ⟨ab, hab', hm'⟩
    exact ⟨w bc, hw.merge_eq_ok_iff.2 ⟨c, bc, rfl, rfl, hbc⟩,
      hw.merge_eq_ok_iff.2 ⟨bc, m, rfl, rfl, h⟩⟩
  · rintro ⟨_, hbc, hm⟩
    obtain ⟨bc, m, rfl, rfl, hm'⟩ := hw.merge_eq_ok_iff.1 hm
    obtain ⟨b, rfl⟩ := hw.kind b bc (ctorIdx_of_merge hbc).2.symm
    obtain ⟨c, bc', rfl, he, hbc'⟩ := hw.merge_eq_ok_iff.1 hbc
    rw [← hw.inj _ _ he] at hbc'
    obtain ⟨ab, hab, h⟩ := (ha b c m (hw.proper b hb) (hw.proper c hc)).2 ⟨bc, hbc', hm'⟩
    exact ⟨w ab, hw.merge_eq_ok_iff.2 ⟨b, ab, rfl, rfl, hab⟩,
      hw.merge_eq_ok_iff.2 ⟨c, m, rfl, rfl, h⟩⟩

/-- What merges with nothing but itself keeps associativity. -/
theorem assocAt_of_leaf {a : Shape}
    (hmerge : ∀ b m, Shape.merge a b = .ok m ↔ b = a ∧ m = a)
    (hkind : ∀ b c, Shape.merge b c = .ok a → b = a ∧ c = a) : AssocAt a := by
  intro b c m _ _
  constructor
  · rintro ⟨_, hab, hm⟩
    obtain ⟨rfl, rfl⟩ := (hmerge _ _).1 hab
    obtain ⟨rfl, rfl⟩ := (hmerge _ _).1 hm
    exact ⟨_, hm, hm⟩
  · rintro ⟨_, hbc, hm⟩
    obtain ⟨rfl, rfl⟩ := (hmerge _ _).1 hm
    obtain ⟨rfl, rfl⟩ := hkind b c hbc
    exact ⟨_, hbc, hbc⟩

theorem assocAt_calculation {a : Shape} {x : Value} {s : Option Shape} (ha : AssocAt a) :
    AssocAt (.calculation a x s) := by
  intro b c m hb hc
  constructor
  · rintro ⟨_, hab, hm⟩
    obtain ⟨b, y, t, ab, rfl, rfl, hxy, hab'⟩ := merge_calculation_eq_ok_iff.1 hab
    obtain ⟨c, z, u, m, rfl, rfl, hxz, hm'⟩ := merge_calculation_eq_ok_iff.1 hm
    obtain ⟨bc, hbc, h⟩ := (ha b c m hb hc).1 ⟨ab, hab', hm'⟩
    exact ⟨.calculation bc y t,
      merge_calculation_eq_ok_iff.2 ⟨c, z, u, bc, rfl, rfl, hxy.symm.trans hxz, hbc⟩,
      merge_calculation_eq_ok_iff.2 ⟨bc, y, t, m, rfl, rfl, hxy, h⟩⟩
  · rintro ⟨_, hbc, hm⟩
    obtain ⟨bc, y, t, m, rfl, rfl, hxy, hm'⟩ := merge_calculation_eq_ok_iff.1 hm
    cases b with
    | calculation b y' t' =>
      obtain ⟨c, z, u, _, rfl, he, hyz, hbc'⟩ := merge_calculation_eq_ok_iff.1 hbc
      cases he
      obtain ⟨ab, hab, h⟩ := (ha b c m hb hc).2 ⟨bc, hbc', hm'⟩
      exact ⟨.calculation ab x s,
        merge_calculation_eq_ok_iff.2 ⟨b, y, t, ab, rfl, rfl, hxy, hab⟩,
        merge_calculation_eq_ok_iff.2 ⟨c, z, u, m, rfl, rfl, hxy.trans hyz, h⟩⟩
    | _ => exact absurd (ctorIdx_of_merge hbc).2 (by simp [Shape.ctorIdx])

/-- What neither of three objects requires may be absent from their merge, however it is made. -/
theorem mergeOptional_assoc {hs ns bs : List (String × Shape)} {qs : NameSet}
    (hms : Entries.keys ms = (Entries.keys fs ++ Entries.keys gs).eraseDups)
    (hbs : Entries.keys bs = (Entries.keys gs ++ Entries.keys hs).eraseDups) :
    mergeOptional ms (mergeOptional fs os gs ps ms) hs qs ns =
      mergeOptional fs os bs (mergeOptional gs ps hs qs bs) ns := by
  have hleft : ∀ k, requires ms (mergeOptional fs os gs ps ms) k = true ↔
      requires fs os k = true ∨ requires gs ps k = true :=
    requires_mergeOptional_iff fun k => by simp only [hms, List.mem_eraseDups, List.mem_append]
  have hright : ∀ k, requires bs (mergeOptional gs ps hs qs bs) k = true ↔
      requires gs ps k = true ∨ requires hs qs k = true :=
    requires_mergeOptional_iff fun k => by simp only [hbs, List.mem_eraseDups, List.mem_append]
  refine NameSet.ext fun k => ?_
  simp only [mem_mergeOptional, ← Bool.not_eq_true, hleft, hright]
  tauto

theorem assocAt_object (ho : Proper (.object fs os)) (hf : ∀ f ∈ fs, AssocAt f.2) :
    AssocAt (.object fs os) := by
  intro b c m hb hc
  obtain ⟨hdf, -, -⟩ := proper_object_iff.1 ho
  have hfields : ∀ {gs hs ns : List (String × Shape)}, Entries.Distinct gs →
      (∀ g ∈ gs, Proper g.2) → (∀ h ∈ hs, Proper h.2) →
      (mergeFields fs (gs ++ hs) = .ok ns ↔
        ∃ bs, mergeFields gs hs = .ok bs ∧ mergeFields fs bs = .ok ns) := by
    intro gs hs ns hdg hpg hph
    have hp : ∀ c ∈ gs ++ hs, Proper c.2 := fun c hcm =>
      (List.mem_append.1 hcm).elim (hpg c) (hph c)
    rw [mergeFields_assocAt hdf hf hp]
    simp only [mergeFields_append_eq_ok_iff, mergeFields_nil_left hdg, Except.ok.injEq,
      exists_eq_left']
  constructor
  · rintro ⟨ab, hab, hm⟩
    have hpab := ho.merge hb hab
    obtain ⟨gs, ps, ms, rfl, rfl, hms⟩ := (merge_object_eq_ok_iff ho).1 hab
    obtain ⟨hs, qs, ns, rfl, rfl, hns⟩ := (merge_object_eq_ok_iff hpab).1 hm
    obtain ⟨hdg, -, hpg⟩ := proper_object_iff.1 hb
    obtain ⟨-, -, hph⟩ := proper_object_iff.1 hc
    obtain ⟨bs, hbs, hns'⟩ := (hfields hdg hpg hph).1
      (mergeFields_append_eq_ok_iff.2 ⟨ms, hms, hns⟩)
    refine ⟨_, (merge_object_eq_ok_iff hb).2 ⟨hs, qs, bs, rfl, rfl, hbs⟩,
      (merge_object_eq_ok_iff ho).2 ⟨bs, _, ns, rfl, ?_, hns'⟩⟩
    rw [mergeOptional_assoc (keys_of_mergeFields hdf hms) (keys_of_mergeFields hdg hbs)]
  · rintro ⟨bc, hbc, hm⟩
    obtain ⟨bs, rs, ns, rfl, rfl, hns⟩ := (merge_object_eq_ok_iff ho).1 hm
    cases b with
    | object gs ps =>
      obtain ⟨hs, qs, bs', rfl, he, hbs⟩ := (merge_object_eq_ok_iff hb).1 hbc
      cases he
      obtain ⟨hdg, -, hpg⟩ := proper_object_iff.1 hb
      obtain ⟨-, -, hph⟩ := proper_object_iff.1 hc
      obtain ⟨ms, hms, hns'⟩ := mergeFields_append_eq_ok_iff.1
        ((hfields hdg hpg hph).2 ⟨bs, hbs, hns⟩)
      have hab := (merge_object_eq_ok_iff ho).2 ⟨gs, ps, ms, rfl, rfl, hms⟩
      refine ⟨_, hab, (merge_object_eq_ok_iff (ho.merge hb hab)).2 ⟨hs, qs, ns, rfl, ?_, hns'⟩⟩
      rw [mergeOptional_assoc (keys_of_mergeFields hdf hms) (keys_of_mergeFields hdg hbs)]
    | _ => exact absurd (ctorIdx_of_merge hbc).2 (by simp [Shape.ctorIdx])

/-- Merging may be bracketed as one likes: either way it gives the same shape or fails. -/
theorem merge_assoc {a : Shape} (ha : Proper a) : AssocAt a := by
  induction a with
  | scalar type =>
    refine assocAt_of_leaf (fun b m => merge_scalar_eq_ok_iff) fun b c h => ?_
    cases b with
    | scalar type' =>
      obtain ⟨rfl, he⟩ := merge_scalar_eq_ok_iff.1 h
      exact ⟨he.symm, he.symm⟩
    | _ => exact absurd (ctorIdx_of_merge h).2 (by simp [Shape.ctorIdx])
  | literal values =>
    refine assocAt_of_leaf (fun b m => merge_literal_eq_ok_iff) fun b c h => ?_
    cases b with
    | literal values' =>
      obtain ⟨rfl, he⟩ := merge_literal_eq_ok_iff.1 h
      exact ⟨he.symm, he.symm⟩
    | _ => exact absurd (ctorIdx_of_merge h).2 (by simp [Shape.ctorIdx])
  | object fs os ih =>
    obtain ⟨-, -, hf⟩ := proper_object_iff.1 ha
    exact assocAt_object ha fun f hfs => ih f hfs (hf f hfs)
  | array a ih => exact wrapper_array.assocAt (ih ha)
  | nullable a ih => exact wrapper_nullable.assocAt (ih ha)
  | calculation a x s ih => exact assocAt_calculation (ih ha)

/-- Contributions can be merged among themselves before they are merged into fields. -/
theorem mergeFields_assoc (hd : Entries.Distinct fs) (hf : ∀ f ∈ fs, Proper f.2)
    (hc : ∀ c ∈ cs, Proper c.2) :
    mergeFields fs cs = .ok ms ↔
      ∃ bs, mergeFields [] cs = .ok bs ∧ mergeFields fs bs = .ok ms :=
  mergeFields_assocAt hd (fun f hfs => merge_assoc (hf f hfs)) hc

end Shapewise.Shape
