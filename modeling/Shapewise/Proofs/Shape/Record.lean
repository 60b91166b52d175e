import Shapewise.Proofs.Shape.Merge

/-!
# Merging records

Records are objects none of whose keys may be absent; they are what a projection merges. Merging
them one after the other merges all their fields (`mergeAll_records`), whether or not groups of
fields were merged before (`mergeFields_flatten`). The shape of a field wraps a record; such shapes
merge by the records inside (`gather_wrap`), and those of a calculation also need equal arguments
(`gather_calculation`).
-/

namespace Shapewise.Shape

open Outcome

variable {fs gs cs ms : List (String × Shape)}

/-! ## Groups of fields -/

theorem proper_of_mergeFields (hf : ∀ f ∈ fs, Proper f.2) (hc : ∀ c ∈ cs, Proper c.2)
    (h : mergeFields fs cs = .ok ms) : ∀ m ∈ ms, Proper m.2 := by
  refine (mergeFields_settles (P := fun _ => Proper) (E := fun _ => True) hf hc ?_).of_ok h
  intro c hcs a ha
  exact .of_forall_ok fun m hm => ha.merge (hc c hcs) hm

/-- Groups of fields may each be merged before they are merged into other fields. -/
theorem mergeFields_flatten (hd : Entries.Distinct fs) (hf : ∀ f ∈ fs, Proper f.2)
    {css : List (List (String × Shape))} (hc : ∀ cs ∈ css, ∀ c ∈ cs, Proper c.2) :
    mergeFields fs css.flatten = .ok ms ↔
      ∃ bss, List.Forall₂ (fun cs bs => mergeFields [] cs = .ok bs) css bss ∧
        mergeFields fs bss.flatten = .ok ms := by
  induction css generalizing fs with
  | nil =>
    constructor
    · intro h
      exact ⟨[], .nil, h⟩
    · rintro ⟨_, ⟨⟩, h⟩
      exact h
  | cons cs css ih =>
    obtain ⟨hcs, hcss⟩ := List.forall_mem_cons.1 hc
    have hnext : ∀ {ns : List (String × Shape)}, mergeFields fs cs = .ok ns →
        Entries.Distinct ns ∧ ∀ n ∈ ns, Proper n.2 := fun h =>
      ⟨distinct_of_mergeFields hd h, proper_of_mergeFields hf hcs h⟩
    rw [List.flatten_cons, mergeFields_append, bind_eq_ok_iff]
    constructor
    · rintro ⟨ns, hns, h⟩
      obtain ⟨hdn, hpn⟩ := hnext hns
      obtain ⟨bss, hbss, h⟩ := (ih hdn hpn hcss).1 h
      obtain ⟨bs, hbs, hns⟩ := (mergeFields_assoc hd hf hcs).1 hns
      refine ⟨bs :: bss, .cons hbs hbss, ?_⟩
      rw [List.flatten_cons, mergeFields_append, hns]
      exact h
    · rintro ⟨_, _ | ⟨hbs, hbss⟩, h⟩
      rw [List.flatten_cons, mergeFields_append, bind_eq_ok_iff] at h
      obtain ⟨ns, hns, h⟩ := h
      have hns := (mergeFields_assoc hd hf hcs).2 ⟨_, hbs, hns⟩
      obtain ⟨hdn, hpn⟩ := hnext hns
      exact ⟨ns, hns, (ih hdn hpn hcss).2 ⟨_, hbss, h⟩⟩

/-- Where each name has one shape, merging does no more than put the fields. -/
theorem mergeFields_of_consistent (h : ∀ k s t, (k, s) ∈ fs ++ cs → (k, t) ∈ fs ++ cs → s = t) :
    mergeFields fs cs = .ok (cs.foldl (fun acc c => Entries.put acc c.1 c.2) fs) := by
  induction cs generalizing fs with
  | nil => rw [mergeFields, List.foldl_nil]
  | cons c cs ih =>
    obtain ⟨k, s⟩ := c
    have hput : ∀ l t, (l, t) ∈ Entries.put fs k s ++ cs → (l, t) ∈ fs ++ (k, s) :: cs := by
      intro l t hm
      rcases List.mem_append.1 hm with hm | hm
      · rcases Entries.mem_put hm with he | hm
        · exact List.mem_append_right _ (he ▸ List.mem_cons_self)
        · exact List.mem_append_left _ hm
      · exact List.mem_append_right _ (List.mem_cons_of_mem _ hm)
    have hrest : mergeFields (Entries.put fs k s) cs = .ok _ :=
      ih fun l t u ht hu => h l t u (hput l t ht) (hput l u hu)
    rw [List.foldl_cons, ← hrest]
    cases hk : Entries.get? fs k with
    | none => exact mergeFields_cons_of_none hk
    | some a =>
      have ha : a = s := h k a s (List.mem_append_left _ (Entries.mem_of_get? hk))
        (List.mem_append_right _ List.mem_cons_self)
      rw [mergeFields_cons_of_some hk, ha, merge_self]
      rfl

/-! ## Records -/

/-- What is merged of objects without optional keys has none. -/
theorem mergeOptional_empty (h : mergeFields fs gs = .ok ms) :
    mergeOptional fs .empty gs .empty ms = .empty := by
  refine NameSet.ext fun k => iff_of_false ?_ (NameSet.not_mem_empty k)
  intro hk
  obtain ⟨hkm, hkf, hkg⟩ := mem_mergeOptional.1 hk
  rw [mem_keys_of_mergeFields h] at hkm
  rw [← Bool.not_eq_true, requires_eq_true_iff] at hkf hkg
  rcases hkm with hkm | hkm
  · exact hkf ⟨hkm, NameSet.not_mem_empty k⟩
  · exact hkg ⟨hkm, NameSet.not_mem_empty k⟩

theorem merge_record (hl : Proper (.record fs)) :
    merge (.record fs) (.record gs) = record <$> mergeFields fs gs := by
  rw [record, record, merge_object hl]
  cases hms : mergeFields fs gs with
  | error e => rfl
  | ok ms =>
    show Except.ok (Shape.object ms _) = Except.ok (Shape.record ms)
    rw [mergeOptional_empty hms]
    rfl

/-- Records are merged by merging the fields of all of them. -/
theorem mergeAll_records {css : List (List (String × Shape))}
    (hc : ∀ cs ∈ css, ∀ c ∈ cs, Proper c.2) :
    mergeAll (css.map record) = record <$> mergeFields [] css.flatten := by
  have hfold : ∀ (css : List (List (String × Shape))), (∀ cs ∈ css, ∀ c ∈ cs, Proper c.2) →
      ∀ fs, Proper (.record fs) →
        (css.map record).foldlM merge (record fs) = record <$> mergeFields fs css.flatten := by
    intro css hc
    induction css with
    | nil =>
      intro fs _
      rw [List.flatten_nil, mergeFields]
      rfl
    | cons cs css ih =>
      obtain ⟨hcs, hcss⟩ := List.forall_mem_cons.1 hc
      intro fs hp
      obtain ⟨hd, hf⟩ := proper_record_iff.1 hp
      rw [List.map_cons, List.foldlM_cons, merge_record hp, List.flatten_cons, mergeFields_append]
      cases hms : mergeFields fs cs with
      | error e => rfl
      | ok ms =>
        exact ih hcss ms (proper_record_iff.2
          ⟨distinct_of_mergeFields hd hms, proper_of_mergeFields hf hcs hms⟩)
  exact hfold css hc [] proper_emptyObject

/-! ## Wrapped records -/

theorem merge_wrap_record (hl : Proper (.record fs)) (isArray isNullable : Bool) :
    merge ((record fs).wrap isArray isNullable) ((record gs).wrap isArray isNullable) =
      (fun ms => (record ms).wrap isArray isNullable) <$> mergeFields fs gs := by
  have hm : merge (.record fs) (.record gs) = record <$> mergeFields fs gs := merge_record hl
  cases isArray <;> cases isNullable
  · exact hm
  · show merge (.nullable (.record fs)) (.nullable (.record gs)) = _
    rw [merge_nullable, hm, Functor.map_map]
    rfl
  · show merge (.array (.record fs)) (.array (.record gs)) = _
    rw [merge_array, hm, Functor.map_map]
    rfl
  · show merge (.nullable (.array (.record fs))) (.nullable (.array (.record gs))) = _
    rw [merge_nullable, merge_array, hm, Functor.map_map, Functor.map_map]
    rfl

/-- Wrapped records are merged by merging the fields of all of them. -/
theorem gather_wrap {isArray isNullable : Bool} {fss : List (List (String × Shape))}
    (hfs : Proper (.record fs)) (hf : ∀ gs ∈ fss, ∀ f ∈ gs, Proper f.2) {m : Shape} :
    gather (some ((record fs).wrap isArray isNullable))
        (fss.map fun gs => (record gs).wrap isArray isNullable) = .ok (some m) ↔
      ∃ ms, mergeFields fs fss.flatten = .ok ms ∧ m = (record ms).wrap isArray isNullable := by
  induction fss generalizing fs with
  | nil => simp [mergeFields, eq_comm]
  | cons gs fss ih =>
    obtain ⟨hgs, hfss⟩ := List.forall_mem_cons.1 hf
    obtain ⟨hd, hp⟩ := proper_record_iff.1 hfs
    rw [List.map_cons, gather_some_cons_eq_ok_iff, merge_wrap_record hfs, List.flatten_cons,
      mergeFields_append]
    cases hms : mergeFields fs gs with
    | error e => simp [bind, Except.bind, Functor.map, Except.map]
    | ok ms =>
      have hpm : Proper (.record ms) := proper_record_iff.2
        ⟨distinct_of_mergeFields hd hms, proper_of_mergeFields hp hgs hms⟩
      simpa [bind, Except.bind, Functor.map, Except.map] using ih hpm hfss

/-- Calculations are merged by their results, where all arguments are equal to the first ones. -/
theorem gather_calculation {α : Type} {arguments : α → Value} {x : Value} {t : Option Shape}
    {as : List α} {results : List Shape} (hlen : as.length = results.length) {result m : Shape} :
    gather (some (.calculation result x t))
        (List.zipWith (fun a s => .calculation s (arguments a) t) as results) = .ok (some m) ↔
      (∀ a ∈ as, x.Equal (arguments a)) ∧
        ∃ r, gather (some result) results = .ok (some r) ∧ m = .calculation r x t := by
  induction as generalizing results result with
  | nil =>
    obtain rfl : results = [] := List.length_eq_zero_iff.1 hlen.symm
    simp [eq_comm]
  | cons a as ih =>
    cases results with
    | nil => simp at hlen
    | cons s results =>
      have hlen' : as.length = results.length := Nat.succ.inj hlen
      rw [List.zipWith_cons_cons, gather_some_cons_eq_ok_iff, merge_calculation, List.forall_mem_cons]
      by_cases hx : x.Equal (arguments a)
      · rw [if_pos hx]
        simp only [map_eq_ok_iff, gather_some_cons_eq_ok_iff]
        constructor
        · rintro ⟨_, ⟨r, hr, rfl⟩, h⟩
          obtain ⟨hall, r', hr', rfl⟩ := (ih hlen').1 h
          exact ⟨⟨hx, hall⟩, r', ⟨r, hr, hr'⟩, rfl⟩
        · rintro ⟨⟨-, hall⟩, r', ⟨r, hr, hr'⟩, rfl⟩
          exact ⟨_, ⟨r, hr, rfl⟩, (ih hlen').2 ⟨hall, r', hr', rfl⟩⟩
      · rw [if_neg hx]
        exact iff_of_false (by simp) fun h => hx h.1.1

/-- Calculations are gathered by their results, where all arguments agree; those of the first
calculation stay. -/
theorem gather_calculations {α : Type} {arguments : α → Value} {t : Option Shape} {as : List α}
    {results : List Shape} (hlen : as.length = results.length) {m : Shape} :
    gather none (List.zipWith (fun a s => .calculation s (arguments a) t) as results) =
        .ok (some m) ↔
      (∀ a ∈ as, ∀ b ∈ as, (arguments a).Equal (arguments b)) ∧
        ∃ a, as.head? = some a ∧
          ∃ r, gather none results = .ok (some r) ∧ m = .calculation r (arguments a) t := by
  cases as with
  | nil =>
    obtain rfl : results = [] := List.length_eq_zero_iff.1 hlen.symm
    simp
  | cons a as =>
    cases results with
    | nil => simp at hlen
    | cons s results =>
      rw [List.zipWith_cons_cons, gather_none_cons, gather_calculation (Nat.succ.inj hlen)]
      constructor
      · rintro ⟨hall, hr⟩
        have hfirst : ∀ b ∈ a :: as, (arguments a).Equal (arguments b) :=
          List.forall_mem_cons.2 ⟨Value.Equal.refl _, hall⟩
        exact ⟨fun b hb c hc => (hfirst b hb).symm.trans (hfirst c hc), a, rfl, hr⟩
      · rintro ⟨hagree, _, ⟨⟩, hr⟩
        exact ⟨fun b hb => hagree a List.mem_cons_self b (List.mem_cons_of_mem _ hb), hr⟩

end Shapewise.Shape
