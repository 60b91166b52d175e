import Shapewise.Proofs.Shape.Merge

/-!
# Merging from the other side

The left side of a merge is copied and extended by the right one, and what a calculation says beside
its result is the left one's. Still the sides can be swapped (`merge_comm`): a merge fails from one
side when it fails from the other, and where it does not, both give equal shapes, as long as
calculations in the same place have equal shapes of their arguments. That these are kept from the left
is the only thing in which the sides differ, since merging does not compare them.
-/

namespace Shapewise.Shape

open Outcome

/-! ## Shapes without repeated keys -/

mutual
/-- No object names a key twice. -/
def Keyed : Shape → Prop
  | .scalar _ => True
  | .literal _ => True
  | .object fields _ => Entries.Distinct fields ∧ KeyedFields fields
  | .array element => Keyed element
  | .nullable inner => Keyed inner
  | .calculation result _ _ => Keyed result
/-- No object in these fields names a key twice. -/
def KeyedFields : List (String × Shape) → Prop
  | [] => True
  | (_, s) :: fs => Keyed s ∧ KeyedFields fs
end

variable {a b c d m n : Shape} {fs gs ms ns : List (String × Shape)} {os ps : NameSet}

theorem keyedFields_iff : KeyedFields fs ↔ ∀ f ∈ fs, Keyed f.2 := by
  induction fs with
  | nil => simp [KeyedFields]
  | cons f fs ih =>
    obtain ⟨k, s⟩ := f
    simp [KeyedFields, ih]

theorem keyed_object_iff :
    Keyed (.object fs os) ↔ Entries.Distinct fs ∧ ∀ f ∈ fs, Keyed f.2 := by
  rw [Keyed, keyedFields_iff]

/-! ## Places -/

/-- Two parts of two shapes stand in the same place: under the same keys of objects, and in what
wraps a shape in both of them. -/
inductive SamePlace : Shape → Shape → Shape → Shape → Prop
  | here {a b : Shape} : SamePlace a b a b
  | field {fs gs : List (String × Shape)} {os ps : NameSet} {k : String} {s t c d : Shape} :
      (k, s) ∈ fs → (k, t) ∈ gs → SamePlace s t c d →
      SamePlace (.object fs os) (.object gs ps) c d
  | element {a b c d : Shape} : SamePlace a b c d → SamePlace (.array a) (.array b) c d
  | inner {a b c d : Shape} : SamePlace a b c d → SamePlace (.nullable a) (.nullable b) c d
  | result {a b c d : Shape} {x y : Value} {s t : Option Shape} : SamePlace a b c d →
      SamePlace (.calculation a x s) (.calculation b y t) c d

/-- Calculations in the same place have equal shapes of their arguments, or both have none. -/
def ArgumentShapesAgree (a b : Shape) : Prop :=
  ∀ r r' x y s t, SamePlace a b (.calculation r x s) (.calculation r' y t) → Option.Rel Equal s t

theorem canonicalOption_eq_iff {s t : Option Shape} :
    canonicalOption s = canonicalOption t ↔ Option.Rel Equal s t := by
  cases s <;> cases t <;> simp [canonicalOption, Equal]

/-! ## Objects -/

/-- The fields under each name are merged from either side. -/
theorem exists_mergeFields_swapped (hf : Entries.Distinct fs) (hg : Entries.Distinct gs)
    (h : mergeFields fs gs = .ok ms)
    (step : ∀ k s t m, (k, s) ∈ fs → (k, t) ∈ gs → merge s t = .ok m → ∃ n, merge t s = .ok n) :
    ∃ ns, mergeFields gs fs = .ok ns := by
  refine mergeFields_total fun k => ?_
  have hk := gather_of_mergeFields h k
  rw [Entries.valuesOf_of_distinct hg] at hk
  rw [Entries.valuesOf_of_distinct hf]
  cases hs : Entries.get? fs k with
  | none => exact ⟨_, gather_nil _⟩
  | some s =>
    cases ht : Entries.get? gs k with
    | none => exact ⟨_, rfl⟩
    | some t =>
      rw [hs, ht, Option.toList_some, gather_some_cons_eq_ok_iff] at hk
      obtain ⟨m, hm, -⟩ := hk
      obtain ⟨n, hn⟩ := step k s t m (Entries.mem_of_get? hs) (Entries.mem_of_get? ht) hm
      exact ⟨some n, gather_some_cons_eq_ok_iff.2 ⟨n, hn, gather_nil _⟩⟩

theorem equal_mergedFields (hf : Entries.Distinct fs) (hg : Entries.Distinct gs)
    (hms : mergeFields fs gs = .ok ms) (hns : mergeFields gs fs = .ok ns)
    (step : ∀ k s t m n, (k, s) ∈ fs → (k, t) ∈ gs → merge s t = .ok m → merge t s = .ok n →
      Equal m n) :
    Equal (.object ms (mergeOptional fs os gs ps ms)) (.object ns (mergeOptional gs ps fs os ns)) := by
  have hopt : mergeOptional gs ps fs os ns = mergeOptional fs os gs ps ms := by
    refine NameSet.ext fun k => ?_
    rw [mem_mergeOptional, mem_mergeOptional, mem_keys_of_mergeFields hms,
      mem_keys_of_mergeFields hns]
    tauto
  rw [hopt]
  refine equal_object (distinct_of_mergeFields hf hms) (distinct_of_mergeFields hg hns)
    (fun k => ?_) fun k m n hm hn => ?_
  · rw [mem_keys_of_mergeFields hms, mem_keys_of_mergeFields hns, or_comm]
  · have hleft := gather_of_mergeFields hms k
    have hright := gather_of_mergeFields hns k
    rw [Entries.valuesOf_of_distinct hg,
      (Entries.get?_eq_some_iff (distinct_of_mergeFields hf hms)).2 hm] at hleft
    rw [Entries.valuesOf_of_distinct hf,
      (Entries.get?_eq_some_iff (distinct_of_mergeFields hg hns)).2 hn] at hright
    cases hs : Entries.get? fs k with
    | none =>
      rw [hs, gather_toList] at hleft
      rw [hs, Option.toList_none, gather_nil, Except.ok.inj hleft] at hright
      exact Option.some.inj (Except.ok.inj hright) ▸ Equal.refl m
    | some s =>
      cases ht : Entries.get? gs k with
      | none =>
        rw [ht, gather_toList] at hright
        rw [ht, Option.toList_none, gather_nil, Except.ok.inj hright] at hleft
        exact Option.some.inj (Except.ok.inj hleft) ▸ Equal.refl _
      | some t =>
        rw [hs, ht, Option.toList_some, gather_some_cons_eq_ok_iff] at hleft hright
        obtain ⟨m', hm', hleft⟩ := hleft
        obtain ⟨n', hn', hright⟩ := hright
        obtain rfl : m' = m := by simpa using hleft
        obtain rfl : n' = n := by simpa using hright
        exact step k s t m' n' (Entries.mem_of_get? hs) (Entries.mem_of_get? ht) hm' hn'

/-! ## The other side -/

/-- What merges from one side merges from the other. -/
theorem exists_merge_swapped (ha : Keyed a) (hb : Keyed b) (h : merge a b = .ok m) :
    ∃ n, merge b a = .ok n := by
  induction b using inductParts generalizing a m with
  | step b ih =>
    cases mergedBy_of_merge h with
    | equal he => exact ⟨b, merge_of_equal he.symm⟩
    | object hne hms =>
      obtain ⟨hf, hfs⟩ := keyed_object_iff.1 ha
      obtain ⟨hg, hgs⟩ := keyed_object_iff.1 hb
      obtain ⟨ns, hns⟩ := exists_mergeFields_swapped hf hg hms fun k s t m hs ht hm =>
        ih t (List.mem_map_of_mem (f := Prod.snd) ht) (hfs _ hs) (hgs _ ht) hm
      rw [merge_object_of_not_equal fun he => hne he.symm, hns]
      exact ⟨_, rfl⟩
    | @array a b m hm =>
      obtain ⟨n, hn⟩ := ih b List.mem_cons_self (a := a) ha hb hm
      exact ⟨_, by rw [merge_array, hn]; rfl⟩
    | @nullable a b m hm =>
      obtain ⟨n, hn⟩ := ih b List.mem_cons_self (a := a) ha hb hm
      exact ⟨_, by rw [merge_nullable, hn]; rfl⟩
    | @calculation a b m x y s t hx hm =>
      obtain ⟨n, hn⟩ := ih b List.mem_cons_self (a := a) ha hb hm
      exact ⟨_, by rw [merge_calculation, if_pos hx.symm, hn]; rfl⟩

/-- Merged from either side shapes are equal, where those of arguments are. -/
theorem equal_merge_swapped (ha : Keyed a) (hb : Keyed b) (hagree : ArgumentShapesAgree a b)
    (hm : merge a b = .ok m) (hn : merge b a = .ok n) : Equal m n := by
  induction b using inductParts generalizing a m n with
  | step b ih =>
    cases mergedBy_of_merge hm with
    | equal he =>
      rw [merge_of_equal he.symm] at hn
      exact Except.ok.inj hn ▸ he
    | object hne hms =>
      obtain ⟨hf, hfs⟩ := keyed_object_iff.1 ha
      obtain ⟨hg, hgs⟩ := keyed_object_iff.1 hb
      rw [merge_object_of_not_equal fun he => hne he.symm, map_eq_ok_iff] at hn
      obtain ⟨ns, hns, rfl⟩ := hn
      refine equal_mergedFields hf hg hms hns fun k s t m n hs ht hm hn => ?_
      exact ih t (List.mem_map_of_mem (f := Prod.snd) ht) (hfs _ hs) (hgs _ ht)
        (fun r r' x y s' t' hp => hagree r r' x y s' t' (.field hs ht hp)) hm hn
    | @array a b m hinner =>
      rw [merge_array, map_eq_ok_iff] at hn
      obtain ⟨n, hn, rfl⟩ := hn
      exact equal_array_iff.2 (ih b List.mem_cons_self (a := a) ha hb
        (fun r r' x y s t hp => hagree r r' x y s t (.element hp)) hinner hn)
    | @nullable a b m hinner =>
      rw [merge_nullable, map_eq_ok_iff] at hn
      obtain ⟨n, hn, rfl⟩ := hn
      exact equal_nullable_iff.2 (ih b List.mem_cons_self (a := a) ha hb
        (fun r r' x y s t hp => hagree r r' x y s t (.inner hp)) hinner hn)
    | @calculation a b m x y s t hx hinner =>
      rw [merge_calculation, if_pos hx.symm, map_eq_ok_iff] at hn
      obtain ⟨n, hn, rfl⟩ := hn
      refine equal_calculation_iff.2 ⟨?_, hx, canonicalOption_eq_iff.2 (hagree _ _ _ _ _ _ .here)⟩
      exact ih b List.mem_cons_self (a := a) ha hb
        (fun r r' x y s t hp => hagree r r' x y s t (.result hp)) hinner hn

/-- A merge fails from one side exactly when it fails from the other. Where it does not, both sides
give equal shapes when calculations in the same place have equal shapes of their arguments. -/
theorem merge_comm (ha : Keyed a) (hb : Keyed b) :
    ((∃ c, merge a b = .error c) ↔ ∃ c, merge b a = .error c) ∧
    (ArgumentShapesAgree a b → ∀ m n, merge a b = .ok m → merge b a = .ok n → Equal m n) := by
  have hhalf : ∀ {a b : Shape}, Keyed a → Keyed b →
      (∃ c, merge a b = .error c) → ∃ c, merge b a = .error c := by
    rintro a b ha hb ⟨c, hc⟩
    cases hswapped : merge b a with
    | error d => exact ⟨d, rfl⟩
    | ok n =>
      obtain ⟨m, hm⟩ := exists_merge_swapped hb ha hswapped
      rw [hm] at hc
      cases hc
  exact ⟨⟨hhalf ha hb, hhalf hb ha⟩, fun hagree m n => equal_merge_swapped ha hb hagree⟩

/-- A record with a rank whose scale is an integer. -/
def rankFirst : Shape :=
  .record [("rank", .calculation (.scalar .number) (.obj [("scale", .int 1)])
      (some (.record [("scale", .scalar .number), ("base", .scalar .number)]))),
    ("id", .scalar .string)]

/-- A record with the same rank, its arguments written in another way, and tags that may be absent. -/
def rankLast : Shape :=
  .object [("tags", .array (.scalar .string)),
    ("rank", .calculation (.scalar .number) (.obj [("scale", .bool true)])
      (some (.record [("base", .scalar .number), ("scale", .scalar .number)])))] (.ofList ["tags"])

theorem argumentShapesAgree_ranks : ArgumentShapesAgree rankFirst rankLast := by
  have hshapes : Equal (.record [("scale", .scalar .number), ("base", .scalar .number)])
      (.record [("base", .scalar .number), ("scale", .scalar .number)]) := by
    decide +kernel
  intro r r' x y s t h
  obtain - | ⟨hs, ht, h⟩ := h
  simp only [List.mem_cons, List.not_mem_nil, or_false, Prod.mk.injEq] at hs ht
  obtain ⟨rfl, rfl⟩ | ⟨rfl, rfl⟩ := hs
  · obtain ⟨hk, -⟩ | ⟨-, rfl⟩ := ht
    · exact absurd hk (by decide)
    · obtain - | - | - | - | h := h
      · exact .some hshapes
      · cases h
  · simp at ht

theorem merge_comm_ranks :
    Keyed rankFirst ∧ Keyed rankLast ∧ ArgumentShapesAgree rankFirst rankLast ∧
    ((∃ c, merge rankFirst rankLast = .error c) ↔ ∃ c, merge rankLast rankFirst = .error c) ∧
    ∀ m n, merge rankFirst rankLast = .ok m → merge rankLast rankFirst = .ok n → Equal m n := by
  have hfirst : Keyed rankFirst := by
    simp [rankFirst, record, keyed_object_iff, Entries.Distinct, Entries.keys, Keyed]
  have hlast : Keyed rankLast := by
    simp [rankLast, keyed_object_iff, Entries.Distinct, Entries.keys, Keyed]
  obtain ⟨hfails, hequal⟩ := merge_comm hfirst hlast
  exact ⟨hfirst, hlast, argumentShapesAgree_ranks, hfails, hequal argumentShapesAgree_ranks⟩

end Shapewise.Shape
