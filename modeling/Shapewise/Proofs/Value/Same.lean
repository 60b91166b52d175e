import Mathlib.Data.Rat.Defs
import Shapewise.Proofs.Entries

/-!
# Sameness of values

Equality of values counts a truth value as the number 1 or 0. `Same` does not: two values are the
same when they have the same form, with numbers of one exact value, one truth value, or one text at
the same places; lists are taken in order and objects by name.

Both relations are `Alike` for a reading of numbers (`equal_iff_alike`). They differ only where a
truth value stands in the place of a number: equal values are the same exactly when they are not
`Confused` (`same_iff_not_confused`).
-/

namespace Shapewise

/-- What a number is exactly. -/
inductive Quantity
  | nan
  | infinite (negative : Bool)
  | rational (q : Rat)

/-- What a floating point value is exactly; both zeros are zero. -/
def Binary64.quantity : Binary64 → Quantity
  | .nan => .nan
  | .infinite negative => .infinite negative
  | .negativeZero => .rational 0
  | .finite x => .rational x.toRat

namespace Value

/-- Induction over values: for a list or an object the claim may be used for what it holds. -/
@[elab_as_elim, induction_eliminator]
theorem induct {motive : Value → Prop}
    (null : motive .null)
    (bool : ∀ b, motive (.bool b))
    (int : ∀ i, motive (.int i))
    (float : ∀ x, motive (.float x))
    (str : ∀ s, motive (.str s))
    (list : ∀ items, (∀ v ∈ items, motive v) → motive (.list items))
    (obj : ∀ entries, (∀ e ∈ entries, motive e.2) → motive (.obj entries)) (v : Value) : motive v :=
  Value.rec (motive_1 := motive) (motive_2 := fun vs => ∀ v ∈ vs, motive v)
    (motive_3 := fun es => ∀ e ∈ es, motive e.2) (motive_4 := fun e => motive e.2)
    null bool int float str list obj
    (fun _ h => nomatch h)
    (fun _ _ head tail _ h => (List.mem_cons.1 h).elim (· ▸ head) (tail _))
    (fun _ h => nomatch h)
    (fun _ _ head tail _ h => (List.mem_cons.1 h).elim (· ▸ head) (tail _))
    (fun _ _ ih => ih) v

/-! ## The relations -/

/-- The exact number that a value is; a truth value is none. -/
def number? : Value → Option Quantity
  | .int i => some (.rational i)
  | .float x => some x.quantity
  | _ => none

/-- The exact number that a value is when a truth value counts as 1 or 0. -/
def numberOrTruth? : Value → Option Quantity
  | .bool b => some (.rational (if b then 1 else 0))
  | v => v.number?

/-- Two values are of one form and hold the same at the same places, numbers as they are read. A
name has as many values in one object as in the other, which is one where no name is repeated. -/
inductive Alike (read? : Value → Option Quantity) : Value → Value → Prop
  | number {a b : Value} {q : Quantity} : read? a = some q → read? b = some q → Alike read? a b
  | null : Alike read? .null .null
  | bool (b : Bool) : Alike read? (.bool b) (.bool b)
  | str (s : String) : Alike read? (.str s) (.str s)
  | list {xs ys : List Value} : List.Forall₂ (Alike read?) xs ys → Alike read? (.list xs) (.list ys)
  | obj {es fs : List (String × Value)} :
      (∀ name, List.Forall₂ (Alike read?) (Entries.valuesOf es name) (Entries.valuesOf fs name)) →
      Alike read? (.obj es) (.obj fs)

/-- Two values are the same; a truth value is no number. -/
def Same : Value → Value → Prop :=
  Alike number?

/-- At some common place one value holds a truth value and the other a number. -/
inductive Confused : Value → Value → Prop
  | truth_number {b : Bool} {v : Value} {q : Quantity} : v.number? = some q → Confused (.bool b) v
  | number_truth {v : Value} {b : Bool} {q : Quantity} : v.number? = some q → Confused v (.bool b)
  | list {xs ys : List Value} {x y : Value} :
      (x, y) ∈ xs.zip ys → Confused x y → Confused (.list xs) (.list ys)
  | obj {es fs : List (String × Value)} {name : String} {x y : Value} :
      (x, y) ∈ (Entries.valuesOf es name).zip (Entries.valuesOf fs name) → Confused x y →
      Confused (.obj es) (.obj fs)

/-! ## Exact numbers -/

theorem toRat_ofOdd_of_nonpos {n k : Int} (hn : n % 2 = 1) (hk : k ≤ 0) :
    (Dyadic.ofOdd n k hn).toRat = ((n * Int.pow 2 (-k).toNat : Int) : Rat) := by
  match k, hk with
  | .ofNat 0, _ =>
    show (⟨n, 2 ^ 0, _, _⟩ : Rat) = ((n * 1 : Int) : Rat)
    rw [Int.mul_one]
    rfl
  | .negSucc j, _ => rfl

/-- A fraction of an odd number by a power of two is no integer. -/
theorem toRat_ofOdd_ne_intCast {n k : Int} (hn : n % 2 = 1) (hk : 0 < k) (i : Int) :
    (Dyadic.ofOdd n k hn).toRat ≠ (i : Rat) := by
  match k, hk with
  | .ofNat (j + 1), _ =>
    intro h
    have hden : 2 ^ (j + 1) = 1 := congrArg Rat.den h
    rw [Nat.pow_eq_one] at hden
    omega

/-- A floating point value is an integer exactly when that is its exact value. -/
theorem toInt?_eq_some_iff {x : Binary64} {i : Int} :
    x.toInt? = some i ↔ x.quantity = .rational i := by
  rcases x with _ | _ | _ | _ | ⟨n, k, hn⟩
  · simp [Binary64.toInt?, Binary64.quantity]
  · simp [Binary64.toInt?, Binary64.quantity]
  · simp [Binary64.toInt?, Binary64.quantity, eq_comm]
  · simp [Binary64.toInt?, Binary64.quantity, Dyadic.toRat, eq_comm]
  · rw [Binary64.toInt?, Binary64.quantity, Quantity.rational.injEq]
    by_cases hk : k ≤ 0
    · rw [if_pos hk, toRat_ofOdd_of_nonpos hn hk, Option.some.injEq, Rat.intCast_inj]
    · rw [if_neg hk]
      exact iff_of_false (by simp) (toRat_ofOdd_ne_intCast hn (by omega) i)

/-- Only the two zeros have one exact value. -/
theorem eq_of_quantity {x y : Binary64} (h : x.quantity = y.quantity)
    (hint : ∀ i : Int, x.quantity ≠ .rational i) : x = y := by
  have hzero : x.quantity ≠ .rational 0 := hint 0
  have hzero' : y.quantity ≠ .rational 0 := h ▸ hzero
  cases x <;> cases y <;> simp_all [Binary64.quantity, Dyadic.toRat_inj]

/-- The canonical form of a number is its exact value, as an integer where it is one. -/
theorem canonical_of_number {v : Value} {q : Quantity} (h : v.numberOrTruth? = some q) :
    (∃ i : Int, q = .rational i ∧ v.canonical = .int i) ∨
      (∀ i : Int, q ≠ .rational i) ∧ ∃ x, x.quantity = q ∧ v.canonical = .float x := by
  cases v with
  | bool b =>
    refine .inl ⟨if b then 1 else 0, ?_, rfl⟩
    rw [← Option.some.inj h]
    cases b <;> simp
  | int i => exact .inl ⟨i, (Option.some.inj h).symm, rfl⟩
  | float x =>
    obtain rfl : x.quantity = q := Option.some.inj h
    rw [canonical, ofBinary64]
    cases hi : x.toInt? with
    | some i => exact .inl ⟨i, toInt?_eq_some_iff.1 hi, rfl⟩
    | none =>
      refine .inr ⟨fun i hq => ?_, x, rfl, rfl⟩
      rw [toInt?_eq_some_iff.2 hq] at hi
      cases hi
  | null | str | list | obj => cases h

/-- Only numbers and truth values have the canonical form of a number. -/
theorem numberOrTruth?_canonical (v : Value) : v.canonical.numberOrTruth? = v.numberOrTruth? := by
  cases h : v.numberOrTruth? with
  | none => cases v <;> first | rfl | cases h
  | some q =>
    obtain ⟨i, rfl, hc⟩ | ⟨-, x, rfl, hc⟩ := canonical_of_number h <;> rw [hc] <;> rfl

theorem Equal.numberOrTruth?_eq {a b : Value} (h : Equal a b) :
    a.numberOrTruth? = b.numberOrTruth? := by
  rw [← numberOrTruth?_canonical a, show a.canonical = b.canonical from h,
    numberOrTruth?_canonical]

/-- A value is equal to a number exactly when it is that number or a truth value that counts as
it. -/
theorem equal_number_iff {a b : Value} {q : Quantity} (ha : a.numberOrTruth? = some q) :
    Equal a b ↔ b.numberOrTruth? = some q := by
  constructor
  · intro h
    rw [← h.numberOrTruth?_eq, ha]
  · intro hb
    obtain ⟨i, rfl, hca⟩ | ⟨hint, x, rfl, hca⟩ := canonical_of_number ha <;>
      obtain ⟨j, hj, hcb⟩ | ⟨hint', y, hy, hcb⟩ := canonical_of_number hb
    · obtain rfl : i = j := by simpa using hj
      exact hca.trans hcb.symm
    · exact absurd rfl (hint' i)
    · exact absurd hj (hint j)
    · obtain rfl : x = y := eq_of_quantity hy.symm hint
      exact hca.trans hcb.symm

/-! ## Equality is sameness with truth values as numbers -/

theorem canonicalItems_eq_map (items : List Value) : canonicalItems items = items.map canonical := by
  induction items with
  | nil => rfl
  | cons v items ih => rw [canonicalItems, ih, List.map_cons]

theorem valuesOf_canonicalEntries (es : List (String × Value)) (name : String) :
    Entries.valuesOf (canonicalEntries es) name = (Entries.valuesOf es name).map canonical := by
  induction es with
  | nil => rfl
  | cons e es ih =>
    obtain ⟨k, v⟩ := e
    rw [canonicalEntries, Entries.valuesOf_cons, Entries.valuesOf_cons, ih]
    split <;> rfl

theorem map_canonical_eq_iff {xs ys : List Value} :
    xs.map canonical = ys.map canonical ↔ List.Forall₂ Equal xs ys := by
  rw [← List.forall₂_eq_eq_eq, List.forall₂_map_left_iff, List.forall₂_map_right_iff]
  rfl

theorem equal_list_iff {xs ys : List Value} :
    Equal (.list xs) (.list ys) ↔ List.Forall₂ Equal xs ys := by
  rw [← map_canonical_eq_iff, ← canonicalItems_eq_map, ← canonicalItems_eq_map]
  simp [Equal, canonical]

theorem equal_obj_iff {es fs : List (String × Value)} :
    Equal (.obj es) (.obj fs) ↔
      ∀ name, List.Forall₂ Equal (Entries.valuesOf es name) (Entries.valuesOf fs name) := by
  simp only [← map_canonical_eq_iff, ← valuesOf_canonicalEntries, ← Entries.sort_eq_sort_iff]
  simp [Equal, canonical]

theorem forall₂_congr_of_mem {α β : Type} {R S : α → β → Prop} {as : List α} {bs : List β}
    (h : ∀ a ∈ as, ∀ b, R a b ↔ S a b) : List.Forall₂ R as bs ↔ List.Forall₂ S as bs := by
  rw [List.forall₂_iff_zip, List.forall₂_iff_zip]
  refine and_congr_right fun _ => ⟨fun hr a b hm => ?_, fun hs a b hm => ?_⟩
  · exact (h a (List.of_mem_zip hm).1 b).1 (hr hm)
  · exact (h a (List.of_mem_zip hm).1 b).2 (hs hm)

theorem alike_number_iff {a b : Value} {q : Quantity} (ha : a.numberOrTruth? = some q) :
    Alike numberOrTruth? a b ↔ b.numberOrTruth? = some q := by
  constructor
  · intro h
    cases h with
    | number ha' hb => rw [hb, ← ha', ha]
    | bool => exact ha
    | null | str | list | obj => cases ha
  · exact .number ha

/-- Equality is likeness where truth values are read as numbers. -/
theorem equal_iff_alike {a b : Value} : Equal a b ↔ Alike numberOrTruth? a b := by
  induction a generalizing b with
  | bool | int | float => rw [equal_number_iff rfl, alike_number_iff rfl]
  | null =>
    constructor
    · intro h
      have hb := h.numberOrTruth?_eq
      cases b with
      | null => exact .null
      | bool | int | float => cases hb
      | str | list | obj => simp [Equal, canonical] at h
    · intro h
      cases h with
      | number ha => cases ha
      | null => exact Equal.refl _
  | str s =>
    constructor
    · intro h
      have hb := h.numberOrTruth?_eq
      cases b with
      | str t =>
        obtain rfl : s = t := by simpa [Equal, canonical] using h
        exact .str s
      | bool | int | float => cases hb
      | null | list | obj => simp [Equal, canonical] at h
    · intro h
      cases h with
      | number ha => cases ha
      | str => exact Equal.refl _
  | list xs ih =>
    constructor
    · intro h
      have hb := h.numberOrTruth?_eq
      cases b with
      | list ys =>
        have hitems := equal_list_iff.1 h
        exact .list ((forall₂_congr_of_mem fun x hx _ => ih x hx).1 hitems)
      | bool | int | float => cases hb
      | null | str | obj => simp [Equal, canonical] at h
    · intro h
      cases h with
      | number ha => cases ha
      | list h => exact equal_list_iff.2 ((forall₂_congr_of_mem fun x hx _ => ih x hx).2 h)
  | obj es ih =>
    have hvalues : ∀ name, ∀ x ∈ Entries.valuesOf es name, ∀ y, Equal x y ↔ Alike numberOrTruth? x y :=
      fun name x hx _ => ih (name, x) (Entries.mem_valuesOf.1 hx)
    constructor
    · intro h
      have hb := h.numberOrTruth?_eq
      cases b with
      | obj fs =>
        have hentries := equal_obj_iff.1 h
        exact .obj fun name => (forall₂_congr_of_mem (hvalues name)).1 (hentries name)
      | bool | int | float => cases hb
      | null | str | list => simp [Equal, canonical] at h
    · intro h
      cases h with
      | number ha => cases ha
      | obj h => exact equal_obj_iff.2 fun name => (forall₂_congr_of_mem (hvalues name)).2 (h name)

/-! ## Where truth values and numbers are confused -/

theorem Same.not_confused {a b : Value} (h : Same a b) : ¬ Confused a b := by
  intro hc
  induction hc with
  | truth_number hv =>
    cases h with
    | number ha => cases ha
    | bool => cases hv
  | number_truth hv =>
    cases h with
    | number _ hb => cases hb
    | bool => cases hv
  | list hm _ ih =>
    cases h with
    | number ha => cases ha
    | list hall => exact ih ((List.forall₂_iff_zip.1 hall).2 hm)
  | @obj es fs name x y hm _ ih =>
    cases h with
    | number ha => cases ha
    | obj hall => exact ih ((List.forall₂_iff_zip.1 (hall name)).2 hm)

theorem same_of_not_confused {a b : Value} (h : Equal a b) (hc : ¬ Confused a b) : Same a b := by
  have hitems : ∀ {xs ys : List Value}, List.Forall₂ Equal xs ys →
      (∀ x ∈ xs, ∀ y, Equal x y → ¬ Confused x y → Same x y) →
      (∀ x y, (x, y) ∈ xs.zip ys → ¬ Confused x y) → List.Forall₂ Same xs ys := by
    intro xs ys hall ih hnone
    obtain ⟨hlen, hall⟩ := List.forall₂_iff_zip.1 hall
    refine List.forall₂_iff_zip.2 ⟨hlen, fun {x y} hm => ?_⟩
    exact ih x (List.of_mem_zip hm).1 y (hall hm) (hnone x y hm)
  induction a generalizing b with
  | null =>
    cases equal_iff_alike.1 h with
    | number ha => cases ha
    | null => exact .null
  | str s =>
    cases equal_iff_alike.1 h with
    | number ha => cases ha
    | str => exact .str s
  | bool t =>
    cases b with
    | bool b =>
      have hb := (equal_number_iff rfl).1 h
      obtain rfl : b = t := by
        cases b <;> cases t <;> simp_all [numberOrTruth?]
      exact .bool b
    | int | float => exact absurd (.truth_number rfl) hc
    | null | str | list | obj => cases (equal_number_iff rfl).1 h
  | int | float =>
    cases b with
    | bool b => exact absurd (.number_truth rfl) hc
    | int | float => exact .number rfl ((equal_number_iff rfl).1 h)
    | null | str | list | obj => cases (equal_number_iff rfl).1 h
  | list xs ih =>
    cases equal_iff_alike.1 h with
    | number ha => cases ha
    | list _ =>
      refine .list (hitems (equal_list_iff.1 h) (fun x hx y => ih x hx) fun x y hm hxy => ?_)
      exact hc (.list hm hxy)
  | obj es ih =>
    cases equal_iff_alike.1 h with
    | number ha => cases ha
    | obj _ =>
      refine .obj fun name => hitems (equal_obj_iff.1 h name)
        (fun x hx y => ih _ (Entries.mem_valuesOf.1 hx)) fun x y hm hxy => ?_
      exact hc (.obj hm hxy)

/-- Equal values are the same exactly when no truth value stands in the place of a number. -/
theorem same_iff_not_confused {a b : Value} (h : Equal a b) : Same a b ↔ ¬ Confused a b :=
  ⟨Same.not_confused, same_of_not_confused h⟩

end Value

end Shapewise
