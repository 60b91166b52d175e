import Mathlib.Data.List.Nodup
import Mathlib.Data.List.Sort
import Shapewise.NameSet
import Shapewise.Value.Equality

/-!
# Laws of ordered entries

What a look-up finds in a list of entries, which order names have after entries are put, and that
sorting keeps the entries. Where a list may name something more than once, `valuesOf` gives all the
values of a name in order.
-/

namespace Shapewise

namespace Entries

variable {α β : Type}

/-- All values under a name, in order. -/
def valuesOf (es : List (String × α)) (name : String) : List α :=
  (es.filter (·.1 = name)).map Prod.snd

@[simp] theorem valuesOf_nil (name : String) : valuesOf ([] : List (String × α)) name = [] := rfl

theorem valuesOf_cons (k : String) (v : α) (es : List (String × α)) (name : String) :
    valuesOf ((k, v) :: es) name = if k = name then v :: valuesOf es name else valuesOf es name := by
  by_cases hk : k = name <;> simp [valuesOf, hk]

theorem mem_valuesOf {es : List (String × α)} {name : String} {v : α} :
    v ∈ valuesOf es name ↔ (name, v) ∈ es := by
  simp [valuesOf]

@[simp] theorem keys_nil : keys ([] : List (String × α)) = [] := rfl

@[simp] theorem keys_cons (e : String × α) (es : List (String × α)) :
    keys (e :: es) = e.1 :: keys es := rfl

@[simp] theorem keys_append (es fs : List (String × α)) : keys (es ++ fs) = keys es ++ keys fs :=
  List.map_append

theorem mem_keys {es : List (String × α)} {name : String} :
    name ∈ keys es ↔ ∃ v, (name, v) ∈ es := by
  simp [keys]

theorem forall_mem_cons {k : String} {v : α} {es : List (String × α)} {P : String → α → Prop} :
    (∀ l w, (l, w) ∈ (k, v) :: es → P l w) ↔ P k v ∧ ∀ l w, (l, w) ∈ es → P l w := by
  constructor
  · intro h
    exact ⟨h k v List.mem_cons_self, fun l w hm => h l w (List.mem_cons_of_mem _ hm)⟩
  · rintro ⟨h, hes⟩ l w hm
    rcases List.mem_cons.1 hm with he | hm
    · obtain ⟨rfl, rfl⟩ := Prod.mk.inj he
      exact h
    · exact hes l w hm

/-! ## Looking up -/

theorem get?_cons (k : String) (v : α) (es : List (String × α)) (name : String) :
    get? ((k, v) :: es) name = if k = name then some v else get? es name := rfl

theorem get?_append (es fs : List (String × α)) (name : String) :
    get? (es ++ fs) name = (get? es name).or (get? fs name) := by
  induction es with
  | nil => rfl
  | cons e es ih =>
    obtain ⟨k, v⟩ := e
    rw [List.cons_append, get?_cons, get?_cons, ih]
    split <;> rfl

theorem mem_of_get? {es : List (String × α)} {name : String} {v : α} (h : get? es name = some v) :
    (name, v) ∈ es := by
  induction es with
  | nil => simp at h
  | cons e es ih =>
    obtain ⟨k, w⟩ := e
    rw [get?_cons] at h
    split at h
    · next hk =>
      rw [hk, Option.some.inj h]
      exact List.mem_cons_self
    · exact List.mem_cons_of_mem _ (ih h)

theorem get?_eq_none_iff {es : List (String × α)} {name : String} :
    get? es name = none ↔ name ∉ keys es := by
  rw [← has_eq_true_iff, has]
  cases get? es name <;> simp

theorem exists_get?_iff {es : List (String × α)} {name : String} :
    (∃ v, get? es name = some v) ↔ name ∈ keys es := by
  rw [← has_eq_true_iff, has, Option.isSome_iff_exists]

/-- Where no name is repeated, every entry is found under its name. -/
theorem get?_eq_some_iff {es : List (String × α)} (hd : Distinct es) {name : String} {v : α} :
    get? es name = some v ↔ (name, v) ∈ es := by
  refine ⟨mem_of_get?, fun hm => ?_⟩
  induction es with
  | nil => simp at hm
  | cons e es ih =>
    obtain ⟨k, w⟩ := e
    obtain ⟨hk, hd⟩ := List.nodup_cons.1 hd
    rw [get?_cons]
    rcases List.mem_cons.1 hm with he | hm
    · obtain ⟨rfl, rfl⟩ := Prod.mk.inj he
      rw [if_pos rfl]
    · have hne : k ≠ name := by
        rintro rfl
        exact hk (mem_keys.2 ⟨v, hm⟩)
      rw [if_neg hne]
      exact ih hd hm

theorem valuesOf_of_distinct {es : List (String × α)} (hd : Distinct es) (name : String) :
    valuesOf es name = (get? es name).toList := by
  induction es with
  | nil => rfl
  | cons e es ih =>
    obtain ⟨k, v⟩ := e
    obtain ⟨hk, hd⟩ := List.nodup_cons.1 hd
    rw [valuesOf_cons, get?_cons, ih hd]
    split
    · next h =>
      rw [get?_eq_none_iff.2 (h ▸ hk)]
      rfl
    · rfl

theorem get?_mapValues (f : α → β) (es : List (String × α)) (name : String) :
    get? (mapValues f es) name = (get? es name).map f := by
  induction es with
  | nil => rfl
  | cons e es ih =>
    obtain ⟨k, v⟩ := e
    show (if k = name then some (f v) else get? (mapValues f es) name) = _
    rw [ih, get?_cons]
    split <;> rfl

theorem mem_mapValues {f : α → β} {es : List (String × α)} {name : String} {b : β} :
    (name, b) ∈ mapValues f es ↔ ∃ a, (name, a) ∈ es ∧ f a = b := by
  simp [mapValues]

/-! ## Another value in the place of one -/

section exchange

variable (es fs : List (String × α)) {k name : String} {v w : α}

theorem keys_exchange : keys (es ++ (k, v) :: fs) = keys (es ++ (k, w) :: fs) := by
  simp only [keys_append, keys_cons]

theorem get?_exchange_of_ne (hk : k ≠ name) :
    get? (es ++ (k, v) :: fs) name = get? (es ++ (k, w) :: fs) name := by
  rw [get?_append, get?_append, get?_cons, get?_cons, if_neg hk, if_neg hk]

/-- The value in the place is what is found under its name, or another entry stands before it. -/
theorem get?_exchange_self :
    (get? (es ++ (k, v) :: fs) k = some v ∧ get? (es ++ (k, w) :: fs) k = some w) ∨
      get? (es ++ (k, v) :: fs) k = get? (es ++ (k, w) :: fs) k := by
  rw [get?_append, get?_append, get?_cons, get?_cons, if_pos rfl, if_pos rfl]
  cases get? es k with
  | none => exact .inl ⟨rfl, rfl⟩
  | some x => exact .inr rfl

end exchange

theorem distinct_nil : Distinct ([] : List (String × α)) := List.nodup_nil

/-- Entries without repeated names are told by their names in order and what is found under each. -/
theorem ext {es fs : List (String × α)} (hd : Distinct es) (hk : keys es = keys fs)
    (hg : ∀ name, get? es name = get? fs name) : es = fs := by
  have hd' : Distinct fs := by rwa [Distinct, ← hk]
  induction es generalizing fs with
  | nil => cases fs <;> simp_all
  | cons e es ih =>
    cases fs with
    | nil => simp at hk
    | cons f fs =>
      obtain ⟨k, v⟩ := e
      obtain ⟨l, w⟩ := f
      obtain ⟨rfl, htk⟩ : k = l ∧ keys es = keys fs := by simpa using hk
      obtain ⟨hke, hde⟩ := List.nodup_cons.1 hd
      obtain ⟨hkf, hdf⟩ := List.nodup_cons.1 hd'
      have hv : v = w := by simpa [get?_cons] using hg k
      have htail : es = fs := by
        refine ih hde htk (fun name => ?_) hdf
        by_cases hn : k = name
        · subst hn
          rw [get?_eq_none_iff.2 hke, get?_eq_none_iff.2 hkf]
        · simpa [get?_cons, hn] using hg name
      rw [hv, htail]

/-! ## Putting -/

theorem put_of_get? {es : List (String × α)} {name : String} {v : α}
    (h : get? es name = some v) : put es name v = es := by
  induction es with
  | nil => simp at h
  | cons e es ih =>
    obtain ⟨k, w⟩ := e
    rw [get?_cons] at h
    split at h
    · next hk => simp [put, hk, Option.some.inj h]
    · next hk => simp [put, hk, ih h]

theorem mem_put {es : List (String × α)} {name : String} {v : α} {e : String × α}
    (h : e ∈ put es name v) : e = (name, v) ∨ e ∈ es := by
  induction es with
  | nil => simpa [put] using h
  | cons f es ih =>
    obtain ⟨k, w⟩ := f
    rw [put] at h
    split at h
    · next hk =>
      subst hk
      rcases List.mem_cons.1 h with h | h
      · exact .inl h
      · exact .inr (List.mem_cons_of_mem _ h)
    · rcases List.mem_cons.1 h with h | h
      · exact .inr (h ▸ List.mem_cons_self)
      · exact (ih h).imp_right (List.mem_cons_of_mem _)

theorem mem_keys_put {es : List (String × α)} {name other : String} {v : α} :
    other ∈ keys (put es name v) ↔ other ∈ keys es ∨ other = name := by
  rw [keys_put]
  split
  · next hm =>
    refine (or_iff_left_of_imp ?_).symm
    rintro rfl
    exact hm
  · rw [List.mem_append, List.mem_singleton]

/-- What putting a value adds to a property of the value before, it adds to that of all entries. -/
theorem forall_mem_put_iff {es : List (String × α)} {name : String} {v : α}
    {P : String → α → Prop} {Q : Prop}
    (hsome : ∀ w, get? es name = some w → (P name v ↔ P name w ∧ Q))
    (hnone : get? es name = none → (P name v ↔ Q)) :
    (∀ l w, (l, w) ∈ put es name v → P l w) ↔ (∀ l w, (l, w) ∈ es → P l w) ∧ Q := by
  induction es with
  | nil => simpa [put] using hnone rfl
  | cons e es ih =>
    obtain ⟨k, u⟩ := e
    rw [get?_cons] at hsome hnone
    rw [put]
    split
    · next hk =>
      subst hk
      rw [forall_mem_cons, forall_mem_cons, hsome u (if_pos rfl)]
      tauto
    · next hk =>
      rw [if_neg hk] at hsome hnone
      rw [forall_mem_cons, forall_mem_cons, ih hsome hnone, and_assoc]

/-- Names are listed in the order in which they are first put. -/
theorem eraseDups_keys_put (es : List (String × α)) (name : String) (v : α) (names : List String) :
    (keys (put es name v) ++ names).eraseDups = (keys es ++ name :: names).eraseDups := by
  rw [keys_put]
  split
  · next hm => simp [List.eraseDups_append, List.removeAll, hm]
  · simp

theorem get?_foldl_put (es acc : List (String × α)) (name : String) :
    get? (es.foldl (fun acc e => put acc e.1 e.2) acc) name =
      (valuesOf es name).getLast?.or (get? acc name) := by
  induction es generalizing acc with
  | nil => rfl
  | cons e es ih =>
    rw [List.foldl_cons, ih, get?_put, valuesOf_cons]
    by_cases hk : e.1 = name
    · rw [if_pos hk, if_pos hk, List.getLast?_cons]
      cases (valuesOf es name).getLast? <;> rfl
    · rw [if_neg hk, if_neg hk]

/-- Where a name is repeated, its last value is kept. -/
theorem get?_ofList (es : List (String × α)) (name : String) :
    get? (ofList es) name = (valuesOf es name).getLast? := by
  rw [ofList, get?_foldl_put, get?_nil, Option.or_none]

theorem put_of_not_mem {es : List (String × α)} {name : String} (h : name ∉ keys es) (v : α) :
    put es name v = es ++ [(name, v)] := by
  induction es with
  | nil => rfl
  | cons e es ih =>
    obtain ⟨k, w⟩ := e
    rw [keys_cons, List.mem_cons, not_or] at h
    rw [put, if_neg (Ne.symm h.1), ih h.2, List.cons_append]

theorem eraseDups_of_nodup {names : List String} (h : names.Nodup) : names.eraseDups = names := by
  induction names with
  | nil => simp
  | cons a names ih =>
    obtain ⟨ha, h⟩ := List.nodup_cons.1 h
    have hf : names.filter (fun b => !b == a) = names := by
      rw [List.filter_eq_self]
      intro b hb
      have : b ≠ a := fun he => ha (he ▸ hb)
      simpa using this
    rw [List.eraseDups_cons, hf, ih h]

theorem nodup_eraseDups (names : List String) : names.eraseDups.Nodup := by
  match names with
  | [] => simp
  | a :: names =>
    have hlen : (names.filter fun b => !b == a).length < names.length + 1 :=
      Nat.lt_succ_of_le (List.length_filter_le _ names)
    rw [List.eraseDups_cons, List.nodup_cons, List.mem_eraseDups, List.mem_filter]
    exact ⟨by simp, nodup_eraseDups _⟩
termination_by names.length

/-- The names of a list of entries stand in the order in which they first occur. -/
theorem keys_ofList (es : List (String × α)) : keys (ofList es) = (keys es).eraseDups := by
  have hfold : ∀ es acc : List (String × α), Distinct acc →
      keys (es.foldl (fun acc e => put acc e.1 e.2) acc) = (keys acc ++ keys es).eraseDups := by
    intro es
    induction es with
    | nil =>
      intro acc hd
      rw [List.foldl_nil, keys_nil, List.append_nil, eraseDups_of_nodup hd]
    | cons e es ih =>
      intro acc hd
      rw [List.foldl_cons, ih _ (hd.put e.1 e.2), eraseDups_keys_put, keys_cons]
  exact hfold es [] distinct_nil

theorem distinct_ofList (es : List (String × α)) : Distinct (ofList es) := by
  rw [Distinct, keys_ofList]
  exact nodup_eraseDups _

theorem mem_of_mem_ofList {es : List (String × α)} {e : String × α} (h : e ∈ ofList es) : e ∈ es := by
  have hget : get? (ofList es) e.1 = some e.2 := (get?_eq_some_iff (distinct_ofList es)).2 h
  rw [get?_ofList] at hget
  exact mem_valuesOf.1 (List.mem_of_getLast? hget)

/-- Entries that name nothing twice are kept as they are. -/
theorem ofList_of_distinct {es : List (String × α)} (h : Distinct es) : ofList es = es := by
  refine ext (distinct_ofList es) (by rw [keys_ofList, eraseDups_of_nodup h]) fun name => ?_
  rw [get?_ofList, valuesOf_of_distinct h]
  cases get? es name <;> rfl

/-- Names that follow others may be listed once before they are put behind them. -/
theorem eraseDups_append_eraseDups (as bs : List String) :
    (as ++ bs.eraseDups).eraseDups = (as ++ bs).eraseDups := by
  match bs with
  | [] => rfl
  | b :: bs =>
    have hlen : (bs.filter fun c => !c == b).length < bs.length + 1 :=
      Nat.lt_succ_of_le (List.length_filter_le _ bs)
    have hdrop : (bs.filter fun c => !c == b).removeAll (as ++ [b]) = bs.removeAll (as ++ [b]) := by
      simp only [List.removeAll, List.filter_filter]
      congr 1
      funext c
      by_cases hc : c = b <;> simp [hc]
    calc (as ++ (b :: bs).eraseDups).eraseDups
        = (as ++ [b] ++ (bs.filter fun c => !c == b).eraseDups).eraseDups := by
          rw [List.eraseDups_cons, List.append_assoc, List.singleton_append]
      _ = (as ++ [b] ++ bs.filter fun c => !c == b).eraseDups :=
          eraseDups_append_eraseDups _ _
      _ = (as ++ [b] ++ bs).eraseDups := by
          simp only [List.eraseDups_append, hdrop]
      _ = (as ++ b :: bs).eraseDups := by rw [List.append_assoc, List.singleton_append]
termination_by bs.length

/-! ## Sorting -/

theorem place_perm (e : String × α) (es : List (String × α)) : (place e es).Perm (e :: es) := by
  induction es with
  | nil => exact .refl _
  | cons f es ih =>
    rw [place]
    split
    · exact .refl _
    · exact (ih.cons f).trans (.swap e f es)

theorem sort_perm (es : List (String × α)) : (sort es).Perm es := by
  induction es with
  | nil => exact .refl _
  | cons e es ih => exact (place_perm e (sort es)).trans (ih.cons e)

/-- Names stand in order; a repeated name stands in one run. -/
def Sorted (es : List (String × α)) : Prop :=
  es.Pairwise fun e f => ¬ f.1 < e.1

theorem Sorted.place {es : List (String × α)} (h : Sorted es) (e : String × α) :
    Sorted (place e es) := by
  induction es with
  | nil => exact List.pairwise_singleton _ _
  | cons f es ih =>
    obtain ⟨hf, hes⟩ := List.pairwise_cons.1 h
    rw [Entries.place]
    split
    · next hlt =>
      refine List.pairwise_cons.2 ⟨fun g hg => ?_, h⟩
      rcases List.mem_cons.1 hg with rfl | hg
      · exact String.lt_asymm hlt
      · exact fun hge => hf g hg (String.lt_trans hge hlt)
    · next hlt =>
      refine List.pairwise_cons.2 ⟨fun g hg => ?_, ih hes⟩
      rcases List.mem_cons.1 ((place_perm e es).mem_iff.1 hg) with rfl | hg
      · exact hlt
      · exact hf g hg

theorem sorted_sort (es : List (String × α)) : Sorted (sort es) := by
  induction es with
  | nil => exact List.Pairwise.nil
  | cons e es ih => exact ih.place e

theorem Sorted.valuesOf_eq_nil {k : String} {v : α} {es : List (String × α)}
    (h : Sorted ((k, v) :: es)) {name : String} (hlt : name < k) :
    valuesOf ((k, v) :: es) name = [] := by
  refine List.eq_nil_iff_forall_not_mem.2 fun w hw => ?_
  rcases List.mem_cons.1 (mem_valuesOf.1 hw) with he | hm
  · exact String.lt_irrefl k ((Prod.mk.inj he).1 ▸ hlt)
  · exact (List.pairwise_cons.1 h).1 (name, w) hm hlt

/-- Among sorted entries a new value is placed behind the others of its name. -/
theorem valuesOf_place {es : List (String × α)} (h : Sorted es) (k : String) (v : α)
    (name : String) : valuesOf (place (k, v) es) name =
      if k = name then valuesOf es name ++ [v] else valuesOf es name := by
  induction es with
  | nil => rw [place, valuesOf_cons, valuesOf_nil]; rfl
  | cons f es ih =>
    obtain ⟨l, w⟩ := f
    rw [place]
    split
    · next hlt =>
      rw [valuesOf_cons]
      split
      · next hk =>
        rw [h.valuesOf_eq_nil (hk ▸ hlt)]
        rfl
      · rfl
    · rw [valuesOf_cons, valuesOf_cons, ih (List.pairwise_cons.1 h).2]
      by_cases hl : l = name <;> by_cases hk : k = name <;> simp [hl, hk]

theorem valuesOf_sort (es : List (String × α)) (name : String) :
    valuesOf (sort es) name = (valuesOf es name).reverse := by
  induction es with
  | nil => rfl
  | cons e es ih =>
    obtain ⟨k, v⟩ := e
    rw [sort, valuesOf_place (sorted_sort es), valuesOf_cons, ih]
    split
    · rw [List.reverse_cons]
    · rfl

/-- Sorted entries are told by the values of each name. -/
theorem Sorted.ext {es fs : List (String × α)} (he : Sorted es) (hf : Sorted fs)
    (h : ∀ name, valuesOf es name = valuesOf fs name) : es = fs := by
  have hnil : ∀ {gs : List (String × α)}, (∀ name, valuesOf gs name = []) → gs = [] := by
    intro gs hgs
    refine List.eq_nil_iff_forall_not_mem.2 fun g hg => ?_
    have hv : g.2 ∈ valuesOf gs g.1 := mem_valuesOf.2 hg
    rw [hgs] at hv
    exact List.not_mem_nil hv
  induction es generalizing fs with
  | nil => exact (hnil fun name => (h name).symm).symm
  | cons e es ih =>
    cases fs with
    | nil => exact hnil h
    | cons f fs =>
      obtain ⟨k, v⟩ := e
      obtain ⟨l, w⟩ := f
      have hkl : ¬ k < l := by
        intro hlt
        have hk := h k
        rw [hf.valuesOf_eq_nil hlt, valuesOf_cons, if_pos rfl] at hk
        cases hk
      have hlk : ¬ l < k := by
        intro hlt
        have hl := h l
        rw [he.valuesOf_eq_nil hlt, valuesOf_cons, if_pos rfl] at hl
        cases hl
      obtain rfl : k = l := String.le_antisymm (String.not_lt.1 hlk) (String.not_lt.1 hkl)
      have hhead := h k
      rw [valuesOf_cons, valuesOf_cons, if_pos rfl, if_pos rfl] at hhead
      obtain ⟨rfl, -⟩ := List.cons.inj hhead
      have htail : ∀ name, valuesOf es name = valuesOf fs name := by
        intro name
        have hn := h name
        rw [valuesOf_cons, valuesOf_cons] at hn
        by_cases hk : k = name
        · rw [if_pos hk, if_pos hk] at hn
          exact (List.cons.inj hn).2
        · rwa [if_neg hk, if_neg hk] at hn
      rw [ih (List.pairwise_cons.1 he).2 (List.pairwise_cons.1 hf).2 htail]

/-- Entries are the same up to their order when each name has the same values in order. -/
theorem sort_eq_sort_iff {es fs : List (String × α)} :
    sort es = sort fs ↔ ∀ name, valuesOf es name = valuesOf fs name := by
  constructor
  · intro h name
    rw [← List.reverse_inj, ← valuesOf_sort, ← valuesOf_sort, h]
  · intro h
    refine (sorted_sort es).ext (sorted_sort fs) fun name => ?_
    rw [valuesOf_sort, valuesOf_sort, h]

end Entries

/-- Sets of names with the same members are the same. -/
theorem NameSet.ext {s t : NameSet} (h : ∀ name, name ∈ s ↔ name ∈ t) : s = t := by
  obtain ⟨ss, hs⟩ := s
  obtain ⟨ts, ht⟩ := t
  have nodup : ∀ {l : List String}, l.Pairwise (· < ·) → l.Nodup := fun hl =>
    hl.imp fun hab he => absurd (he ▸ hab) (String.lt_irrefl _)
  have hp : ss.Perm ts := (List.perm_ext_iff_of_nodup (nodup hs) (nodup ht)).2 h
  have : ss = ts := hp.eq_of_pairwise
    (fun a b _ _ hab hba => absurd (String.lt_trans hab hba) (String.lt_irrefl _)) hs ht
  subst this
  rfl

end Shapewise
