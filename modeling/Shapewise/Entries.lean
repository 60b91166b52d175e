/-!
# Ordered entries

An object is a list of entries, a name with a value each, in the order in which they were written.
Names are looked up from the front, and a value put under a name that is already there takes the
old value's place; a list built by `put` alone therefore names nothing twice.
-/

namespace Shapewise.Entries

variable {α β : Type}

/-- The value under a name. -/
def get? : List (String × α) → String → Option α
  | [], _ => none
  | (k, v) :: es, name => if k = name then some v else get? es name

/-- Whether an entry has this name. -/
def has (es : List (String × α)) (name : String) : Bool :=
  (get? es name).isSome

/-- The names in the order of their entries. -/
def keys (es : List (String × α)) : List String :=
  es.map Prod.fst

/-- Puts a value under a name: in place of the old value, or as a new last entry. -/
def put : List (String × α) → String → α → List (String × α)
  | [], name, value => [(name, value)]
  | (k, v) :: es, name, value =>
    if k = name then (k, value) :: es else (k, v) :: put es name value

/-- The entries of a list in which a repeated name keeps its first place and its last value. -/
def ofList (es : List (String × α)) : List (String × α) :=
  es.foldl (fun acc e => put acc e.1 e.2) []

/-- The entries with every value replaced. -/
def mapValues (f : α → β) (es : List (String × α)) : List (String × β) :=
  es.map fun e => (e.1, f e.2)

/-- No two entries share a name. -/
def Distinct (es : List (String × α)) : Prop :=
  (keys es).Nodup

/-! ## Looking up -/

@[simp] theorem get?_nil (name : String) : get? ([] : List (String × α)) name = none := rfl

theorem get?_put (es : List (String × α)) (name other : String) (value : α) :
    get? (put es name value) other = if name = other then some value else get? es other := by
  induction es with
  | nil => simp [put, get?]
  | cons e es ih =>
    obtain ⟨k, v⟩ := e
    by_cases hk : k = name
    · subst hk
      by_cases ho : k = other <;> simp [put, get?, ho]
    · by_cases ho : k = other
      · subst ho
        simp [put, get?, hk, Ne.symm hk]
      · simp [put, get?, hk, ho, ih]

theorem has_eq_true_iff (es : List (String × α)) (name : String) :
    has es name = true ↔ name ∈ keys es := by
  induction es with
  | nil => simp [has, keys]
  | cons e es ih =>
    obtain ⟨k, v⟩ := e
    by_cases hk : k = name
    · simp [has, get?, keys, hk]
    · have hk' : ¬ name = k := fun h => hk h.symm
      simpa [has, get?, keys, hk, hk'] using ih

/-! ## The order of names -/

theorem keys_put (es : List (String × α)) (name : String) (value : α) :
    keys (put es name value) = if name ∈ keys es then keys es else keys es ++ [name] := by
  induction es with
  | nil => simp [put, keys]
  | cons e es ih =>
    obtain ⟨k, v⟩ := e
    by_cases hk : k = name
    · simp [put, keys, hk]
    · have hk' : ¬ name = k := fun h => hk h.symm
      by_cases hm : name ∈ keys es
      · rw [if_pos hm] at ih
        have hm' : name ∈ k :: keys es := List.mem_cons_of_mem _ hm
        have : keys (put ((k, v) :: es) name value) = k :: keys (put es name value) := by
          simp [put, hk, keys]
        rw [this, ih, show keys ((k, v) :: es) = k :: keys es from rfl, if_pos hm']
      · rw [if_neg hm] at ih
        have hm' : name ∉ k :: keys es := by simp [hk', hm]
        have : keys (put ((k, v) :: es) name value) = k :: keys (put es name value) := by
          simp [put, hk, keys]
        rw [this, ih, show keys ((k, v) :: es) = k :: keys es from rfl, if_neg hm']
        rfl

theorem Distinct.put {es : List (String × α)} (h : Distinct es) (name : String) (value : α) :
    Distinct (put es name value) := by
  unfold Distinct at *
  rw [keys_put]
  split
  · exact h
  · next hm =>
    rw [List.nodup_append]
    refine ⟨h, by simp, ?_⟩
    intro a ha b hb hab
    simp only [List.mem_singleton] at hb
    exact hm (hb ▸ hab ▸ ha)

end Shapewise.Entries
