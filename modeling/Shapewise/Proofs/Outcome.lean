import Mathlib.Data.List.Forall2

/-!
# Outcomes of steps that can fail

When a sequence of steps succeeds and when it fails, read off its steps. The main results about
checking, projecting and resolving are stated about outcomes, so they take the steps apart with the
equivalences here and never unfold the sequencing itself.
-/

namespace Shapewise.Outcome

variable {ε ε' α β : Type}

/-! ## Related lists -/

theorem exists_of_forall₂_right {R : α → β → Prop} {as : List α} {bs : List β}
    (h : List.Forall₂ R as bs) {b : β} (hb : b ∈ bs) : ∃ a ∈ as, R a b := by
  induction h with
  | nil => cases hb
  | cons hr _ ih =>
    rcases List.mem_cons.1 hb with rfl | hb
    · exact ⟨_, List.mem_cons_self, hr⟩
    · obtain ⟨a, ha, hr⟩ := ih hb
      exact ⟨a, List.mem_cons_of_mem _ ha, hr⟩

theorem exists_of_forall₂_left {R : α → β → Prop} {as : List α} {bs : List β}
    (h : List.Forall₂ R as bs) {a : α} (ha : a ∈ as) : ∃ b ∈ bs, R a b := by
  obtain ⟨b, hb, hr⟩ := exists_of_forall₂_right h.flip ha
  exact ⟨b, hb, hr⟩

theorem exists_forall₂_iff {R : α → β → Prop} {as : List α} :
    (∃ bs, List.Forall₂ R as bs) ↔ ∀ a ∈ as, ∃ b, R a b := by
  constructor
  · rintro ⟨bs, h⟩ a ha
    obtain ⟨b, -, hr⟩ := exists_of_forall₂_left h ha
    exact ⟨b, hr⟩
  · intro h
    induction as with
    | nil => exact ⟨[], .nil⟩
    | cons a as ih =>
      obtain ⟨⟨b, hb⟩, has⟩ := List.forall_mem_cons.1 h
      obtain ⟨bs, hbs⟩ := ih has
      exact ⟨b :: bs, .cons hb hbs⟩

/-! ## Steps -/

theorem bind_eq_ok_iff {x : Except ε α} {f : α → Except ε β} {b : β} :
    (x >>= f) = .ok b ↔ ∃ a, x = .ok a ∧ f a = .ok b := by
  cases x <;> simp [bind, Except.bind]

theorem then_eq_ok_iff {x : Except ε Unit} {f : Unit → Except ε β} {b : β} :
    (x >>= f) = .ok b ↔ x = .ok () ∧ f () = .ok b := by
  cases x <;> simp [bind, Except.bind]

theorem pure_eq_ok_iff {a b : α} : (pure a : Except ε α) = .ok b ↔ a = b := by
  simp [pure, Except.pure]

theorem map_eq_ok_iff {x : Except ε α} {f : α → β} {b : β} :
    (f <$> x) = .ok b ↔ ∃ a, x = .ok a ∧ f a = b := by
  cases x <;> simp [Functor.map, Except.map]

theorem mapError_eq_ok_iff {x : Except ε α} {f : ε → ε'} {a : α} :
    x.mapError f = .ok a ↔ x = .ok a := by
  cases x <;> simp [Except.mapError]

theorem bind_eq_error_iff {x : Except ε α} {f : α → Except ε β} {e : ε} :
    (x >>= f) = .error e ↔ x = .error e ∨ ∃ a, x = .ok a ∧ f a = .error e := by
  cases x <;> simp [bind, Except.bind]

theorem map_eq_error_iff {x : Except ε α} {f : α → β} {e : ε} :
    (f <$> x) = .error e ↔ x = .error e := by
  cases x <;> simp [Functor.map, Except.map]

/-- A step for each element of a list succeeds when every one of them does. -/
theorem mapM_eq_ok_iff {f : α → Except ε β} {as : List α} {bs : List β} :
    as.mapM f = .ok bs ↔ List.Forall₂ (fun a b => f a = .ok b) as bs := by
  induction as generalizing bs with
  | nil => cases bs <;> simp [pure_eq_ok_iff]
  | cons a as ih =>
    rw [List.mapM_cons, bind_eq_ok_iff]
    constructor
    · rintro ⟨b, hb, h⟩
      obtain ⟨cs, hcs, h⟩ := bind_eq_ok_iff.1 h
      rw [← pure_eq_ok_iff.1 h]
      exact .cons hb (ih.1 hcs)
    · rintro (_ | ⟨hb, h⟩)
      exact ⟨_, hb, bind_eq_ok_iff.2 ⟨_, ih.2 h, rfl⟩⟩

/-- Two steps for each element of a list can be made one after the other for the whole list. -/
theorem mapM_bind_eq_ok_iff {γ : Type} {f : α → Except ε β} {h : β → Except ε γ} {as : List α}
    {cs : List γ} :
    as.mapM (fun a => f a >>= h) = .ok cs ↔ ∃ bs, as.mapM f = .ok bs ∧ bs.mapM h = .ok cs := by
  simp only [mapM_eq_ok_iff]
  induction as generalizing cs with
  | nil =>
    constructor
    · rintro ⟨⟩
      exact ⟨[], .nil, .nil⟩
    · rintro ⟨_, ⟨⟩, ⟨⟩⟩
      exact .nil
  | cons a as ih =>
    constructor
    · rintro (_ | ⟨hc, hcs⟩)
      obtain ⟨b, hb, hc⟩ := bind_eq_ok_iff.1 hc
      obtain ⟨bs, hbs, hcs⟩ := ih.1 hcs
      exact ⟨b :: bs, .cons hb hbs, .cons hc hcs⟩
    · rintro ⟨_, _ | ⟨hb, hbs⟩, _ | ⟨hc, hcs⟩⟩
      exact .cons (bind_eq_ok_iff.2 ⟨_, hb, hc⟩) (ih.2 ⟨_, hbs, hcs⟩)

theorem mapM_zipWith_eq_ok_iff {γ : Type} {f : α → Except ε β} {h : α → β → γ} {as : List α}
    {cs : List γ} :
    as.mapM (fun a => h a <$> f a) = .ok cs ↔
      ∃ bs, as.mapM f = .ok bs ∧ List.zipWith h as bs = cs := by
  simp only [mapM_eq_ok_iff, map_eq_ok_iff]
  induction as generalizing cs with
  | nil =>
    constructor
    · rintro ⟨⟩
      exact ⟨[], .nil, rfl⟩
    · rintro ⟨_, ⟨⟩, rfl⟩
      exact .nil
  | cons a as ih =>
    constructor
    · rintro (_ | ⟨⟨b, hb, rfl⟩, hcs⟩)
      obtain ⟨bs, hbs, rfl⟩ := ih.1 hcs
      exact ⟨b :: bs, .cons hb hbs, rfl⟩
    · rintro ⟨_, _ | ⟨hb, hbs⟩, rfl⟩
      exact .cons ⟨_, hb, rfl⟩ (ih.2 ⟨_, hbs, rfl⟩)

theorem mapM_map_eq_ok_iff {γ : Type} {f : α → Except ε β} {h : β → γ} {as : List α} {cs : List γ} :
    as.mapM (fun a => h <$> f a) = .ok cs ↔ ∃ bs, as.mapM f = .ok bs ∧ bs.map h = cs := by
  have hpure : ∀ bs : List β, bs.mapM (fun b => (pure (h b) : Except ε γ)) = .ok (bs.map h) :=
    fun bs => List.mapM_pure
  simp only [map_eq_pure_bind, mapM_bind_eq_ok_iff, hpure, Except.ok.injEq]

theorem exists_mapM_eq_ok {f : α → Except ε β} {as : List α} (h : ∀ a ∈ as, ∃ b, f a = .ok b) :
    ∃ bs, as.mapM f = .ok bs := by
  simp only [mapM_eq_ok_iff]
  exact exists_forall₂_iff.2 h

theorem mapM_congr_of_mem {f h : α → Except ε β} {as : List α} (hf : ∀ a ∈ as, f a = h a) :
    as.mapM f = as.mapM h := by
  induction as with
  | nil => rfl
  | cons a as ih =>
    obtain ⟨ha, has⟩ := List.forall_mem_cons.1 hf
    rw [List.mapM_cons, List.mapM_cons, ha, ih has]

theorem mapM_eq_ok_congr {f h : α → Except ε β} {as : List α} {bs : List β}
    (hf : ∀ a ∈ as, ∀ b, f a = .ok b ↔ h a = .ok b) :
    as.mapM f = .ok bs ↔ as.mapM h = .ok bs := by
  simp only [mapM_eq_ok_iff]
  induction as generalizing bs with
  | nil => cases bs <;> simp
  | cons a as ih =>
    obtain ⟨ha, has⟩ := List.forall_mem_cons.1 hf
    cases bs with
    | nil => simp
    | cons b bs => rw [List.forall₂_cons, List.forall₂_cons, ha, ih has]

theorem bind_congr_of_ok {x : Except ε α} {f h : α → Except ε β} (hf : ∀ a, x = .ok a → f a = h a) :
    (x >>= f) = x >>= h := by
  cases x with
  | ok a => exact hf a rfl
  | error e => rfl

theorem forM_eq_ok_iff {f : α → Except ε PUnit} {as : List α} :
    as.forM f = .ok () ↔ ∀ a ∈ as, f a = .ok () := by
  induction as with
  | nil => simp [pure, Except.pure]
  | cons a as ih => rw [List.forM, then_eq_ok_iff, ih, List.forall_mem_cons]

/-- A step for each element of a list that fails does so at the first element for which it fails. -/
theorem exists_of_mapM_eq_error {f : α → Except ε β} {as : List α} {e : ε}
    (h : as.mapM f = .error e) :
    ∃ before a after, as = before ++ a :: after ∧ (∀ b ∈ before, ∃ c, f b = .ok c) ∧
      f a = .error e := by
  induction as with
  | nil => cases h
  | cons a as ih =>
    rw [List.mapM_cons] at h
    obtain ha | ⟨c, ha, h⟩ := bind_eq_error_iff.1 h
    · exact ⟨[], a, as, rfl, by simp, ha⟩
    · obtain htail | ⟨cs, -, ⟨⟩⟩ := bind_eq_error_iff.1 h
      obtain ⟨before, a', after, rfl, hbefore, ha'⟩ := ih htail
      exact ⟨a :: before, a', after, rfl, List.forall_mem_cons.2 ⟨⟨c, ha⟩, hbefore⟩, ha'⟩

/-- A run that fails fails at one of its steps. -/
theorem exists_of_foldlM_eq_error {f : β → α → Except ε β} {as : List α} {b : β} {e : ε}
    (h : as.foldlM f b = .error e) :
    ∃ before a after b', as = before ++ a :: after ∧ before.foldlM f b = .ok b' ∧
      f b' a = .error e := by
  induction as generalizing b with
  | nil => cases h
  | cons a as ih =>
    rw [List.foldlM_cons] at h
    obtain ha | ⟨b₁, ha, h⟩ := bind_eq_error_iff.1 h
    · exact ⟨[], a, as, b, rfl, rfl, ha⟩
    · obtain ⟨before, a', after, b', rfl, hbefore, ha'⟩ := ih h
      refine ⟨a :: before, a', after, b', rfl, ?_, ha'⟩
      rw [List.foldlM_cons, ha]
      exact hbefore

/-! ## Outcomes of a kind -/

/-- A value with a property, or a failure with one. -/
def Settles (P : α → Prop) (E : ε → Prop) : Except ε α → Prop
  | .ok a => P a
  | .error e => E e

instance {P : α → Prop} {E : ε → Prop} [DecidablePred P] [DecidablePred E] :
    DecidablePred (Settles P E)
  | .ok a => inferInstanceAs (Decidable (P a))
  | .error e => inferInstanceAs (Decidable (E e))

section settles

variable {P : α → Prop} {Q : β → Prop} {E : ε → Prop} {x : Except ε α}

/-- Nothing is said about a failure. -/
theorem Settles.of_forall_ok (h : ∀ a, x = .ok a → P a) : Settles P (fun _ => True) x := by
  cases x with
  | ok a => exact h a rfl
  | error e => trivial

/-- The outcome is a value, and which one is left open. -/
theorem Settles.exists_ok (h : Settles P (fun _ => False) x) : ∃ a, x = .ok a ∧ P a := by
  cases x with
  | ok a => exact ⟨a, rfl, h⟩
  | error e => exact h.elim

theorem Settles.of_ok (h : Settles P E x) {a : α} (hx : x = .ok a) : P a := by
  subst hx
  exact h

theorem Settles.of_error (h : Settles P E x) {e : ε} (hx : x = .error e) : E e := by
  subst hx
  exact h

theorem Settles.imp {P' : α → Prop} (h : Settles P E x) (hp : ∀ a, x = .ok a → P a → P' a) :
    Settles P' E x := by
  cases x with
  | ok a => exact hp a rfl h
  | error e => exact h

theorem Settles.imp_error {E' : ε → Prop} (h : Settles P E x) (he : ∀ e, E e → E' e) :
    Settles P E' x := by
  cases x with
  | ok a => exact h
  | error e => exact he e h

theorem Settles.bind {f : α → Except ε β} (h : Settles P E x)
    (hf : ∀ a, x = .ok a → P a → Settles Q E (f a)) : Settles Q E (x >>= f) := by
  cases x with
  | ok a => exact hf a rfl h
  | error e => exact h

theorem Settles.map {f : α → β} (h : Settles P E x) (hf : ∀ a, x = .ok a → P a → Q (f a)) :
    Settles Q E (f <$> x) := by
  cases x with
  | ok a => exact hf a rfl h
  | error e => exact h

theorem Settles.mapError {E' : ε' → Prop} {f : ε → ε'} (h : Settles P E x)
    (hf : ∀ e, E e → E' (f e)) : Settles P E' (x.mapError f) := by
  cases x with
  | ok a => exact h
  | error e => exact hf e h

/-- A step for each element of a list settles when every one of them does. -/
theorem Settles.mapM {f : α → Except ε β} {as : List α} {R : α → β → Prop}
    (h : ∀ a ∈ as, Settles (R a) E (f a)) : Settles (List.Forall₂ R as) E (as.mapM f) := by
  induction as with
  | nil => exact .nil
  | cons a as ih =>
    obtain ⟨ha, has⟩ := List.forall_mem_cons.1 h
    rw [List.mapM_cons]
    refine ha.bind fun b _ hb => (ih has).bind fun bs _ hbs => ?_
    exact .cons hb hbs

/-- What every step of a run keeps, the run keeps. -/
theorem Settles.foldlM {f : β → α → Except ε β} (h : ∀ b, Q b → ∀ a, Settles Q E (f b a))
    (as : List α) {b : β} (hb : Q b) : Settles Q E (as.foldlM f b) := by
  induction as generalizing b with
  | nil => exact hb
  | cons a as ih =>
    rw [List.foldlM_cons]
    exact (h b hb a).bind fun b' _ hb' => ih hb'

theorem Settles.forM {f : α → Except ε PUnit} {R : PUnit → Prop} {as : List α} (hunit : R ⟨⟩)
    (h : ∀ a ∈ as, Settles (fun _ => True) E (f a)) : Settles R E (as.forM f) := by
  induction as with
  | nil => exact hunit
  | cons a as ih =>
    obtain ⟨ha, has⟩ := List.forall_mem_cons.1 h
    rw [List.forM]
    exact ha.bind fun _ _ _ => ih has

end settles

/-! ## Outcomes that agree -/

/-- Two outcomes are one value, or both are failures. -/
def Agree : Except ε α → Except ε' α → Prop
  | .ok a, .ok b => a = b
  | .error _, .error _ => True
  | _, _ => False

theorem agree_iff {x : Except ε α} {y : Except ε' α} : Agree x y ↔ ∀ a, x = .ok a ↔ y = .ok a := by
  cases x <;> cases y <;> simp [Agree]

/-- Outcomes that agree are the same where they can fail in one way only. -/
theorem Agree.eq_of_settles {P Q : α → Prop} {f : ε} {x y : Except ε α} (h : Agree x y)
    (hx : Settles P (· = f) x) (hy : Settles Q (· = f) y) : x = y := by
  cases x with
  | ok a => exact ((agree_iff.1 h a).1 rfl).symm
  | error e =>
    cases y with
    | ok b => exact h.elim
    | error e' => exact congrArg Except.error (Eq.trans hx (Eq.symm hy))

end Shapewise.Outcome
