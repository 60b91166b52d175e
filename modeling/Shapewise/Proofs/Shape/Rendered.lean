import Shapewise.Proofs.Shape.Proper
import Shapewise.Proofs.Text.Scan
import Shapewise.Shape.Render
import Shapewise.Text.Class

/-!
# The text of a shape tells the shape

Where keys and literal values are made of letters, digits and underscores, the text of a shape can be
read in one way only, up to calculations, which are written as their results (`render_eq_iff`). The
text is read from its front, with any text behind it in which no shape can go on (`Ends`). What makes
this less than plain is that ` | ` stands before a further literal value as well as before `null`, that
`| null` is written behind what it belongs to, and that a literal without values is not written at all.
So a shape is told together with how many times it is made nullable behind (`Told`).
-/

namespace Shapewise.Shape

open Text

/-! ## Shapes made of words -/

/-- A text of letters, digits and underscores. -/
def IsWord (s : String) : Prop :=
  ∀ c ∈ s.toList, isWord c = true

mutual
/-- Keys and literal values are made of letters, digits and underscores, and only an object's own keys
may be absent from it. -/
def Worded : Shape → Prop
  | .scalar _ => True
  | .literal values => ∀ v ∈ values, IsWord v
  | .object fields optionalKeys =>
    (∀ k ∈ optionalKeys, k ∈ Entries.keys fields) ∧ WordedFields fields
  | .array element => Worded element
  | .nullable inner => Worded inner
  | .calculation result _ _ => Worded result
/-- The keys of all fields are words, and their shapes are made of words. -/
def WordedFields : List (String × Shape) → Prop
  | [] => True
  | (k, s) :: fs => IsWord k ∧ Worded s ∧ WordedFields fs
end

mutual
/-- The shape with its result in the place of every calculation. -/
def uncalculated : Shape → Shape
  | .scalar type => .scalar type
  | .literal values => .literal values
  | .object fields optionalKeys => .object (uncalculatedFields fields) optionalKeys
  | .array element => .array (uncalculated element)
  | .nullable inner => .nullable (uncalculated inner)
  | .calculation result _ _ => uncalculated result
/-- The fields with results in the place of calculations. -/
def uncalculatedFields : List (String × Shape) → List (String × Shape)
  | [] => []
  | (k, s) :: fs => (k, uncalculated s) :: uncalculatedFields fs
end

variable {a b : Shape} {fs gs : List (String × Shape)} {os ps : NameSet} {k l : String}
  {vs ws : List String} {n m : Nat} {r s u v : List Char}

theorem wordedFields_iff : WordedFields fs ↔ ∀ f ∈ fs, IsWord f.1 ∧ Worded f.2 := by
  induction fs with
  | nil => simp [WordedFields]
  | cons f fs ih =>
    obtain ⟨k, s⟩ := f
    simp [WordedFields, ih, and_assoc]

theorem worded_object_iff :
    Worded (.object fs os) ↔
      (∀ k ∈ os, k ∈ Entries.keys fs) ∧ ∀ f ∈ fs, IsWord f.1 ∧ Worded f.2 := by
  rw [Worded, wordedFields_iff]

theorem keys_uncalculatedFields : Entries.keys (uncalculatedFields fs) = Entries.keys fs := by
  induction fs with
  | nil => rfl
  | cons f fs ih =>
    obtain ⟨k, s⟩ := f
    rw [uncalculatedFields, Entries.keys_cons, Entries.keys_cons, ih]

/-! ## Texts, character by character -/

/-- The characters of a shape's text. -/
def text (s : Shape) : List Char :=
  s.render.toList

/-- So many times `| null`, and the text behind. -/
def nulls : Nat → List Char → List Char
  | 0, rest => rest
  | n + 1, rest => ' ' :: '|' :: ' ' :: 'n' :: 'u' :: 'l' :: 'l' :: nulls n rest

/-- The values of a literal behind its first one. -/
def laterValues : List String → List Char
  | [] => []
  | v :: vs => ' ' :: '|' :: ' ' :: '"' :: (v.toList ++ '"' :: laterValues vs)

/-- A field of an object: its key, the mark of one that may be absent, and its shape. -/
def fieldText (optionalKeys : NameSet) (field : String × Shape) : List Char :=
  field.1.toList ++
    ((if field.1 ∈ optionalKeys then ['?'] else []) ++ ':' :: ' ' :: field.2.text)

/-- The fields of an object behind its first one, and the closing brace. -/
def laterFields (optionalKeys : NameSet) : List (String × Shape) → List Char
  | [] => ['}']
  | f :: fs => ',' :: ' ' :: (fieldText optionalKeys f ++ laterFields optionalKeys fs)

theorem text_nullable : (nullable a).text ++ nulls n r = a.text ++ nulls (n + 1) r := by
  simp [text, render, nulls]

theorem text_array :
    (array a).text = 'A' :: 'r' :: 'r' :: 'a' :: 'y' :: '<' :: (a.text ++ ['>']) := by
  simp [text, render]

/-- The first two parts of joined texts, and the text between them. -/
theorem toList_intercalate (separator p q : String) (parts : List String) :
    (String.intercalate separator (p :: q :: parts)).toList =
      p.toList ++ (separator.toList ++ (String.intercalate separator (q :: parts)).toList) := by
  simp [String.toList_intercalate, List.intercalate]

theorem text_literal_nil : (literal []).text = [] := by
  simp [text, render]

theorem text_literal_cons (w : String) :
    (literal (w :: vs)).text = '"' :: (w.toList ++ '"' :: laterValues vs) := by
  induction vs generalizing w with
  | nil => simp [text, render, laterValues]
  | cons v vs ih =>
    have hv := ih v
    rw [text, render, List.map_cons] at hv
    rw [text, render, List.map_cons, List.map_cons, toList_intercalate, hv]
    simp [laterValues]

theorem toList_renderField (f : String × Shape) :
    (f.1 ++ keyMark os f.1 ++ ": " ++ f.2.render).toList = fieldText os f := by
  rw [keyMark, fieldText, text]
  split <;> simp

theorem text_object_nil : (object [] os).text = ['{', '}'] := by
  simp [text, render, renderFields]

theorem text_object_cons (f : String × Shape) :
    (object (f :: fs) os).text = '{' :: (fieldText os f ++ laterFields os fs) := by
  have hfields : (String.intercalate ", " (renderFields os (f :: fs))).toList ++ ['}'] =
      fieldText os f ++ laterFields os fs := by
    induction fs generalizing f with
    | nil => simp [renderFields, laterFields, ← toList_renderField]
    | cons g fs ih =>
      have hg := ih g
      rw [renderFields] at hg
      rw [renderFields, renderFields, toList_intercalate, toList_renderField, List.append_assoc,
        List.append_assoc, hg]
      rfl
  rw [text, render, ← hfields]
  simp

/-! ## Where texts end -/

/-- What may stand behind a shape that goes on no further: nothing, or what ends or parts the things
that shapes stand in. -/
def Ends (rest : List Char) : Prop :=
  ∀ c ∈ rest.head?, c = ',' ∨ c = '}' ∨ c = '>'

theorem ends_nil : Ends [] := by
  simp [Ends]

theorem ends_laterFields : Ends (laterFields os fs ++ r) := by
  cases fs <;> simp [Ends, laterFields]

/-- How many times `null` follows is told by the text. -/
theorem nulls_inj (hr : Ends r) (hs : Ends s) (h : nulls n r = nulls m s) : n = m ∧ r = s := by
  induction n generalizing m with
  | zero =>
    cases m with
    | zero => exact ⟨rfl, h⟩
    | succ m =>
      rw [nulls, nulls] at h
      simp [Ends, h] at hr
  | succ n ih =>
    cases m with
    | zero =>
      rw [nulls, nulls] at h
      simp [Ends, ← h] at hs
    | succ m =>
      simp only [nulls, List.cons.injEq, true_and] at h
      obtain ⟨rfl, hrs⟩ := ih h
      exact ⟨rfl, hrs⟩

/-- No value of a literal stands there, neither a first one nor one behind others. -/
theorem nulls_ne_value (hr : Ends r) (t : List Char) :
    nulls n r ≠ '"' :: t ∧ nulls n r ≠ ' ' :: '|' :: ' ' :: '"' :: t := by
  cases n with
  | zero =>
    constructor <;> intro h
    all_goals
      rw [nulls] at h
      simp [Ends, h] at hr
  | succ n => simp [nulls]

/-- Two words are the same where texts that start with them are, if neither goes on behind. -/
theorem word_append_inj (hu : ∀ c ∈ u, isWord c = true) (hv : ∀ c ∈ v, isWord c = true)
    (hr : ∀ c ∈ r.head?, isWord c = false) (hs : ∀ c ∈ s.head?, isWord c = false)
    (h : u ++ r = v ++ s) : u = v ∧ r = s := by
  have huv : u = v := by
    rw [← takeWhile_append_of_head hu hr, h, takeWhile_append_of_head hv hs]
  subst huv
  exact ⟨rfl, List.append_cancel_left h⟩

theorem quoted_inj {w x : String} (hw : IsWord w) (hx : IsWord x)
    (h : w.toList ++ '"' :: r = x.toList ++ '"' :: s) : w = x ∧ r = s := by
  have hquote : ∀ t, ∀ c ∈ ('"' :: t).head?, isWord c = false := by
    intro t c hc
    cases hc
    decide
  obtain ⟨hwx, hrs⟩ := word_append_inj hw hx (hquote r) (hquote s) h
  exact ⟨String.toList_inj.1 hwx, (List.cons.inj hrs).2⟩

/-- The values of a literal are told by its text, since no value stands without quotes. -/
theorem laterValues_inj (hv : ∀ v ∈ vs, IsWord v) (hw : ∀ w ∈ ws, IsWord w) (hr : Ends r)
    (hs : Ends s) (h : laterValues vs ++ nulls n r = laterValues ws ++ nulls m s) :
    vs = ws ∧ n = m ∧ r = s := by
  induction vs generalizing ws with
  | nil =>
    cases ws with
    | nil => exact ⟨rfl, nulls_inj hr hs h⟩
    | cons w ws => exact absurd h (nulls_ne_value hr _).2
  | cons v vs ih =>
    cases ws with
    | nil => exact absurd h.symm (nulls_ne_value hs _).2
    | cons w ws =>
      obtain ⟨hv, hvs⟩ := List.forall_mem_cons.1 hv
      obtain ⟨hw, hws⟩ := List.forall_mem_cons.1 hw
      simp only [laterValues, List.cons_append, List.append_assoc, List.cons.injEq, true_and] at h
      obtain ⟨rfl, hlater⟩ := quoted_inj hv hw h
      obtain ⟨rfl, hrest⟩ := ih hvs hws hlater
      exact ⟨rfl, hrest⟩

/-! ## Telling a shape from its text -/

/-- The shape made nullable so many times. -/
def nullableTimes : Nat → Shape → Shape
  | 0, s => s
  | n + 1, s => nullableTimes n (.nullable s)

/-- A shape is told by any text that starts with its own: calculations apart, each shape whose text
starts it is the same and is made nullable as often, and the rest of the text is the same too. -/
def Told (a : Shape) : Prop :=
  ∀ b n m r s, Worded b → Ends r → Ends s → a.text ++ nulls n r = b.text ++ nulls m s →
    nullableTimes n a.uncalculated = nullableTimes m b.uncalculated ∧ r = s

/-- A shape that is neither nullable nor a calculation. -/
def IsCore : Shape → Prop
  | .nullable _ => False
  | .calculation _ _ _ => False
  | _ => True

/-- The kind of shape that a text starts with, which its first character tells. A literal without
values leaves the text to what is behind it. -/
def kindOf : List Char → Nat
  | 's' :: _ => 0
  | 'n' :: _ => 0
  | 'b' :: _ => 0
  | 'u' :: _ => 0
  | '{' :: _ => 2
  | 'A' :: _ => 3
  | _ => 1

theorem kindOf_nulls (hr : Ends r) : kindOf (nulls n r) = 1 := by
  cases n with
  | zero =>
    cases r with
    | nil => rfl
    | cons c r =>
      obtain rfl | rfl | rfl := hr c rfl <;> rfl
  | succ n => rfl

theorem kindOf_text (ha : IsCore a) (hr : Ends r) : kindOf (a.text ++ nulls n r) = a.ctorIdx := by
  cases a with
  | scalar type => cases type <;> rfl
  | literal values =>
    cases values with
    | nil => exact kindOf_nulls hr
    | cons v vs =>
      rw [text_literal_cons]
      rfl
  | object fields os =>
    cases fields with
    | nil =>
      rw [text_object_nil]
      rfl
    | cons f fs =>
      rw [text_object_cons]
      rfl
  | array a =>
    rw [text_array]
    rfl
  | nullable a => exact ha.elim
  | calculation a x t => exact ha.elim

/-- What starts one text is of one kind. -/
theorem kind_eq_of_text (ha : IsCore a) (hb : IsCore b) (hr : Ends r) (hs : Ends s)
    (h : a.text ++ nulls n r = b.text ++ nulls m s) : b.ctorIdx = a.ctorIdx := by
  rw [← kindOf_text hb hs, ← h, kindOf_text ha hr]

/-- A core is told when it is told from the shapes of its own kind; those inside nullable shapes and
calculations are met behind the same text. -/
theorem told_of_core (ha : IsCore a)
    (h : ∀ b n m r s, b.ctorIdx = a.ctorIdx → Worded b → Ends r → Ends s →
      a.text ++ nulls n r = b.text ++ nulls m s →
      nullableTimes n a.uncalculated = nullableTimes m b.uncalculated ∧ r = s) : Told a := by
  intro b
  induction b with
  | nullable b ih =>
    intro n m r s hb hr hs he
    rw [text_nullable] at he
    exact ih n (m + 1) r s hb hr hs he
  | calculation b x t ih => exact ih
  | scalar | literal | object | array =>
    intro n m r s hb hr hs he
    exact h _ n m r s (kind_eq_of_text ha trivial hr hs he) hb hr hs he

/-! ## Leaves -/

theorem scalarName_inj {type other : Scalar}
    (h : type.name.toList ++ r = other.name.toList ++ s) : type = other ∧ r = s := by
  cases type <;> cases other <;> simp [Scalar.name] at h ⊢
  all_goals exact h

theorem told_scalar (type : Scalar) : Told (.scalar type) := by
  refine told_of_core (a := .scalar type) trivial ?_
  intro b n m r s hkind hb hr hs h
  cases b with
  | scalar other =>
    obtain ⟨rfl, hnulls⟩ := scalarName_inj h
    obtain ⟨rfl, hrs⟩ := nulls_inj hr hs hnulls
    exact ⟨rfl, hrs⟩
  | _ => simp [Shape.ctorIdx] at hkind

theorem literalText_inj (hv : ∀ v ∈ vs, IsWord v) (hw : ∀ w ∈ ws, IsWord w) (hr : Ends r)
    (hs : Ends s) (h : (literal vs).text ++ nulls n r = (literal ws).text ++ nulls m s) :
    vs = ws ∧ n = m ∧ r = s := by
  cases vs with
  | nil =>
    cases ws with
    | nil => exact ⟨rfl, nulls_inj hr hs h⟩
    | cons w ws =>
      rw [text_literal_nil, text_literal_cons] at h
      exact absurd h (nulls_ne_value hr _).1
  | cons v vs =>
    cases ws with
    | nil =>
      rw [text_literal_nil, text_literal_cons] at h
      exact absurd h.symm (nulls_ne_value hs _).1
    | cons w ws =>
      obtain ⟨hv, hvs⟩ := List.forall_mem_cons.1 hv
      obtain ⟨hw, hws⟩ := List.forall_mem_cons.1 hw
      rw [text_literal_cons, text_literal_cons] at h
      simp only [List.cons_append, List.append_assoc, List.cons.injEq, true_and] at h
      obtain ⟨rfl, hlater⟩ := quoted_inj hv hw h
      obtain ⟨rfl, hrest⟩ := laterValues_inj hvs hws hr hs hlater
      exact ⟨rfl, hrest⟩

theorem told_literal (hv : ∀ v ∈ vs, IsWord v) : Told (.literal vs) := by
  refine told_of_core (a := .literal vs) trivial ?_
  intro b n m r s hkind hb hr hs h
  cases b with
  | literal ws =>
    obtain ⟨rfl, rfl, hrs⟩ := literalText_inj hv hb hr hs h
    exact ⟨rfl, hrs⟩
  | _ => simp [Shape.ctorIdx] at hkind

/-! ## Arrays and objects -/

theorem told_array (ha : Told a) : Told (.array a) := by
  refine told_of_core (a := .array a) trivial ?_
  intro b n m r s hkind hb hr hs h
  have hclose : ∀ t, Ends ('>' :: t) := by
    intro t
    simp [Ends]
  cases b with
  | array b =>
    rw [text_array, text_array] at h
    simp only [List.cons_append, List.append_assoc, List.nil_append, List.cons.injEq, true_and] at h
    obtain ⟨hab, hnulls⟩ := ha b 0 0 _ _ hb (hclose _) (hclose _) h
    obtain ⟨rfl, hrs⟩ := nulls_inj hr hs (List.cons.inj hnulls).2
    have hab : a.uncalculated = b.uncalculated := hab
    rw [uncalculated, uncalculated, hab]
    exact ⟨rfl, hrs⟩
  | _ => simp [Shape.ctorIdx] at hkind

/-- A field is told by its text, where its shape is. -/
theorem fieldText_inj (hk : IsWord k) (hl : IsWord l) (ha : Told a) (hb : Worded b) (hr : Ends r)
    (hs : Ends s) (h : fieldText os (k, a) ++ r = fieldText ps (l, b) ++ s) :
    (k = l ∧ (k ∈ os ↔ l ∈ ps)) ∧ a.uncalculated = b.uncalculated ∧ r = s := by
  have hmark : ∀ (q : Prop) [Decidable q] (t : List Char),
      ∀ c ∈ ((if q then ['?'] else []) ++ ':' :: t).head?, isWord c = false := by
    intro q _ t c hc
    split at hc
    · cases hc
      decide
    · cases hc
      decide
  have hmarks : ∀ (p q : Prop) [Decidable p] [Decidable q] (t t' : List Char),
      (if p then ['?'] else []) ++ ':' :: t = (if q then ['?'] else []) ++ ':' :: t' →
        (p ↔ q) ∧ t = t' := by
    intro p q _ _ t t' he
    by_cases hp : p <;> by_cases hq : q <;> simp [hp, hq] at he ⊢
    · exact he
    · exact he
  simp only [fieldText, List.append_assoc, List.cons_append] at h
  obtain ⟨hkl, h⟩ := word_append_inj hk hl (hmark _ _) (hmark _ _) h
  obtain ⟨hmem, h⟩ := hmarks _ _ _ _ h
  obtain ⟨hab, hrs⟩ := ha b 0 0 r s hb hr hs (List.cons.inj h).2
  exact ⟨⟨String.toList_inj.1 hkl, hmem⟩, hab, hrs⟩

/-- The fields of an object are told by their texts, where their shapes are. -/
theorem laterFields_inj (hf : ∀ f ∈ fs, IsWord f.1 ∧ Told f.2)
    (hg : ∀ g ∈ gs, IsWord g.1 ∧ Worded g.2) (h : laterFields os fs ++ r = laterFields ps gs ++ s) :
    uncalculatedFields fs = uncalculatedFields gs ∧
      (∀ k ∈ Entries.keys fs, k ∈ os ↔ k ∈ ps) ∧ r = s := by
  induction fs generalizing gs with
  | nil =>
    cases gs with
    | nil => simpa [laterFields, uncalculatedFields] using h
    | cons g gs => simp [laterFields] at h
  | cons f fs ih =>
    cases gs with
    | nil => simp [laterFields] at h
    | cons g gs =>
      obtain ⟨k, a⟩ := f
      obtain ⟨l, b⟩ := g
      obtain ⟨⟨hk, ha⟩, hfs⟩ := List.forall_mem_cons.1 hf
      obtain ⟨⟨hl, hb⟩, hgs⟩ := List.forall_mem_cons.1 hg
      simp only [laterFields, List.cons_append, List.append_assoc, List.cons.injEq, true_and] at h
      obtain ⟨⟨rfl, hmem⟩, hab, hlater⟩ :=
        fieldText_inj hk hl ha hb ends_laterFields ends_laterFields h
      obtain ⟨hfields, hmarks, hrs⟩ := ih hfs hgs hlater
      refine ⟨?_, ?_, hrs⟩
      · rw [uncalculatedFields, uncalculatedFields, hab, hfields]
      · rw [Entries.keys_cons, List.forall_mem_cons]
        exact ⟨hmem, hmarks⟩

/-- An object is told by its text, where the shapes of its fields are. -/
theorem object_text_inj (hf : ∀ f ∈ fs, IsWord f.1 ∧ Told f.2)
    (hg : ∀ g ∈ gs, IsWord g.1 ∧ Worded g.2)
    (h : (object fs os).text ++ r = (object gs ps).text ++ s) :
    uncalculatedFields fs = uncalculatedFields gs ∧
      (∀ k ∈ Entries.keys fs, k ∈ os ↔ k ∈ ps) ∧ r = s := by
  -- Behind the brace both stand as they would behind a comma, unless one of them has no fields.
  have hnone : ∀ (f : String × Shape) (t t' : List Char) (os : NameSet),
      IsWord f.1 → fieldText os f ++ t ≠ '}' :: t' := by
    intro f t t' os hword he
    rw [fieldText] at he
    cases hkey : f.1.toList with
    | nil =>
      rw [hkey] at he
      split at he <;> simp at he
    | cons c cs =>
      have hc : isWord c = true := hword c (hkey ▸ List.mem_cons_self)
      rw [hkey] at he
      obtain rfl : c = '}' := (List.cons.inj he).1
      exact absurd hc (by decide)
  cases fs with
  | nil =>
    cases gs with
    | nil =>
      rw [text_object_nil, text_object_nil] at h
      simpa [uncalculatedFields] using h
    | cons g gs =>
      rw [text_object_nil, text_object_cons] at h
      simp only [List.cons_append, List.append_assoc, List.nil_append, List.cons.injEq,
        true_and] at h
      exact absurd h.symm (hnone g _ _ ps (hg g List.mem_cons_self).1)
  | cons f fs =>
    cases gs with
    | nil =>
      rw [text_object_nil, text_object_cons] at h
      simp only [List.cons_append, List.append_assoc, List.nil_append, List.cons.injEq,
        true_and] at h
      exact absurd h (hnone f _ _ os (hf f List.mem_cons_self).1)
    | cons g gs =>
      rw [text_object_cons, text_object_cons] at h
      apply laterFields_inj hf hg
      simpa only [laterFields, List.cons_append, List.cons.injEq, true_and] using h

theorem told_object (ho : Worded (.object fs os)) (hf : ∀ f ∈ fs, Told f.2) :
    Told (.object fs os) := by
  refine told_of_core (a := .object fs os) trivial ?_
  intro b n m r s hkind hb hr hs h
  cases b with
  | object gs ps =>
    obtain ⟨hos, hfs⟩ := worded_object_iff.1 ho
    obtain ⟨hps, hgs⟩ := worded_object_iff.1 hb
    obtain ⟨hfields, hmarks, hnulls⟩ :=
      object_text_inj (fun f hfm => ⟨(hfs f hfm).1, hf f hfm⟩) hgs h
    obtain ⟨rfl, hrs⟩ := nulls_inj hr hs hnulls
    have hkeys : Entries.keys fs = Entries.keys gs := by
      rw [← keys_uncalculatedFields, hfields, keys_uncalculatedFields]
    have hoptional : os = ps := by
      refine NameSet.ext fun k => ⟨fun hk => ?_, fun hk => ?_⟩
      · exact (hmarks k (hos k hk)).1 hk
      · exact (hmarks k (hkeys ▸ hps k hk)).2 hk
    rw [uncalculated, uncalculated, hfields, hoptional]
    exact ⟨rfl, hrs⟩
  | _ => simp [Shape.ctorIdx] at hkind

/-! ## All shapes -/

theorem told (ha : Worded a) : Told a := by
  induction a with
  | scalar type => exact told_scalar type
  | literal values => exact told_literal ha
  | object fs os ih =>
    obtain ⟨-, hfs⟩ := worded_object_iff.1 ha
    exact told_object ha fun f hf => ih f hf (hfs f hf).2
  | array a ih => exact told_array (ih ha)
  | nullable a ih =>
    intro b n m r s hb hr hs h
    rw [text_nullable] at h
    exact ih ha b (n + 1) m r s hb hr hs h
  | calculation a x t ih => exact ih ha

theorem renderFields_uncalculatedFields (h : ∀ f ∈ fs, f.2.uncalculated.render = f.2.render) :
    renderFields os (uncalculatedFields fs) = renderFields os fs := by
  induction fs with
  | nil => rfl
  | cons f fs ih =>
    obtain ⟨k, s⟩ := f
    obtain ⟨hs, hfs⟩ := List.forall_mem_cons.1 h
    have hs : s.uncalculated.render = s.render := hs
    rw [uncalculatedFields, renderFields, renderFields, hs, ih hfs]

/-- Calculations are written as their results. -/
theorem render_uncalculated (a : Shape) : a.uncalculated.render = a.render := by
  induction a with
  | scalar | literal => rfl
  | object fs os ih => rw [uncalculated, render, render, renderFields_uncalculatedFields ih]
  | array a ih | nullable a ih => rw [uncalculated, render, render, ih]
  | calculation a x t ih => exact ih

/-- Two shapes have the same text exactly when they are the same, key order included, with results in
the place of calculations. -/
theorem render_eq_iff (ha : Worded a) (hb : Worded b) :
    a.render = b.render ↔ a.uncalculated = b.uncalculated := by
  constructor
  · intro h
    have htext : a.text ++ nulls 0 [] = b.text ++ nulls 0 [] := by
      rw [text, text, h]
    exact (told ha b 0 0 [] [] hb ends_nil ends_nil htext).1
  · intro h
    rw [← render_uncalculated a, h, render_uncalculated]

/-- A record with an optional owner, the kind of which is a literal that may be null, and a rank. -/
def ownedRank : Shape :=
  .object [("owner", .nullable (.record [("kind", .nullable (.literal ["user", "team_1"]))])),
    ("rank", .calculation (.array (.scalar .number)) (.obj [("scale", .int 1)]) none)]
    (.ofList ["owner"])

/-- The same record without the arguments of the rank. -/
def ownedNumbers : Shape :=
  .object [("owner", .nullable (.record [("kind", .nullable (.literal ["user", "team_1"]))])),
    ("rank", .array (.scalar .number))] (.ofList ["owner"])

theorem render_eq_iff_owned : Worded ownedRank ∧ Worded ownedNumbers ∧
    (ownedRank.render = ownedNumbers.render ↔
      ownedRank.uncalculated = ownedNumbers.uncalculated) := by
  have hrank : Worded ownedRank := by
    simp [ownedRank, record, Worded, WordedFields, IsWord, Entries.keys]
    decide
  have hnumbers : Worded ownedNumbers := by
    simp [ownedNumbers, record, Worded, WordedFields, IsWord, Entries.keys]
    decide
  exact ⟨hrank, hnumbers, render_eq_iff hrank hnumbers⟩

end Shapewise.Shape
