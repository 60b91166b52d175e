import Shapewise.Proofs.Entries
import Shapewise.Selection.Reading

/-!
# The grammar of selection text

The derivation trees of the grammar, one type for each of its symbols and one constructor for each
of its productions; two productions that differ in the comma at the end of a list are one
constructor with a flag. A tree has the tokens that it derives and the meaning that the productions
give to it:

* `selection`: nothing, or `fields` and perhaps a comma;
* `fields`: a `field`, or `fields`, a comma and a `field`;
* `field`: a name, perhaps with `arguments` and perhaps with a `selection` in braces;
* `arguments`: in parentheses nothing, or `argument list` and perhaps a comma;
* `argument list`: an `argument`, or `argument list`, a comma and an `argument`;
* `argument`: a name, a colon and a `value`;
* `value`: a literal, or in brackets nothing or `values` and perhaps a comma;
* `values`: a `value`, or `values`, a comma and a `value`.

Only the commas at the ends of lists leave no trace in the meaning: trees that mean the same are the
same without them (`SelectionTree.bare_eq`), and their tokens are those of the bare tree once the
commas before closing brackets are dropped (`SelectionTree.withoutTrailing_tokens`).
-/

namespace Shapewise.Selection

/-! ## Derivation trees -/

mutual
/-- A value. -/
inductive ValueTree
  | text (s : String)
  | int (i : Int)
  | float (x : Binary64)
  | bool (b : Bool)
  | null
  | emptyList
  | list (items : ValueListTree) (comma : Bool)
/-- Values with commas between them. -/
inductive ValueListTree
  | single (v : ValueTree)
  | more (items : ValueListTree) (v : ValueTree)
end

/-- An argument: a name, a colon and a value. -/
structure ArgumentTree where
  name : String
  value : ValueTree

/-- Arguments with commas between them. -/
inductive ArgumentListTree
  | single (a : ArgumentTree)
  | more (items : ArgumentListTree) (a : ArgumentTree)

/-- Arguments in parentheses. -/
inductive ArgumentsTree
  | empty
  | list (items : ArgumentListTree) (comma : Bool)

mutual
/-- A field. -/
inductive FieldTree
  | name (field : String)
  | block (field : String) (fields : SelectionTree)
  | call (field : String) (arguments : ArgumentsTree)
  | callBlock (field : String) (arguments : ArgumentsTree) (fields : SelectionTree)
/-- Fields with commas between them. -/
inductive FieldListTree
  | single (f : FieldTree)
  | more (items : FieldListTree) (f : FieldTree)
/-- A selection. -/
inductive SelectionTree
  | empty
  | list (items : FieldListTree) (comma : Bool)
end

/-! ## The tokens of a tree -/

/-- The comma at the end of a list, if there is one. -/
def trailing (comma : Bool) : List Token :=
  if comma then [.comma] else []

mutual
/-- The tokens of a value. -/
@[simp] def ValueTree.tokens : ValueTree → List Token
  | .text s => [.text s]
  | .int i => [.int i]
  | .float x => [.float x]
  | .bool b => [.bool b]
  | .null => [.null]
  | .emptyList => [.openBracket, .closeBracket]
  | .list items comma => .openBracket :: items.tokens ++ (trailing comma ++ [.closeBracket])
/-- The tokens of values. -/
@[simp] def ValueListTree.tokens : ValueListTree → List Token
  | .single v => v.tokens
  | .more items v => items.tokens ++ .comma :: v.tokens
end

/-- The tokens of an argument. -/
@[simp] def ArgumentTree.tokens (a : ArgumentTree) : List Token :=
  .name a.name :: .colon :: a.value.tokens

/-- The tokens of arguments. -/
@[simp] def ArgumentListTree.tokens : ArgumentListTree → List Token
  | .single a => a.tokens
  | .more items a => items.tokens ++ .comma :: a.tokens

/-- The tokens of arguments in parentheses. -/
def ArgumentsTree.tokens : ArgumentsTree → List Token
  | .empty => [.openParen, .closeParen]
  | .list items comma => .openParen :: items.tokens ++ (trailing comma ++ [.closeParen])

mutual
/-- The tokens of a field. -/
@[simp] def FieldTree.tokens : FieldTree → List Token
  | .name field => [.name field]
  | .block field fields => .name field :: .openBrace :: fields.tokens ++ [.closeBrace]
  | .call field arguments => .name field :: arguments.tokens
  | .callBlock field arguments fields =>
    .name field :: arguments.tokens ++ .openBrace :: fields.tokens ++ [.closeBrace]
/-- The tokens of fields. -/
@[simp] def FieldListTree.tokens : FieldListTree → List Token
  | .single f => f.tokens
  | .more items f => items.tokens ++ .comma :: f.tokens
/-- The tokens of a selection. -/
@[simp] def SelectionTree.tokens : SelectionTree → List Token
  | .empty => []
  | .list items comma => items.tokens ++ trailing comma
end

/-! ## The meaning of a tree -/

mutual
/-- The value that is written. -/
@[simp] def ValueTree.value : ValueTree → Value
  | .text s => .str s
  | .int i => .int i
  | .float x => .float x
  | .bool b => .bool b
  | .null => .null
  | .emptyList => .list []
  | .list items _ => .list items.values
/-- The values that are written. -/
@[simp] def ValueListTree.values : ValueListTree → List Value
  | .single v => [v.value]
  | .more items v => items.values ++ [v.value]
end

/-- The arguments as they are written, one after the other. -/
@[simp] def ArgumentListTree.entries : ArgumentListTree → List (String × Value)
  | .single a => [(a.name, a.value.value)]
  | .more items a => items.entries ++ [(a.name, a.value.value)]

/-- The arguments that are given to a calculation. -/
def ArgumentsTree.entries : ArgumentsTree → List (String × Value)
  | .empty => []
  | .list items _ => Entries.ofList items.entries

mutual
/-- The field as it stands in a selection. -/
@[simp] def FieldTree.value : FieldTree → Value
  | .name field => .str field
  | .block field fields => .obj [(field, .list fields.values)]
  | .call field arguments => .obj [(field, .obj [("args", .obj arguments.entries)])]
  | .callBlock field arguments fields =>
    .obj [(field, .obj [("args", .obj arguments.entries), ("fields", .list fields.values)])]
/-- The fields as they stand in a selection. -/
@[simp] def FieldListTree.values : FieldListTree → List Value
  | .single f => [f.value]
  | .more items f => items.values ++ [f.value]
/-- The selection that is written. -/
@[simp] def SelectionTree.values : SelectionTree → List Value
  | .empty => []
  | .list items _ => items.values
end

/-! ## Repeated arguments -/

/-- The names of arguments, in order. -/
def ArgumentListTree.names (items : ArgumentListTree) : List String :=
  Entries.keys items.entries

/-- No argument is named twice. -/
def ArgumentsTree.NamesOnce : ArgumentsTree → Prop
  | .empty => True
  | .list items _ => items.names.Nodup

mutual
/-- No argument list in a field names an argument twice. -/
@[simp] def FieldTree.NamesOnce : FieldTree → Prop
  | .name _ => True
  | .block _ fields => fields.NamesOnce
  | .call _ arguments => arguments.NamesOnce
  | .callBlock _ arguments fields => arguments.NamesOnce ∧ fields.NamesOnce
/-- No argument list in fields names an argument twice. -/
@[simp] def FieldListTree.NamesOnce : FieldListTree → Prop
  | .single f => f.NamesOnce
  | .more items f => items.NamesOnce ∧ f.NamesOnce
/-- No argument list in a selection names an argument twice. -/
@[simp] def SelectionTree.NamesOnce : SelectionTree → Prop
  | .empty => True
  | .list items _ => items.NamesOnce
end

/-- Arguments that name nothing twice are given as they are written. -/
theorem ArgumentsTree.entries_list {items : ArgumentListTree} {comma : Bool}
    (h : (ArgumentsTree.list items comma).NamesOnce) :
    (ArgumentsTree.list items comma).entries = items.entries :=
  Entries.ofList_of_distinct h

/-! ## Trees without commas at the ends -/

mutual
/-- The value without the commas at the ends of its lists. -/
@[simp] def ValueTree.bare : ValueTree → ValueTree
  | .text s => .text s
  | .int i => .int i
  | .float x => .float x
  | .bool b => .bool b
  | .null => .null
  | .emptyList => .emptyList
  | .list items _ => .list items.bare false
/-- The values without the commas at the ends of their lists. -/
@[simp] def ValueListTree.bare : ValueListTree → ValueListTree
  | .single v => .single v.bare
  | .more items v => .more items.bare v.bare
end

/-- The argument without the commas at the ends of its lists. -/
@[simp] def ArgumentTree.bare (a : ArgumentTree) : ArgumentTree :=
  ⟨a.name, a.value.bare⟩

/-- The arguments without the commas at the ends of their lists. -/
@[simp] def ArgumentListTree.bare : ArgumentListTree → ArgumentListTree
  | .single a => .single a.bare
  | .more items a => .more items.bare a.bare

/-- The arguments without the commas at the ends of their lists. -/
def ArgumentsTree.bare : ArgumentsTree → ArgumentsTree
  | .empty => .empty
  | .list items _ => .list items.bare false

mutual
/-- The field without the commas at the ends of its lists. -/
@[simp] def FieldTree.bare : FieldTree → FieldTree
  | .name field => .name field
  | .block field fields => .block field fields.bare
  | .call field arguments => .call field arguments.bare
  | .callBlock field arguments fields => .callBlock field arguments.bare fields.bare
/-- The fields without the commas at the ends of their lists. -/
@[simp] def FieldListTree.bare : FieldListTree → FieldListTree
  | .single f => .single f.bare
  | .more items f => .more items.bare f.bare
/-- The selection without the commas at the ends of its lists. -/
@[simp] def SelectionTree.bare : SelectionTree → SelectionTree
  | .empty => .empty
  | .list items _ => .list items.bare false
end

/-! ### The bare tree means the same -/

mutual
theorem ValueTree.value_bare : ∀ v : ValueTree, v.bare.value = v.value
  | .text _ | .int _ | .float _ | .bool _ | .null | .emptyList => rfl
  | .list items _ => congrArg Value.list items.values_bare
theorem ValueListTree.values_bare : ∀ items : ValueListTree, items.bare.values = items.values
  | .single v => by simp [v.value_bare]
  | .more items v => by simp [items.values_bare, v.value_bare]
end

theorem ArgumentListTree.entries_bare : ∀ items : ArgumentListTree,
    items.bare.entries = items.entries
  | .single a => by simp [a.value.value_bare]
  | .more items a => by simp [items.entries_bare, a.value.value_bare]

theorem ArgumentsTree.entries_bare : ∀ a : ArgumentsTree, a.bare.entries = a.entries
  | .empty => rfl
  | .list items _ => congrArg Entries.ofList items.entries_bare

theorem ArgumentsTree.namesOnce_bare : ∀ a : ArgumentsTree, a.bare.NamesOnce ↔ a.NamesOnce
  | .empty => .rfl
  | .list items _ => by simp [bare, NamesOnce, ArgumentListTree.names, items.entries_bare]

mutual
theorem FieldTree.value_bare : ∀ f : FieldTree, f.bare.value = f.value
  | .name _ => rfl
  | .block _ fields => by simp [fields.values_bare]
  | .call _ arguments => by simp only [FieldTree.bare, FieldTree.value, arguments.entries_bare]
  | .callBlock _ arguments fields => by
    simp only [FieldTree.bare, FieldTree.value, arguments.entries_bare, fields.values_bare]
theorem FieldListTree.values_bare : ∀ items : FieldListTree, items.bare.values = items.values
  | .single f => by simp [f.value_bare]
  | .more items f => by simp [items.values_bare, f.value_bare]
theorem SelectionTree.values_bare : ∀ s : SelectionTree, s.bare.values = s.values
  | .empty => rfl
  | .list items _ => items.values_bare
end

mutual
theorem FieldTree.namesOnce_bare : ∀ f : FieldTree, f.bare.NamesOnce ↔ f.NamesOnce
  | .name _ => .rfl
  | .block _ fields => fields.namesOnce_bare
  | .call _ arguments => arguments.namesOnce_bare
  | .callBlock _ arguments fields => and_congr arguments.namesOnce_bare fields.namesOnce_bare
theorem FieldListTree.namesOnce_bare : ∀ items : FieldListTree,
    items.bare.NamesOnce ↔ items.NamesOnce
  | .single f => f.namesOnce_bare
  | .more items f => and_congr items.namesOnce_bare f.namesOnce_bare
theorem SelectionTree.namesOnce_bare : ∀ s : SelectionTree, s.bare.NamesOnce ↔ s.NamesOnce
  | .empty => .rfl
  | .list items _ => items.namesOnce_bare
end

/-! ### The meaning tells the bare tree -/

theorem ValueListTree.values_ne_nil (items : ValueListTree) : items.values ≠ [] := by
  cases items <;> simp

theorem ArgumentListTree.entries_ne_nil (items : ArgumentListTree) : items.entries ≠ [] := by
  cases items <;> simp

theorem FieldListTree.values_ne_nil (items : FieldListTree) : items.values ≠ [] := by
  cases items <;> simp

/-- Two lists that end in a last element are told by their ends and by what stands before. -/
theorem append_singleton_inj {α : Type} {as bs : List α} {a b : α} (h : as ++ [a] = bs ++ [b]) :
    as = bs ∧ a = b := by
  obtain ⟨has, hab⟩ := List.append_inj' h rfl
  exact ⟨has, List.singleton_inj.1 hab⟩

/-- A list with an element before its last one is longer than a list with one element. -/
theorem singleton_ne_append {α : Type} {as : List α} {a b : α} (has : as ≠ []) :
    [a] ≠ as ++ [b] := by
  intro h
  have hsplit : [] ++ [a] = as ++ [b] := h
  exact has (append_singleton_inj hsplit).1.symm

mutual
theorem ValueTree.bare_eq : ∀ v w : ValueTree, v.value = w.value → v.bare = w.bare
  | .text _, w, h | .int _, w, h | .float _, w, h | .bool _, w, h | .null, w, h => by
    cases w <;> simp_all
  | .emptyList, w, h => by
    cases w with
    | emptyList => rfl
    | list items _ => exact absurd (Value.list.inj h).symm items.values_ne_nil
    | _ => cases h
  | .list items _, w, h => by
    cases w with
    | emptyList => exact absurd (Value.list.inj h) items.values_ne_nil
    | list items' _ => simp [items.bare_eq items' (Value.list.inj h)]
    | _ => cases h
theorem ValueListTree.bare_eq : ∀ vs ws : ValueListTree, vs.values = ws.values →
    vs.bare = ws.bare
  | .single v, .single w, h => by simp [v.bare_eq w (List.singleton_inj.1 h)]
  | .single _, .more ws _, h => absurd h (singleton_ne_append ws.values_ne_nil)
  | .more vs _, .single _, h => absurd h.symm (singleton_ne_append vs.values_ne_nil)
  | .more vs v, .more ws w, h => by
    obtain ⟨hvs, hv⟩ := append_singleton_inj h
    simp [vs.bare_eq ws hvs, v.bare_eq w hv]
end

theorem ArgumentTree.bare_eq {a b : ArgumentTree}
    (h : (a.name, a.value.value) = (b.name, b.value.value)) : a.bare = b.bare := by
  obtain ⟨hname, hvalue⟩ := Prod.mk.inj h
  rw [bare, bare, hname, a.value.bare_eq b.value hvalue]

theorem ArgumentListTree.bare_eq : ∀ as bs : ArgumentListTree, as.entries = bs.entries →
    as.bare = bs.bare
  | .single _, .single _, h => by rw [bare, bare, ArgumentTree.bare_eq (List.singleton_inj.1 h)]
  | .single _, .more bs _, h => absurd h (singleton_ne_append bs.entries_ne_nil)
  | .more as _, .single _, h => absurd h.symm (singleton_ne_append as.entries_ne_nil)
  | .more as _, .more bs _, h => by
    obtain ⟨has, ha⟩ := append_singleton_inj h
    rw [bare, bare, as.bare_eq bs has, ArgumentTree.bare_eq ha]

theorem ArgumentsTree.bare_eq (as bs : ArgumentsTree) (ha : as.NamesOnce) (hb : bs.NamesOnce)
    (h : as.entries = bs.entries) : as.bare = bs.bare := by
  cases as with
  | empty =>
    cases bs with
    | empty => rfl
    | list items _ =>
      rw [entries_list hb] at h
      exact absurd h.symm items.entries_ne_nil
  | list items _ =>
    rw [entries_list ha] at h
    cases bs with
    | empty => exact absurd h items.entries_ne_nil
    | list items' _ =>
      rw [entries_list hb] at h
      rw [bare, bare, items.bare_eq items' h]

mutual
theorem FieldTree.bare_eq : ∀ f g : FieldTree, f.NamesOnce → g.NamesOnce → f.value = g.value →
    f.bare = g.bare
  | .name _, g, _, _, h => by cases g <;> simp_all
  | .block _ s, g, hf, hg, h => by
    cases g with
    | block _ s' =>
      obtain ⟨rfl, hs⟩ : _ ∧ s.values = s'.values := by simpa using h
      simp [s.bare_eq s' hf hg hs]
    | _ => simp at h
  | .call _ a, g, hf, hg, h => by
    cases g with
    | call _ a' =>
      obtain ⟨rfl, ha⟩ : _ ∧ a.entries = a'.entries := by simpa using h
      simp [a.bare_eq a' hf hg ha]
    | _ => simp at h
  | .callBlock _ a s, g, hf, hg, h => by
    cases g with
    | callBlock _ a' s' =>
      obtain ⟨rfl, ha, hs⟩ : _ ∧ a.entries = a'.entries ∧ s.values = s'.values := by simpa using h
      simp [a.bare_eq a' hf.1 hg.1 ha, s.bare_eq s' hf.2 hg.2 hs]
    | _ => simp at h
theorem FieldListTree.bare_eq : ∀ fs gs : FieldListTree, fs.NamesOnce → gs.NamesOnce →
    fs.values = gs.values → fs.bare = gs.bare
  | .single f, .single g, hf, hg, h => by simp [f.bare_eq g hf hg (List.singleton_inj.1 h)]
  | .single _, .more gs _, _, _, h => absurd h (singleton_ne_append gs.values_ne_nil)
  | .more fs _, .single _, _, _, h => absurd h.symm (singleton_ne_append fs.values_ne_nil)
  | .more fs f, .more gs g, hf, hg, h => by
    obtain ⟨hfs, h⟩ := append_singleton_inj h
    simp [fs.bare_eq gs hf.1 hg.1 hfs, f.bare_eq g hf.2 hg.2 h]
/-- Selections that mean the same are the same but for the commas at the ends of lists. -/
theorem SelectionTree.bare_eq : ∀ s t : SelectionTree, s.NamesOnce → t.NamesOnce →
    s.values = t.values → s.bare = t.bare
  | .empty, .empty, _, _, _ => rfl
  | .empty, .list items _, _, _, h => absurd h.symm items.values_ne_nil
  | .list items _, .empty, _, _, h => absurd h items.values_ne_nil
  | .list fs _, .list gs _, hs, ht, h => by simp [fs.bare_eq gs hs ht h]
end

/-! ## Tokens without commas at the ends -/

/-- Whether a token closes a list. -/
def Token.closes : Token → Bool
  | .closeBrace => true
  | .closeParen => true
  | .closeBracket => true
  | _ => false

/-- The tokens without the commas that stand at the end or before a closing bracket. -/
def withoutTrailing : List Token → List Token
  | [] => []
  | t :: ts =>
    if t = .comma ∧ ts.head?.all Token.closes = true then withoutTrailing ts
    else t :: withoutTrailing ts

theorem withoutTrailing_cons {t : Token} (h : t ≠ .comma) (ts : List Token) :
    withoutTrailing (t :: ts) = t :: withoutTrailing ts := by
  rw [withoutTrailing, if_neg fun hc => h hc.1]

/-- Tokens at the front of which something begins. -/
def Begins (ts : List Token) : Prop :=
  ∃ t us, ts = t :: us ∧ t.closes = false

theorem Begins.append {ts : List Token} (h : Begins ts) (us : List Token) : Begins (ts ++ us) := by
  obtain ⟨t, ts, rfl, ht⟩ := h
  exact ⟨t, ts ++ us, rfl, ht⟩

/-- A comma before which something ends and behind which something begins is kept. -/
theorem withoutTrailing_comma {ts : List Token} (h : Begins ts) :
    withoutTrailing (.comma :: ts) = .comma :: withoutTrailing ts := by
  obtain ⟨t, ts, rfl, ht⟩ := h
  rw [withoutTrailing, if_neg]
  simp [ht]

theorem withoutTrailing_trailing (comma : Bool) {ts : List Token}
    (h : ts.head?.all Token.closes = true) :
    withoutTrailing (trailing comma ++ ts) = withoutTrailing ts := by
  cases comma with
  | false => rfl
  | true =>
    show withoutTrailing (.comma :: ts) = _
    rw [withoutTrailing, if_pos ⟨rfl, h⟩]

/-! ### What a tree begins with -/

theorem ValueTree.begins (v : ValueTree) : Begins v.tokens := by
  cases v <;> exact ⟨_, _, rfl, rfl⟩

theorem ArgumentTree.begins (a : ArgumentTree) : Begins a.tokens :=
  ⟨_, _, rfl, rfl⟩

theorem FieldTree.begins (f : FieldTree) : Begins f.tokens := by
  cases f <;> exact ⟨_, _, rfl, rfl⟩

/-! ### The tokens of the bare tree -/

mutual
theorem ValueTree.withoutTrailing_tokens : ∀ (v : ValueTree) (rest : List Token),
    withoutTrailing (v.tokens ++ rest) = v.bare.tokens ++ withoutTrailing rest
  | .text _, _ | .int _, _ | .float _, _ | .bool _, _ | .null, _ =>
    withoutTrailing_cons Token.noConfusion _
  | .emptyList, rest => by
    show withoutTrailing (.openBracket :: .closeBracket :: rest) = _
    rw [withoutTrailing_cons Token.noConfusion, withoutTrailing_cons Token.noConfusion]
    rfl
  | .list items comma, rest => by
    have hsplit : (ValueTree.list items comma).tokens ++ rest =
        .openBracket :: (items.tokens ++ (trailing comma ++ .closeBracket :: rest)) := by
      simp
    rw [hsplit, withoutTrailing_cons Token.noConfusion, items.withoutTrailing_tokens,
      withoutTrailing_trailing comma rfl, withoutTrailing_cons Token.noConfusion]
    simp [trailing]
theorem ValueListTree.withoutTrailing_tokens : ∀ (items : ValueListTree) (rest : List Token),
    withoutTrailing (items.tokens ++ rest) = items.bare.tokens ++ withoutTrailing rest
  | .single v, rest => v.withoutTrailing_tokens rest
  | .more items v, rest => by
    rw [ValueListTree.tokens, List.append_assoc, List.cons_append, items.withoutTrailing_tokens,
      withoutTrailing_comma (v.begins.append rest), v.withoutTrailing_tokens]
    simp
end

theorem ArgumentTree.withoutTrailing_tokens (a : ArgumentTree) (rest : List Token) :
    withoutTrailing (a.tokens ++ rest) = a.bare.tokens ++ withoutTrailing rest := by
  show withoutTrailing (.name a.name :: .colon :: (a.value.tokens ++ rest)) = _
  rw [withoutTrailing_cons Token.noConfusion, withoutTrailing_cons Token.noConfusion,
    a.value.withoutTrailing_tokens]
  rfl

theorem ArgumentListTree.withoutTrailing_tokens : ∀ (items : ArgumentListTree) (rest : List Token),
    withoutTrailing (items.tokens ++ rest) = items.bare.tokens ++ withoutTrailing rest
  | .single a, rest => a.withoutTrailing_tokens rest
  | .more items a, rest => by
    rw [tokens, List.append_assoc, List.cons_append, items.withoutTrailing_tokens,
      withoutTrailing_comma (a.begins.append rest), a.withoutTrailing_tokens]
    simp

theorem ArgumentsTree.withoutTrailing_tokens : ∀ (a : ArgumentsTree) (rest : List Token),
    withoutTrailing (a.tokens ++ rest) = a.bare.tokens ++ withoutTrailing rest
  | .empty, rest => by
    show withoutTrailing (.openParen :: .closeParen :: rest) = _
    rw [withoutTrailing_cons Token.noConfusion, withoutTrailing_cons Token.noConfusion]
    rfl
  | .list items comma, rest => by
    have hsplit : (ArgumentsTree.list items comma).tokens ++ rest =
        .openParen :: (items.tokens ++ (trailing comma ++ .closeParen :: rest)) := by
      simp [tokens]
    rw [hsplit, withoutTrailing_cons Token.noConfusion, items.withoutTrailing_tokens,
      withoutTrailing_trailing comma rfl, withoutTrailing_cons Token.noConfusion]
    simp [bare, tokens, trailing]

mutual
theorem FieldTree.withoutTrailing_tokens : ∀ (f : FieldTree) (rest : List Token),
    withoutTrailing (f.tokens ++ rest) = f.bare.tokens ++ withoutTrailing rest
  | .name _, _ => withoutTrailing_cons Token.noConfusion _
  | .block field fields, rest => by
    have hsplit : (FieldTree.block field fields).tokens ++ rest =
        .name field :: .openBrace :: (fields.tokens ++ .closeBrace :: rest) := by
      simp
    rw [hsplit, withoutTrailing_cons Token.noConfusion, withoutTrailing_cons Token.noConfusion,
      fields.withoutTrailing_tokens rfl, withoutTrailing_cons Token.noConfusion]
    simp
  | .call field arguments, rest => by
    show withoutTrailing (.name field :: (arguments.tokens ++ rest)) = _
    rw [withoutTrailing_cons Token.noConfusion, arguments.withoutTrailing_tokens]
    rfl
  | .callBlock field arguments fields, rest => by
    have hsplit : (FieldTree.callBlock field arguments fields).tokens ++ rest =
        .name field :: (arguments.tokens ++
          .openBrace :: (fields.tokens ++ .closeBrace :: rest)) := by
      simp
    rw [hsplit, withoutTrailing_cons Token.noConfusion, arguments.withoutTrailing_tokens,
      withoutTrailing_cons Token.noConfusion, fields.withoutTrailing_tokens rfl,
      withoutTrailing_cons Token.noConfusion]
    simp
theorem FieldListTree.withoutTrailing_tokens : ∀ (items : FieldListTree) (rest : List Token),
    withoutTrailing (items.tokens ++ rest) = items.bare.tokens ++ withoutTrailing rest
  | .single f, rest => f.withoutTrailing_tokens rest
  | .more items f, rest => by
    rw [FieldListTree.tokens, List.append_assoc, List.cons_append, items.withoutTrailing_tokens,
      withoutTrailing_comma (f.begins.append rest), f.withoutTrailing_tokens]
    simp
/-- A selection that ends the text or stands before a closing brace loses its commas. -/
theorem SelectionTree.withoutTrailing_tokens : ∀ (s : SelectionTree) {rest : List Token},
    rest.head?.all Token.closes = true →
      withoutTrailing (s.tokens ++ rest) = s.bare.tokens ++ withoutTrailing rest
  | .empty, _, _ => rfl
  | .list items comma, _, h => by
    rw [SelectionTree.tokens, List.append_assoc, items.withoutTrailing_tokens,
      withoutTrailing_trailing comma h]
    simp [trailing]
end

end Shapewise.Selection
