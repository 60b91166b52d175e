import Shapewise.Proofs.Schema.Printed

/-!
# The grammar of schema text

The derivation trees of the grammar, one type for each of its symbols and one constructor for each
of its productions; two productions that differ in the comma at the end of a list are one, and the
comma may be there or not. The leaves are the places of the tokens, so a tree derives one list of
tokens with their places:

* `schema`: nothing, or `statement list`;
* `statement list`: a `statement`, or `statement list` and a `statement`;
* `statement`: an alias, a record or a union;
* `alias`: `define`, a name, `as` and a name;
* `record`: `resource` or `map`, a name, and in braces nothing, or `members` and perhaps a comma;
* `union`: `union`, a name, perhaps `on` and a name, and in braces `variants` and perhaps a comma;
* `members`, `arguments`, `variants`: one of them, or more of them, a comma and one;
* `member`: a name, a colon and a `type`; or the same with an arrow before the type; or `calc`, a
  name, perhaps parentheses with nothing, or with `arguments` and perhaps a comma, a colon and a
  `type`;
* `argument`: a name, perhaps a question mark, a colon and a `type`;
* `variant`: a name, a colon and a name;
* `type`: a name, perhaps with brackets, perhaps with a question mark.

What a tree means is read off its productions one by one: each says what it makes of the meanings of
its parts. Of the places only the lines of members are kept, and the commas at the ends of lists leave
no trace; else what a tree defines has the tokens of the tree (`SchemaTree.withoutTrailing_tokens`).
-/

namespace Shapewise.Schema

open Text

/-! ## Leaves -/

/-- The place of a token. -/
structure Mark where
  line : Nat
  position : Nat
  deriving DecidableEq, Repr

/-- A name at its place. -/
structure Name extends Mark where
  text : String
  deriving DecidableEq, Repr

/-- The token at a place. -/
def Mark.as (m : Mark) (t : Token) : Located Token := ⟨t, m.line, m.position⟩

/-- The token of a name. -/
def Name.lexeme (n : Name) : Located Token := n.as (.name n.text)

section leaves

variable {m m' : Mark} {n n' : Name} {t t' : Token}

@[simp] theorem Mark.as_token (m : Mark) (t : Token) : (m.as t).token = t := rfl

@[simp] theorem Name.lexeme_token (n : Name) : n.lexeme.token = .name n.text := rfl

@[simp] theorem Mark.as_inj : m.as t = m'.as t' ↔ m = m' ∧ t = t' := by
  obtain ⟨line, position⟩ := m
  obtain ⟨line', position'⟩ := m'
  simp only [Mark.as, Located.mk.injEq, Mark.mk.injEq]
  exact and_comm

@[simp] theorem Name.lexeme_inj : n.lexeme = n'.lexeme ↔ n = n' := by
  obtain ⟨m, text⟩ := n
  obtain ⟨m', text'⟩ := n'
  simp [Name.lexeme]

@[simp] theorem Name.lexeme_eq_as : n.lexeme = m.as t ↔ n.toMark = m ∧ .name n.text = t :=
  Mark.as_inj

end leaves

/-! ## Lists -/

/-- Items with commas between them. -/
inductive Series (α : Type)
  | single (a : α)
  | more (items : Series α) (comma : Mark) (a : α)

/-- A list from behind its opening token on: items, perhaps a comma, and the closing token. -/
structure Body (α : Type) where
  items : Series α
  comma : Option Mark
  close : Mark

section lists

variable {α : Type}

/-- The items in order. -/
def Series.toList : Series α → List α
  | .single a => [a]
  | .more items _ a => items.toList ++ [a]

/-- The tokens of items. -/
def Series.tokens (tokens : α → List (Located Token)) : Series α → List (Located Token)
  | .single a => tokens a
  | .more items comma a => items.tokens tokens ++ comma.as .comma :: tokens a

/-- The comma at the end of a list, if there is one. -/
def trailing (comma : Option Mark) : List (Located Token) :=
  comma.toList.map fun c => c.as .comma

@[simp] theorem trailing_none : trailing none = [] := rfl

@[simp] theorem trailing_some (c : Mark) : trailing (some c) = [c.as .comma] := rfl

/-- The tokens of a list up to the closing one. -/
def Body.tokens (tokens : α → List (Located Token)) (close : Token) (b : Body α) :
    List (Located Token) :=
  b.items.tokens tokens ++ (trailing b.comma ++ [b.close.as close])

end lists

/-! ## Derivation trees -/

/-- A type. -/
inductive TypeTree
  | simple (name : Name)
  | nullable (name : Name) (question : Mark)
  | array (name : Name) (openBracket closeBracket : Mark)
  | nullableArray (name : Name) (openBracket closeBracket question : Mark)

/-- An argument. -/
inductive ArgumentTree
  | required (name : Name) (colon : Mark) (type : TypeTree)
  | optional (name : Name) (question colon : Mark) (type : TypeTree)

/-- A member. -/
inductive MemberTree
  | plain (name : Name) (colon : Mark) (type : TypeTree)
  | relationship (name : Name) (colon arrow : Mark) (type : TypeTree)
  | value (keyword : Mark) (name : Name) (colon : Mark) (type : TypeTree)
  | bareCall (keyword : Mark) (name : Name) (openParen closeParen colon : Mark) (type : TypeTree)
  | call (keyword : Mark) (name : Name) (openParen : Mark) (arguments : Body ArgumentTree)
    (colon : Mark) (type : TypeTree)

/-- A variant. -/
structure VariantTree where
  tag : Name
  colon : Mark
  type : Name

/-- An alias. -/
structure AliasTree where
  define : Mark
  name : Name
  asKeyword : Mark
  base : Name

/-- A record. -/
inductive RecordTree
  | empty (kind : RecordKind) (keyword : Mark) (name : Name) (openBrace closeBrace : Mark)
  | list (kind : RecordKind) (keyword : Mark) (name : Name) (openBrace : Mark)
    (members : Body MemberTree)

/-- A union. -/
inductive UnionTree
  | untagged (union : Mark) (name : Name) (openBrace : Mark) (variants : Body VariantTree)
  | tagged (union : Mark) (name : Name) (on : Mark) (tagField : Name) (openBrace : Mark)
    (variants : Body VariantTree)

/-- A statement. -/
inductive StatementTree
  | alias (a : AliasTree)
  | record (r : RecordTree)
  | union (u : UnionTree)

/-- Statements, one behind the other. -/
inductive StatementListTree
  | single (s : StatementTree)
  | more (items : StatementListTree) (s : StatementTree)

/-- A schema. -/
inductive SchemaTree
  | empty
  | list (items : StatementListTree)

/-! ## The tokens of a tree -/

/-- The tokens of a type. -/
def TypeTree.tokens : TypeTree → List (Located Token)
  | .simple name => [name.lexeme]
  | .nullable name question => [name.lexeme, question.as .question]
  | .array name openBracket closeBracket =>
    [name.lexeme, openBracket.as .openBracket, closeBracket.as .closeBracket]
  | .nullableArray name openBracket closeBracket question =>
    [name.lexeme, openBracket.as .openBracket, closeBracket.as .closeBracket,
      question.as .question]

/-- The tokens of an argument. -/
def ArgumentTree.tokens : ArgumentTree → List (Located Token)
  | .required name colon type => name.lexeme :: colon.as .colon :: type.tokens
  | .optional name question colon type =>
    name.lexeme :: question.as .question :: colon.as .colon :: type.tokens

/-- The tokens of a member. -/
def MemberTree.tokens : MemberTree → List (Located Token)
  | .plain name colon type => name.lexeme :: colon.as .colon :: type.tokens
  | .relationship name colon arrow type =>
    name.lexeme :: colon.as .colon :: arrow.as .arrow :: type.tokens
  | .value keyword name colon type =>
    keyword.as (.keyword .calc) :: name.lexeme :: colon.as .colon :: type.tokens
  | .bareCall keyword name openParen closeParen colon type =>
    keyword.as (.keyword .calc) :: name.lexeme :: openParen.as .openParen ::
      closeParen.as .closeParen :: colon.as .colon :: type.tokens
  | .call keyword name openParen arguments colon type =>
    keyword.as (.keyword .calc) :: name.lexeme :: openParen.as .openParen ::
      (arguments.tokens ArgumentTree.tokens .closeParen ++ colon.as .colon :: type.tokens)

/-- The tokens of a variant. -/
def VariantTree.tokens (v : VariantTree) : List (Located Token) :=
  [v.tag.lexeme, v.colon.as .colon, v.type.lexeme]

/-- The tokens of an alias. -/
def AliasTree.tokens (a : AliasTree) : List (Located Token) :=
  [a.define.as (.keyword .define), a.name.lexeme, a.asKeyword.as (.keyword .as), a.base.lexeme]

/-- The tokens of a record. -/
def RecordTree.tokens : RecordTree → List (Located Token)
  | .empty kind keyword name openBrace closeBrace =>
    [keyword.as (.keyword (recordKeyword kind)), name.lexeme, openBrace.as .openBrace,
      closeBrace.as .closeBrace]
  | .list kind keyword name openBrace members =>
    keyword.as (.keyword (recordKeyword kind)) :: name.lexeme :: openBrace.as .openBrace ::
      members.tokens MemberTree.tokens .closeBrace

/-- The tokens of a union. -/
def UnionTree.tokens : UnionTree → List (Located Token)
  | .untagged union name openBrace variants =>
    union.as (.keyword .union) :: name.lexeme :: openBrace.as .openBrace ::
      variants.tokens VariantTree.tokens .closeBrace
  | .tagged union name on tagField openBrace variants =>
    union.as (.keyword .union) :: name.lexeme :: on.as (.keyword .on) :: tagField.lexeme ::
      openBrace.as .openBrace :: variants.tokens VariantTree.tokens .closeBrace

/-- The tokens of a statement. -/
def StatementTree.tokens : StatementTree → List (Located Token)
  | .alias a => a.tokens
  | .record r => r.tokens
  | .union u => u.tokens

/-- The tokens of statements. -/
def StatementListTree.tokens : StatementListTree → List (Located Token)
  | .single s => s.tokens
  | .more items s => items.tokens ++ s.tokens

/-- The tokens of a schema. -/
def SchemaTree.tokens : SchemaTree → List (Located Token)
  | .empty => []
  | .list items => items.tokens

/-! ## The meaning of a tree -/

/-- The type that is written. -/
def TypeTree.ref : TypeTree → TypeRef
  | .simple name => ⟨name.text, false, false⟩
  | .nullable name _ => ⟨name.text, false, true⟩
  | .array name _ _ => ⟨name.text, true, false⟩
  | .nullableArray name _ _ _ => ⟨name.text, true, true⟩

/-- The argument that is defined. -/
def ArgumentTree.definition : ArgumentTree → ArgumentDef
  | .required name _ type => ⟨name.text, type.ref, false⟩
  | .optional name _ _ type => ⟨name.text, type.ref, true⟩

/-- The member that is defined; its line is that of its name. A calculation without parentheses has no
argument list, one with nothing between them has an empty list. -/
def MemberTree.definition : MemberTree → Member
  | .plain name _ type => ⟨name.text, .plain, type.ref, name.line⟩
  | .relationship name _ _ type => ⟨name.text, .relationship, type.ref, name.line⟩
  | .value _ name _ type => ⟨name.text, .calculation none, type.ref, name.line⟩
  | .bareCall _ name _ _ _ type => ⟨name.text, .calculation (some []), type.ref, name.line⟩
  | .call _ name _ arguments _ type =>
    ⟨name.text, .calculation (some (arguments.items.toList.map ArgumentTree.definition)), type.ref,
      name.line⟩

/-- The variant that is defined. -/
def VariantTree.definition (v : VariantTree) : VariantDef :=
  ⟨v.tag.text, v.type.text⟩

/-- The alias that is defined. -/
def AliasTree.definition (a : AliasTree) : Definition :=
  .alias a.name.text a.base.text

/-- The record that is defined. -/
def RecordTree.definition : RecordTree → Definition
  | .empty kind _ name _ _ => .record kind name.text []
  | .list kind _ name _ members =>
    .record kind name.text (members.items.toList.map MemberTree.definition)

/-- The union that is defined. -/
def UnionTree.definition : UnionTree → Definition
  | .untagged _ name _ variants =>
    .union name.text (variants.items.toList.map VariantTree.definition) none
  | .tagged _ name _ tagField _ variants =>
    .union name.text (variants.items.toList.map VariantTree.definition) (some tagField.text)

/-- What a statement defines. -/
def StatementTree.definition : StatementTree → Definition
  | .alias a => a.definition
  | .record r => r.definition
  | .union u => u.definition

/-- The statements in order. -/
def StatementListTree.toList : StatementListTree → List StatementTree
  | .single s => [s]
  | .more items s => items.toList ++ [s]

/-- The statements of a schema in order. -/
def SchemaTree.statements : SchemaTree → List StatementTree
  | .empty => []
  | .list items => items.toList

/-- What a schema defines. -/
def SchemaTree.definitions (s : SchemaTree) : List Definition :=
  s.statements.map StatementTree.definition

/-! ## The tokens of what is defined -/

/-- The tokens that close a list. -/
def Token.closes : Token → Bool
  | .closeBrace => true
  | .closeParen => true
  | _ => false

/-- The tokens without the commas that stand before a closing token. -/
def withoutTrailing : List Token → List Token
  | [] => []
  | t :: ts =>
    if t = .comma ∧ ts.head?.any Token.closes = true then withoutTrailing ts
    else t :: withoutTrailing ts

theorem withoutTrailing_cons {t : Token} (h : t ≠ .comma) (ts : List Token) :
    withoutTrailing (t :: ts) = t :: withoutTrailing ts := by
  rw [withoutTrailing, if_neg fun hc => h hc.1]

/-- Tokens at the front of which something begins. -/
def Begins (ls : List (Located Token)) : Prop :=
  ∃ l rest, ls = l :: rest ∧ l.token.closes = false

/-- A comma behind which something begins is kept. -/
theorem withoutTrailing_comma {ls : List (Located Token)} (h : Begins ls) (ts : List Token) :
    withoutTrailing (.comma :: (ls.map Located.token ++ ts)) =
      .comma :: withoutTrailing (ls.map Located.token ++ ts) := by
  obtain ⟨l, rest, rfl, hl⟩ := h
  rw [withoutTrailing, if_neg]
  simp [hl]

theorem withoutTrailing_trailing (comma : Option Mark) {t : Token} (ht : t.closes = true)
    (ts : List Token) : withoutTrailing ((trailing comma).map Located.token ++ t :: ts) =
      t :: withoutTrailing ts := by
  have hkept : withoutTrailing (t :: ts) = t :: withoutTrailing ts :=
    withoutTrailing_cons (by rintro rfl; cases ht) ts
  cases comma with
  | none => exact hkept
  | some c =>
    show withoutTrailing (.comma :: t :: ts) = _
    rw [withoutTrailing, if_pos ⟨rfl, by simpa using ht⟩, hkept]

theorem listed_append_singleton {parts : List (List Token)} (hne : parts ≠ []) (part : List Token) :
    listed false (parts ++ [part]) = listed false parts ++ .comma :: part := by
  induction parts with
  | nil => exact absurd rfl hne
  | cons p parts ih =>
    cases parts with
    | nil => simp [listed]
    | cons p' parts =>
      have htail := ih (List.cons_ne_nil _ _)
      simp only [List.cons_append, listed, List.append_assoc] at htail ⊢
      rw [htail]

section lists

variable {α : Type} {tokens : α → List (Located Token)} {printed : α → List Token} {close : Token}

theorem Series.toList_ne_nil (s : Series α) : s.toList ≠ [] := by
  cases s <;> simp [toList]

theorem Series.withoutTrailing_tokens (hbegins : ∀ a, Begins (tokens a))
    (hitem : ∀ a ts, withoutTrailing ((tokens a).map Located.token ++ ts) =
      printed a ++ withoutTrailing ts) (s : Series α) (ts : List Token) :
    withoutTrailing ((s.tokens tokens).map Located.token ++ ts) =
      listed false (s.toList.map printed) ++ withoutTrailing ts := by
  induction s generalizing ts with
  | single a => simpa [Series.tokens, toList, listed] using hitem a ts
  | more items comma a ih =>
    have hne : items.toList.map printed ≠ [] := by simpa using items.toList_ne_nil
    rw [toList, List.map_append, List.map_singleton, listed_append_singleton hne, Series.tokens,
      List.map_append, List.append_assoc, List.map_cons, Mark.as_token, List.cons_append, ih,
      withoutTrailing_comma (hbegins a), hitem, List.append_assoc, List.cons_append]

/-- The comma at the end of a list is dropped, those between its items are kept. -/
theorem Body.withoutTrailing_tokens (hbegins : ∀ a, Begins (tokens a))
    (hitem : ∀ a ts, withoutTrailing ((tokens a).map Located.token ++ ts) =
      printed a ++ withoutTrailing ts) (hclose : close.closes = true) (b : Body α) (ts : List Token) :
    withoutTrailing ((b.tokens tokens close).map Located.token ++ ts) =
      listed false (b.items.toList.map printed) ++ close :: withoutTrailing ts := by
  obtain ⟨items, comma, m⟩ := b
  have hend := withoutTrailing_trailing comma hclose ts
  simp only [Body.tokens, List.map_append, List.append_assoc, List.map_cons, List.map_nil,
    Mark.as_token, List.cons_append, List.nil_append]
  rw [items.withoutTrailing_tokens hbegins hitem, hend]

end lists

theorem ArgumentTree.begins (a : ArgumentTree) : Begins a.tokens := by
  cases a <;> exact ⟨_, _, rfl, rfl⟩

theorem MemberTree.begins (m : MemberTree) : Begins m.tokens := by
  cases m <;> exact ⟨_, _, rfl, rfl⟩

theorem VariantTree.begins (v : VariantTree) : Begins v.tokens :=
  ⟨_, _, rfl, rfl⟩

theorem TypeTree.withoutTrailing_tokens (t : TypeTree) (ts : List Token) :
    withoutTrailing (t.tokens.map Located.token ++ ts) = t.ref.tokens ++ withoutTrailing ts := by
  cases t <;> simp [tokens, ref, TypeRef.tokens, TypeRef.suffix, withoutTrailing_cons]

theorem ArgumentTree.withoutTrailing_tokens (a : ArgumentTree) (ts : List Token) :
    withoutTrailing (a.tokens.map Located.token ++ ts) =
      a.definition.tokens ++ withoutTrailing ts := by
  cases a <;> simp [tokens, definition, ArgumentDef.tokens, withoutTrailing_cons,
    TypeTree.withoutTrailing_tokens]

theorem MemberTree.withoutTrailing_tokens (m : MemberTree) (ts : List Token) :
    withoutTrailing (m.tokens.map Located.token ++ ts) =
      m.definition.tokens false ++ withoutTrailing ts := by
  cases m with
  | call keyword name openParen arguments colon type =>
    have harguments : ∀ ts, withoutTrailing
        ((arguments.tokens ArgumentTree.tokens .closeParen).map Located.token ++ ts) =
          listed false (arguments.items.toList.map fun a => a.definition.tokens) ++
            .closeParen :: withoutTrailing ts :=
      arguments.withoutTrailing_tokens ArgumentTree.begins ArgumentTree.withoutTrailing_tokens rfl
    simp [tokens, definition, Member.tokens, withoutTrailing_cons, TypeTree.withoutTrailing_tokens,
      harguments, Function.comp_def]
  | _ =>
    simp [tokens, definition, Member.tokens, withoutTrailing_cons, TypeTree.withoutTrailing_tokens,
      listed]

theorem VariantTree.withoutTrailing_tokens (v : VariantTree) (ts : List Token) :
    withoutTrailing (v.tokens.map Located.token ++ ts) =
      v.definition.tokens ++ withoutTrailing ts := by
  simp [tokens, definition, VariantDef.tokens, withoutTrailing_cons]

theorem RecordTree.withoutTrailing_tokens (r : RecordTree) (ts : List Token) :
    withoutTrailing (r.tokens.map Located.token ++ ts) =
      r.definition.tokens false ++ withoutTrailing ts := by
  cases r with
  | empty kind keyword name openBrace closeBrace =>
    simp [tokens, definition, Definition.tokens, withoutTrailing_cons, listed]
  | list kind keyword name openBrace members =>
    have hmembers : ∀ ts, withoutTrailing
        ((members.tokens MemberTree.tokens .closeBrace).map Located.token ++ ts) =
          listed false (members.items.toList.map fun m => m.definition.tokens false) ++
            .closeBrace :: withoutTrailing ts :=
      members.withoutTrailing_tokens MemberTree.begins MemberTree.withoutTrailing_tokens rfl
    simp [tokens, definition, Definition.tokens, withoutTrailing_cons, hmembers, Function.comp_def]

theorem UnionTree.withoutTrailing_tokens (u : UnionTree) (ts : List Token) :
    withoutTrailing (u.tokens.map Located.token ++ ts) =
      u.definition.tokens false ++ withoutTrailing ts := by
  have hvariants : ∀ (variants : Body VariantTree) (ts : List Token), withoutTrailing
      ((variants.tokens VariantTree.tokens .closeBrace).map Located.token ++ ts) =
        listed false (variants.items.toList.map fun v => v.definition.tokens) ++
          .closeBrace :: withoutTrailing ts := fun variants =>
    variants.withoutTrailing_tokens VariantTree.begins VariantTree.withoutTrailing_tokens rfl
  cases u <;>
    simp [tokens, definition, Definition.tokens, withoutTrailing_cons, hvariants, Function.comp_def]

theorem StatementTree.withoutTrailing_tokens (s : StatementTree) (ts : List Token) :
    withoutTrailing (s.tokens.map Located.token ++ ts) =
      s.definition.tokens false ++ withoutTrailing ts := by
  rcases s with a | r | u
  · simp [tokens, definition, AliasTree.tokens, AliasTree.definition, Definition.tokens,
      withoutTrailing_cons]
  · exact r.withoutTrailing_tokens ts
  · exact u.withoutTrailing_tokens ts

theorem StatementListTree.tokens_eq (l : StatementListTree) :
    l.tokens = l.toList.flatMap StatementTree.tokens := by
  induction l with
  | single s => simp [tokens, toList]
  | more items s ih => simp [tokens, toList, ih]

theorem SchemaTree.tokens_eq (s : SchemaTree) :
    s.tokens = s.statements.flatMap StatementTree.tokens := by
  cases s with
  | empty => rfl
  | list items => exact items.tokens_eq

/-- What a tree defines has the tokens of the tree but for the commas at the ends of lists. -/
theorem SchemaTree.withoutTrailing_tokens (s : SchemaTree) :
    withoutTrailing (s.tokens.map Located.token) =
      s.definitions.flatMap (Definition.tokens false) := by
  rw [s.tokens_eq, definitions]
  induction s.statements with
  | nil => rfl
  | cons s ss ih =>
    rw [List.flatMap_cons, List.map_append, s.withoutTrailing_tokens, ih, List.map_cons,
      List.flatMap_cons]

end Shapewise.Schema
