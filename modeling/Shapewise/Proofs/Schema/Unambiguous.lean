import Shapewise.Proofs.Schema.Grammar

/-!
# The grammar of schema text is unambiguous

A list of tokens has at most one derivation tree (`SchemaTree.eq_of_tokens_eq`). A part is told from
its tokens whatever follows them, `Cuts`, but a type, which goes on while brackets or a question mark
follow; behind a type there are only commas and closing tokens. In a list a comma is followed by an
item or by the closing token, and no item starts with one.
-/

namespace Shapewise.Schema

open Text

/-- Parts are told from their tokens, whatever follows them, as long as it may. -/
def Cuts {α : Type} (tokens : α → List (Located Token)) (Follow : List (Located Token) → Prop) :
    Prop :=
  ∀ a a' rest rest', Follow rest → Follow rest' → tokens a ++ rest = tokens a' ++ rest' →
    a = a' ∧ rest = rest'

/-- What follows a type does not go on with it. -/
def TypeEnds (rest : List (Located Token)) : Prop :=
  ∀ l ∈ rest.head?, l.token ≠ .openBracket ∧ l.token ≠ .question

@[simp] theorem typeEnds_cons {l : Located Token} {rest : List (Located Token)} :
    TypeEnds (l :: rest) ↔ l.token ≠ .openBracket ∧ l.token ≠ .question := by
  simp [TypeEnds]

/-! ### Lists -/

section lists

variable {α : Type} {tokens : α → List (Located Token)} {close : Token}

/-- The first item. -/
def Series.first : Series α → α
  | .single a => a
  | .more items _ _ => items.first

/-- The other items, each with the comma before it. -/
def Series.rest : Series α → List (Mark × α)
  | .single _ => []
  | .more items comma a => items.rest ++ [(comma, a)]

theorem Series.ext_rest {s s' : Series α} (hfirst : s.first = s'.first) (hrest : s.rest = s'.rest) :
    s = s' := by
  induction s generalizing s' with
  | single a =>
    cases s' with
    | single a' => exact congrArg Series.single hfirst
    | more items comma a' => simp [Series.rest] at hrest
  | more items comma a ih =>
    cases s' with
    | single a' => simp [Series.rest] at hrest
    | more items' comma' a' =>
      obtain ⟨hitems, hlast⟩ := List.append_inj' hrest rfl
      cases hlast
      have hsame : items = items' := ih hfirst hitems
      rw [hsame]

/-- The tokens of the items behind the first. -/
def restTokens (tokens : α → List (Located Token)) (rest : List (Mark × α)) : List (Located Token) :=
  rest.flatMap fun p => p.1.as .comma :: tokens p.2

@[simp] theorem restTokens_nil : restTokens tokens [] = [] := rfl

@[simp] theorem restTokens_cons (p : Mark × α) (rest : List (Mark × α)) :
    restTokens tokens (p :: rest) = p.1.as .comma :: (tokens p.2 ++ restTokens tokens rest) := by
  simp [restTokens]

theorem Series.tokens_eq (s : Series α) :
    s.tokens tokens = tokens s.first ++ restTokens tokens s.rest := by
  induction s with
  | single a => simp [Series.tokens, Series.first, Series.rest, restTokens]
  | more items comma a ih =>
    rw [Series.tokens, ih]
    simp [Series.first, Series.rest, restTokens]

/-- What follows an item: a comma or the closing token. -/
def ItemEnds (close : Token) (ls : List (Located Token)) : Prop :=
  ∃ l rest, ls = l :: rest ∧ (l.token = .comma ∨ l.token = close)

theorem itemEnds_rest (rest : List (Mark × α)) (comma : Option Mark) (m : Mark)
    (after : List (Located Token)) :
    ItemEnds close (restTokens tokens rest ++ (trailing comma ++ m.as close :: after)) := by
  cases rest with
  | nil =>
    cases comma with
    | none => exact ⟨_, _, rfl, .inr rfl⟩
    | some c => exact ⟨_, _, rfl, .inl rfl⟩
  | cons p rest => exact ⟨_, _, rfl, .inl rfl⟩

theorem Begins.ne_close {ls : List (Located Token)} (h : Begins ls) (hclose : close.closes = true)
    {m : Mark} {rest after : List (Located Token)} : ls ++ rest ≠ m.as close :: after := by
  obtain ⟨l, ls, rfl, hl⟩ := h
  intro he
  cases he
  exact Bool.noConfusion (hclose.symm.trans hl)

theorem Body.begins (hbegins : ∀ a, Begins (tokens a)) (b : Body α) :
    Begins (b.tokens tokens close) := by
  obtain ⟨l, ls, hl, hopen⟩ := hbegins b.items.first
  rw [Body.tokens, Series.tokens_eq, hl]
  exact ⟨l, _, rfl, hopen⟩

/-- Whether there is a comma at the end of a list is told. -/
theorem cuts_end (hcomma : close ≠ .comma) {comma comma' : Option Mark} {m m' : Mark}
    {after after' : List (Located Token)}
    (h : trailing comma ++ m.as close :: after = trailing comma' ++ m'.as close :: after') :
    comma = comma' ∧ m = m' ∧ after = after' := by
  cases comma with
  | none =>
    cases comma' with
    | none => simpa using h
    | some c' => simp [hcomma] at h
  | some c =>
    cases comma' with
    | none => simp [hcomma.symm] at h
    | some c' => simpa using h

/-- Behind the first item of a list, the others, the comma and the closing token are told. -/
theorem cuts_rest (hitem : Cuts tokens (ItemEnds close)) (hbegins : ∀ a, Begins (tokens a))
    (hclose : close.closes = true) {rest rest' : List (Mark × α)}
    {comma comma' : Option Mark} {m m' : Mark} {after after' : List (Located Token)}
    (h : restTokens tokens rest ++ (trailing comma ++ m.as close :: after) =
      restTokens tokens rest' ++ (trailing comma' ++ m'.as close :: after')) :
    rest = rest' ∧ comma = comma' ∧ m = m' ∧ after = after' := by
  have hcomma : close ≠ .comma := by
    rintro rfl
    cases hclose
  -- a comma behind which the list is closed is not one behind which an item stands
  have hlast : ∀ {a : α} {after rest : List (Located Token)} {m : Mark},
      tokens a ++ rest ≠ m.as close :: after := (hbegins _).ne_close hclose
  induction rest generalizing rest' with
  | nil =>
    cases rest' with
    | nil => exact ⟨rfl, cuts_end hcomma h⟩
    | cons p rest' =>
      cases comma with
      | none => simp [hcomma] at h
      | some c =>
        simp only [restTokens_nil, restTokens_cons, trailing_some, List.nil_append,
          List.cons_append, List.append_assoc, List.cons.injEq] at h
        exact absurd h.2.symm hlast
  | cons p rest ih =>
    cases rest' with
    | nil =>
      cases comma' with
      | none => simp [hcomma.symm] at h
      | some c =>
        simp only [restTokens_nil, restTokens_cons, trailing_some, List.nil_append,
          List.cons_append, List.append_assoc, List.cons.injEq] at h
        exact absurd h.2 hlast
    | cons p' rest' =>
      obtain ⟨c, a⟩ := p
      obtain ⟨c', a'⟩ := p'
      simp only [restTokens_cons, List.cons_append, List.append_assoc, List.cons.injEq,
        Mark.as_inj, and_true] at h
      obtain ⟨rfl, h⟩ := h
      obtain ⟨rfl, hafter⟩ := hitem a a' _ _ (itemEnds_rest rest comma m after)
        (itemEnds_rest rest' comma' m' after') h
      obtain ⟨rfl, hrest⟩ := ih hafter
      exact ⟨rfl, hrest⟩

/-- A list is told from its tokens, whatever follows its closing one. -/
theorem cuts_body (hitem : Cuts tokens (ItemEnds close)) (hbegins : ∀ a, Begins (tokens a))
    (hclose : close.closes = true) :
    Cuts (Body.tokens tokens close) fun _ => True := by
  rintro ⟨items, comma, m⟩ ⟨items', comma', m'⟩ after after' - - h
  simp only [Body.tokens, Series.tokens_eq, List.append_assoc, List.singleton_append] at h
  obtain ⟨hfirst, hafter⟩ := hitem _ _ _ _ (itemEnds_rest _ _ _ _) (itemEnds_rest _ _ _ _) h
  obtain ⟨hrest, rfl, rfl, rfl⟩ := cuts_rest hitem hbegins hclose hafter
  rw [Series.ext_rest hfirst hrest]
  exact ⟨rfl, rfl⟩

end lists

/-! ### Parts -/

section parts

variable {rest rest' after : List (Located Token)}

/-- A type starts with a name. -/
theorem TypeTree.tokens_ne (type : TypeTree) {m : Mark} {t : Token} (ht : ∀ s, .name s ≠ t) :
    type.tokens ++ rest ≠ m.as t :: after := by
  cases type <;> simp [TypeTree.tokens, ht]

/-- A type ends where neither a bracket nor a question mark follows. -/
theorem cuts_type : Cuts TypeTree.tokens TypeEnds := by
  intro t t' rest rest' hrest hrest' h
  cases t <;> cases t' <;> simp [TypeTree.tokens] at h
  all_goals grind [typeEnds_cons, Mark.as_token]

theorem TypeEnds.of_itemEnds {close : Token} (hclose : close ≠ .openBracket ∧ close ≠ .question)
    (h : ItemEnds close rest) : TypeEnds rest := by
  obtain ⟨l, rest, rfl, htoken | htoken⟩ := h
  · simp [htoken]
  · simpa [htoken] using hclose

theorem Cuts.imp {α : Type} {tokens : α → List (Located Token)}
    {P Q : List (Located Token) → Prop} (h : Cuts tokens Q) (hPQ : ∀ rest, P rest → Q rest) :
    Cuts tokens P :=
  fun a a' rest rest' hrest hrest' => h a a' rest rest' (hPQ rest hrest) (hPQ rest' hrest')

theorem cuts_argument : Cuts ArgumentTree.tokens TypeEnds := by
  intro a a' rest rest' hrest hrest' h
  cases a <;> cases a' <;> simp [ArgumentTree.tokens] at h
  case required.required =>
    obtain ⟨rfl, rfl, htype⟩ := h
    obtain ⟨rfl, rfl⟩ := cuts_type _ _ _ _ hrest hrest' htype
    exact ⟨rfl, rfl⟩
  case optional.optional =>
    obtain ⟨rfl, rfl, rfl, htype⟩ := h
    obtain ⟨rfl, rfl⟩ := cuts_type _ _ _ _ hrest hrest' htype
    exact ⟨rfl, rfl⟩

theorem cuts_arguments : Cuts (Body.tokens ArgumentTree.tokens .closeParen) fun _ => True :=
  cuts_body (cuts_argument.imp fun _ => .of_itemEnds (by decide)) ArgumentTree.begins rfl

/-- A member is told by what stands before its type. -/
theorem cuts_member : Cuts MemberTree.tokens TypeEnds := by
  intro m m' rest rest' hrest hrest' h
  cases m <;> cases m' <;> simp [MemberTree.tokens] at h
  case plain.plain =>
    obtain ⟨rfl, rfl, htype⟩ := h
    obtain ⟨rfl, rfl⟩ := cuts_type _ _ _ _ hrest hrest' htype
    exact ⟨rfl, rfl⟩
  case plain.relationship type _ _ _ _ =>
    exact absurd h.2.2 (type.tokens_ne fun _ => Token.noConfusion)
  case relationship.plain type =>
    exact absurd h.2.2.symm (type.tokens_ne fun _ => Token.noConfusion)
  case relationship.relationship =>
    obtain ⟨rfl, rfl, rfl, htype⟩ := h
    obtain ⟨rfl, rfl⟩ := cuts_type _ _ _ _ hrest hrest' htype
    exact ⟨rfl, rfl⟩
  case value.value =>
    obtain ⟨rfl, rfl, rfl, htype⟩ := h
    obtain ⟨rfl, rfl⟩ := cuts_type _ _ _ _ hrest hrest' htype
    exact ⟨rfl, rfl⟩
  case bareCall.bareCall =>
    obtain ⟨rfl, rfl, rfl, rfl, rfl, htype⟩ := h
    obtain ⟨rfl, rfl⟩ := cuts_type _ _ _ _ hrest hrest' htype
    exact ⟨rfl, rfl⟩
  case bareCall.call arguments _ _ =>
    exact absurd h.2.2.2.symm ((arguments.begins ArgumentTree.begins).ne_close rfl)
  case call.bareCall arguments _ _ _ _ _ _ _ _ =>
    exact absurd h.2.2.2 ((arguments.begins ArgumentTree.begins).ne_close rfl)
  case call.call =>
    obtain ⟨rfl, rfl, rfl, harguments⟩ := h
    obtain ⟨rfl, hafter⟩ := cuts_arguments _ _ _ _ trivial trivial harguments
    rw [List.cons.injEq, Mark.as_inj] at hafter
    obtain ⟨⟨rfl, -⟩, htype⟩ := hafter
    obtain ⟨rfl, rfl⟩ := cuts_type _ _ _ _ hrest hrest' htype
    exact ⟨rfl, rfl⟩

theorem cuts_members : Cuts (Body.tokens MemberTree.tokens .closeBrace) fun _ => True :=
  cuts_body (cuts_member.imp fun _ => .of_itemEnds (by decide)) MemberTree.begins rfl

theorem cuts_variants : Cuts (Body.tokens VariantTree.tokens .closeBrace) fun _ => True := by
  refine cuts_body ?_ VariantTree.begins rfl
  rintro ⟨tag, colon, type⟩ ⟨tag', colon', type'⟩ rest rest' - - h
  simp only [VariantTree.tokens, List.cons_append, List.nil_append, List.cons.injEq,
    Name.lexeme_inj, Mark.as_inj, and_true] at h
  obtain ⟨rfl, rfl, rfl, rfl⟩ := h
  exact ⟨rfl, rfl⟩

/-! ### Statements -/

theorem recordKeyword_inj {kind kind' : RecordKind} :
    recordKeyword kind = recordKeyword kind' ↔ kind = kind' := by
  cases kind <;> cases kind' <;> decide

theorem cuts_alias : Cuts AliasTree.tokens fun _ => True := by
  rintro ⟨define, name, asKeyword, base⟩ ⟨define', name', asKeyword', base'⟩ rest rest' - - h
  simp only [AliasTree.tokens, List.cons_append, List.nil_append, List.cons.injEq,
    Name.lexeme_inj, Mark.as_inj, and_true] at h
  obtain ⟨rfl, rfl, rfl, rfl, rfl⟩ := h
  exact ⟨rfl, rfl⟩

theorem cuts_record : Cuts RecordTree.tokens fun _ => True := by
  intro r r' rest rest' _ _ h
  cases r <;> cases r' <;> simp [RecordTree.tokens, recordKeyword_inj] at h
  case empty.empty =>
    obtain ⟨⟨rfl, rfl⟩, rfl, rfl, rfl, rfl⟩ := h
    exact ⟨rfl, rfl⟩
  case empty.list members =>
    exact absurd h.2.2.2.symm ((members.begins MemberTree.begins).ne_close rfl)
  case list.empty members _ _ _ _ _ =>
    exact absurd h.2.2.2 ((members.begins MemberTree.begins).ne_close rfl)
  case list.list =>
    obtain ⟨⟨rfl, rfl⟩, rfl, rfl, hmembers⟩ := h
    obtain ⟨rfl, rfl⟩ := cuts_members _ _ _ _ trivial trivial hmembers
    exact ⟨rfl, rfl⟩

theorem cuts_union : Cuts UnionTree.tokens fun _ => True := by
  intro u u' rest rest' _ _ h
  cases u <;> cases u' <;> simp [UnionTree.tokens] at h
  case untagged.untagged =>
    obtain ⟨rfl, rfl, rfl, hvariants⟩ := h
    obtain ⟨rfl, rfl⟩ := cuts_variants _ _ _ _ trivial trivial hvariants
    exact ⟨rfl, rfl⟩
  case tagged.tagged =>
    obtain ⟨rfl, rfl, rfl, rfl, rfl, hvariants⟩ := h
    obtain ⟨rfl, rfl⟩ := cuts_variants _ _ _ _ trivial trivial hvariants
    exact ⟨rfl, rfl⟩

/-- The kind of a record. -/
def RecordTree.kind : RecordTree → RecordKind
  | .empty kind .. => kind
  | .list kind .. => kind

/-- The keyword with which a statement starts. -/
def StatementTree.keyword : StatementTree → Keyword
  | .alias _ => .define
  | .record r => recordKeyword r.kind
  | .union _ => .union

theorem StatementTree.exists_tokens (s : StatementTree) :
    ∃ (m : Mark) (ls : List (Located Token)), s.tokens = m.as (.keyword s.keyword) :: ls := by
  rcases s with a | ⟨_ | _⟩ | ⟨_ | _⟩ <;> exact ⟨_, _, rfl⟩

/-- Two statements of one keyword are of one kind. -/
theorem cuts_statement : Cuts StatementTree.tokens fun _ => True := by
  intro s s' rest rest' _ _ h
  have hkeyword : s.keyword = s'.keyword := by
    obtain ⟨m, ls, hs⟩ := s.exists_tokens
    obtain ⟨m', ls', hs'⟩ := s'.exists_tokens
    rw [hs, hs'] at h
    exact Token.keyword.inj (congrArg Located.token (List.cons.inj h).1)
  have hne : ∀ kind, recordKeyword kind ≠ .define ∧ recordKeyword kind ≠ .union := by
    rintro (_ | _) <;> decide
  cases s with
  | «alias» a =>
    cases s' with
    | «alias» a' =>
      obtain ⟨rfl, rfl⟩ := cuts_alias _ _ _ _ trivial trivial h
      exact ⟨rfl, rfl⟩
    | record r' => exact absurd hkeyword.symm (hne _).1
    | union u' => cases hkeyword
  | record r =>
    cases s' with
    | «alias» a' => exact absurd hkeyword (hne _).1
    | record r' =>
      obtain ⟨rfl, rfl⟩ := cuts_record _ _ _ _ trivial trivial h
      exact ⟨rfl, rfl⟩
    | union u' => exact absurd hkeyword (hne _).2
  | union u =>
    cases s' with
    | «alias» a' => cases hkeyword
    | record r' => exact absurd hkeyword.symm (hne _).2
    | union u' =>
      obtain ⟨rfl, rfl⟩ := cuts_union _ _ _ _ trivial trivial h
      exact ⟨rfl, rfl⟩

/-- Statements are told from their tokens one by one, for each starts with a keyword. -/
theorem StatementTree.flatMap_tokens_inj {ss ss' : List StatementTree}
    (h : ss.flatMap StatementTree.tokens = ss'.flatMap StatementTree.tokens) : ss = ss' := by
  induction ss generalizing ss' with
  | nil =>
    cases ss' with
    | nil => rfl
    | cons s' ss' =>
      obtain ⟨m, ls, hs⟩ := s'.exists_tokens
      simp [hs] at h
  | cons s ss ih =>
    cases ss' with
    | nil =>
      obtain ⟨m, ls, hs⟩ := s.exists_tokens
      simp [hs] at h
    | cons s' ss' =>
      obtain ⟨rfl, hss⟩ := cuts_statement s s' _ _ trivial trivial h
      rw [ih hss]

theorem StatementListTree.toList_ne_nil (l : StatementListTree) : l.toList ≠ [] := by
  cases l <;> simp [toList]

theorem StatementListTree.toList_inj {l l' : StatementListTree} (h : l.toList = l'.toList) :
    l = l' := by
  induction l generalizing l' with
  | single s =>
    cases l' with
    | single s' => simpa [toList] using h
    | more items s' =>
      have happend : [] ++ [s] = items.toList ++ [s'] := h
      exact absurd (List.append_inj' happend rfl).1.symm items.toList_ne_nil
  | more items s ih =>
    cases l' with
    | single s' =>
      have happend : items.toList ++ [s] = [] ++ [s'] := h
      exact absurd (List.append_inj' happend rfl).1 items.toList_ne_nil
    | more items' s' =>
      obtain ⟨hitems, hlast⟩ := List.append_inj' h rfl
      cases hlast
      rw [ih hitems]

end parts

theorem SchemaTree.statements_inj {s s' : SchemaTree} (h : s.statements = s'.statements) :
    s = s' := by
  cases s with
  | empty =>
    cases s' with
    | empty => rfl
    | list items' => exact absurd h.symm items'.toList_ne_nil
  | list items =>
    cases s' with
    | empty => exact absurd h items.toList_ne_nil
    | list items' => exact congrArg SchemaTree.list (StatementListTree.toList_inj h)

/-- Statements may stand behind others. -/
theorem StatementListTree.exists_append (l : StatementListTree) (ss : List StatementTree) :
    ∃ l' : StatementListTree, l'.toList = l.toList ++ ss := by
  induction ss generalizing l with
  | nil => exact ⟨l, (List.append_nil _).symm⟩
  | cons s ss ih =>
    obtain ⟨l', hl'⟩ := ih (l.more s)
    exact ⟨l', by rw [hl', StatementListTree.toList, List.append_assoc, List.singleton_append]⟩

/-- Any statements are those of a schema. -/
theorem SchemaTree.exists_statements (ss : List StatementTree) :
    ∃ s : SchemaTree, s.statements = ss := by
  cases ss with
  | nil => exact ⟨.empty, rfl⟩
  | cons s ss =>
    obtain ⟨l, hl⟩ := (StatementListTree.single s).exists_append ss
    exact ⟨.list l, hl⟩

/-- A list of tokens has at most one derivation tree. -/
theorem SchemaTree.eq_of_tokens_eq {s s' : SchemaTree} (h : s.tokens = s'.tokens) : s = s' := by
  rw [s.tokens_eq, s'.tokens_eq] at h
  exact statements_inj (StatementTree.flatMap_tokens_inj h)

end Shapewise.Schema
