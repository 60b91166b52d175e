import Shapewise.Proofs.Schema.ReadBack
import Shapewise.Proofs.Schema.Unambiguous

/-!
# The reader recognises the grammar of schema text

The reader gives definitions for exactly the token lists that have a derivation tree, and they are
what the tree defines; every other list is refused at the first token that goes on with no schema, or
at its end (`readTokens_recognises`).

One half follows the tokens of a tree through the reader, `Takes`. The other half is an invariant of
the reader, `Reading.Follows`: the tokens that have been taken are those of statements, which are the
definitions of the state, and of a statement that has begun, of which the mode tells how far it has
been read, `Mode.Follows`. A statement that has begun has no tree yet, so the invariant says what the
tokens make of any tree for the part that is missing. Whatever has been read of a statement, it can
still be ended, `Mode.ending`; so what has been taken always is the beginning of a schema.
-/

namespace Shapewise.Schema

open Text

variable {ds : List Definition} {seen ls ls' : List (Located Token)} {l : Located Token}
  {r r' r'' : Reading}

/-! ## Taking the tokens of a tree -/

/-- Tokens are taken from a state to another. -/
def Takes (ls : List (Located Token)) (r r' : Reading) : Prop :=
  ls.foldlM Reading.step r = .ok r'

theorem Takes.append (h : Takes ls r r') (h' : Takes ls' r' r'') : Takes (ls ++ ls') r r'' := by
  rw [Takes, List.foldlM_append, h]
  exact h'

theorem Takes.cons (h : r.step l = .ok r') (h' : Takes ls r' r'') : Takes (l :: ls) r r'' := by
  rw [Takes, List.foldlM_cons, h]
  exact h'

section lists

variable {α β : Type} {close : Token} {opened closed : List β → Reading}
  {held : List β → β → Reading} {tokens : α → List (Located Token)} {meaning : α → β}

/-- Items are taken one behind the other, and the last is held. -/
theorem ReadsList.takes_series (h : ReadsList close opened held closed)
    (hitem : ∀ a done, Takes (tokens a) (opened done) (held done (meaning a))) (s : Series α) :
    ∃ done last, s.toList.map meaning = done ++ [last] ∧
      Takes (s.tokens tokens) (opened []) (held done last) := by
  induction s with
  | single a => exact ⟨[], meaning a, rfl, hitem a []⟩
  | more items comma a ih =>
    obtain ⟨done, last, hmeaning, htakes⟩ := ih
    refine ⟨done ++ [last], meaning a, ?_, ?_⟩
    · rw [Series.toList, List.map_append, hmeaning, List.map_singleton]
    · exact htakes.append (.cons (h.comma done last _ _) (hitem a _))

/-- A list is taken up to its closing token. -/
theorem ReadsList.takes_body (h : ReadsList close opened held closed)
    (hitem : ∀ a done, Takes (tokens a) (opened done) (held done (meaning a))) (b : Body α) :
    Takes (b.tokens tokens close) (opened []) (closed (b.items.toList.map meaning)) := by
  obtain ⟨items, comma, m⟩ := b
  obtain ⟨done, last, hmeaning, htakes⟩ := h.takes_series hitem items
  rw [hmeaning]
  refine htakes.append ?_
  cases comma with
  | none => exact .cons (h.last done last _ _) rfl
  | some c => exact .cons (h.comma done last _ _) (.cons (h.trailing done last _ _) rfl)

end lists

theorem takes_argument (o : OpenRecord) (m : MemberName) (a : ArgumentTree)
    (done : List ArgumentDef) :
    Takes a.tokens ⟨ds, .argument o m done⟩ (heldArgument ds o m done a.definition) := by
  rcases a with ⟨_, _, _ | _ | _ | _⟩ | ⟨_, _, _, _ | _ | _ | _⟩ <;> rfl

theorem takes_memberType (o : OpenRecord) (m : MemberName) (kind : MemberKind) (t : TypeTree) :
    Takes t.tokens ⟨ds, .memberKind o m kind⟩ ⟨ds, .memberType o m kind (.ofRef t.ref)⟩ := by
  cases t <;> rfl

theorem takes_member (kind : RecordKind) (record : String) (m : MemberTree) (done : List Member) :
    Takes m.tokens ⟨ds, .member ⟨kind, record, done⟩⟩
      (heldMember ds kind record done m.definition) := by
  cases m with
  | plain name colon type => cases type <;> rfl
  | relationship name colon arrow type =>
    exact .cons rfl (.cons rfl (.cons rfl (takes_memberType _ _ _ type)))
  | value keyword name colon type =>
    exact .cons rfl (.cons rfl (.cons rfl (takes_memberType _ _ _ type)))
  | bareCall keyword name openParen closeParen colon type =>
    exact .cons rfl (.cons rfl (.cons rfl (.cons rfl (.cons rfl (takes_memberType _ _ _ type)))))
  | call keyword name openParen arguments colon type =>
    have harguments : Takes _ ⟨ds, .argument ⟨kind, record, done⟩ ⟨name.text, name.line⟩ []⟩ _ :=
      (readsList_arguments _ _).takes_body (takes_argument _ _) arguments
    exact .cons rfl (.cons rfl (.cons rfl (harguments.append
      (.cons rfl (takes_memberType _ _ _ type)))))

theorem takes_variant (name : String) (tagField : Option String) (v : VariantTree)
    (done : List VariantDef) :
    Takes v.tokens ⟨ds, .variant ⟨name, tagField, done⟩⟩
      ⟨ds, .variantType ⟨name, tagField, done ++ [v.definition]⟩⟩ :=
  rfl

theorem takes_record (r : RecordTree) :
    Takes r.tokens ⟨ds, .start⟩ ⟨ds ++ [r.definition], .start⟩ := by
  cases r with
  | empty kind keyword name openBrace closeBrace => cases kind <;> rfl
  | list kind keyword name openBrace members =>
    have hmembers : Takes _ ⟨ds, .member ⟨kind, name.text, []⟩⟩ _ :=
      (readsList_members _ _).takes_body (takes_member _ _) members
    cases kind <;> exact .cons rfl (.cons rfl (.cons rfl hmembers))

theorem takes_union (u : UnionTree) :
    Takes u.tokens ⟨ds, .start⟩ ⟨ds ++ [u.definition], .start⟩ := by
  cases u with
  | untagged union name openBrace variants =>
    have hvariants : Takes _ ⟨ds, .variant ⟨name.text, none, []⟩⟩ _ :=
      (readsList_variants _ _).takes_body (takes_variant _ _) variants
    exact .cons rfl (.cons rfl (.cons rfl hvariants))
  | tagged union name on tagField openBrace variants =>
    have hvariants : Takes _ ⟨ds, .variant ⟨name.text, some tagField.text, []⟩⟩ _ :=
      (readsList_variants _ _).takes_body (takes_variant _ _) variants
    exact .cons rfl (.cons rfl (.cons rfl (.cons rfl (.cons rfl hvariants))))

/-- A statement is taken behind those that were taken before. -/
theorem takes_statement (s : StatementTree) :
    Takes s.tokens ⟨ds, .start⟩ ⟨ds ++ [s.definition], .start⟩ := by
  rcases s with a | r | u
  · rfl
  · exact takes_record r
  · exact takes_union u

theorem takes_statements (ss : List StatementTree) :
    Takes (ss.flatMap StatementTree.tokens) ⟨ds, .start⟩
      ⟨ds ++ ss.map StatementTree.definition, .start⟩ := by
  induction ss generalizing ds with
  | nil => rw [List.map_nil, List.append_nil]; rfl
  | cons s ss ih =>
    have hss : Takes _ ⟨ds, .start⟩ _ := (takes_statement s).append ih
    rwa [List.append_assoc] at hss

/-- The tokens of a derivation tree are read as what the tree defines. -/
theorem readTokens_tree (s : SchemaTree) : readTokens s.tokens = .ok s.definitions := by
  have htakes : Takes s.tokens .initial ⟨s.definitions, .start⟩ := by
    have hstatements : Takes _ ⟨[], .start⟩ _ := takes_statements s.statements
    rwa [← s.tokens_eq] at hstatements
  rw [readTokens, htakes]
  rfl

/-! ## The tokens that have been taken -/

/-! ### Lists that are open -/

section lists

variable {α β : Type} (tokens : α → List (Located Token)) (meaning : α → β) (close : Token)
  (Whole : List (Located Token) → List β → Prop)

/-- Tokens stand before a list: with the closing token behind them, or with items and the closing
token, they are a whole. -/
structure Opens (head : List (Located Token)) : Prop where
  empty : ∀ m : Mark, Whole (head ++ [m.as close]) []
  list : ∀ b : Body α, Whole (head ++ b.tokens tokens close) (b.items.toList.map meaning)

/-- Tokens end where an item may stand: behind the opening of a list or behind a comma. -/
inductive Begun : List (Located Token) → List β → Prop
  | opened {head : List (Located Token)} (h : Opens tokens meaning close Whole head) : Begun head []
  | comma {head : List (Located Token)} (h : Opens tokens meaning close Whole head)
      (items : Series α) (c : Mark) :
      Begun (head ++ items.tokens tokens ++ [c.as .comma]) (items.toList.map meaning)

variable {tokens meaning close Whole} {done : List β}

/-- With an item behind them, the items of a list that has begun are not empty. -/
theorem Begun.exists_series (h : Begun tokens meaning close Whole seen done) (a : α) :
    ∃ (head : List (Located Token)) (items : Series α), Opens tokens meaning close Whole head ∧
      head ++ items.tokens tokens = seen ++ tokens a ∧
      items.toList.map meaning = done ++ [meaning a] := by
  cases h with
  | opened hopens => exact ⟨seen, .single a, hopens, rfl, rfl⟩
  | comma hopens items c =>
    exact ⟨_, .more items c a, hopens, by simp [Series.tokens], by simp [Series.toList]⟩

/-- Behind an item and a comma another item may stand. -/
theorem Begun.next (h : Begun tokens meaning close Whole seen done) (a : α) (c : Mark) :
    Begun tokens meaning close Whole (seen ++ tokens a ++ [c.as .comma]) (done ++ [meaning a]) := by
  obtain ⟨head, items, hopens, htokens, hmeaning⟩ := h.exists_series a
  rw [← htokens, ← hmeaning]
  exact .comma hopens items c

/-- The closing token may stand behind an item. -/
theorem Begun.last (h : Begun tokens meaning close Whole seen done) (a : α) (m : Mark) :
    Whole (seen ++ tokens a ++ [m.as close]) (done ++ [meaning a]) := by
  obtain ⟨head, items, hopens, htokens, hmeaning⟩ := h.exists_series a
  have hwhole := hopens.list ⟨items, none, m⟩
  rw [← htokens, ← hmeaning, List.append_assoc]
  exact hwhole

/-- The closing token may stand where an item may stand. -/
theorem Begun.whole (h : Begun tokens meaning close Whole seen done) (m : Mark) :
    Whole (seen ++ [m.as close]) done := by
  cases h with
  | opened hopens => exact hopens.empty m
  | comma hopens items c =>
    have hwhole := hopens.list ⟨items, some c, m⟩
    rwa [Body.tokens, trailing_some, ← List.append_assoc, ← List.append_assoc] at hwhole

end lists

/-! ### Parts that have begun -/

/-- The tokens of a type of which more may follow. -/
inductive PartialType.Follows : PartialType → List (Located Token) → Prop
  | named (n : Name) : Follows ⟨n.text, .named, false⟩ [n.lexeme]
  | nullable (n : Name) (question : Mark) :
    Follows ⟨n.text, .nullable, false⟩ [n.lexeme, question.as .question]
  | openBracket (n : Name) (openBracket : Mark) :
    Follows ⟨n.text, .openBracket, false⟩ [n.lexeme, openBracket.as .openBracket]
  | array (n : Name) (openBracket closeBracket : Mark) : Follows ⟨n.text, .array, true⟩
    [n.lexeme, openBracket.as .openBracket, closeBracket.as .closeBracket]
  | nullableArray (n : Name) (openBracket closeBracket question : Mark) :
    Follows ⟨n.text, .nullable, true⟩ [n.lexeme, openBracket.as .openBracket,
      closeBracket.as .closeBracket, question.as .question]

/-- A token goes on with a type, or it does not and the type may be complete. -/
theorem PartialType.Follows.step {p : PartialType} (h : p.Follows seen) (mark : Mark) (t : Token) :
    (∃ p', p.step? t = some p' ∧ p'.Follows (seen ++ [mark.as t])) ∨
    (p.step? t = none ∧ p.complete? = none) ∨
    (p.step? t = none ∧ ∃ type : TypeTree, type.tokens = seen ∧ p.complete? = some type.ref) := by
  cases h with
  | named n =>
    cases t with
    | openBracket => exact .inl ⟨_, rfl, .openBracket n mark⟩
    | question => exact .inl ⟨_, rfl, .nullable n mark⟩
    | _ => exact .inr (.inr ⟨rfl, .simple n, rfl, rfl⟩)
  | nullable n question => exact .inr (.inr ⟨by cases t <;> rfl, .nullable n question, rfl, rfl⟩)
  | openBracket n openBracket =>
    cases t with
    | closeBracket => exact .inl ⟨_, rfl, .array n openBracket mark⟩
    | _ => exact .inr (.inl ⟨rfl, rfl⟩)
  | array n openBracket closeBracket =>
    cases t with
    | question => exact .inl ⟨_, rfl, .nullableArray n openBracket closeBracket mark⟩
    | _ => exact .inr (.inr ⟨rfl, .array n openBracket closeBracket, rfl, rfl⟩)
  | nullableArray n openBracket closeBracket question =>
    exact .inr (.inr ⟨by cases t <;> rfl,
      .nullableArray n openBracket closeBracket question, rfl, rfl⟩)

/-- Tokens that are an argument with any type behind them. -/
def ArgumentHead (name : String) (isOptional : Bool) (head : List (Located Token)) : Prop :=
  ∀ t : TypeTree, ∃ a : ArgumentTree, a.tokens = head ++ t.tokens ∧
    a.definition = ⟨name, t.ref, isOptional⟩

/-- Tokens that are a member with any type behind them. -/
def MemberHead (m : MemberName) (kind : MemberKind) (head : List (Located Token)) : Prop :=
  ∀ t : TypeTree, ∃ tree : MemberTree, tree.tokens = head ++ t.tokens ∧
    tree.definition = ⟨m.name, kind, t.ref, m.line⟩

/-- The tokens of a calculation up to the parenthesis behind its arguments. -/
def Called (m : MemberName) (call : List (Located Token)) (arguments : List ArgumentDef) : Prop :=
  ∀ colon : Mark, MemberHead m (.calculation (some arguments)) (call ++ [colon.as .colon])

/-- The tokens of a record whose braces are open, where a member may stand. -/
def OpenRecord.Follows (o : OpenRecord) (seen : List (Located Token)) : Prop :=
  Begun MemberTree.tokens MemberTree.definition .closeBrace
    (fun ls members => ∃ r : RecordTree, r.tokens = ls ∧
      r.definition = .record o.kind o.name members) seen o.members

/-- The tokens of a calculation whose parentheses are open, where an argument may stand. -/
def CallFollows (m : MemberName) (call : List (Located Token)) (arguments : List ArgumentDef) :
    Prop :=
  Begun ArgumentTree.tokens ArgumentTree.definition .closeParen (Called m) call arguments

/-- The tokens of a union whose braces are open, where a variant may stand. -/
def OpenUnion.Follows (u : OpenUnion) (seen : List (Located Token)) : Prop :=
  Begun VariantTree.tokens VariantTree.definition .closeBrace
    (fun ls variants => variants ≠ [] → ∃ tree : UnionTree, tree.tokens = ls ∧
      tree.definition = .union u.name variants u.tagField) seen u.variants

/-- Behind the opening brace of a record a member may stand. -/
theorem recordFollows_open (kind : RecordKind) (keyword : Mark) (n : Name) (brace : Mark) :
    OpenRecord.Follows ⟨kind, n.text, []⟩
      [keyword.as (.keyword (recordKeyword kind)), n.lexeme, brace.as .openBrace] :=
  .opened ⟨fun close => ⟨.empty kind keyword n brace close, rfl, rfl⟩,
    fun members => ⟨.list kind keyword n brace members, rfl, rfl⟩⟩

/-- Behind the opening parenthesis of a calculation an argument may stand. -/
theorem callFollows_open (keyword : Mark) (n : Name) (paren : Mark) : CallFollows ⟨n.text, n.line⟩
    [keyword.as (.keyword .calc), n.lexeme, paren.as .openParen] [] :=
  .opened ⟨fun close colon type => ⟨.bareCall keyword n paren close colon type, rfl, rfl⟩,
    fun arguments colon type =>
      ⟨.call keyword n paren arguments colon type, by simp [MemberTree.tokens], rfl⟩⟩

/-- The tokens since an argument may have begun, by what was read last. -/
inductive ArgumentFollows (o : OpenRecord) (m : MemberName) (arguments : List ArgumentDef) :
    Mode → List (Located Token) → Prop
  | start : ArgumentFollows o m arguments (.argument o m arguments) []
  | name (n : Name) : ArgumentFollows o m arguments (.argumentName o m arguments n.text) [n.lexeme]
  | mark (n : Name) (question : Mark) : ArgumentFollows o m arguments
    (.argumentMark o m arguments n.text) [n.lexeme, question.as .question]
  | colon {name : String} {isOptional : Bool} {head : List (Located Token)}
    (hhead : ArgumentHead name isOptional head) :
    ArgumentFollows o m arguments (.argumentColon o m arguments name isOptional) head
  | type {name : String} {isOptional : Bool} {head type : List (Located Token)} {p : PartialType}
    (hhead : ArgumentHead name isOptional head) (htype : p.Follows type) :
    ArgumentFollows o m arguments (.argumentType o m arguments name isOptional p) (head ++ type)

/-- The tokens since a member may have begun, by what was read last. -/
inductive MemberFollows (o : OpenRecord) : Mode → List (Located Token) → Prop
  | start : MemberFollows o (.member o) []
  | name (n : Name) : MemberFollows o (.memberName o ⟨n.text, n.line⟩) [n.lexeme]
  | colon (n : Name) (colon : Mark) :
    MemberFollows o (.memberColon o ⟨n.text, n.line⟩) [n.lexeme, colon.as .colon]
  | kind {m : MemberName} {kind : MemberKind} {head : List (Located Token)}
    (hhead : MemberHead m kind head) : MemberFollows o (.memberKind o m kind) head
  | type {m : MemberName} {kind : MemberKind} {head type : List (Located Token)} {p : PartialType}
    (hhead : MemberHead m kind head) (htype : p.Follows type) :
    MemberFollows o (.memberType o m kind p) (head ++ type)
  | keyword (keyword : Mark) : MemberFollows o (.calc o) [keyword.as (.keyword .calc)]
  | calcName (keyword : Mark) (n : Name) :
    MemberFollows o (.calcName o ⟨n.text, n.line⟩) [keyword.as (.keyword .calc), n.lexeme]
  | argument {m : MemberName} {arguments : List ArgumentDef} {call items : List (Located Token)}
    {mode : Mode} (hcall : CallFollows m call arguments)
    (h : ArgumentFollows o m arguments mode items) : MemberFollows o mode (call ++ items)
  | called {m : MemberName} {arguments : List ArgumentDef} {call : List (Located Token)}
    (hcall : Called m call arguments) : MemberFollows o (.called o m arguments) call

/-- The tokens since a variant may have begun, by what was read last. -/
inductive VariantFollows (u : OpenUnion) : Mode → List (Located Token) → Prop
  | start : VariantFollows u (.variant u) []
  | tag (tag : Name) : VariantFollows u (.variantTag u tag.text) [tag.lexeme]
  | colon (tag : Name) (colon : Mark) :
    VariantFollows u (.variantColon u tag.text) [tag.lexeme, colon.as .colon]
  | variant (v : VariantTree) : VariantFollows u
    (.variantType { u with variants := u.variants ++ [v.definition] }) v.tokens

/-- The tokens since a statement may have begun, by what was read last. -/
inductive Mode.Follows : Mode → List (Located Token) → Prop
  | start : Follows .start []
  | define (define : Mark) : Follows .define [define.as (.keyword .define)]
  | aliasName (define : Mark) (n : Name) :
    Follows (.alias n.text) [define.as (.keyword .define), n.lexeme]
  | aliasAs (define : Mark) (n : Name) (asKeyword : Mark) : Follows (.aliasAs n.text)
    [define.as (.keyword .define), n.lexeme, asKeyword.as (.keyword .as)]
  | record (kind : RecordKind) (keyword : Mark) :
    Follows (.record kind) [keyword.as (.keyword (recordKeyword kind))]
  | recordName (kind : RecordKind) (keyword : Mark) (n : Name) : Follows (.recordName kind n.text)
    [keyword.as (.keyword (recordKeyword kind)), n.lexeme]
  | member {o : OpenRecord} {before items : List (Located Token)} {mode : Mode}
    (ho : o.Follows before) (h : MemberFollows o mode items) : Follows mode (before ++ items)
  | union (keyword : Mark) : Follows .union [keyword.as (.keyword .union)]
  | unionName (keyword : Mark) (n : Name) :
    Follows (.unionName n.text) [keyword.as (.keyword .union), n.lexeme]
  | unionOn (keyword : Mark) (n : Name) (on : Mark) : Follows (.unionOn n.text)
    [keyword.as (.keyword .union), n.lexeme, on.as (.keyword .on)]
  | unionTag (keyword : Mark) (n : Name) (on : Mark) (tagField : Name) :
    Follows (.unionTag n.text tagField.text)
      [keyword.as (.keyword .union), n.lexeme, on.as (.keyword .on), tagField.lexeme]
  | variant {u : OpenUnion} {before items : List (Located Token)} {mode : Mode}
    (hu : u.Follows before) (h : VariantFollows u mode items) : Follows mode (before ++ items)

/-! ### What a step keeps -/

variable {o : OpenRecord} {u : OpenUnion} {m : MemberName} {arguments : List ArgumentDef}
  {before call items : List (Located Token)} {mode : Mode} {mark : Mark} {t : Token}

/-- A token has a place. -/
theorem exists_mark (l : Located Token) : ∃ (m : Mark) (t : Token), l = m.as t :=
  ⟨⟨l.line, l.position⟩, l.token, rfl⟩

/-- The tokens of a statement have been taken so far, or all of them have. -/
inductive Reached (ds : List Definition) (seen : List (Located Token)) : Reading → Prop
  | goesOn {mode : Mode} (h : mode.Follows seen) : Reached ds seen ⟨ds, mode⟩
  | ends (s : StatementTree) (h : s.tokens = seen) : Reached ds seen ⟨ds ++ [s.definition], .start⟩

theorem Reached.openRecord (h : o.Follows seen) : Reached ds seen ⟨ds, .member o⟩ := by
  have hfollows := Mode.Follows.member h .start
  rw [List.append_nil] at hfollows
  exact .goesOn hfollows

theorem Reached.closeRecord
    (h : ∃ r : RecordTree, r.tokens = seen ∧ r.definition = .record o.kind o.name o.members) :
    Reached ds seen ⟨ds ++ [Reading.closeRecord o], .start⟩ := by
  obtain ⟨r, rfl, hdefinition⟩ := h
  rw [Reading.closeRecord, ← hdefinition]
  exact .ends (.record r) rfl

theorem Reached.openUnion (h : u.Follows seen) : Reached ds seen ⟨ds, .variant u⟩ := by
  have hfollows := Mode.Follows.variant h .start
  rw [List.append_nil] at hfollows
  exact .goesOn hfollows

theorem Reached.closeUnion
    (h : ∃ tree : UnionTree, tree.tokens = seen ∧
      tree.definition = .union u.name u.variants u.tagField) :
    Reached ds seen ⟨ds ++ [Reading.closeUnion u], .start⟩ := by
  obtain ⟨tree, rfl, hdefinition⟩ := h
  rw [Reading.closeUnion, ← hdefinition]
  exact .ends (.union tree) rfl

/-- Taking a token goes on with the argument that may have begun, or ends the arguments. -/
theorem ArgumentFollows.step (h : ArgumentFollows o m arguments mode items) (ho : o.Follows before)
    (hcall : CallFollows m call arguments) (hstep : Reading.step ⟨ds, mode⟩ (mark.as t) = .ok r') :
    Reached ds (before ++ (call ++ items) ++ [mark.as t]) r' := by
  rw [List.append_assoc, List.append_assoc]
  have hnext : ∀ {mode' : Mode}, ArgumentFollows o m arguments mode' (items ++ [mark.as t]) →
      Reached ds (before ++ (call ++ (items ++ [mark.as t]))) ⟨ds, mode'⟩ := fun h' =>
    .goesOn (.member ho (.argument hcall h'))
  cases h with
  | start =>
    cases t with
    | name s =>
      cases hstep
      exact hnext (.name ⟨mark, s⟩)
    | closeParen =>
      cases hstep
      exact .goesOn (.member ho (.called (hcall.whole mark)))
    | _ => cases hstep
  | name n =>
    cases t with
    | question =>
      cases hstep
      exact hnext (.mark n mark)
    | colon =>
      cases hstep
      exact hnext (.colon fun type => ⟨.required n mark type, rfl, rfl⟩)
    | _ => cases hstep
  | mark n question =>
    cases t with
    | colon =>
      cases hstep
      exact hnext (.colon fun type => ⟨.optional n question mark type, rfl, rfl⟩)
    | _ => cases hstep
  | colon hhead =>
    cases t with
    | name s =>
      cases hstep
      exact hnext (.type hhead (.named ⟨mark, s⟩))
    | _ => cases hstep
  | type hhead htype =>
    unfold Reading.step at hstep
    obtain ⟨p', hgoes, htype'⟩ | ⟨hgoes, hcomplete⟩ | ⟨hgoes, type, rfl, hcomplete⟩ :=
      htype.step mark t
    · simp only [Mark.as_token, hgoes] at hstep
      cases hstep
      rw [List.append_assoc]
      exact .goesOn (.member ho (.argument hcall (.type hhead htype')))
    · simp [hgoes, hcomplete] at hstep
    · simp only [Mark.as_token, hgoes, hcomplete] at hstep
      obtain ⟨a, htokens, hdefinition⟩ := hhead type
      rw [← htokens, ← List.append_assoc call]
      cases t with
      | comma =>
        cases hstep
        rw [← hdefinition, ← List.append_nil (call ++ _ ++ _)]
        exact .goesOn (.member ho (.argument (hcall.next a mark) .start))
      | closeParen =>
        cases hstep
        rw [← hdefinition]
        exact .goesOn (.member ho (.called (hcall.last a mark)))
      | _ => cases hstep

/-- Taking a token goes on with the member that may have begun, or ends the record. -/
theorem MemberFollows.step (h : MemberFollows o mode items) (ho : o.Follows before)
    (hstep : Reading.step ⟨ds, mode⟩ (mark.as t) = .ok r') :
    Reached ds (before ++ items ++ [mark.as t]) r' := by
  rw [List.append_assoc]
  have hnext : ∀ {mode' : Mode}, MemberFollows o mode' (items ++ [mark.as t]) →
      Reached ds (before ++ (items ++ [mark.as t])) ⟨ds, mode'⟩ := fun h' => .goesOn (.member ho h')
  cases h with
  | start =>
    cases t with
    | name s =>
      cases hstep
      exact hnext (.name ⟨mark, s⟩)
    | keyword k =>
      cases k with
      | «calc» =>
        cases hstep
        exact hnext (.keyword mark)
      | _ => cases hstep
    | closeBrace =>
      cases hstep
      exact .closeRecord (ho.whole mark)
    | _ => cases hstep
  | name n =>
    cases t with
    | colon =>
      cases hstep
      exact hnext (.colon n mark)
    | _ => cases hstep
  | colon n colon =>
    cases t with
    | name s =>
      cases hstep
      have hhead : MemberHead ⟨n.text, n.line⟩ .plain [n.lexeme, colon.as .colon] :=
        fun type => ⟨.plain n colon type, rfl, rfl⟩
      exact hnext (.type hhead (.named ⟨mark, s⟩))
    | arrow =>
      cases hstep
      exact hnext (.kind fun type => ⟨.relationship n colon mark type, rfl, rfl⟩)
    | _ => cases hstep
  | kind hhead =>
    cases t with
    | name s =>
      cases hstep
      exact hnext (.type hhead (.named ⟨mark, s⟩))
    | _ => cases hstep
  | type hhead htype =>
    unfold Reading.step at hstep
    obtain ⟨p', hgoes, htype'⟩ | ⟨hgoes, hcomplete⟩ | ⟨hgoes, type, rfl, hcomplete⟩ :=
      htype.step mark t
    · simp only [Mark.as_token, hgoes] at hstep
      cases hstep
      rw [List.append_assoc]
      exact .goesOn (.member ho (.type hhead htype'))
    · simp [hgoes, hcomplete] at hstep
    · simp only [Mark.as_token, hgoes, hcomplete] at hstep
      obtain ⟨member, htokens, hdefinition⟩ := hhead type
      rw [← htokens, ← List.append_assoc]
      cases t with
      | comma =>
        cases hstep
        rw [← hdefinition]
        exact .openRecord (ho.next member mark)
      | closeBrace =>
        cases hstep
        rw [← hdefinition]
        exact .closeRecord (ho.last member mark)
      | _ => cases hstep
  | keyword keyword =>
    cases t with
    | name s =>
      cases hstep
      exact hnext (.calcName keyword ⟨mark, s⟩)
    | _ => cases hstep
  | calcName keyword n =>
    cases t with
    | colon =>
      cases hstep
      exact hnext (.kind fun type => ⟨.value keyword n mark type, rfl, rfl⟩)
    | openParen =>
      cases hstep
      have hstart : MemberFollows o _ _ := .argument (callFollows_open keyword n mark) .start
      rw [List.append_nil] at hstart
      exact hnext hstart
    | _ => cases hstep
  | argument hcall harguments =>
    have hreached := harguments.step ho hcall hstep
    rwa [List.append_assoc] at hreached
  | called hcall =>
    cases t with
    | colon =>
      cases hstep
      exact hnext (.kind (hcall mark))
    | _ => cases hstep

/-- Taking a token goes on with the variant that may have begun, or ends the union. -/
theorem VariantFollows.step (h : VariantFollows u mode items) (hu : u.Follows before)
    (hstep : Reading.step ⟨ds, mode⟩ (mark.as t) = .ok r') :
    Reached ds (before ++ items ++ [mark.as t]) r' := by
  have hnext : ∀ {mode' : Mode}, VariantFollows u mode' (items ++ [mark.as t]) →
      Reached ds (before ++ items ++ [mark.as t]) ⟨ds, mode'⟩ := by
    intro mode' h'
    rw [List.append_assoc]
    exact .goesOn (.variant hu h')
  cases h with
  | start =>
    cases t with
    | name s =>
      cases hstep
      exact hnext (.tag ⟨mark, s⟩)
    | closeBrace =>
      have hread : (if u.variants.isEmpty then .error (.unexpected (mark.as .closeBrace))
          else Reading.endStatement ⟨ds, .variant u⟩ (Reading.closeUnion u)) = .ok r' := hstep
      split at hread
      · cases hread
      · next hvariants =>
        cases hread
        rw [List.append_nil]
        exact .closeUnion (hu.whole mark (by simpa using hvariants))
    | _ => cases hstep
  | tag tag =>
    cases t with
    | colon =>
      cases hstep
      exact hnext (.colon tag mark)
    | _ => cases hstep
  | colon tag colon =>
    cases t with
    | name s =>
      cases hstep
      exact hnext (.variant ⟨tag, colon, ⟨mark, s⟩⟩)
    | _ => cases hstep
  | variant v =>
    cases t with
    | comma =>
      cases hstep
      exact .openUnion (hu.next v mark)
    | closeBrace =>
      cases hstep
      exact .closeUnion (hu.last v mark (by simp))
    | _ => cases hstep

/-- Taking a token goes on with the statement that has begun or ends it. -/
theorem Mode.Follows.step (h : mode.Follows seen)
    (hstep : Reading.step ⟨ds, mode⟩ (mark.as t) = .ok r') : Reached ds (seen ++ [mark.as t]) r' := by
  cases h with
  | start =>
    cases t with
    | keyword k =>
      cases k with
      | define =>
        cases hstep
        exact .goesOn (.define mark)
      | resource =>
        cases hstep
        exact .goesOn (.record .resource mark)
      | map =>
        cases hstep
        exact .goesOn (.record .map mark)
      | union =>
        cases hstep
        exact .goesOn (.union mark)
      | _ => cases hstep
    | _ => cases hstep
  | define define =>
    cases t with
    | name s =>
      cases hstep
      exact .goesOn (.aliasName define ⟨mark, s⟩)
    | _ => cases hstep
  | aliasName define n =>
    cases t with
    | keyword k =>
      cases k with
      | as =>
        cases hstep
        exact .goesOn (.aliasAs define n mark)
      | _ => cases hstep
    | _ => cases hstep
  | aliasAs define n asKeyword =>
    cases t with
    | name s =>
      cases hstep
      exact .ends (.alias ⟨define, n, asKeyword, ⟨mark, s⟩⟩) rfl
    | _ => cases hstep
  | record kind keyword =>
    cases t with
    | name s =>
      cases hstep
      exact .goesOn (.recordName kind keyword ⟨mark, s⟩)
    | _ => cases hstep
  | recordName kind keyword n =>
    cases t with
    | openBrace =>
      cases hstep
      exact .openRecord (recordFollows_open kind keyword n mark)
    | _ => cases hstep
  | member ho h => exact h.step ho hstep
  | union keyword =>
    cases t with
    | name s =>
      cases hstep
      exact .goesOn (.unionName keyword ⟨mark, s⟩)
    | _ => cases hstep
  | unionName keyword n =>
    cases t with
    | keyword k =>
      cases k with
      | on =>
        cases hstep
        exact .goesOn (.unionOn keyword n mark)
      | _ => cases hstep
    | openBrace =>
      cases hstep
      exact .openUnion (.opened ⟨fun _ hne => absurd rfl hne,
        fun variants _ => ⟨.untagged keyword n mark variants, rfl, rfl⟩⟩)
    | _ => cases hstep
  | unionOn keyword n on =>
    cases t with
    | name s =>
      cases hstep
      exact .goesOn (.unionTag keyword n on ⟨mark, s⟩)
    | _ => cases hstep
  | unionTag keyword n on tagField =>
    cases t with
    | openBrace =>
      cases hstep
      exact .openUnion (.opened ⟨fun _ hne => absurd rfl hne,
        fun variants _ => ⟨.tagged keyword n on tagField mark variants, rfl, rfl⟩⟩)
    | _ => cases hstep
  | variant hu h => exact h.step hu hstep

/-- The tokens that have been taken are those of the statements that are defined and of one that may
have begun. -/
def Reading.Follows (r : Reading) (seen : List (Located Token)) : Prop :=
  ∃ (ss : List StatementTree) (items : List (Located Token)),
    seen = ss.flatMap StatementTree.tokens ++ items ∧
    r.definitions = ss.map StatementTree.definition ∧ r.mode.Follows items

theorem Reading.Follows.step (h : r.Follows seen) (hstep : r.step l = .ok r') :
    r'.Follows (seen ++ [l]) := by
  obtain ⟨definitions, mode⟩ := r
  obtain ⟨ss, items, rfl, rfl, hmode⟩ := h
  obtain ⟨mark, t, rfl⟩ := exists_mark l
  rw [List.append_assoc]
  cases hmode.step hstep with
  | goesOn hmode' => exact ⟨ss, _, rfl, rfl, hmode'⟩
  | ends s hs => exact ⟨ss ++ [s], [], by simp [hs], by simp, .start⟩

/-- Taking tokens keeps the state in line with the tokens that have been taken. -/
theorem Reading.Follows.run (h : r.Follows seen) (hrun : Takes ls r r') :
    r'.Follows (seen ++ ls) := by
  induction ls generalizing r seen with
  | nil =>
    cases hrun
    rwa [List.append_nil]
  | cons l ls ih =>
    rw [Takes, List.foldlM_cons] at hrun
    obtain ⟨s, hs, hrun⟩ := Outcome.bind_eq_ok_iff.1 hrun
    have htail := ih (h.step hs) hrun
    rwa [List.append_assoc, List.singleton_append] at htail

/-- Between statements nothing has been taken of a statement. -/
theorem Mode.Follows.eq_nil (h : Mode.start.Follows seen) : seen = [] := by
  cases h with
  | start => rfl
  | member ho h =>
    cases h with
    | argument hcall h => cases h
  | variant hu h => cases h

/-- What is read is what a derivation tree defines. -/
theorem exists_tree_of_readTokens {ds : List Definition} (h : readTokens ls = .ok ds) :
    ∃ s : SchemaTree, s.tokens = ls ∧ s.definitions = ds := by
  obtain ⟨⟨definitions, mode⟩, hrun, hfinish⟩ := Outcome.bind_eq_ok_iff.1 h
  have hinitial : Reading.initial.Follows [] := ⟨[], [], rfl, rfl, .start⟩
  obtain ⟨ss, items, hls, rfl, hmode⟩ := hinitial.run hrun
  unfold Reading.finish at hfinish
  split at hfinish
  · next hstart =>
    obtain rfl : mode = .start := hstart
    obtain rfl : items = [] := hmode.eq_nil
    cases hfinish
    obtain ⟨s, rfl⟩ := SchemaTree.exists_statements ss
    rw [List.append_nil] at hls
    exact ⟨s, s.tokens_eq.trans hls.symm, rfl⟩
  · cases hfinish

/-! ## Tokens that are refused -/

/-- A token that is refused is the fault. -/
theorem step_eq_error {f : ReadFault} (h : r.step l = .error f) : f = .unexpected l := by
  unfold Reading.step Reading.goOn Reading.endStatement at h
  -- the token goes on, ends the statement or is refused, in types and unions behind a further test
  dsimp only at h
  repeat' split at h
  all_goals cases h
  all_goals rfl

/-- Tokens are refused at the first that cannot be taken. -/
theorem run_eq_error {f : ReadFault} (h : ls.foldlM Reading.step r = .error f) :
    ∃ before l after r', ls = before ++ l :: after ∧ Takes before r r' ∧ r'.step l = .error f ∧
      f = .unexpected l := by
  obtain ⟨before, l, after, r', hls, hbefore, hstep⟩ := Outcome.exists_of_foldlM_eq_error h
  exact ⟨before, l, after, r', hls, hbefore, hstep, step_eq_error hstep⟩

/-- What may stand behind a type to complete it. -/
def PartialType.ending (p : PartialType) : List Token :=
  match p.stage with
  | .openBracket => [.closeBracket]
  | _ => []

/-- What may stand behind the last token that was read to end the statement. -/
def Mode.ending : Mode → List Token
  | .start => []
  | .define => [.name "a", .keyword .as, .name "b"]
  | .alias _ => [.keyword .as, .name "b"]
  | .aliasAs _ => [.name "b"]
  | .record _ => [.name "a", .openBrace, .closeBrace]
  | .recordName .. => [.openBrace, .closeBrace]
  | .member _ => [.closeBrace]
  | .memberName .. => [.colon, .name "b", .closeBrace]
  | .memberColon .. => [.name "b", .closeBrace]
  | .memberKind .. => [.name "b", .closeBrace]
  | .memberType _ _ _ p => p.ending ++ [.closeBrace]
  | .calc _ => [.name "a", .colon, .name "b", .closeBrace]
  | .calcName .. => [.colon, .name "b", .closeBrace]
  | .argument .. => [.closeParen, .colon, .name "b", .closeBrace]
  | .argumentName .. => [.colon, .name "b", .closeParen, .colon, .name "b", .closeBrace]
  | .argumentMark .. => [.colon, .name "b", .closeParen, .colon, .name "b", .closeBrace]
  | .argumentColon .. => [.name "b", .closeParen, .colon, .name "b", .closeBrace]
  | .argumentType _ _ _ _ _ p => p.ending ++ [.closeParen, .colon, .name "b", .closeBrace]
  | .called .. => [.colon, .name "b", .closeBrace]
  | .union => [.name "a", .openBrace, .name "a", .colon, .name "b", .closeBrace]
  | .unionName _ => [.openBrace, .name "a", .colon, .name "b", .closeBrace]
  | .unionOn _ => [.name "a", .openBrace, .name "a", .colon, .name "b", .closeBrace]
  | .unionTag .. => [.openBrace, .name "a", .colon, .name "b", .closeBrace]
  | .variant _ => [.name "a", .colon, .name "b", .closeBrace]
  | .variantTag .. => [.colon, .name "b", .closeBrace]
  | .variantColon .. => [.name "b", .closeBrace]
  | .variantType _ => [.closeBrace]

/-- Whatever was read last, the statement can be ended. -/
theorem takes_ending (ds : List Definition) (mode : Mode) :
    ∃ ds', Takes (mode.ending.map (Mark.as ⟨1, 0⟩)) ⟨ds, mode⟩ ⟨ds', .start⟩ := by
  cases mode with
  | memberType o m kind p =>
    obtain ⟨name, stage, isArray⟩ := p
    cases stage <;> exact ⟨_, rfl⟩
  | argumentType o m arguments name isOptional p =>
    obtain ⟨name, stage, isArray⟩ := p
    cases stage <;> exact ⟨_, rfl⟩
  | _ => exact ⟨_, rfl⟩

/-- Tokens that have been taken are the first of a schema. -/
theorem exists_tree_of_takes (h : Takes ls .initial r) :
    ∃ rest, ∃ s : SchemaTree, s.tokens = ls ++ rest := by
  obtain ⟨ds, hending⟩ := takes_ending r.definitions r.mode
  have hread : readTokens (ls ++ r.mode.ending.map (Mark.as ⟨1, 0⟩)) = .ok ds := by
    rw [readTokens, h.append hending]
    rfl
  obtain ⟨s, hs, -⟩ := exists_tree_of_readTokens hread
  exact ⟨_, s, hs⟩

/-- A token that is refused goes on with no schema. -/
theorem tokens_ne_of_step_eq_error {f : ReadFault} (h : Takes ls .initial r)
    (hstep : r.step l = .error f) (rest : List (Located Token)) (s : SchemaTree) :
    s.tokens ≠ ls ++ l :: rest := by
  intro hs
  have hread := readTokens_tree s
  rw [hs, readTokens, List.foldlM_append, h] at hread
  obtain ⟨r', hr', -⟩ := Outcome.bind_eq_ok_iff.1 hread
  have hrun : (l :: rest).foldlM Reading.step r = .ok r' := hr'
  rw [List.foldlM_cons, hstep] at hrun
  cases hrun

/-- Tokens that are not read are refused at their end, if they are the first of a schema, or at the
first of them that goes on with no schema. -/
theorem readTokens_eq_error {f : ReadFault} (h : readTokens ls = .error f) :
    (f = .unexpectedEnd ∧ ∃ rest, ∃ s : SchemaTree, s.tokens = ls ++ rest) ∨
    ∃ before l after, ls = before ++ l :: after ∧ f = .unexpected l ∧
      (∃ rest, ∃ s : SchemaTree, s.tokens = before ++ rest) ∧
      ∀ rest, ∀ s : SchemaTree, s.tokens ≠ before ++ l :: rest := by
  rw [readTokens] at h
  cases hrun : ls.foldlM Reading.step .initial with
  | error f' =>
    rw [hrun] at h
    cases h
    obtain ⟨before, l, after, r, rfl, hbefore, hstep, hf⟩ := run_eq_error hrun
    exact .inr ⟨before, l, after, rfl, hf, exists_tree_of_takes hbefore,
      tokens_ne_of_step_eq_error hbefore hstep⟩
  | ok r =>
    rw [hrun] at h
    have hfinish : r.finish = .error f := h
    unfold Reading.finish at hfinish
    split at hfinish
    · cases hfinish
    · cases hfinish
      exact .inl ⟨rfl, exists_tree_of_takes hrun⟩

/-- A text that is scanned to its end is read as its tokens are. -/
theorem readText_eq_readTokens {text : List Char} (h : (Token.scan text).stop = none) :
    readText text = readTokens (Token.scan text).tokens := by
  rw [readText, readScanned, h]
  rfl

/-! ## What is recognised -/

/-- The tokens that are read are those of the derivation trees, and they are read as what their tree
defines, which is the only one. What is defined has the tokens that were read, in their order, but for
commas at the ends of lists. Tokens that have no tree are refused: at their end, if they are the first
of a schema, and else at the first of them that goes on with no schema. The tokens of a text that is
scanned to its end are read in this way. -/
theorem readTokens_recognises :
    (∀ ls line, readScanned ⟨ls, none, line⟩ = readTokens ls) ∧
    (∀ ls ds, readTokens ls = .ok ds ↔ ∃ s : SchemaTree, s.tokens = ls ∧ s.definitions = ds) ∧
    (∀ s s' : SchemaTree, s.tokens = s'.tokens → s = s') ∧
    (∀ ls ds, readTokens ls = .ok ds →
      ds.flatMap (Definition.tokens false) = withoutTrailing (ls.map Located.token)) ∧
    ∀ ls, (¬ ∃ s : SchemaTree, s.tokens = ls) →
      (readTokens ls = .error .unexpectedEnd ∧
        ∃ rest, ∃ s : SchemaTree, s.tokens = ls ++ rest) ∨
      ∃ before l after, ls = before ++ l :: after ∧ readTokens ls = .error (.unexpected l) ∧
        (∃ rest, ∃ s : SchemaTree, s.tokens = before ++ rest) ∧
        ∀ rest, ∀ s : SchemaTree, s.tokens ≠ before ++ l :: rest := by
  refine ⟨fun _ _ => rfl, fun ls ds => ⟨exists_tree_of_readTokens, ?_⟩,
    fun s s' => SchemaTree.eq_of_tokens_eq, fun ls ds h => ?_, fun ls hls => ?_⟩
  · rintro ⟨s, rfl, rfl⟩
    exact readTokens_tree s
  · obtain ⟨s, rfl, rfl⟩ := exists_tree_of_readTokens h
    exact s.withoutTrailing_tokens.symm
  · cases h : readTokens ls with
    | ok ds =>
      obtain ⟨s, hs, -⟩ := exists_tree_of_readTokens h
      exact absurd ⟨s, hs⟩ hls
    | error f =>
      obtain ⟨rfl, hrest⟩ | ⟨before, l, after, hsplit, rfl, hrest⟩ := readTokens_eq_error h
      · exact .inl ⟨rfl, hrest⟩
      · exact .inr ⟨before, l, after, hsplit, rfl, hrest⟩

/-- A post on three lines, with calculations without arguments, with none and with two:
`resource Post { calc score: number,`, `calc now(): string,` and
`calc ids(of: string, limit?: number?,): string[] }`. -/
def postTree : SchemaTree :=
  .list (.single (.record (.list .resource ⟨1, 0⟩ ⟨⟨1, 9⟩, "Post"⟩ ⟨1, 14⟩ ⟨.more
    (.more
      (.single (.value ⟨1, 16⟩ ⟨⟨1, 21⟩, "score"⟩ ⟨1, 26⟩ (.simple ⟨⟨1, 28⟩, "number"⟩))) ⟨1, 34⟩
      (.bareCall ⟨2, 36⟩ ⟨⟨2, 41⟩, "now"⟩ ⟨2, 44⟩ ⟨2, 45⟩ ⟨2, 46⟩ (.simple ⟨⟨2, 48⟩, "string"⟩)))
    ⟨2, 54⟩
    (.call ⟨3, 56⟩ ⟨⟨3, 61⟩, "ids"⟩ ⟨3, 64⟩ ⟨.more
      (.single (.required ⟨⟨3, 65⟩, "of"⟩ ⟨3, 67⟩ (.simple ⟨⟨3, 69⟩, "string"⟩))) ⟨3, 75⟩
      (.optional ⟨⟨3, 77⟩, "limit"⟩ ⟨3, 82⟩ ⟨3, 83⟩ (.nullable ⟨⟨3, 85⟩, "number"⟩ ⟨3, 91⟩)),
      some ⟨3, 92⟩, ⟨3, 93⟩⟩ ⟨3, 94⟩ (.array ⟨⟨3, 96⟩, "string"⟩ ⟨3, 102⟩ ⟨3, 103⟩)),
    none, ⟨3, 105⟩⟩)))

theorem readTokens_recognises_post :
    readTokens postTree.tokens = .ok [.record .resource "Post"
      [⟨"score", .calculation none, ⟨"number", false, false⟩, 1⟩,
        ⟨"now", .calculation (some []), ⟨"string", false, false⟩, 2⟩,
        ⟨"ids", .calculation (some [⟨"of", ⟨"string", false, false⟩, false⟩,
          ⟨"limit", ⟨"number", false, true⟩, true⟩]), ⟨"string", true, false⟩, 3⟩]] ∧
    (¬ ∃ s : SchemaTree, s.tokens = postTree.tokens.dropLast) ∧
    readTokens postTree.tokens.dropLast = .error .unexpectedEnd := by
  obtain ⟨-, hread, -, -, hnone⟩ := readTokens_recognises
  have hopen : ¬ ∃ s : SchemaTree, s.tokens = postTree.tokens.dropLast := by
    rintro ⟨s, hs⟩
    have hok := (hread _ _).2 ⟨s, hs, rfl⟩
    cases hok
  refine ⟨(hread _ _).2 ⟨postTree, rfl, rfl⟩, hopen, ?_⟩
  obtain ⟨hend, -⟩ | ⟨_, _, _, -, hl, -⟩ := hnone _ hopen
  · exact hend
  · cases hl

end Shapewise.Schema
