import Shapewise.Proofs.Schema.WellFormed
import Shapewise.Proofs.Text.Scan
import Shapewise.Schema.Reading

/-!
# Printed definitions

Definitions as schema text, with every name in backticks. The layout is left open: which blanks stand
behind a token, and whether a comma stands behind the last part of a list. Whatever it is, the
scanner cuts the text into the tokens of the definitions (`scans_print`). A name in backticks ends by
itself, and so does punctuation; a keyword goes on as long as it can, so a space is printed with it.
-/

namespace Shapewise.Schema

open Text

/-! ## The tokens of definitions -/

/-- The parts of a list with commas between them and perhaps one behind the last. -/
def listed (isTrailing : Bool) : List (List Token) → List Token
  | [] => []
  | [part] => part ++ if isTrailing then [.comma] else []
  | part :: next :: parts => part ++ .comma :: listed isTrailing (next :: parts)

/-- The brackets and the question mark of a type. -/
def TypeRef.suffix (t : TypeRef) : List Token :=
  (if t.isArray then [.openBracket, .closeBracket] else []) ++ if t.isNullable then [.question] else []

/-- The tokens of a type. -/
def TypeRef.tokens (t : TypeRef) : List Token :=
  .name t.name :: t.suffix

/-- The tokens of an argument definition. -/
def ArgumentDef.tokens (a : ArgumentDef) : List Token :=
  .name a.name :: ((if a.isOptional then [.question] else []) ++ .colon :: a.type.tokens)

/-- The tokens of a member. -/
def Member.tokens (isTrailing : Bool) (m : Member) : List Token :=
  match m.kind with
  | .plain => .name m.name :: .colon :: m.type.tokens
  | .relationship => .name m.name :: .colon :: .arrow :: m.type.tokens
  | .calculation none => .keyword .calc :: .name m.name :: .colon :: m.type.tokens
  | .calculation (some arguments) =>
    .keyword .calc :: .name m.name :: .openParen ::
      (listed isTrailing (arguments.map ArgumentDef.tokens) ++
        .closeParen :: .colon :: m.type.tokens)

/-- The tokens of a variant. -/
def VariantDef.tokens (v : VariantDef) : List Token :=
  [.name v.tag, .colon, .name v.type]

/-- The keyword of a kind of records. -/
def recordKeyword : RecordKind → Keyword
  | .resource => .resource
  | .map => .map

/-- The tokens of a definition. -/
def Definition.tokens (isTrailing : Bool) : Definition → List Token
  | .alias name base => [.keyword .define, .name name, .keyword .as, .name base]
  | .record kind name members =>
    .keyword (recordKeyword kind) :: .name name :: .openBrace ::
      (listed isTrailing (members.map (Member.tokens isTrailing)) ++ [.closeBrace])
  | .union name variants tagField =>
    .keyword .union :: .name name ::
      ((tagField.elim [] fun tag => [.keyword .on, .name tag]) ++ .openBrace ::
        (listed isTrailing (variants.map VariantDef.tokens) ++ [.closeBrace]))

/-! ## Text -/

/-- A character that separates tokens and means nothing. -/
def Token.isBlank (c : Char) : Bool :=
  c = ' ' || c = '\t' || c = '\r' || c = '\n'

/-- How definitions are laid out: whether lists end in a comma, and the blanks behind each token. -/
structure Layout where
  isTrailing : Bool
  after : Token → List Char
  blank : ∀ t, (after t).all Token.isBlank = true

/-- A token as it is printed. -/
def Token.spelled : Token → List Char
  | .name s => '`' :: s.toList ++ ['`']
  | .keyword k => k.spelling.toList ++ [' ']
  | t => t.display.toList

/-- The text of tokens. -/
def Layout.spell (l : Layout) (ts : List Token) : List Char :=
  ts.flatMap fun t => t.spelled ++ l.after t

/-- The text of definitions. -/
def Layout.print (l : Layout) (ds : List Definition) : List Char :=
  l.spell (ds.flatMap (Definition.tokens l.isTrailing))

/-- A line for each member, variant and statement, and a comma behind the last of a list. -/
def Layout.perLine : Layout where
  isTrailing := true
  after
    | .keyword _ => []
    | .openBrace | .comma | .closeBrace => ['\n']
    | _ => [' ']
  blank t := by cases t <;> rfl

example : Layout.perLine.print
    [.record .resource "Post" [⟨"author", .relationship, ⟨"User", false, true⟩, 0⟩]] =
      "resource `Post` \x7b\n`author` : -> `User` ? ,\n\x7d\n".toList := by
  decide

/-! ## Names -/

/-- A name that fits between backticks. -/
structure Quotable (s : String) : Prop where
  ne_nil : s.toList ≠ []
  no_backtick : '`' ∉ s.toList
  no_lineFeed : '\n' ∉ s.toList

instance (s : String) : Decidable (Quotable s) :=
  decidable_of_iff (s.toList ≠ [] ∧ '`' ∉ s.toList ∧ '\n' ∉ s.toList)
    ⟨fun h => ⟨h.1, h.2.1, h.2.2⟩, fun h => ⟨h.ne_nil, h.no_backtick, h.no_lineFeed⟩⟩

/-- The names in an argument definition. -/
def ArgumentDef.names (a : ArgumentDef) : List String := [a.name, a.type.name]

/-- The names in a member. -/
def Member.names (m : Member) : List String :=
  m.name :: m.type.name :: m.kind.arguments.flatMap ArgumentDef.names

/-- The names in a variant. -/
def VariantDef.names (v : VariantDef) : List String := [v.tag, v.type]

/-- The names in a definition. -/
def Definition.names : Definition → List String
  | .alias name base => [name, base]
  | .record _ name members => name :: members.flatMap Member.names
  | .union name variants tagField => name :: (tagField.toList ++ variants.flatMap VariantDef.names)

/-- A token that can be printed. -/
def Token.Legible : Token → Prop
  | .name s => Quotable s
  | _ => True

theorem forall_mem_listed {P : Token → Prop} {isTrailing : Bool} {parts : List (List Token)}
    (hcomma : P .comma) (h : ∀ part ∈ parts, ∀ t ∈ part, P t) :
    ∀ t ∈ listed isTrailing parts, P t := by
  fun_induction listed isTrailing parts with
  | case1 => nofun
  | case2 part =>
    refine List.forall_mem_append.2 ⟨h part List.mem_cons_self, ?_⟩
    cases isTrailing with
    | false => nofun
    | true => exact List.forall_mem_singleton.2 hcomma
  | case3 part next parts ih =>
    obtain ⟨hpart, hparts⟩ := List.forall_mem_cons.1 h
    exact List.forall_mem_append.2 ⟨hpart, List.forall_mem_cons.2 ⟨hcomma, ih hparts⟩⟩

theorem legible_suffix (t : TypeRef) : ∀ x ∈ t.suffix, x.Legible := by
  obtain ⟨name, _ | _, _ | _⟩ := t <;> simp [TypeRef.suffix, Token.Legible]

theorem legible_argument {a : ArgumentDef} (h : ∀ n ∈ a.names, Quotable n) :
    ∀ t ∈ a.tokens, t.Legible := by
  simp only [ArgumentDef.names, List.forall_mem_cons] at h
  obtain ⟨hname, htype, -⟩ := h
  have hmark : ∀ t ∈ (if a.isOptional then [.question] else [] : List Token), t.Legible := by
    cases a.isOptional <;> simp [Token.Legible]
  simp only [ArgumentDef.tokens, TypeRef.tokens, List.forall_mem_cons, List.forall_mem_append]
  exact ⟨hname, hmark, trivial, htype, legible_suffix a.type⟩

theorem legible_member {isTrailing : Bool} {m : Member} (h : ∀ n ∈ m.names, Quotable n) :
    ∀ t ∈ m.tokens isTrailing, t.Legible := by
  obtain ⟨name, kind, type, line⟩ := m
  simp only [Member.names, List.forall_mem_cons] at h
  obtain ⟨hname, htype, harguments⟩ := h
  have hsuffix := legible_suffix type
  rcases kind with _ | _ | _ | arguments
  · simp only [Member.tokens, TypeRef.tokens, List.forall_mem_cons]
    exact ⟨hname, trivial, htype, hsuffix⟩
  · simp only [Member.tokens, TypeRef.tokens, List.forall_mem_cons]
    exact ⟨hname, trivial, trivial, htype, hsuffix⟩
  · simp only [Member.tokens, TypeRef.tokens, List.forall_mem_cons]
    exact ⟨trivial, hname, trivial, htype, hsuffix⟩
  · have hlist : ∀ t ∈ listed isTrailing (arguments.map ArgumentDef.tokens), t.Legible := by
      refine forall_mem_listed trivial (List.forall_mem_map.2 fun a ha => legible_argument ?_)
      exact fun n hn => harguments n (List.mem_flatMap.2 ⟨a, ha, hn⟩)
    simp only [Member.tokens, TypeRef.tokens, List.forall_mem_cons, List.forall_mem_append]
    exact ⟨trivial, hname, trivial, hlist, trivial, trivial, htype, hsuffix⟩

theorem legible_variant {v : VariantDef} (h : ∀ n ∈ v.names, Quotable n) :
    ∀ t ∈ v.tokens, t.Legible := by
  simp only [VariantDef.names, List.forall_mem_cons] at h
  simp only [VariantDef.tokens, List.forall_mem_cons]
  exact ⟨h.1, trivial, h.2.1, nofun⟩

/-- Where the names of a definition fit between backticks, all its tokens can be printed. -/
theorem legible_definition {isTrailing : Bool} {d : Definition} (h : ∀ n ∈ d.names, Quotable n) :
    ∀ t ∈ d.tokens isTrailing, t.Legible := by
  rcases d with ⟨name, base⟩ | ⟨kind, name, members⟩ | ⟨name, variants, tagField⟩
  · simp only [Definition.names, List.forall_mem_cons] at h
    simp only [Definition.tokens, List.forall_mem_cons]
    exact ⟨trivial, h.1, trivial, h.2.1, nofun⟩
  · simp only [Definition.names, List.forall_mem_cons] at h
    have hlist : ∀ t ∈ listed isTrailing (members.map (Member.tokens isTrailing)), t.Legible := by
      refine forall_mem_listed trivial (List.forall_mem_map.2 fun m hm => legible_member ?_)
      exact fun n hn => h.2 n (List.mem_flatMap.2 ⟨m, hm, hn⟩)
    simp only [Definition.tokens, List.forall_mem_cons, List.forall_mem_append]
    exact ⟨trivial, h.1, trivial, hlist, trivial, nofun⟩
  · simp only [Definition.names, List.forall_mem_cons, List.forall_mem_append] at h
    obtain ⟨hname, htag, hvariants⟩ := h
    have hlist : ∀ t ∈ listed isTrailing (variants.map VariantDef.tokens), t.Legible := by
      refine forall_mem_listed trivial (List.forall_mem_map.2 fun v hv => legible_variant ?_)
      exact fun n hn => hvariants n (List.mem_flatMap.2 ⟨v, hv, hn⟩)
    have hon : ∀ t ∈ tagField.elim [] fun tag => [.keyword .on, .name tag], Token.Legible t := by
      cases tagField with
      | none => nofun
      | some tag =>
        simp only [Option.elim_some, List.forall_mem_cons]
        exact ⟨trivial, htag tag (by simp), nofun⟩
    simp only [Definition.tokens, List.forall_mem_cons, List.forall_mem_append]
    exact ⟨trivial, hname, hon, trivial, hlist, trivial, nofun⟩

/-! ## Scanning -/

variable {rest : List Char} {ts : List Token}

theorem scans_blanks {cs : List Char} (hcs : cs.all Token.isBlank = true)
    (hrest : Scans Token.scanner rest ts) : Scans Token.scanner (cs ++ rest) ts := by
  induction cs with
  | nil => exact hrest
  | cons c cs ih =>
    rw [List.all_cons, Bool.and_eq_true] at hcs
    obtain ⟨hc, hcs⟩ := hcs
    simp only [Token.isBlank, Bool.or_eq_true, decide_eq_true_eq] at hc
    rcases hc with ((rfl | rfl) | rfl) | rfl
    · exact .of_skipped rfl (ih hcs)
    · exact .of_skipped rfl (ih hcs)
    · exact .of_skipped rfl (ih hcs)
    · exact .of_lineFeed rfl (ih hcs)

theorem scanner_name {s : String} (h : Quotable s) (rest : List Char) :
    Token.scanner '`' (s.toList ++ '`' :: rest) =
      .ok (.token (.name s), (s.toList ++ ['`']).length) := by
  have hname : (s.toList ++ '`' :: rest).takeWhile (fun d => d ≠ '`' && d ≠ '\n') = s.toList := by
    apply takeWhile_append_of_head
    · intro c hc
      have hbacktick : c ≠ '`' := fun he => h.no_backtick (he ▸ hc)
      have hlineFeed : c ≠ '\n' := fun he => h.no_lineFeed (he ▸ hc)
      simp [hbacktick, hlineFeed]
    · simp
  have hquoted : ∀ cs : List Char, Token.scanner '`' cs =
      if (cs.takeWhile (fun d => d ≠ '`' && d ≠ '\n')).isEmpty ||
          cs[(cs.takeWhile (fun d => d ≠ '`' && d ≠ '\n')).length]? ≠ some '`' then .error ⟨'`'⟩
      else .ok (.token (.name (String.ofList (cs.takeWhile (fun d => d ≠ '`' && d ≠ '\n')))),
        (cs.takeWhile (fun d => d ≠ '`' && d ≠ '\n')).length + 1) := fun _ => rfl
  have hclose : (s.toList ++ '`' :: rest)[s.toList.length]? = some '`' := by simp
  rw [hquoted, hname, hclose, if_neg, String.ofList_toList]
  · simp
  · simpa using h.ne_nil

/-- A word starts with none of the characters that stand for something else. -/
theorem scanner_word (hc : Token.isWordStart c = true) (cs : List Char) :
    Token.scanner c cs = .ok (.token (Token.ofWord (String.ofList (c :: cs.takeWhile isWord))),
      (cs.takeWhile isWord).length) := by
  have hne : ∀ d, Token.isWordStart d = false → c ≠ d := by
    rintro d hd rfl
    cases hc.symm.trans hd
  have hspace := hne ' ' rfl
  have htab := hne '\t' rfl
  have hreturn := hne '\r' rfl
  have hlineFeed := hne '\n' rfl
  have hhash := hne '#' rfl
  have hbacktick := hne '`' rfl
  simp only [Token.scanner, hspace, htab, hreturn, hlineFeed, hhash, hbacktick, hc, decide_false,
    Bool.or_self, Bool.false_eq_true, if_false, if_true]

theorem scans_keyword (k : Keyword) (hrest : Scans Token.scanner rest ts) :
    Scans Token.scanner (k.spelling.toList ++ ' ' :: rest) (.keyword k :: ts) := by
  have hspace : Scans Token.scanner (' ' :: rest) ts := .of_skipped rfl hrest
  -- a word is taken up to the space
  have hword : ∀ {c : Char} {body : List Char}, Token.isWordStart c = true →
      body.all Text.isWord = true → Token.ofWord (String.ofList (c :: body)) = .keyword k →
      Scans Token.scanner (c :: body ++ ' ' :: rest) (.keyword k :: ts) := by
    intro c body hc hbody hk
    refine .of_body ?_ hspace
    rw [scanner_word hc, takeWhile_append_of_head (List.all_eq_true.1 hbody) (by simp; decide), hk]
  cases k
  all_goals exact hword (by decide) (by decide) (by decide)

theorem scans_spelled {t : Token} (h : t.Legible) (hrest : Scans Token.scanner rest ts) :
    Scans Token.scanner (t.spelled ++ rest) (t :: ts) := by
  cases t with
  | name s =>
    have hscanner := scanner_name h rest
    have hbody : s.toList ++ '`' :: rest = s.toList ++ ['`'] ++ rest := by simp
    rw [hbody] at hscanner
    exact .of_body hscanner hrest
  | keyword k =>
    rw [Token.spelled, List.append_assoc]
    exact scans_keyword k hrest
  | _ => exact .of_token rfl hrest

theorem scans_spell (l : Layout) (h : ∀ t ∈ ts, t.Legible) :
    Scans Token.scanner (l.spell ts) ts := by
  induction ts with
  | nil => exact .nil
  | cons t ts ih =>
    obtain ⟨ht, hts⟩ := List.forall_mem_cons.1 h
    rw [Layout.spell, List.flatMap_cons, List.append_assoc]
    exact scans_spelled ht (scans_blanks (l.blank t) (ih hts))

/-- The text of definitions is cut into their tokens. -/
theorem scans_print (l : Layout) {ds : List Definition}
    (h : ∀ d ∈ ds, ∀ n ∈ d.names, Quotable n) :
    Scans Token.scanner (l.print ds) (ds.flatMap (Definition.tokens l.isTrailing)) := by
  refine scans_spell l fun t ht => ?_
  obtain ⟨d, hd, ht⟩ := List.mem_flatMap.1 ht
  exact legible_definition (h d hd) t ht

end Shapewise.Schema
