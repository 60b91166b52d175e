import Shapewise.Proofs.Selection.Spelling
import Shapewise.Proofs.Selection.Tree

/-!
# Scanning printed trees

The scanner cuts the printed form of a tree into the tokens of the tree (`scans_printAll`). The
characters that follow a spelling in a printed form end every number and every word (`Delimited`), so
each spelling stands for its token there.
-/

namespace Shapewise.Selection

open Text

/-- A text is cut into tokens and nothing is left of it. -/
def Scans (text : List Char) (ts : List Token) : Prop :=
  ∀ line position, (scan Token.scanner line position text).tokens.map Located.token = ts ∧
    (scan Token.scanner line position text).stop = none

/-- A rest of a text ends a word or a number before it. -/
def Delimited (rest : List Char) : Prop :=
  ∀ c ∈ rest.head?, Token.isWordPart c = false ∧ isDecimal c = false ∧ c ≠ '.'

/-- A text stands for tokens, whatever tokens follow behind a character that ends it. -/
def Spells (text : List Char) (ts : List Token) : Prop :=
  ∀ rest us, Delimited rest → Scans rest us → Scans (text ++ rest) (ts ++ us)

variable {text rest : List Char} {ts us : List Token}

/-! ## Lexemes -/

theorem scans_nil : Scans [] [] := Text.Scans.nil

theorem scans_of_token {c : Char} {cs : List Char} {t : Token} {n : Nat}
    (h : Token.scanner c cs = .ok (.token t, n)) (hrest : Scans (cs.drop n) ts) :
    Scans (c :: cs) (t :: ts) :=
  Text.Scans.of_token h hrest

theorem scans_space (hrest : Scans rest ts) : Scans (' ' :: rest) ts :=
  Text.Scans.of_skipped rfl hrest

theorem scans_punctuation {c : Char} {t : Token} (h : Token.ofPunctuation? c = some t)
    (hrest : Scans rest ts) : Scans (c :: rest) (t :: ts) :=
  scans_of_token (Token.scanner_punctuation h rest) hrest

theorem delimited_punctuation {c : Char} (h : (Token.ofPunctuation? c).isSome = true)
    (rest : List Char) : Delimited (c :: rest) := by
  unfold Token.ofPunctuation? at h
  intro d hd
  obtain rfl : c = d := Option.some.inj hd
  split at h
  all_goals first | (cases h; done) | decide

/-! ## Spellings -/

/-- A spelling is cut as its token where the text behind it lets it end. -/
theorem scans_spelling {t : Token} (h : Token.Spelling t text) (hends : Token.Ends t text rest)
    (hrest : Scans rest us) : Scans (text ++ rest) (t :: us) := by
  obtain ⟨c, body, rfl, hscanner⟩ := Token.scanner_of_spelling h hends
  exact Text.Scans.of_body hscanner hrest

theorem Delimited.ends (h : Delimited rest) (t : Token) (word : List Char) :
    Token.Ends t word rest := by
  cases t with
  | int i =>
    refine ⟨fun c hc => (h c hc).2.1, ?_⟩
    rintro d cs rfl
    exact absurd rfl (h '.' rfl).2.2
  | float x => exact fun c hc => (h c hc).2.1
  | _ => exact fun _ c hc => (h c hc).1

/-- Every spelling stands for its token. -/
theorem spells_spelling {t : Token} (h : Token.Spelling t text) : Spells text [t] :=
  fun _ _ hrest hus => scans_spelling h (hrest.ends t text) hus

theorem hexDigit_ne {width n : Nat} {d : Char} (hd : d ∈ hexDigits width n) :
    d ≠ '"' ∧ d ≠ '\\' := by
  obtain ⟨v, hv, rfl⟩ := exists_digitChar_of_mem_hexDigits hd
  interval_cases v <;> decide

/-- Escapes do not end a text. -/
theorem quotation_escaped (cs : List Char) : Token.Quotation (cs.flatMap Escape.escaped) := by
  induction cs with
  | nil => exact .nil
  | cons c cs ih =>
    rw [List.flatMap_cons, Escape.escaped]
    exact .escape (by decide) (ih.append_plain fun _ => hexDigit_ne)

theorem isDigits_toDigits (n : Nat) : Token.IsDigits (Nat.toDigits 10 n) :=
  ⟨List.ne_nil_of_length_pos Nat.length_toDigits_pos,
    fun _ hd => isDecimal_of_isDigit (isDigit_of_mem_toDigits hd)⟩

theorem spelling_nat (negative : Bool) (n : Nat) :
    Token.Spelling (.int (Token.signed negative n)) (Token.sign negative ++ Nat.toDigits 10 n) := by
  have h := @Token.Spelling.int negative _ (isDigits_toDigits n)
  rwa [numberOfDigits_toDigits] at h

theorem spelling_int (i : Int) : Token.Spelling (.int i) (Literal.int i).print := by
  cases i with
  | ofNat n =>
    have hprint : (Literal.int n).print = Nat.toDigits 10 n := String.toList_ofList
    show Token.Spelling (.int n) (Literal.int n).print
    rw [hprint]
    exact spelling_nat false n
  | negSucc n =>
    have hprint : (Literal.int (.negSucc n)).print = '-' :: Nat.toDigits 10 (n + 1) := by
      show ("-" ++ String.ofList (Nat.toDigits 10 (n + 1))).toList = _
      rw [String.toList_append, String.toList_ofList, String.toList_ofList]
      rfl
    rw [hprint]
    exact spelling_nat true (n + 1)

theorem spelling_text (s : String) : Token.Spelling (.text s) (Literal.text s).print := by
  have h := Token.Spelling.text (quotation_escaped s.toList) (Escape.decode_escaped s.toList)
  rwa [String.ofList_toList] at h

/-! ## Trees -/

theorem spells_nil : Spells [] [] := fun _ _ _ h => h

/-- A text may be followed by one that starts with a punctuation character. -/
theorem Spells.append {c : Char} {text' : List Char} {ts' : List Token} (h : Spells text ts)
    (hc : (Token.ofPunctuation? c).isSome = true) (h' : Spells (c :: text') ts') :
    Spells (text ++ c :: text') (ts ++ ts') := by
  intro rest us hrest hus
  rw [List.append_assoc, List.append_assoc]
  exact h _ _ (delimited_punctuation hc _) (h' _ _ hrest hus)

theorem Spells.bracketed {c d : Char} {t u : Token} (h : Spells text ts)
    (hc : Token.ofPunctuation? c = some t) (hd : Token.ofPunctuation? d = some u) :
    Spells (c :: text ++ [d]) (t :: ts ++ [u]) := by
  intro rest us _ hus
  have hclose : Scans (d :: rest) (u :: us) := scans_punctuation hd hus
  have hinner := h _ _ (delimited_punctuation (hd ▸ rfl) rest) hclose
  have htext : c :: text ++ [d] ++ rest = c :: (text ++ d :: rest) := by simp
  have htokens : t :: ts ++ [u] ++ us = t :: (ts ++ u :: us) := by simp
  rw [htext, htokens]
  exact scans_punctuation hc hinner

/-- Parts that are joined stand for their tokens with commas between them. -/
theorem spells_joined {parts : List (List Char)} {tss : List (List Token)}
    (h : List.Forall₂ Spells parts tss) : Spells (joined parts) (separated tss) := by
  induction h with
  | nil => exact spells_nil
  | @cons part ts parts tss hpart hparts ih =>
    cases hparts with
    | nil => simpa using hpart
    | cons _ _ =>
      rw [joined_cons_cons, separated_cons_cons]
      refine hpart.append rfl ?_
      intro rest us hrest hus
      exact scans_punctuation rfl (scans_space (ih rest us hrest hus))

theorem spells_name (n : Name) : Spells n.print [.name n.text] :=
  spells_spelling (.quoted n.ne_nil n.no_backtick)

mutual
theorem spells_literal : ∀ l : Literal, Spells l.print l.tokens
  | .text s => spells_spelling (spelling_text s)
  | .int i => spells_spelling (spelling_int i)
  | .bool true => spells_spelling .true
  | .bool false => spells_spelling .false
  | .null => spells_spelling .null
  | .list items => (spells_joined (spells_literals items)).bracketed rfl rfl
theorem spells_literals : ∀ ls : List Literal,
    List.Forall₂ Spells (Literal.printEach ls) (Literal.tokensEach ls)
  | [] => .nil
  | l :: ls => .cons (spells_literal l) (spells_literals ls)
end

theorem spells_argument (e : Name × Literal) : Spells (printArgument e) (argumentTokens e) := by
  have hvalue : Spells (':' :: e.2.print) (.colon :: e.2.tokens) := by
    intro rest us hrest hus
    exact scans_punctuation rfl (spells_literal e.2 rest us hrest hus)
  exact (spells_name e.1).append rfl hvalue

theorem spells_supplied (a : Supplied) : Spells a.print a.tokens := by
  have hentries : ∀ es : List (Name × Literal),
      List.Forall₂ Spells (es.map printArgument) (es.map argumentTokens) := by
    intro es
    induction es with
    | nil => exact .nil
    | cons e es ih => exact .cons (spells_argument e) ih
  exact (spells_joined (hentries a.entries)).bracketed rfl rfl

theorem spells_block {items : List Item}
    (h : List.Forall₂ Spells (Item.printEach items) (Item.tokensEach items)) :
    Spells ('{' :: joined (Item.printEach items) ++ ['}'])
      (.openBrace :: separated (Item.tokensEach items) ++ [.closeBrace]) :=
  (spells_joined h).bracketed rfl rfl

mutual
theorem spells_item : ∀ i : Item, Spells i.print i.tokens
  | .name n => spells_name n
  | .block n items => (spells_name n).append rfl (spells_block (spells_items items))
  | .call n arguments => (spells_name n).append rfl (spells_supplied arguments)
  | .callBlock n arguments items =>
    ((spells_name n).append rfl (spells_supplied arguments)).append rfl
      (spells_block (spells_items items))
theorem spells_items : ∀ is : List Item,
    List.Forall₂ Spells (Item.printEach is) (Item.tokensEach is)
  | [] => .nil
  | i :: is => .cons (spells_item i) (spells_items is)
end

/-- The printed form of a selection is cut into the tokens of its fields with commas between them. -/
theorem scans_printAll (items : List Item) :
    Scans (Item.printAll items) (separated (Item.tokensEach items)) := by
  have h := spells_joined (spells_items items) [] [] (by simp [Delimited]) scans_nil
  rwa [List.append_nil, List.append_nil] at h

end Shapewise.Selection
