import Shapewise.Proofs.Text.Digits
import Shapewise.Proofs.Text.Escape
import Shapewise.Proofs.Text.Scan
import Shapewise.Selection.Token

/-!
# Spellings of tokens

How the tokens of selection text are written (`Token.Spelling`), and where each of these spellings ends
in a longer text (`Token.Ends`). A word and a number go on as long as they can, and the digits behind a
point belong to the number before it; names in backticks, texts and punctuation end by themselves. Every
spelling is found by the scanner where the text behind it lets it end (`Token.scanner_of_spelling`), so
that what a text is cut into can be told without the scanner.
-/

namespace Shapewise.Selection

open Text

namespace Token

/-! ## Spellings -/

/-- The characters of a plain word. -/
abbrev IsWord (cs : List Char) : Prop := IsWordOf isWordStart isWordPart cs

/-- One digit or more. -/
def IsDigits (ds : List Char) : Prop :=
  ds ≠ [] ∧ ∀ d ∈ ds, isDecimal d = true

/-- What stands between the quotes of a text: no other quote, but a backslash takes the character after
it along, which may not be a line feed. -/
inductive Quotation : List Char → Prop
  | nil : Quotation []
  | plain {c : Char} {cs : List Char} : c ≠ '"' → c ≠ '\\' → Quotation cs → Quotation (c :: cs)
  | escape {c : Char} {cs : List Char} : c ≠ '\n' → Quotation cs → Quotation ('\\' :: c :: cs)

/-- The sign before a number. -/
def sign (negative : Bool) : List Char :=
  if negative then ['-'] else []

/-- A number with a sign. -/
def signed (negative : Bool) (n : Nat) : Int :=
  if negative then -n else n

/-- The ways to write a token. A name stands plain, where it is a word and none of the three words for
literals, or in backticks. -/
inductive Spelling : Token → List Char → Prop
  | plain {s : String} : IsWord s.toList → s ≠ "true" → s ≠ "false" → s ≠ "null" →
      Spelling (.name s) s.toList
  | quoted {s : String} : s.toList ≠ [] → '`' ∉ s.toList →
      Spelling (.name s) ('`' :: (s.toList ++ ['`']))
  | true : Spelling (.bool .true) ['t', 'r', 'u', 'e']
  | false : Spelling (.bool .false) ['f', 'a', 'l', 's', 'e']
  | null : Spelling .null ['n', 'u', 'l', 'l']
  | text {body s : List Char} : Quotation body → Escape.decode body = .ok s →
      Spelling (.text (String.ofList s)) ('"' :: (body ++ ['"']))
  | int {negative : Bool} {ds : List Char} : IsDigits ds →
      Spelling (.int (signed negative (numberOfDigits ds))) (sign negative ++ ds)
  | float {negative : Bool} {whole fraction : List Char} : IsDigits whole → IsDigits fraction →
      Spelling
        (.float (.ofDecimal negative (numberOfDigits (whole ++ fraction)) (-fraction.length)))
        (sign negative ++ (whole ++ '.' :: fraction))
  | mark {c : Char} {t : Token} : ofPunctuation? c = some t → Spelling t [c]

/-- A word and a number end where the text behind them cannot go on with them; all other spellings end
by themselves. -/
def Ends (t : Token) (word rest : List Char) : Prop :=
  match t with
  | .int _ => (∀ c ∈ rest.head?, isDecimal c = false) ∧
    ∀ d cs, rest = '.' :: d :: cs → isDecimal d = false
  | .float _ => ∀ c ∈ rest.head?, isDecimal c = false
  | _ => IsWord word → ∀ c ∈ rest.head?, isWordPart c = false

variable {c : Char} {cs body rest whole fraction ds word : List Char} {t : Token} {negative : Bool}

/-! ## Punctuation and names in backticks -/

/-- A punctuation character is a token by itself. -/
theorem scanner_punctuation (h : ofPunctuation? c = some t) (cs : List Char) :
    scanner c cs = .ok (.token t, 0) := by
  unfold ofPunctuation? at h
  split at h
  all_goals first | (cases h; rfl) | cases h

theorem scanner_backtick (cs : List Char) :
    scanner '`' cs =
      if (cs.takeWhile (· ≠ '`')).isEmpty || (cs.takeWhile (· ≠ '`')).length = cs.length then
        .error (.illegal '`')
      else .ok (.token (.name (String.ofList (cs.takeWhile (· ≠ '`')))),
        (cs.takeWhile (· ≠ '`')).length + 1) := rfl

/-- A name is read up to the next backtick. -/
theorem scanner_quoted (hne : body ≠ []) (hbody : '`' ∉ body) (rest : List Char) :
    scanner '`' (body ++ '`' :: rest) =
      .ok (.token (.name (String.ofList body)), body.length + 1) := by
  have hname : (body ++ '`' :: rest).takeWhile (· ≠ '`') = body := by
    apply takeWhile_append_of_head
    · intro c hc
      have hc : c ≠ '`' := fun he => hbody (he ▸ hc)
      simpa using hc
    · simp
  have hlength : body.length ≠ (body ++ '`' :: rest).length := by
    rw [List.length_append, List.length_cons]
    omega
  rw [scanner_backtick, hname, if_neg]
  simp only [Bool.or_eq_true, List.isEmpty_iff, decide_eq_true_eq, not_or]
  exact ⟨hne, hlength⟩

/-! ## Words -/

theorem ofWord_of_not_reserved {s : String} (htrue : s ≠ "true") (hfalse : s ≠ "false")
    (hnull : s ≠ "null") : ofWord s = .name s := by
  unfold ofWord
  split
  · exact absurd rfl htrue
  · exact absurd rfl hfalse
  · exact absurd rfl hnull
  · rfl

/-- A word is a spelling of the token that it is read as. -/
theorem spelling_ofWord {s : String} (h : IsWord s.toList) : Spelling (ofWord s) s.toList := by
  unfold ofWord
  split
  · exact .true
  · exact .false
  · exact .null
  · next htrue hfalse hnull => exact .plain h htrue hfalse hnull

/-- A word ends where the text behind it cannot go on with it. -/
theorem ends_ofWord {s : String} (hrest : ∀ c ∈ rest.head?, isWordPart c = false) :
    Ends (ofWord s) word rest := by
  unfold ofWord
  split <;> exact fun _ => hrest

theorem ends_mark (h : ofPunctuation? c = some t) (rest : List Char) : Ends t [c] rest := by
  unfold ofPunctuation? at h
  split at h
  all_goals first | (cases h; exact fun hw => by cases hw.1) | cases h

/-- A word starts with none of the characters that stand for something else. -/
theorem scanner_word (hc : isWordStart c = true) (cs : List Char) :
    scanner c cs = .ok (.token (ofWord (String.ofList (c :: cs.takeWhile isWordPart))),
      (cs.takeWhile isWordPart).length) := by
  have hne : ∀ d, isWordStart d = false → c ≠ d := by
    rintro d hd rfl
    cases hc.symm.trans hd
  have hspace := hne ' ' rfl
  have htab := hne '\t' rfl
  have hlineFeed := hne '\n' rfl
  have hhash := hne '#' rfl
  have hquote := hne '"' rfl
  have hbacktick := hne '`' rfl
  simp only [scanner, hspace, htab, hlineFeed, hhash, hquote, hbacktick, hc, decide_false,
    Bool.or_self, Bool.false_eq_true, if_false, if_true]

/-- A word is read to its end. -/
theorem scanner_of_word (h : IsWord word) (hrest : ∀ c ∈ rest.head?, isWordPart c = false) :
    ∃ c body, word = c :: body ∧
      scanner c (body ++ rest) = .ok (.token (ofWord (String.ofList word)), body.length) := by
  cases word with
  | nil => exact h.elim
  | cons c body =>
    refine ⟨c, body, rfl, ?_⟩
    rw [scanner_word h.1, takeWhile_append_of_head h.2 hrest]

/-! ## Texts -/

theorem textLength?_plain (hquote : c ≠ '"') (hslash : c ≠ '\\') (cs : List Char) :
    textLength? (c :: cs) = (textLength? cs).map (· + 1) := by
  rw [textLength?]
  · rw [if_neg hquote]
  all_goals simp [hslash]

theorem textLength?_escape (hc : c ≠ '\n') (cs : List Char) :
    textLength? ('\\' :: c :: cs) = (textLength? cs).map (· + 2) := by
  rw [textLength?, if_neg hc]

theorem Quotation.append_plain (h : Quotation cs) (hbody : ∀ d ∈ body, d ≠ '"' ∧ d ≠ '\\') :
    Quotation (body ++ cs) := by
  induction body with
  | nil => exact h
  | cons d body ih =>
    obtain ⟨⟨hquote, hslash⟩, hbody⟩ := List.forall_mem_cons.1 hbody
    exact .plain hquote hslash (ih hbody)

/-- A text ends at the quote behind its quotation. -/
theorem textLength?_quotation (h : Quotation body) (rest : List Char) :
    textLength? (body ++ '"' :: rest) = some body.length := by
  induction h with
  | nil => rfl
  | @plain c cs hquote hslash _ ih =>
    rw [List.cons_append, textLength?_plain hquote hslash, ih]
    rfl
  | @escape c cs hc _ ih =>
    rw [List.cons_append, List.cons_append, textLength?_escape hc, ih]
    rfl

/-- Where a text ends, it is a quotation up to there. -/
theorem exists_quotation {n : Nat} (h : textLength? cs = some n) :
    ∃ body rest, cs = body ++ '"' :: rest ∧ body.length = n ∧ Quotation body := by
  fun_induction textLength? cs generalizing n with
  | case1 => cases h
  | case2 => cases h
  | case3 => cases h
  | case4 c cs hc ih =>
    obtain ⟨m, hm, rfl⟩ := Option.map_eq_some_iff.1 h
    obtain ⟨body, rest, rfl, rfl, hbody⟩ := ih hm
    exact ⟨'\\' :: c :: body, rest, rfl, rfl, .escape hc hbody⟩
  | case5 cs =>
    cases h
    exact ⟨[], cs, rfl, rfl, .nil⟩
  | case6 c cs hslash hpair hquote ih =>
    obtain ⟨m, hm, rfl⟩ := Option.map_eq_some_iff.1 h
    obtain ⟨body, rest, rfl, rfl, hbody⟩ := ih hm
    refine ⟨c :: body, rest, rfl, rfl, .plain hquote (fun hc => ?_) hbody⟩
    cases body with
    | nil => exact hpair _ _ hc rfl
    | cons d body => exact hpair _ _ hc rfl

/-- A text is decoded up to the quote that ends it. -/
theorem scanner_quote {n : Nat} {s : List Char} (hn : textLength? cs = some n)
    (hs : Escape.decode (cs.take n) = .ok s) :
    scanner '"' cs = .ok (.token (.text (String.ofList s)), n + 1) := by
  simp [scanner, hn, hs]

/-- A text ends by itself. -/
theorem ends_text (s : String) (body rest : List Char) : Ends (.text s) ('"' :: body) rest :=
  fun hword => by cases hword.1

/-! ## Numbers -/

/-- What a digit is none of. -/
theorem isWordStart_of_isDecimal (hc : isDecimal c = true) : isWordStart c = false := by
  have hsmall : ∀ n < 128, isWordStart (Char.ofNat n) = true → isDecimal (Char.ofNat n) = false := by
    decide
  by_contra hword
  rw [Bool.not_eq_false] at hword
  have hlt : c.toNat < 128 := by
    simp only [isWordStart, isLetter, Bool.or_eq_true, Bool.and_eq_true, decide_eq_true_eq,
      Char.le_def, UInt32.le_iff_toNat_le] at hword
    obtain (⟨-, h⟩ | ⟨-, h⟩) | rfl := hword
    · exact lt_of_le_of_lt h (by decide)
    · exact lt_of_le_of_lt h (by decide)
    · decide
  have hnone := hsmall c.toNat hlt
  rw [Char.ofNat_toNat, hc] at hnone
  cases hnone hword

/-- A digit starts none of the lexemes that are not numbers. -/
theorem scanner_digit {n : Nat} (hc : isDecimal c = true)
    (h : number? false (c :: cs) = some (t, n + 1)) : scanner c cs = .ok (.token t, n) := by
  have hne : ∀ d, isDecimal d = false → c ≠ d := by
    rintro d hd rfl
    cases hc.symm.trans hd
  have hspace := hne ' ' rfl
  have htab := hne '\t' rfl
  have hlineFeed := hne '\n' rfl
  have hhash := hne '#' rfl
  have hquote := hne '"' rfl
  have hbacktick := hne '`' rfl
  have hminus := hne '-' rfl
  have hword := isWordStart_of_isDecimal hc
  simp only [scanner, hspace, htab, hlineFeed, hhash, hquote, hbacktick, hminus, hword, hc, h,
    decide_false, Bool.or_self, Bool.false_eq_true, if_false, if_true, Nat.add_sub_cancel]

theorem scanner_minus (cs : List Char) :
    scanner '-' cs = match number? true cs with
      | some (t, n) => .ok (.token t, n)
      | none => .error (.illegal '-') := rfl

theorem fractionDigits_eq_nil_iff :
    fractionDigits rest = [] ↔ ∀ d cs, rest = '.' :: d :: cs → isDecimal d = false := by
  unfold fractionDigits
  split
  · next cs =>
    cases cs with
    | nil => simp
    | cons d cs =>
      rw [List.takeWhile_cons]
      split
      · next hd => simp [hd]
      · next hd => simpa using hd
  · next hpoint => exact iff_of_true rfl fun d cs h => absurd h (hpoint _)

theorem number?_int (hds : IsDigits ds) (hrest : ∀ c ∈ rest.head?, isDecimal c = false)
    (hfraction : ∀ d cs, rest = '.' :: d :: cs → isDecimal d = false) :
    number? negative (ds ++ rest) =
      some (.int (signed negative (numberOfDigits ds)), ds.length) := by
  have hwhole : (ds ++ rest).takeWhile isDecimal = ds := takeWhile_append_of_head hds.2 hrest
  have hnone : fractionDigits rest = [] := fractionDigits_eq_nil_iff.2 hfraction
  unfold number?
  simp only [hwhole, List.drop_left, hnone, List.isEmpty_iff, hds.1, if_false, List.isEmpty_nil,
    if_true, signed]

theorem number?_float (hwhole : IsDigits whole) (hfraction : IsDigits fraction)
    (hrest : ∀ c ∈ rest.head?, isDecimal c = false) :
    number? negative (whole ++ '.' :: (fraction ++ rest)) =
      some (.float (.ofDecimal negative (numberOfDigits (whole ++ fraction)) (-fraction.length)),
        whole.length + 1 + fraction.length) := by
  have htaken : (whole ++ '.' :: (fraction ++ rest)).takeWhile isDecimal = whole :=
    takeWhile_append_of_head hwhole.2 (by simp; decide)
  have hdigits : fractionDigits ('.' :: (fraction ++ rest)) = fraction :=
    takeWhile_append_of_head hfraction.2 hrest
  unfold number?
  simp only [htaken, List.drop_left, hdigits, List.isEmpty_iff, hwhole.1, hfraction.1, if_false]

/-- Where a digit stands, a number is read, and it is spelled there. -/
theorem exists_number (negative : Bool) (hc : isDecimal c = true) (cs : List Char) :
    ∃ t body rest, cs = body ++ rest ∧ number? negative (c :: cs) = some (t, (c :: body).length) ∧
      Spelling t (sign negative ++ c :: body) ∧ Ends t (sign negative ++ c :: body) rest := by
  obtain ⟨rest, hcs, hdigits, hrest⟩ := exists_takeWhile isDecimal cs
  generalize cs.takeWhile isDecimal = ds at hcs hdigits
  subst hcs
  have hwhole : IsDigits (c :: ds) := ⟨List.cons_ne_nil _ _, List.forall_mem_cons.2 ⟨hc, hdigits⟩⟩
  by_cases hpoint : ∀ d cs, rest = '.' :: d :: cs → isDecimal d = false
  · exact ⟨_, ds, rest, rfl, number?_int hwhole hrest hpoint, .int hwhole, hrest, hpoint⟩
  · push Not at hpoint
    obtain ⟨d, cs, rfl, hd⟩ := hpoint
    rw [Bool.ne_false_iff] at hd
    obtain ⟨behind, hcs, hfraction, hbehind⟩ := exists_takeWhile isDecimal cs
    generalize cs.takeWhile isDecimal = fs at hcs hfraction
    subst hcs
    have hfs : IsDigits (d :: fs) :=
      ⟨List.cons_ne_nil _ _, List.forall_mem_cons.2 ⟨hd, hfraction⟩⟩
    refine ⟨_, ds ++ '.' :: d :: fs, behind, by simp, ?_, .float hwhole hfs, hbehind⟩
    have hnumber := @number?_float _ _ _ negative hwhole hfs hbehind
    have hlength : (c :: ds).length + 1 + (d :: fs).length = (c :: (ds ++ '.' :: d :: fs)).length := by
      simp only [List.length_cons, List.length_append]
      omega
    rw [hlength] at hnumber
    simpa using hnumber

theorem number?_eq_none (hcs : ∀ c ∈ cs.head?, isDecimal c = false) : number? negative cs = none := by
  have hnil : cs.takeWhile isDecimal = [] := by
    cases cs with
    | nil => rfl
    | cons c cs => exact List.takeWhile_cons_of_neg (by simp [hcs c rfl])
  simp [number?, hnil]

/-! ## The scanner -/

/-- A number is found from its sign or its first digit on. -/
theorem scanner_of_number {d : Char} (hd : isDecimal d = true)
    (h : number? negative (d :: (cs ++ rest)) = some (t, (d :: cs).length)) :
    ∃ c body, sign negative ++ d :: cs = c :: body ∧
      scanner c (body ++ rest) = .ok (.token t, body.length) := by
  cases negative with
  | false => exact ⟨d, cs, rfl, scanner_digit hd h⟩
  | true =>
    refine ⟨'-', d :: cs, rfl, ?_⟩
    rw [scanner_minus, List.cons_append, h]

/-- Every spelling is found where the text behind it lets it end. -/
theorem scanner_of_spelling (h : Spelling t word) (hends : Ends t word rest) :
    ∃ c body, word = c :: body ∧ scanner c (body ++ rest) = .ok (.token t, body.length) := by
  have hword : ∀ {u : Token}, IsWord word → ofWord (String.ofList word) = u →
      (∀ c ∈ rest.head?, isWordPart c = false) → ∃ c body, word = c :: body ∧
        scanner c (body ++ rest) = .ok (.token u, body.length) := by
    rintro _ hw rfl hrest
    exact scanner_of_word hw hrest
  cases h with
  | @plain s hw htrue hfalse hnull =>
    refine hword hw ?_ (hends hw)
    rw [String.ofList_toList, ofWord_of_not_reserved htrue hfalse hnull]
  | @quoted s hne hbacktick =>
    have hscanner := scanner_quoted hne hbacktick rest
    rw [String.ofList_toList] at hscanner
    refine ⟨_, _, rfl, ?_⟩
    rw [List.append_assoc, List.length_append]
    exact hscanner
  | true => exact hword (by decide) rfl (hends (by decide))
  | false => exact hword (by decide) rfl (hends (by decide))
  | null => exact hword (by decide) rfl (hends (by decide))
  | @text body s hbody hdecode =>
    refine ⟨_, _, rfl, ?_⟩
    rw [List.append_assoc, List.length_append]
    refine scanner_quote (textLength?_quotation hbody rest) ?_
    rwa [List.take_left]
  | @int negative ds hds =>
    obtain ⟨d, ds, rfl⟩ := List.exists_cons_of_ne_nil hds.1
    exact scanner_of_number (hds.2 d List.mem_cons_self) (number?_int hds hends.1 hends.2)
  | @float negative whole fraction hwhole hfraction =>
    obtain ⟨d, ds, rfl⟩ := List.exists_cons_of_ne_nil hwhole.1
    refine scanner_of_number (hwhole.2 d List.mem_cons_self) ?_
    have hnumber := @number?_float _ _ _ negative hwhole hfraction hends
    have hlength : (d :: ds).length + 1 + fraction.length = (d :: (ds ++ '.' :: fraction)).length := by
      simp only [List.length_cons, List.length_append]
      omega
    rw [hlength] at hnumber
    simpa using hnumber
  | mark hc => exact ⟨_, [], rfl, scanner_punctuation hc rest⟩

end Token

end Shapewise.Selection
