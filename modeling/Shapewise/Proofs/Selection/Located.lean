import Shapewise.Proofs.Selection.Spelling
import Shapewise.Proofs.Text.Cut

/-!
# Where the tokens of a selection text stand

Which pieces a text is cut into (`Token.Fits`), said without the scanner: blanks, line feeds, comments,
and tokens as they are spelled. The scanner gives these pieces and no others (`Token.keeps_scanner`), so
a token stands where it says (`Token.spelled_at_position`). Line feeds in texts and in names between
backticks end no line for the scanner, so the line of a token falls behind by these
(`line_add_innerLines`).
-/

namespace Shapewise.Selection

open Text

namespace Token

/-- A piece fits in front of the text that follows it. -/
inductive Fits : Piece Token → List Char → Prop
  | blank {c : Char} {rest : List Char} : c = ' ' ∨ c = '\t' → Fits ⟨.skipped, [c]⟩ rest
  | lineFeed {rest : List Char} : Fits ⟨.lineFeed, ['\n']⟩ rest
  /-- A comment goes on to the end of its line. -/
  | comment {body rest : List Char} : '\n' ∉ body → (∀ c ∈ rest.head?, c = '\n') →
      Fits ⟨.skipped, '#' :: body⟩ rest
  | token {t : Token} {word rest : List Char} : Spelling t word → Ends t word rest →
      Fits ⟨.token t, word⟩ rest

variable {rest ds : List Char} {p : Piece Token}

/-! ## The scanner -/

theorem scanner_comment (cs : List Char) :
    scanner '#' cs = .ok (.skipped, (cs.takeWhile (· ≠ '\n')).length) := rfl

/-- Every piece that fits is found. -/
theorem scanner_of_fits (h : Fits p rest) : ∃ c body, p.spelling = c :: body ∧
    scanner c (body ++ rest) = .ok (p.lexeme, body.length) := by
  cases h with
  | blank hc =>
    refine ⟨_, [], rfl, ?_⟩
    obtain rfl | rfl := hc
    · rfl
    · rfl
  | lineFeed => exact ⟨_, [], rfl, rfl⟩
  | comment hbody hrest =>
    refine ⟨_, _, rfl, ?_⟩
    rw [scanner_comment, takeWhile_append_of_head]
    · intro c hc
      have hne : c ≠ '\n' := fun he => hbody (he ▸ hc)
      simpa using hne
    · intro c hc
      simpa using hrest c hc
  | token hspelling hends => exact scanner_of_spelling hspelling hends

/-- A double quote begins a text, or nothing. -/
theorem scanner_quote_cases (cs : List Char) :
    (∃ body s rest, cs = body ++ '"' :: rest ∧ Quotation body ∧ Escape.decode body = .ok s) ∨
      ∃ f, scanner '"' cs = .error f := by
  cases hlength : textLength? cs with
  | none => exact .inr ⟨.illegal '"', by simp [scanner, hlength]⟩
  | some n =>
    obtain ⟨body, rest, rfl, rfl, hbody⟩ := exists_quotation hlength
    cases hdecode : Escape.decode body with
    | ok s => exact .inl ⟨body, s, rest, rfl, hbody, hdecode⟩
    | error f => exact .inr ⟨.escape f, by simp [scanner, hlength, hdecode]⟩

/-- A backtick begins a name, or nothing. -/
theorem scanner_backtick_cases (cs : List Char) :
    (∃ s : String, ∃ rest, cs = s.toList ++ '`' :: rest ∧ s.toList ≠ [] ∧ '`' ∉ s.toList) ∨
      ∃ f, scanner '`' cs = .error f := by
  obtain ⟨rest, hcs, hinside, hrest⟩ := exists_takeWhile (· ≠ '`') cs
  have hscanner := scanner_backtick cs
  generalize cs.takeWhile (· ≠ '`') = taken at hcs hinside hscanner
  cases rest with
  | nil =>
    refine .inr ⟨.illegal '`', ?_⟩
    rw [hscanner, if_pos]
    simp [hcs]
  | cons c behind =>
    obtain rfl : c = '`' := by simpa using hrest c rfl
    by_cases hnil : taken = []
    · refine .inr ⟨.illegal '`', ?_⟩
      rw [hscanner, if_pos]
      simp [hnil]
    · refine .inl ⟨String.ofList taken, behind, ?_, ?_, ?_⟩
      · rw [String.toList_ofList, hcs]
      · rwa [String.toList_ofList]
      · rw [String.toList_ofList]
        exact fun hmem => by simpa using hinside _ hmem

/-- The front of a text is a piece that fits, or no lexeme stands there. -/
theorem scanner_cases (c : Char) (cs : List Char) :
    (∃ p body rest, p.spelling = c :: body ∧ cs = body ++ rest ∧ Fits p rest) ∨
      ∃ f, scanner c cs = .error f := by
  by_cases hblank : c = ' ' ∨ c = '\t'
  · exact .inl ⟨_, [], cs, rfl, rfl, .blank hblank⟩
  by_cases hlineFeed : c = '\n'
  · subst hlineFeed
    exact .inl ⟨_, [], cs, rfl, rfl, .lineFeed⟩
  by_cases hhash : c = '#'
  · subst hhash
    obtain ⟨rest, hcs, hbody, hrest⟩ := exists_takeWhile (· ≠ '\n') cs
    refine .inl ⟨_, _, rest, rfl, hcs, .comment (fun hmem => ?_) fun c hc => ?_⟩
    · simpa using hbody _ hmem
    · simpa using hrest c hc
  by_cases hquote : c = '"'
  · subst hquote
    refine (scanner_quote_cases cs).imp_left ?_
    rintro ⟨body, s, rest, rfl, hbody, hdecode⟩
    exact ⟨_, body ++ ['"'], rest, rfl, by simp, .token (.text hbody hdecode) (ends_text _ _ _)⟩
  by_cases hbacktick : c = '`'
  · subst hbacktick
    refine (scanner_backtick_cases cs).imp_left ?_
    rintro ⟨s, rest, rfl, hne, hs⟩
    refine ⟨_, s.toList ++ ['`'], rest, rfl, by simp, .token (.quoted hne hs) ?_⟩
    exact fun hword => by cases hword.1
  by_cases hword : isWordStart c = true
  · obtain ⟨rest, hcs, hbody, hrest⟩ := exists_takeWhile isWordPart cs
    have hw : IsWord (String.ofList (c :: cs.takeWhile isWordPart)).toList := by
      rw [String.toList_ofList]
      exact ⟨hword, hbody⟩
    have hspelling := spelling_ofWord hw
    rw [String.toList_ofList] at hspelling
    exact .inl ⟨_, _, rest, rfl, hcs, .token hspelling (ends_ofWord hrest)⟩
  by_cases hdigit : isDecimal c = true
  · obtain ⟨t, body, rest, rfl, -, hspelling, hends⟩ := exists_number false hdigit cs
    exact .inl ⟨_, body, rest, rfl, rfl, .token hspelling hends⟩
  by_cases hminus : c = '-'
  · subst hminus
    by_cases hcs : ∀ d ∈ cs.head?, isDecimal d = false
    · refine .inr ⟨.illegal '-', ?_⟩
      rw [scanner_minus, number?_eq_none hcs]
    · push Not at hcs
      obtain ⟨d, hd, hdigit⟩ := hcs
      obtain ⟨cs, rfl⟩ : ∃ tail, cs = d :: tail := List.head?_eq_some_iff.1 hd
      rw [Bool.ne_false_iff] at hdigit
      obtain ⟨t, body, rest, rfl, -, hspelling, hends⟩ := exists_number true hdigit cs
      exact .inl ⟨_, d :: body, rest, rfl, rfl, .token hspelling hends⟩
  · cases hp : ofPunctuation? c with
    | some t => exact .inl ⟨_, [], cs, rfl, rfl, .token (.mark hp) (ends_mark hp cs)⟩
    | none =>
      obtain ⟨hspace, htab⟩ := not_or.1 hblank
      refine .inr ⟨.illegal c, ?_⟩
      simp only [scanner, hspace, htab, hlineFeed, hhash, hquote, hbacktick, hword, hminus, hdigit,
        hp, decide_false, Bool.or_self, Bool.false_eq_true, if_false]

/-- The scanner gives the pieces that fit and no others. -/
theorem keeps_scanner : Keeps scanner Fits :=
  .of_cases scanner_of_fits scanner_cases

/-! ## Places -/

/-- A token of a text is spelled where it stands, and ends there. What is before it is cut into the
tokens before it. -/
theorem exists_spelling {line : Nat} {text : List Char} {t : Located Token}
    {before after : List (Located Token)} (h : (scan line text).tokens = before ++ t :: after) :
    ∃ ps word behind, Cut Fits ps text (word ++ behind) ∧ located line 0 ps = before ∧
      t.position = (spelled ps).length ∧ t.line = line + lines ps ∧
      Spelling t.token word ∧ Ends t.token word behind := by
  obtain ⟨ps, rest, hcut, htokens, -⟩ := keeps_scanner.exists_cut line 0 text
  obtain ⟨qs, word, rs, rfl, hqs, hposition, hline⟩ := exists_of_located_eq (htokens.symm.trans h)
  obtain ⟨middle, hcut, hbehind⟩ := hcut.split
  obtain - | ⟨hfits, -⟩ := hbehind
  rw [Nat.zero_add] at hposition
  obtain - | - | - | ⟨hspelling, hends⟩ := hfits
  exact ⟨qs, word, _, hcut, hqs, hposition, hline, hspelling, hends⟩

/-- A token stands where it says. -/
theorem spelled_at_position {line : Nat} {text : List Char} {t : Located Token}
    (h : t ∈ (scan line text).tokens) : ∃ word behind, text.drop t.position = word ++ behind ∧
      Spelling t.token word ∧ Ends t.token word behind := by
  obtain ⟨before, after, htokens⟩ := List.append_of_mem h
  obtain ⟨ps, word, behind, hcut, -, hposition, -, hword⟩ := exists_spelling htokens
  refine ⟨word, behind, ?_, hword⟩
  rw [hposition, hcut.text_eq, List.drop_left]

/-- How many line feeds stand in texts and in names, where they end no line. -/
def innerLines : List (Piece Token) → Nat
  | [] => 0
  | ⟨.token (.text _), spelling⟩ :: ps => spelling.count '\n' + innerLines ps
  | ⟨.token (.name _), spelling⟩ :: ps => spelling.count '\n' + innerLines ps
  | _ :: ps => innerLines ps

theorem count_lineFeed_digits (h : IsDigits ds) : ds.count '\n' = 0 := by
  refine List.count_eq_zero.2 fun hmem => ?_
  cases h.2 _ hmem

theorem count_lineFeed_sign (negative : Bool) : (sign negative).count '\n' = 0 := by
  cases negative <;> rfl

/-- The line feeds of a piece are the line that it ends, or stand in a text or a name. -/
theorem Fits.count_lineFeed (h : Fits p rest) (ps : List (Piece Token)) :
    p.spelling.count '\n' + innerLines ps = p.lexeme.lines + innerLines (p :: ps) := by
  cases h with
  | blank hc =>
    obtain rfl | rfl := hc
    · rfl
    · rfl
  | lineFeed => rfl
  | comment hbody =>
    rw [List.count_cons, List.count_eq_zero.2 hbody]
    rfl
  | token h =>
    cases h with
    | plain | quoted | text => exact (Nat.zero_add _).symm
    | true | false | null => rfl
    | int hds =>
      rw [List.count_append, count_lineFeed_sign, count_lineFeed_digits hds]
      rfl
    | float hwhole hfraction =>
      rw [List.count_append, count_lineFeed_sign, List.count_append, List.count_cons,
        count_lineFeed_digits hwhole, count_lineFeed_digits hfraction]
      rfl
    | mark hc =>
      unfold ofPunctuation? at hc
      split at hc
      all_goals first | (cases hc; rfl) | cases hc

/-- The line that is counted along a cut falls behind the line of the text by the line feeds in texts
and names. -/
theorem line_add_innerLines {ps : List (Piece Token)} {text : List Char} (h : Cut Fits ps text rest) :
    1 + lines ps + innerLines ps = lineAt text (spelled ps).length := by
  rw [h.text_eq, lineAt_length]
  have hcount : (spelled ps).count '\n' = lines ps + innerLines ps := by
    induction h with
    | done => rfl
    | @next p ps text rest hfits hcut ih =>
      have hp := hfits.count_lineFeed ps
      rw [spelled_cons, List.count_append, lines_cons, ih]
      omega
  omega

end Token

end Shapewise.Selection
