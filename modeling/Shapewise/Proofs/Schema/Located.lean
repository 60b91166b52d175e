import Shapewise.Proofs.Schema.Printed
import Shapewise.Proofs.Text.Cut

/-!
# Where the tokens of a schema text stand

The pieces of schema text, said without the scanner (`Fits`): blanks, line ends, comments, names in
backticks, words, and marks. A comment goes on to the end of its line and a word as far as it can;
everything else ends by itself. The scanner cuts a text into these pieces and nothing else, with every
token on its line and in its column, and stops only where no piece begins (`schema_tokens_located`).
-/

namespace Shapewise.Schema

open Text

/-- A piece fits in front of the text that follows it. -/
inductive Fits : Piece Token → List Char → Prop
  | blank {c : Char} {rest : List Char} : c = ' ' ∨ c = '\t' ∨ c = '\r' → Fits ⟨.skipped, [c]⟩ rest
  | lineFeed {rest : List Char} : Fits ⟨.lineFeed, ['\n']⟩ rest
  /-- A comment goes on to the end of its line. -/
  | comment {body rest : List Char} : '\n' ∉ body → (∀ c ∈ rest.head?, c = '\n') →
      Fits ⟨.skipped, '#' :: body⟩ rest
  | quoted {s : String} {rest : List Char} : Quotable s →
      Fits ⟨.token (.name s), '`' :: (s.toList ++ ['`'])⟩ rest
  /-- A word goes on as far as it can. -/
  | word {c : Char} {cs rest : List Char} : Token.isWordStart c = true →
      (∀ d ∈ cs, isWord d = true) → (∀ d ∈ rest.head?, isWord d = false) →
      Fits ⟨.token (Token.ofWord (String.ofList (c :: cs))), c :: cs⟩ rest
  | mark {c : Char} {t : Token} {rest : List Char} : Token.ofPunctuation? c = some t →
      Fits ⟨.token t, [c]⟩ rest
  | arrow {rest : List Char} : Fits ⟨.token .arrow, ['-', '>']⟩ rest

variable {c : Char} {cs rest : List Char} {p : Piece Token} {t : Token}

/-! ## The scanner -/

theorem scanner_comment (cs : List Char) :
    Token.scanner '#' cs = .ok (.skipped, (cs.takeWhile (· ≠ '\n')).length) := rfl

theorem scanner_mark (h : Token.ofPunctuation? c = some t) (cs : List Char) :
    Token.scanner c cs = .ok (.token t, 0) := by
  unfold Token.ofPunctuation? at h
  split at h
  all_goals first | (cases h; rfl) | cases h

/-- Every piece that fits is found. -/
theorem scanner_of_fits (h : Fits p rest) : ∃ c body, p.spelling = c :: body ∧
    Token.scanner c (body ++ rest) = .ok (p.lexeme, body.length) := by
  cases h with
  | blank hc =>
    refine ⟨_, [], rfl, ?_⟩
    obtain rfl | rfl | rfl := hc
    · rfl
    · rfl
    · rfl
  | lineFeed => exact ⟨_, [], rfl, rfl⟩
  | comment hbody hrest =>
    refine ⟨_, _, rfl, ?_⟩
    rw [scanner_comment, takeWhile_append_of_head]
    · intro c hc
      have hne : c ≠ '\n' := fun he => hbody (he ▸ hc)
      simpa using hne
    · intro c hc
      simpa using hrest c hc
  | @quoted s _ hs =>
    refine ⟨_, _, rfl, ?_⟩
    rw [List.append_assoc]
    exact scanner_name hs rest
  | word hc hcs hrest =>
    refine ⟨_, _, rfl, ?_⟩
    rw [scanner_word hc, takeWhile_append_of_head hcs hrest]
  | mark hc => exact ⟨_, [], rfl, scanner_mark hc rest⟩
  | arrow => exact ⟨_, _, rfl, rfl⟩

/-- A backtick begins a name, or nothing. -/
theorem scanner_backtick (cs : List Char) :
    (∃ s rest, cs = s.toList ++ '`' :: rest ∧ Quotable s) ∨ Token.scanner '`' cs = .error ⟨'`'⟩ := by
  obtain ⟨rest, hcs, hinside, hrest⟩ := exists_takeWhile (fun d => d ≠ '`' && d ≠ '\n') cs
  generalize htaken : cs.takeWhile (fun d => d ≠ '`' && d ≠ '\n') = taken at hcs hinside
  have hscanner : Token.scanner '`' cs =
      if taken.isEmpty || cs[taken.length]? ≠ some '`' then .error ⟨'`'⟩
      else .ok (.token (.name (String.ofList taken)), taken.length + 1) := by
    rw [← htaken]
    rfl
  by_cases hname : taken ≠ [] ∧ cs[taken.length]? = some '`'
  · obtain ⟨hne, hclose⟩ := hname
    obtain ⟨behind, rfl⟩ : ∃ behind, rest = '`' :: behind := by
      rw [hcs, List.getElem?_append_right le_rfl, Nat.sub_self] at hclose
      cases rest with
      | nil => cases hclose
      | cons c behind =>
        cases hclose
        exact ⟨behind, rfl⟩
    refine .inl ⟨String.ofList taken, behind, by rw [String.toList_ofList, hcs], ?_⟩
    constructor
    · rwa [String.toList_ofList]
    · rw [String.toList_ofList]
      exact fun hmem => by simpa using hinside _ hmem
    · rw [String.toList_ofList]
      exact fun hmem => by simpa using hinside _ hmem
  · refine .inr ?_
    rw [hscanner, if_pos]
    simp only [Bool.or_eq_true, List.isEmpty_iff, decide_eq_true_eq]
    exact (not_and_or.1 hname).imp_left not_not.1

/-- The front of a text is a piece that fits, or no lexeme begins with its first character. -/
theorem scanner_cases (c : Char) (cs : List Char) :
    (∃ p body rest, p.spelling = c :: body ∧ cs = body ++ rest ∧ Fits p rest) ∨
      Token.scanner c cs = .error ⟨c⟩ := by
  by_cases hblank : c = ' ' ∨ c = '\t' ∨ c = '\r'
  · exact .inl ⟨_, [], cs, rfl, rfl, .blank hblank⟩
  by_cases hlineFeed : c = '\n'
  · subst hlineFeed
    exact .inl ⟨_, [], cs, rfl, rfl, .lineFeed⟩
  by_cases hhash : c = '#'
  · subst hhash
    obtain ⟨rest, hcs, hbody, hrest⟩ := exists_takeWhile (· ≠ '\n') cs
    refine .inl ⟨_, _, rest, rfl, hcs, .comment (fun hmem => ?_) fun c hc => ?_⟩
    · simpa using hbody _ hmem
    · simpa using hrest c hc
  by_cases hbacktick : c = '`'
  · subst hbacktick
    refine (scanner_backtick cs).imp_left ?_
    rintro ⟨s, rest, rfl, hs⟩
    exact ⟨_, _, rest, rfl, by rw [List.append_assoc]; rfl, .quoted hs⟩
  by_cases hword : Token.isWordStart c = true
  · obtain ⟨rest, hcs, hbody, hrest⟩ := exists_takeWhile isWord cs
    exact .inl ⟨_, _, rest, rfl, hcs, .word hword hbody hrest⟩
  by_cases hminus : c = '-'
  · subst hminus
    cases cs with
    | nil => exact .inr rfl
    | cons d cs =>
      by_cases hd : d = '>'
      · subst hd
        exact .inl ⟨_, ['>'], cs, rfl, rfl, .arrow⟩
      · refine .inr ?_
        show (if some d = some '>' then _ else _) = _
        rw [if_neg]
        simpa using hd
  · cases hp : Token.ofPunctuation? c with
    | some t => exact .inl ⟨_, [], cs, rfl, rfl, .mark hp⟩
    | none =>
      obtain ⟨hspace, htab, hreturn⟩ := not_or.1 hblank |>.imp_right not_or.1
      refine .inr ?_
      simp only [Token.scanner, hspace, htab, hreturn, hlineFeed, hhash, hbacktick, hword, hminus, hp,
        decide_false, Bool.or_self, Bool.false_eq_true, if_false]

/-- The scanner gives the pieces that fit and no others. -/
theorem keeps_scanner : Keeps Token.scanner Fits :=
  .of_cases scanner_of_fits fun c cs => (scanner_cases c cs).imp_right fun h => ⟨⟨c⟩, h⟩

theorem scanner_eq_error {f : ScanFault} (h : Token.scanner c cs = .error f) : f = ⟨c⟩ := by
  obtain ⟨p, body, rest, hspelling, rfl, hfits⟩ | herror := scanner_cases c cs
  · exact absurd hfits (keeps_scanner.not_fits h (by rw [hspelling]; rfl))
  · cases herror.symm.trans h
    rfl

/-! ## The spelling of a piece -/

theorem display_ofWord (s : String) : (Token.ofWord s).display = s := by
  rw [Token.ofWord]
  split
  · next k hk => simpa [Token.display] using List.find?_some hk
  · rfl

theorem display_mark (h : Token.ofPunctuation? c = some t) : t.display.toList = [c] := by
  unfold Token.ofPunctuation? at h
  split at h
  all_goals first | (cases h; rfl) | cases h

/-- A token is spelled as it is shown, or so between backticks. -/
theorem Fits.spelling_token {spelling : List Char} (h : Fits ⟨.token t, spelling⟩ rest) :
    spelling = t.display.toList ∨ spelling = '`' :: (t.display.toList ++ ['`']) := by
  generalize hp : (⟨.token t, spelling⟩ : Piece Token) = p at h
  cases h with
  | blank | lineFeed | comment => cases hp
  | quoted =>
    cases hp
    exact .inr rfl
  | word =>
    cases hp
    rw [display_ofWord, String.toList_ofList]
    exact .inl rfl
  | mark hc =>
    cases hp
    exact .inl (display_mark hc).symm
  | arrow =>
    cases hp
    exact .inl rfl

theorem Fits.spelling_ne_nil (h : Fits p rest) : p.spelling ≠ [] := by
  cases h <;> exact List.cons_ne_nil _ _

/-- Line ends are the only pieces with a line feed. -/
theorem Fits.count_lineFeed (h : Fits p rest) : p.spelling.count '\n' = p.lexeme.lines := by
  cases h with
  | blank hc =>
    obtain rfl | rfl | rfl := hc
    · rfl
    · rfl
    · rfl
  | lineFeed => rfl
  | comment hbody =>
    rw [List.count_cons, List.count_eq_zero.2 hbody]
    rfl
  | quoted hs =>
    refine List.count_eq_zero.2 ?_
    simpa using hs.no_lineFeed
  | @word c cs _ hc hcs =>
    refine List.count_eq_zero.2 fun hmem => ?_
    rcases List.mem_cons.1 hmem with rfl | hmem
    · cases hc
    · cases hcs _ hmem
  | mark hc =>
    unfold Token.ofPunctuation? at hc
    split at hc
    all_goals first | (cases hc; rfl) | cases hc
  | arrow => rfl

/-! ## Lines and columns -/

/-- A token stands where it says: it is spelled there as it is shown, or so between backticks, and it
fits in front of what follows; its line is counted by the line feeds before it, and its column from the
last of them. -/
structure StandsIn (text : List Char) (t : Located Token) : Prop where
  spelled : ∃ spelling behind, text.drop t.position = spelling ++ behind ∧
    (spelling = t.token.display.toList ∨ spelling = '`' :: (t.token.display.toList ++ ['`'])) ∧
      Fits ⟨.token t.token, spelling⟩ behind
  line : t.line = lineAt text t.position
  column : Column text t.position (columnAt text t.position)

/-- A scan stops at a character with which no piece begins, and says at which and where it is. -/
structure StopsAt (text : List Char) (position : Nat) (c : Char) (cs : List Char)
    (stop : Stop ScanFault) : Prop where
  place : stop = ⟨⟨c⟩, lineAt text position, position⟩
  column : Column text position (columnAt text position)
  nothing_fits : ∀ p behind, p.spelling ++ behind = c :: cs → ¬ Fits p behind
  message :
    let shown := Quoted.encode (String.singleton c)
    let line := lineAt text position
    let column := columnAt text position
    stopMessage text stop = s!"Illegal character {shown} at line {line}, column {column}"

variable {text : List Char} {ps : List (Piece Token)}

/-- The lines that are counted along a cut are those of the text. -/
theorem line_eq_lineAt (h : Cut Fits ps text rest) :
    1 + lines ps = lineAt text (spelled ps).length := by
  have hlines : lines ps = (spelled ps).count '\n' := by
    refine lines_eq_count fun p hp => ?_
    obtain ⟨behind, hfits⟩ := h.exists_fits hp
    exact hfits.count_lineFeed
  rw [h.text_eq, lineAt_length, hlines, Nat.add_comm]

theorem column_of_cut (h : Cut Fits ps text rest) :
    Column text (spelled ps).length (columnAt text (spelled ps).length) := by
  rw [h.text_eq]
  exact column_columnAt _ _

theorem standsIn_of_cut (h : Cut Fits ps text rest) {t : Located Token} (ht : t ∈ located 1 0 ps) :
    StandsIn text t := by
  obtain ⟨before, spelling, behind, rfl, hposition, hline⟩ := exists_of_mem_located ht
  obtain ⟨middle, hbefore, -⟩ := h.split
  obtain ⟨following, htext, hfits⟩ := h.fits_at
  rw [Nat.zero_add] at hposition
  refine ⟨⟨spelling, following, ?_, hfits.spelling_token, hfits⟩, ?_, ?_⟩
  · rw [hposition, htext, List.drop_left]
  · rw [hline, hposition]
    exact line_eq_lineAt hbefore
  · rw [hposition]
    exact column_of_cut hbefore

/-- A token that is scanned stands where it says. -/
theorem standsIn_of_scan {t : Located Token} (h : t ∈ (Token.scan text).tokens) : StandsIn text t := by
  obtain ⟨ps, rest, hcut, htokens, -⟩ := keeps_scanner.exists_cut 1 0 text
  rw [Token.scan, htokens] at h
  exact standsIn_of_cut hcut h

/-- A text is cut into pieces that fit, up to a rest, whatever texts came before it. Its tokens are
those among the pieces: they stand one behind the other, each where it says. The rest is empty, or no
piece begins with it; then its first character is refused, where it stands. -/
theorem schema_tokens_located (text : List Char) :
    (∀ l : Lexer, (l.tokenize text).1 = Token.scan text) ∧
    ∃ ps rest, Cut Fits ps text rest ∧ (Token.scan text).tokens = located 1 0 ps ∧
      (Token.scan text).tokens.Pairwise (fun t u => t.position < u.position) ∧
      (∀ t ∈ (Token.scan text).tokens, StandsIn text t) ∧
      (rest = [] ∧ (Token.scan text).stop = none ∨
        ∃ c cs stop, rest = c :: cs ∧ (Token.scan text).stop = some stop ∧
          StopsAt text (spelled ps).length c cs stop) := by
  obtain ⟨ps, rest, hcut, htokens, hstop⟩ := keeps_scanner.exists_cut 1 0 text
  refine ⟨fun _ => rfl, ps, rest, hcut, htokens, ?_, ?_, hstop.imp_right ?_⟩
  · rw [Token.scan, htokens]
    refine located_increasing fun p hp => ?_
    obtain ⟨behind, hfits⟩ := hcut.exists_fits hp
    exact hfits.spelling_ne_nil
  · rw [Token.scan, htokens]
    exact fun t ht => standsIn_of_cut hcut ht
  · rintro ⟨c, cs, reason, rfl, hscanner, hstop⟩
    obtain rfl := scanner_eq_error hscanner
    rw [Nat.zero_add, line_eq_lineAt hcut] at hstop
    exact ⟨c, cs, _, rfl, hstop, rfl, column_of_cut hcut, fun p behind => keeps_scanner.not_fits hscanner,
      rfl⟩

end Shapewise.Schema
