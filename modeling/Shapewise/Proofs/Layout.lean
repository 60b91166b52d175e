import Shapewise.Proofs.Schema.Located
import Shapewise.Proofs.Schema.Unplaced
import Shapewise.Proofs.Selection.Located
import Shapewise.Proofs.Selection.Recognition
import Shapewise.Proofs.Text.Layout
import Shapewise.Schema.Basic

/-!
# Layout does not matter

How tokens are laid out in a text does not matter (`layout_does_not_matter`): with any gaps before,
between and behind them they are found again, so texts that differ in gaps only are read as the same
selection, or define the same entities. Where the tokens stand does differ, but the readers keep lines
only, and nothing that is read depends on these.
-/

namespace Shapewise

open Text

/-! ## Selection text -/

namespace Selection

/-- The blanks of selection text. -/
def IsBlank (c : Char) : Prop := c = ' ' ∨ c = '\t'

variable {c : Char}

/-- No word and no number goes on with a gap. -/
theorem Token.ends_before_gap (hc : BeginsGap IsBlank c) (t : Token) (word rest : List Char) :
    Ends t word (c :: rest) := by
  have hchar : isWordPart c = false ∧ isDecimal c = false ∧ c ≠ '.' := by
    obtain (rfl | rfl) | rfl | rfl := hc <;> decide
  obtain ⟨hword, hdecimal, hpoint⟩ := hchar
  have hhead : ∀ d ∈ (c :: rest).head?, isDecimal d = false := by simpa using hdecimal
  cases t with
  | int => exact ⟨hhead, fun d cs h => absurd (List.cons_eq_cons.1 h).1 hpoint⟩
  | float => exact hhead
  | _ => exact fun _ => by simpa using hword

theorem laysOut : LaysOut Token.scanner IsBlank Token.Spelling Token.Fits where
  keeps := Token.keeps_scanner
  blank := .blank
  lineFeed := .lineFeed
  comment h := .comment h (by simp)
  token h hc := .token h (Token.ends_before_gap hc _ _ _)

end Selection

/-! ## Schema text -/

namespace Schema

/-- The blanks of schema text. -/
def IsBlank (c : Char) : Prop := c = ' ' ∨ c = '\t' ∨ c = '\r'

namespace Token

/-- The characters of a plain word. -/
abbrev IsWord (cs : List Char) : Prop := IsWordOf isWordStart isWord cs

/-- The ways to write a token. A name stands plain, where it is a word and no keyword, or in
backticks. -/
inductive Spelling : Token → List Char → Prop
  | plain {s : String} : IsWord s.toList → (∀ k : Keyword, k.spelling ≠ s) →
      Spelling (.name s) s.toList
  | quoted {s : String} : Quotable s → Spelling (.name s) ('`' :: (s.toList ++ ['`']))
  | keyword (k : Keyword) : Spelling (.keyword k) k.spelling.toList
  | mark {c : Char} {t : Token} : ofPunctuation? c = some t → Spelling t [c]
  | arrow : Spelling .arrow ['-', '>']

end Token

variable {c : Char} {cs word rest text text' : List Char} {t : Token} {ts : List Token} {d : Draft}

theorem ofWord_of_ne {s : String} (h : ∀ k : Keyword, k.spelling ≠ s) : Token.ofWord s = .name s := by
  have hnone : Keyword.all.find? (fun k => k.spelling = s) = none := by
    refine List.find?_eq_none.2 fun k _ => ?_
    simpa using h k
  rw [Token.ofWord, hnone]

/-- A word is a spelling of the token that it is read as. -/
theorem spelling_ofWord {s : String} (h : Token.IsWord s.toList) :
    Token.Spelling (Token.ofWord s) s.toList := by
  by_cases hk : ∃ k : Keyword, k.spelling = s
  · obtain ⟨k, rfl⟩ := hk
    have hof : Token.ofWord k.spelling = .keyword k := by cases k <;> decide
    rw [hof]
    exact .keyword k
  · push Not at hk
    rw [ofWord_of_ne hk]
    exact .plain h hk

/-- A token among the pieces of a text is spelled as a token. -/
theorem Fits.spelled (h : Fits ⟨.token t, word⟩ rest) : Token.Spelling t word := by
  generalize hp : (⟨.token t, word⟩ : Piece Token) = p at h
  cases h with
  | blank | lineFeed | comment => cases hp
  | quoted hs =>
    cases hp
    exact .quoted hs
  | @word c cs _ hc hcs =>
    cases hp
    have hword : Token.IsWord (String.ofList (c :: cs)).toList := by
      rw [String.toList_ofList]
      exact ⟨hc, hcs⟩
    have hspelling := spelling_ofWord hword
    rwa [String.toList_ofList] at hspelling
  | mark hc =>
    cases hp
    exact .mark hc
  | arrow =>
    cases hp
    exact .arrow

/-- A spelling stands before a gap. -/
theorem fits_before_gap (h : Token.Spelling t word) (hc : BeginsGap IsBlank c) :
    Fits ⟨.token t, word⟩ (c :: rest) := by
  have hend : ∀ d ∈ (c :: rest).head?, isWord d = false := by
    have hchar : isWord c = false := by
      obtain (rfl | rfl | rfl) | rfl | rfl := hc <;> decide
    simpa using hchar
  have hword : ∀ {s : String}, Token.IsWord s.toList →
      Fits ⟨.token (Token.ofWord s), s.toList⟩ (c :: rest) := by
    intro s hs
    obtain ⟨d, ds, hds⟩ : ∃ d ds, s.toList = d :: ds := by
      cases hlist : s.toList with
      | nil =>
        rw [hlist] at hs
        exact hs.elim
      | cons d ds => exact ⟨d, ds, rfl⟩
    have hofList : s = String.ofList (d :: ds) := by rw [← hds, String.ofList_toList]
    rw [hds] at hs
    rw [hds, hofList]
    exact .word hs.1 hs.2 hend
  cases h with
  | plain hs hk =>
    have hfits := hword hs
    rwa [ofWord_of_ne hk] at hfits
  | quoted hs => exact .quoted hs
  | keyword k =>
    have hof : Token.ofWord k.spelling = .keyword k ∧ Token.IsWord k.spelling.toList := by
      cases k <;> decide
    have hfits := hword hof.2
    rwa [hof.1] at hfits
  | mark hc => exact .mark hc
  | arrow => exact .arrow

theorem laysOut : LaysOut Token.scanner IsBlank Token.Spelling Fits where
  keeps := keeps_scanner
  blank := .blank
  lineFeed := .lineFeed
  comment h := .comment h (by simp)
  token := fits_before_gap

/-- Texts that are cut into the same tokens define the same entities. -/
theorem draftOfText_of_scans (h : Scans Token.scanner text ts) (h' : Scans Token.scanner text' ts)
    (hd : draftOfText text = .ok d) : draftOfText text' = .ok d := by
  obtain ⟨htokens, hstop⟩ := h 1 0
  obtain ⟨htokens', hstop'⟩ := h' 1 0
  obtain ⟨definitions, hread, hresolve⟩ := Outcome.bind_eq_ok_iff.1 hd
  rw [Outcome.mapError_eq_ok_iff] at hread hresolve
  rw [readText_eq_readTokens hstop] at hread
  obtain ⟨definitions', hread', hunlined⟩ :=
    exists_readTokens_of_same_tokens (htokens.trans htokens'.symm) hread
  refine Outcome.bind_eq_ok_iff.2 ⟨definitions', ?_, ?_⟩
  · rw [Outcome.mapError_eq_ok_iff, readText_eq_readTokens hstop']
    exact hread'
  · rw [Outcome.mapError_eq_ok_iff]
    exact resolve_of_unlined hunlined hresolve

end Schema

/-! ## Both -/

/-- A sequence of tokens that is written in any spellings with any gaps is found again in the text, from
whatever line the scan starts and whatever texts came before; so texts that write the same tokens are
read as the same selection, and define the same entities with the same registry, or neither of them is.
The sequences in question are all there are: every token that is scanned has a spelling. -/
theorem layout_does_not_matter :
    (∀ ts text, LaidOut Selection.IsBlank Selection.Token.Spelling ts text → ∀ line,
      (Selection.Token.scan line text).tokens.map Located.token = ts ∧
        (Selection.Token.scan line text).stop = none) ∧
    (∀ ts text text', LaidOut Selection.IsBlank Selection.Token.Spelling ts text →
      LaidOut Selection.IsBlank Selection.Token.Spelling ts text' →
      ∀ items, Selection.readText text = .ok items ↔ Selection.readText text' = .ok items) ∧
    (∀ line text, ∀ t ∈ (Selection.Token.scan line text).tokens,
      ∃ word, Selection.Token.Spelling t.token word) ∧
    (∀ ts text, LaidOut Schema.IsBlank Schema.Token.Spelling ts text → ∀ l : Schema.Lexer,
      (l.tokenize text).1.tokens.map Located.token = ts ∧ (l.tokenize text).1.stop = none) ∧
    (∀ ts text text', LaidOut Schema.IsBlank Schema.Token.Spelling ts text →
      LaidOut Schema.IsBlank Schema.Token.Spelling ts text' →
      ∀ d, Schema.draftOfText text = .ok d ↔ Schema.draftOfText text' = .ok d) ∧
    ∀ text, ∀ t ∈ (Schema.Token.scan text).tokens, ∃ word, Schema.Token.Spelling t.token word := by
  refine ⟨fun ts text h line => Selection.laysOut.scans h line 0, fun ts text text' h h' items => ?_,
    fun line text t ht => ?_, fun ts text h l => Schema.laysOut.scans h _ 0,
    fun ts text text' h h' d => ?_, fun text t ht => ?_⟩
  · rw [Selection.readText_eq_ok_iff (Selection.laysOut.scans h),
      Selection.readText_eq_ok_iff (Selection.laysOut.scans h')]
  · obtain ⟨word, _, -, hword, -⟩ := Selection.Token.spelled_at_position ht
    exact ⟨word, hword⟩
  · have hscans := Schema.laysOut.scans h
    have hscans' := Schema.laysOut.scans h'
    exact ⟨Schema.draftOfText_of_scans hscans hscans', Schema.draftOfText_of_scans hscans' hscans⟩
  · obtain ⟨word, _, -, -, hfits⟩ := (Schema.standsIn_of_scan ht).spelled
    exact ⟨word, hfits.spelled⟩

/-- The tokens of `id,` and those of `map a` with its braces, spelled and laid out in two ways. -/
theorem layout_does_not_matter_id :
    (∀ items, Selection.readText " id ,\n".toList = .ok items ↔
      Selection.readText "#a\n`id`\t,#,b\n".toList = .ok items) ∧
    (Selection.Token.scan 7 " id ,\n".toList).tokens.map Located.token = [.name "id", .comma] ∧
    (∀ d, Schema.draftOfText "\rmap a \x7b \x7d ".toList = .ok d ↔
      Schema.draftOfText "\nmap#map\n`a`\t\x7b\n\x7d\n".toList = .ok d) ∧
    ((Schema.Lexer.mk 7).tokenize "\rmap a \x7b \x7d ".toList).1.tokens.map Located.token =
      [.keyword .map, .name "a", .openBrace, .closeBrace] := by
  obtain ⟨hscan, hread, -, hscanSchema, hreadSchema, -⟩ := layout_does_not_matter
  have hplain : LaidOut Selection.IsBlank Selection.Token.Spelling [.name "id", .comma]
      " id ,\n".toList := by
    show LaidOut _ _ _ ([' '] ++ ("id".toList ++ ([' '] ++ ([','] ++ ['\n']))))
    exact .token (by decide) (.blank (.inl rfl) .nil)
      (.plain (by decide) (by decide) (by decide) (by decide))
      (.token (by decide) (.blank (.inl rfl) .nil) (.mark rfl) (.done (by decide) (.lineFeed .nil)))
  have hquoted : LaidOut Selection.IsBlank Selection.Token.Spelling [.name "id", .comma]
      "#a\n`id`\t,#,b\n".toList := by
    show LaidOut _ _ _ (('#' :: (['a'] ++ ['\n'])) ++ ("`id`".toList ++ (['\t'] ++ ([','] ++
      '#' :: ([',', 'b'] ++ ['\n'])))))
    exact .token (by decide) (.comment (by decide) .nil)
      (.quoted (s := "id") (by decide) (by decide))
      (.token (by decide) (.blank (.inr rfl) .nil) (.mark rfl)
        (.done (by decide) (.comment (by decide) .nil)))
  have hspaced : LaidOut Schema.IsBlank Schema.Token.Spelling
      [.keyword .map, .name "a", .openBrace, .closeBrace] "\rmap a \x7b \x7d ".toList := by
    show LaidOut _ _ _ (['\r'] ++ ("map".toList ++ ([' '] ++ ("a".toList ++ ([' '] ++ (['\x7b'] ++
      ([' '] ++ (['\x7d'] ++ [' ']))))))))
    exact .token (by decide) (.blank (.inr (.inr rfl)) .nil) (.keyword .map)
      (.token (by decide) (.blank (.inl rfl) .nil) (.plain (by decide) fun k => by cases k <;> decide)
        (.token (by decide) (.blank (.inl rfl) .nil) (.mark rfl)
          (.token (by decide) (.blank (.inl rfl) .nil) (.mark rfl)
            (.done (by decide) (.blank (.inl rfl) .nil)))))
  have hlines : LaidOut Schema.IsBlank Schema.Token.Spelling
      [.keyword .map, .name "a", .openBrace, .closeBrace] "\nmap#map\n`a`\t\x7b\n\x7d\n".toList := by
    show LaidOut _ _ _ (['\n'] ++ ("map".toList ++ ('#' :: ("map".toList ++ ['\n']) ++ ("`a`".toList ++
      (['\t'] ++ (['\x7b'] ++ (['\n'] ++ (['\x7d'] ++ ['\n']))))))))
    exact .token (by decide) (.lineFeed .nil) (.keyword .map)
      (.token (by decide) (.comment (by decide) .nil) (.quoted (s := "a") (by decide))
        (.token (by decide) (.blank (.inr (.inl rfl)) .nil) (.mark rfl)
          (.token (by decide) (.lineFeed .nil) (.mark rfl) (.done (by decide) (.lineFeed .nil)))))
  exact ⟨hread _ _ _ hplain hquoted, (hscan _ _ hplain 7).1, hreadSchema _ _ _ hspaced hlines,
    (hscanSchema _ _ hspaced ⟨7⟩).1⟩

end Shapewise
