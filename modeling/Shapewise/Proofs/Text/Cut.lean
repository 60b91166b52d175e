import Mathlib.Data.List.TakeWhile
import Shapewise.Text.Position
import Shapewise.Text.Scan

/-!
# How a text is cut

A scan cuts a text into pieces, each of which fits in front of all that follows it, and leaves a rest
(`Cut`). What fits is said without the scanner; a scanner `Keeps` to it when its lexemes are pieces
that fit, and when it finds every piece that fits. Then the tokens of a scan are those of the pieces,
with the positions and lines at which these stand, and the rest is empty or begins with a character at
which nothing fits (`Keeps.exists_cut`).
-/

namespace Shapewise.Text

variable {τ ρ : Type}

/-- A lexeme with the characters that spell it. -/
structure Piece (τ : Type) where
  lexeme : Lexeme τ
  spelling : List Char

/-- The text of pieces. -/
def spelled (ps : List (Piece τ)) : List Char :=
  ps.flatMap Piece.spelling

/-- How many lines pieces end. -/
def lines : List (Piece τ) → Nat
  | [] => 0
  | p :: ps => p.lexeme.lines + lines ps

/-- Pieces that fit cut a text up to a rest. -/
inductive Cut (Fits : Piece τ → List Char → Prop) : List (Piece τ) → List Char → List Char → Prop
  | done {rest : List Char} : Cut Fits [] rest rest
  | next {p : Piece τ} {ps : List (Piece τ)} {text rest : List Char} :
      Fits p text → Cut Fits ps text rest → Cut Fits (p :: ps) (p.spelling ++ text) rest

/-- The tokens among pieces, the first of which stands on a line and at a position. -/
def located (line position : Nat) : List (Piece τ) → List (Located τ)
  | [] => []
  | p :: ps =>
    let behind := located (line + p.lexeme.lines) (position + p.spelling.length) ps
    match p.lexeme with
    | .token t => ⟨t, line, position⟩ :: behind
    | _ => behind

/-- The lexemes of a scanner are the pieces that fit: it gives no others, and it misses none. -/
structure Keeps (scanner : Scanner τ ρ) (Fits : Piece τ → List Char → Prop) : Prop where
  fits : ∀ {c cs l n}, scanner c cs = .ok (l, n) →
    ∃ body rest, cs = body ++ rest ∧ body.length = n ∧ Fits ⟨l, c :: body⟩ rest
  finds : ∀ {p rest}, Fits p rest → ∃ c body, p.spelling = c :: body ∧
    scanner c (body ++ rest) = .ok (p.lexeme, body.length)

variable {scanner : Scanner τ ρ} {Fits : Piece τ → List Char → Prop} {p : Piece τ}
  {ps qs : List (Piece τ)} {text rest cs : List Char} {c : Char} {line position : Nat}
  {t : Located τ}

/-! ## Pieces of a cut -/

theorem spelled_cons (p : Piece τ) (ps : List (Piece τ)) :
    spelled (p :: ps) = p.spelling ++ spelled ps := rfl

theorem lines_cons (p : Piece τ) (ps : List (Piece τ)) :
    lines (p :: ps) = p.lexeme.lines + lines ps := rfl

theorem Cut.text_eq (h : Cut Fits ps text rest) : text = spelled ps ++ rest := by
  induction h with
  | done => rfl
  | next _ _ ih => rw [spelled_cons, List.append_assoc, ← ih]

theorem Cut.split (h : Cut Fits (ps ++ qs) text rest) :
    ∃ middle, Cut Fits ps text middle ∧ Cut Fits qs middle rest := by
  induction ps generalizing text with
  | nil => exact ⟨text, .done, h⟩
  | cons p ps ih =>
    obtain - | ⟨hfits, hcut⟩ := h
    obtain ⟨middle, hps, hqs⟩ := ih hcut
    exact ⟨middle, .next hfits hps, hqs⟩

/-- A piece of a cut stands in the text behind the pieces before it, and fits there. -/
theorem Cut.fits_at (h : Cut Fits (ps ++ p :: qs) text rest) :
    ∃ behind, text = spelled ps ++ (p.spelling ++ behind) ∧ Fits p behind := by
  obtain ⟨middle, hps, hqs⟩ := h.split
  obtain - | ⟨hfits, -⟩ := hqs
  exact ⟨_, hps.text_eq, hfits⟩

theorem Cut.exists_fits (h : Cut Fits ps text rest) (hp : p ∈ ps) : ∃ behind, Fits p behind := by
  obtain ⟨before, after, rfl⟩ := List.append_of_mem hp
  obtain ⟨behind, -, hfits⟩ := h.fits_at
  exact ⟨behind, hfits⟩

/-- A token among pieces stands where the text of the pieces before it ends; the tokens before it are
those of these pieces. -/
theorem exists_of_located_eq {before after : List (Located τ)}
    (h : located line position ps = before ++ t :: after) :
    ∃ qs spelling rs, ps = qs ++ ⟨.token t.token, spelling⟩ :: rs ∧
      located line position qs = before ∧
      t.position = position + (spelled qs).length ∧ t.line = line + lines qs := by
  induction ps generalizing line position before with
  | nil => cases before <;> cases h
  | cons p ps ih =>
    obtain ⟨lexeme, spelling⟩ := p
    have hbehind : ∀ {before},
        located (line + lexeme.lines) (position + spelling.length) ps = before ++ t :: after →
        ∃ qs spelling' rs, ⟨lexeme, spelling⟩ :: ps =
            (⟨lexeme, spelling⟩ :: qs) ++ ⟨.token t.token, spelling'⟩ :: rs ∧
          located (line + lexeme.lines) (position + spelling.length) qs = before ∧
          t.position = position + (spelled (⟨lexeme, spelling⟩ :: qs)).length ∧
          t.line = line + lines (⟨lexeme, spelling⟩ :: qs) := by
      intro before h
      obtain ⟨qs, spelling', rs, rfl, hqs, hposition, hline⟩ := ih h
      refine ⟨qs, spelling', rs, rfl, hqs, ?_, ?_⟩
      · rw [hposition, spelled_cons, List.length_append, Nat.add_assoc]
      · rw [hline, lines_cons, Nat.add_assoc]
    cases lexeme with
    | skipped =>
      obtain ⟨qs, spelling', rs, hps, hqs, hplace⟩ := hbehind h
      exact ⟨_, spelling', rs, hps, hqs, hplace⟩
    | lineFeed =>
      obtain ⟨qs, spelling', rs, hps, hqs, hplace⟩ := hbehind h
      exact ⟨_, spelling', rs, hps, hqs, hplace⟩
    | token t' =>
      cases before with
      | nil =>
        obtain ⟨rfl, -⟩ := List.cons_eq_cons.1 h
        exact ⟨[], spelling, ps, rfl, rfl, rfl, rfl⟩
      | cons u before =>
        obtain ⟨rfl, hrest⟩ := List.cons_eq_cons.1 h
        obtain ⟨qs, spelling', rs, hps, hqs, hplace⟩ := hbehind hrest
        exact ⟨_, spelling', rs, hps, congrArg (_ :: ·) hqs, hplace⟩

/-- The tokens of pieces stand where the text of the pieces before them ends. -/
theorem exists_of_mem_located (h : t ∈ located line position ps) :
    ∃ before spelling behind, ps = before ++ ⟨.token t.token, spelling⟩ :: behind ∧
      t.position = position + (spelled before).length ∧ t.line = line + lines before := by
  obtain ⟨before, after, h⟩ := List.append_of_mem h
  obtain ⟨qs, spelling, rs, hps, -, hplace⟩ := exists_of_located_eq h
  exact ⟨qs, spelling, rs, hps, hplace⟩

/-- Where no piece is empty, no two tokens stand at one position, and they stand in order. -/
theorem located_increasing (h : ∀ p ∈ ps, p.spelling ≠ []) :
    (located line position ps).Pairwise fun t u => t.position < u.position := by
  induction ps generalizing line position with
  | nil => exact .nil
  | cons p ps ih =>
    obtain ⟨hp, hps⟩ := List.forall_mem_cons.1 h
    have hbehind : (located (line + p.lexeme.lines) (position + p.spelling.length) ps).Pairwise
        fun t u => t.position < u.position := ih hps
    rw [located]
    split
    · refine .cons (fun u hu => ?_) hbehind
      obtain ⟨before, -, -, -, hposition, -⟩ := exists_of_mem_located hu
      have hlength := List.length_pos_iff.2 hp
      show position < u.position
      omega
    · exact hbehind

/-- Where only the ends of lines hold line feeds, the lines are counted by them. -/
theorem lines_eq_count (h : ∀ p ∈ ps, p.spelling.count '\n' = p.lexeme.lines) :
    lines ps = (spelled ps).count '\n' := by
  induction ps with
  | nil => rfl
  | cons p ps ih =>
    obtain ⟨hp, hps⟩ := List.forall_mem_cons.1 h
    rw [lines_cons, spelled_cons, List.count_append, ih hps, hp]

/-! ## Lines and columns -/

/-- The column of a position in a text, counted from the last line feed before it, or from the start
of the text where there is none. -/
inductive Column (text : List Char) (position : Nat) : Nat → Prop
  | start : '\n' ∉ text.take position → Column text position (position + 1)
  | lineFeed {k : Nat} : k < position → text[k]? = some '\n' →
      '\n' ∉ (text.take position).drop (k + 1) → Column text position (position - k)

theorem lineAt_length (before rest : List Char) :
    lineAt (before ++ rest) before.length = before.count '\n' + 1 := by
  rw [lineAt, List.take_left]

theorem column_columnAt (before rest : List Char) :
    Column (before ++ rest) before.length (columnAt (before ++ rest) before.length) := by
  rw [columnAt, List.take_left]
  generalize hline : before.reverse.takeWhile (· ≠ '\n') = line
  have hnone : '\n' ∉ line.reverse := by
    intro hmem
    rw [List.mem_reverse, ← hline] at hmem
    simpa using List.mem_takeWhile_imp hmem
  have hsplit : before = (before.reverse.dropWhile (· ≠ '\n')).reverse ++ line.reverse := by
    rw [← hline, ← List.reverse_append, List.takeWhile_append_dropWhile, List.reverse_reverse]
  have hhead := List.head?_dropWhile_not (· ≠ '\n') before.reverse
  cases hdrop : before.reverse.dropWhile (· ≠ '\n') with
  | nil =>
    rw [hdrop] at hsplit
    have hbefore : before = line.reverse := hsplit
    have hlength : line.length = before.length := by rw [hbefore, List.length_reverse]
    rw [hlength]
    refine .start ?_
    rwa [List.take_left, hbefore]
  | cons c cs =>
    rw [hdrop] at hsplit hhead
    obtain rfl : c = '\n' := by simpa using hhead
    have hbefore : before = cs.reverse ++ '\n' :: line.reverse := by simpa using hsplit
    have hlength : before.length = cs.length + (line.length + 1) := by
      rw [hbefore, List.length_append, List.length_cons, List.length_reverse, List.length_reverse]
    have hcolumn : line.length + 1 = before.length - cs.length := by omega
    rw [hcolumn]
    refine .lineFeed (by omega) ?_ ?_
    · rw [hbefore]
      simp
    · rw [List.take_left, hbefore]
      have hdrop : (cs.reverse ++ '\n' :: line.reverse).drop (cs.length + 1) = line.reverse := by
        simp [List.drop_append]
      rwa [hdrop]

/-! ## Cuts and scans -/

theorem Keeps.not_fits {reason : ρ} (h : Keeps scanner Fits)
    (hscanner : scanner c cs = .error reason) (htext : p.spelling ++ rest = c :: cs) :
    ¬ Fits p rest := by
  intro hp
  obtain ⟨d, body, hspelling, hok⟩ := h.finds hp
  rw [hspelling, List.cons_append] at htext
  obtain ⟨rfl, rfl⟩ := List.cons_eq_cons.1 htext
  cases hok.symm.trans hscanner

/-- A scanner keeps to pieces that it finds, if everywhere one of them fits or there is no lexeme. -/
theorem Keeps.of_cases
    (hfinds : ∀ {p rest}, Fits p rest → ∃ c body, p.spelling = c :: body ∧
      scanner c (body ++ rest) = .ok (p.lexeme, body.length))
    (hcases : ∀ c cs, (∃ p body rest, p.spelling = c :: body ∧ cs = body ++ rest ∧ Fits p rest) ∨
      ∃ reason, scanner c cs = .error reason) : Keeps scanner Fits := by
  refine ⟨fun {c cs l n} h => ?_, hfinds⟩
  obtain ⟨p, body, rest, hspelling, rfl, hfits⟩ | ⟨reason, herror⟩ := hcases c cs
  · obtain ⟨c', body', hspelling', hok⟩ := hfinds hfits
    obtain ⟨rfl, rfl⟩ := List.cons_eq_cons.1 (hspelling.symm.trans hspelling')
    cases hok.symm.trans h
    obtain ⟨l, spelling⟩ := p
    obtain rfl : spelling = c :: body := hspelling
    exact ⟨body, rest, rfl, rfl, hfits⟩
  · cases herror.symm.trans h

/-- A scan cuts its text. It stops where nothing fits, or at the end. -/
theorem Keeps.exists_cut (h : Keeps scanner Fits) (line position : Nat) (text : List Char) :
    ∃ ps rest, Cut Fits ps text rest ∧
      (scan scanner line position text).tokens = located line position ps ∧
      (rest = [] ∧ (scan scanner line position text).stop = none ∨
        ∃ c cs reason, rest = c :: cs ∧ scanner c cs = .error reason ∧
          (scan scanner line position text).stop =
            some ⟨reason, line + lines ps, position + (spelled ps).length⟩) := by
  induction hn : text.length using Nat.strongRecOn generalizing line position text with
  | ind n ih =>
    subst hn
    cases text with
    | nil =>
      rw [scan]
      exact ⟨[], [], .done, rfl, .inl ⟨rfl, rfl⟩⟩
    | cons c cs =>
      rw [scan]
      cases hscanner : scanner c cs with
      | error reason => exact ⟨[], c :: cs, .done, rfl, .inr ⟨c, cs, reason, rfl, hscanner, rfl⟩⟩
      | ok lexeme =>
        obtain ⟨l, n⟩ := lexeme
        obtain ⟨body, behind, rfl, rfl, hfits⟩ := h.fits hscanner
        have hlt : behind.length < (c :: (body ++ behind)).length := by
          rw [List.length_cons, List.length_append]
          omega
        have hposition : position + 1 + body.length = position + (c :: body).length := by
          rw [List.length_cons]
          omega
        simp only [List.drop_left, hposition]
        obtain ⟨ps, rest, hcut, htokens, hstop⟩ :=
          ih _ hlt (line + l.lines) (position + (c :: body).length) behind rfl
        refine ⟨⟨l, c :: body⟩ :: ps, rest, .next hfits hcut, ?_, ?_⟩
        · cases l with
          | token t => exact congrArg (_ :: ·) htokens
          | skipped => exact htokens
          | lineFeed => exact htokens
        · have hcons : ∀ s : Scanned τ ρ, (s.cons l line position).stop = s.stop := by
            intro s
            cases l <;> rfl
          rw [hcons, lines_cons, spelled_cons, List.length_append, ← Nat.add_assoc, ← Nat.add_assoc]
          exact hstop

end Shapewise.Text
