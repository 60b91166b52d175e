import Shapewise.Proofs.Text.Cut
import Shapewise.Proofs.Text.Scan

/-!
# Layout

Tokens are written one behind the other, each in one of its spellings, with gaps that mean nothing:
blanks, ends of lines, and comments (`LaidOut`). Where every spelling may stand before a gap, a scanner
cuts the text into the tokens again, whatever the gaps are (`LaysOut.scans`).
-/

namespace Shapewise.Text

variable {τ ρ : Type} {scanner : Scanner τ ρ} {IsBlank : Char → Prop} {Spelling : τ → List Char → Prop}
  {Fits : Piece τ → List Char → Prop} {p : Piece τ} {ts : List τ} {gap text rest : List Char}

/-- What may stand between tokens: blanks, ends of lines, and comments up to the ends of their lines. -/
inductive Gap (IsBlank : Char → Prop) : List Char → Prop
  | nil : Gap IsBlank []
  | blank {c : Char} {cs : List Char} : IsBlank c → Gap IsBlank cs → Gap IsBlank (c :: cs)
  | lineFeed {cs : List Char} : Gap IsBlank cs → Gap IsBlank ('\n' :: cs)
  | comment {body cs : List Char} : '\n' ∉ body → Gap IsBlank cs →
      Gap IsBlank ('#' :: (body ++ '\n' :: cs))

/-- Tokens are written with gaps before, between and behind them, none of which is empty. -/
inductive LaidOut (IsBlank : Char → Prop) (Spelling : τ → List Char → Prop) :
    List τ → List Char → Prop
  | done {gap : List Char} : gap ≠ [] → Gap IsBlank gap → LaidOut IsBlank Spelling [] gap
  | token {t : τ} {ts : List τ} {gap word text : List Char} : gap ≠ [] → Gap IsBlank gap →
      Spelling t word → LaidOut IsBlank Spelling ts text →
      LaidOut IsBlank Spelling (t :: ts) (gap ++ (word ++ text))

/-- A character with which a gap can begin. -/
def BeginsGap (IsBlank : Char → Prop) (c : Char) : Prop :=
  IsBlank c ∨ c = '\n' ∨ c = '#'

/-- The pieces to which a scanner keeps are those of gaps, and among the tokens all spellings before
gaps. -/
structure LaysOut (scanner : Scanner τ ρ) (IsBlank : Char → Prop) (Spelling : τ → List Char → Prop)
    (Fits : Piece τ → List Char → Prop) : Prop where
  keeps : Keeps scanner Fits
  blank : ∀ {c rest}, IsBlank c → Fits ⟨.skipped, [c]⟩ rest
  lineFeed : ∀ {rest}, Fits ⟨.lineFeed, ['\n']⟩ rest
  comment : ∀ {body rest}, '\n' ∉ body → Fits ⟨.skipped, '#' :: body⟩ ('\n' :: rest)
  token : ∀ {t word c rest}, Spelling t word → BeginsGap IsBlank c →
    Fits ⟨.token t, word⟩ (c :: rest)

/-- The token of a lexeme, if it is one. -/
def Lexeme.tokens : Lexeme τ → List τ
  | .token t => [t]
  | _ => []

/-- A piece that fits is taken off, and the rest is cut on its own. -/
theorem Keeps.scans (h : Keeps scanner Fits) (hp : Fits p rest) (hrest : Scans scanner rest ts) :
    Scans scanner (p.spelling ++ rest) (p.lexeme.tokens ++ ts) := by
  obtain ⟨c, body, hspelling, hscanner⟩ := h.finds hp
  have hdrop : (body ++ rest).drop body.length = rest := List.drop_left
  rw [← hdrop] at hrest
  rw [hspelling]
  obtain ⟨lexeme, spelling⟩ := p
  cases lexeme with
  | token t => exact .of_token hscanner hrest
  | skipped => exact .of_skipped hscanner hrest
  | lineFeed => exact .of_lineFeed hscanner hrest

theorem Gap.exists_head (h : Gap IsBlank gap) (hne : gap ≠ []) :
    ∃ c cs, gap = c :: cs ∧ BeginsGap IsBlank c := by
  cases h with
  | nil => exact absurd rfl hne
  | blank hc => exact ⟨_, _, rfl, .inl hc⟩
  | lineFeed => exact ⟨_, _, rfl, .inr (.inl rfl)⟩
  | comment => exact ⟨_, _, rfl, .inr (.inr rfl)⟩

/-- A text that is laid out begins with a gap. -/
theorem LaidOut.exists_head (h : LaidOut IsBlank Spelling ts text) :
    ∃ c cs, text = c :: cs ∧ BeginsGap IsBlank c := by
  cases h with
  | done hne hgap => exact hgap.exists_head hne
  | token hne hgap =>
    obtain ⟨c, cs, rfl, hc⟩ := hgap.exists_head hne
    exact ⟨c, _, rfl, hc⟩

namespace LaysOut

/-- A gap leaves no trace. -/
theorem scans_gap (h : LaysOut scanner IsBlank Spelling Fits) (hgap : Gap IsBlank gap)
    (hrest : Scans scanner rest ts) : Scans scanner (gap ++ rest) ts := by
  induction hgap with
  | nil => exact hrest
  | blank hc _ ih => exact h.keeps.scans (h.blank hc) ih
  | lineFeed _ ih => exact h.keeps.scans h.lineFeed ih
  | @comment body cs hbody _ ih =>
    have hline : Scans scanner ('\n' :: (cs ++ rest)) ts := h.keeps.scans h.lineFeed ih
    have hcomment := h.keeps.scans (h.comment hbody) hline
    rw [List.cons_append, List.append_assoc]
    exact hcomment

/-- Tokens that are laid out are found again. -/
theorem scans (h : LaysOut scanner IsBlank Spelling Fits) (ht : LaidOut IsBlank Spelling ts text) :
    Scans scanner text ts := by
  induction ht with
  | done _ hgap => simpa using h.scans_gap hgap .nil
  | token _ hgap hword htext ih =>
    obtain ⟨c, cs, rfl, hc⟩ := htext.exists_head
    exact h.scans_gap hgap (h.keeps.scans (h.token hword hc) ih)

end LaysOut

end Shapewise.Text
