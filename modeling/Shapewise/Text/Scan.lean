/-!
# Scanning

A text is cut into lexemes from the front: tokens, characters that are skipped and line feeds. What
a lexeme is depends on its first character and what follows it; a scanner says so, giving with the
lexeme how many of the following characters belong to it. Scanning ends at the end of the text or at
the first place where there is no lexeme.
-/

namespace Shapewise.Text

/-- What the front of a text is. -/
inductive Lexeme (τ : Type)
  | skipped
  | lineFeed
  | token (t : τ)
  deriving DecidableEq, Repr

/-- A token with its line and its position. -/
structure Located (τ : Type) where
  token : τ
  line : Nat
  position : Nat
  deriving DecidableEq, Repr

/-- Where a scan stopped before the end of the text, and why. -/
structure Stop (ρ : Type) where
  reason : ρ
  line : Nat
  position : Nat
  deriving DecidableEq, Repr

/-- The tokens of a text, where the scan stopped if it did, and the line that was reached. -/
structure Scanned (τ ρ : Type) where
  tokens : List (Located τ)
  stop : Option (Stop ρ)
  line : Nat
  deriving DecidableEq, Repr

/-- What the front of a text is, given its first character and the rest, and how many characters of
the rest belong to it. -/
abbrev Scanner (τ ρ : Type) := Char → List Char → Except ρ (Lexeme τ × Nat)

/-- How many lines a lexeme ends. -/
def Lexeme.lines {τ : Type} : Lexeme τ → Nat
  | .lineFeed => 1
  | _ => 0

/-- A scan with a lexeme in front of it. -/
def Scanned.cons {τ ρ : Type} (l : Lexeme τ) (line position : Nat) (s : Scanned τ ρ) :
    Scanned τ ρ :=
  match l with
  | .token t => { s with tokens := ⟨t, line, position⟩ :: s.tokens }
  | _ => s

/-- Scans a text from a line and a position on. -/
def scan {τ ρ : Type} (scanner : Scanner τ ρ) (line position : Nat) :
    List Char → Scanned τ ρ
  | [] => ⟨[], none, line⟩
  | c :: cs =>
    match scanner c cs with
    | .error reason => ⟨[], some ⟨reason, line, position⟩, line⟩
    | .ok (l, n) =>
      (scan scanner (line + l.lines) (position + 1 + n) (cs.drop n)).cons l line position
termination_by cs => cs.length
decreasing_by simp only [List.length_drop, List.length_cons]; omega

end Shapewise.Text
