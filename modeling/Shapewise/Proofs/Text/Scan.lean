import Mathlib.Data.List.TakeWhile
import Shapewise.Text.Scan

/-!
# Scanned texts

When a text is cut into given tokens and nothing is left of it, told from the front: one lexeme is
taken off and the rest is cut on its own, wherever it stands. And where a reader that takes one token
at a time gets with given tokens, wherever these stand: the tokens are taken one by one or part by
part. What a grammar makes of a list of tokens from its front: which token is the first to go on with no
sentence, and when the list ends too early.
-/

namespace Shapewise.Text

variable {τ ρ : Type} {scanner : Scanner τ ρ} {c : Char} {cs text : List Char} {ts : List τ} {n : Nat}

/-! ## Cutting a text -/

/-- A text is cut into tokens, wherever it starts, and nothing is left of it. -/
def Scans (scanner : Scanner τ ρ) (text : List Char) (ts : List τ) : Prop :=
  ∀ line position, (scan scanner line position text).tokens.map Located.token = ts ∧
    (scan scanner line position text).stop = none

namespace Scans

theorem nil : Scans scanner [] [] := by
  intro line position
  rw [scan]
  exact ⟨rfl, rfl⟩

theorem of_token {t : τ} (h : scanner c cs = .ok (.token t, n))
    (hrest : Scans scanner (cs.drop n) ts) : Scans scanner (c :: cs) (t :: ts) := by
  intro line position
  obtain ⟨htokens, hstop⟩ := hrest (line + (Lexeme.token t).lines) (position + 1 + n)
  rw [scan, h]
  refine ⟨?_, hstop⟩
  show t :: List.map Located.token _ = t :: ts
  rw [htokens]

theorem of_skipped (h : scanner c cs = .ok (.skipped, n))
    (hrest : Scans scanner (cs.drop n) ts) : Scans scanner (c :: cs) ts := by
  intro line position
  rw [scan, h]
  exact hrest _ _

theorem of_lineFeed (h : scanner c cs = .ok (.lineFeed, n))
    (hrest : Scans scanner (cs.drop n) ts) : Scans scanner (c :: cs) ts := by
  intro line position
  rw [scan, h]
  exact hrest _ _

/-- A token that is taken with everything up to the rest of the text. -/
theorem of_body {body rest : List Char} {t : τ}
    (h : scanner c (body ++ rest) = .ok (.token t, body.length)) (hrest : Scans scanner rest ts) :
    Scans scanner (c :: body ++ rest) (t :: ts) := by
  have hdrop : (body ++ rest).drop body.length = rest := List.drop_left
  exact of_token h (hdrop.symm ▸ hrest)

end Scans

/-! ## Characters -/

/-- What is taken while a test holds is a body, where the test fails right behind it. -/
theorem takeWhile_append_of_head {p : Char → Bool} {body rest : List Char}
    (hbody : ∀ c ∈ body, p c = true) (hrest : ∀ c ∈ rest.head?, p c = false) :
    (body ++ rest).takeWhile p = body := by
  rw [List.takeWhile_append_of_pos hbody]
  cases rest with
  | nil => simp
  | cons c rest =>
    have hc : p c = false := hrest c rfl
    rw [List.takeWhile_cons_of_neg (by simp [hc]), List.append_nil]

/-- What is taken while a test holds, and the rest behind it. -/
theorem exists_takeWhile (q : Char → Bool) (cs : List Char) :
    ∃ rest, cs = cs.takeWhile q ++ rest ∧ (∀ c ∈ cs.takeWhile q, q c = true) ∧
      ∀ c ∈ rest.head?, q c = false := by
  refine ⟨cs.dropWhile q, List.takeWhile_append_dropWhile.symm, fun c => List.mem_takeWhile_imp, ?_⟩
  intro c hc
  have hhead := List.head?_dropWhile_not q cs
  rw [Option.mem_def.1 hc] at hhead
  exact hhead

/-- The characters of a word: one with which a word can start, and others with which it can go on. -/
def IsWordOf (start part : Char → Bool) : List Char → Prop
  | [] => False
  | c :: cs => start c = true ∧ ∀ d ∈ cs, part d = true

instance (start part : Char → Bool) : DecidablePred (IsWordOf start part)
  | [] => inferInstanceAs (Decidable False)
  | c :: cs => decidable_of_iff (start c = true ∧ cs.all part = true) (and_congr_right' List.all_eq_true)

/-! ## Taking tokens -/

section runs

variable {σ ε : Type} {step : σ → Located τ → Except ε σ} {us : List τ} {s s' : σ} {P Q : σ → Prop}

/-- Tokens, wherever they stand, take a reader from a state to one with a property. -/
def Runs (step : σ → Located τ → Except ε σ) (ts : List τ) (s : σ) (P : σ → Prop) : Prop :=
  ∀ ls : List (Located τ), ls.map Located.token = ts → ∃ s', ls.foldlM step s = .ok s' ∧ P s'

namespace Runs

theorem nil (h : P s) : Runs step [] s P := by
  intro ls hls
  obtain rfl := List.map_eq_nil_iff.1 hls
  exact ⟨s, rfl, h⟩

/-- A token is taken; the line on which it stands may show in the state after it. -/
theorem cons {t : τ}
    (h : ∀ line position, ∃ s', step s ⟨t, line, position⟩ = .ok s' ∧ Runs step ts s' P) :
    Runs step (t :: ts) s P := by
  intro ls hls
  obtain ⟨l, ls, rfl, rfl, hts⟩ := List.map_eq_cons_iff.1 hls
  obtain ⟨s', hs', hrest⟩ := h l.line l.position
  rw [List.foldlM_cons, hs']
  exact hrest ls hts

theorem take {t : τ} (h : ∀ line position, step s ⟨t, line, position⟩ = .ok s')
    (hrest : Runs step ts s' P) : Runs step (t :: ts) s P :=
  .cons fun line position => ⟨s', h line position, hrest⟩

theorem append (h : Runs step ts s P) (h' : ∀ s', P s' → Runs step us s' Q) :
    Runs step (ts ++ us) s Q := by
  intro ls hls
  obtain ⟨ls₁, ls₂, rfl, h₁, h₂⟩ := List.map_eq_append_iff.1 hls
  obtain ⟨s', hs', hP⟩ := h ls₁ h₁
  rw [List.foldlM_append, hs']
  exact h' s' hP ls₂ h₂

theorem imp (h : Runs step ts s P) (hPQ : ∀ s', P s' → Q s') : Runs step ts s Q := by
  intro ls hls
  obtain ⟨s', hs', hP⟩ := h ls hls
  exact ⟨s', hs', hPQ s' hP⟩

end Runs

end runs

/-! ## Sentences -/

section sentences

variable (Sentence : List τ → Prop) {ls : List (Located τ)}

/-- Tokens are the first of a sentence. -/
def Viable (ts : List τ) : Prop :=
  ∃ rest, Sentence (ts ++ rest)

/-- A token among others is the first that goes on with no sentence. -/
def RefusedFirst (ls : List (Located τ)) (t : Located τ) : Prop :=
  ∃ before after, ls = before ++ t :: after ∧ Viable Sentence (before.map Located.token) ∧
    ¬ Viable Sentence ((before ++ [t]).map Located.token)

/-- Tokens are the first of a longer sentence and no sentence by themselves. -/
def EndsEarly (ls : List (Located τ)) : Prop :=
  (∃ rest, rest ≠ [] ∧ Sentence (ls.map Located.token ++ rest)) ∧ ¬ Sentence (ls.map Located.token)

variable {Sentence}

theorem RefusedFirst.mem {t : Located τ} (h : RefusedFirst Sentence ls t) : t ∈ ls := by
  obtain ⟨before, after, rfl, -⟩ := h
  exact List.mem_append_right _ List.mem_cons_self

theorem EndsEarly.of_viable (h : Viable Sentence (ls.map Located.token))
    (hls : ¬ Sentence (ls.map Located.token)) : EndsEarly Sentence ls := by
  obtain ⟨rest, hrest⟩ := h
  refine ⟨⟨rest, ?_, hrest⟩, hls⟩
  rintro rfl
  exact hls (by rwa [List.append_nil] at hrest)

end sentences

end Shapewise.Text
