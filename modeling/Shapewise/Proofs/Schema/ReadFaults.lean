import Shapewise.Proofs.Schema.Unplaced

/-!
# What is no schema text

Schema text is refused as early as it can be, whatever places its tokens have. A derivation tree holds
the places of its tokens; the tokens alone have a tree when they have one in some places, because they
are read alike in all of them (`isSentence_iff`).
-/

namespace Shapewise.Schema

open Text

variable {ls : List (Located Token)} {text : List Char}

/-- Tokens are those of a derivation tree, in some places. -/
def IsSentence (ts : List Token) : Prop :=
  ∃ s : SchemaTree, s.tokens.map Located.token = ts

/-- Tokens that have a derivation tree have one in the places in which they stand. -/
theorem isSentence_iff : IsSentence (ls.map Located.token) ↔ ∃ s : SchemaTree, s.tokens = ls := by
  constructor
  · rintro ⟨s, hs⟩
    obtain ⟨ds, hread, -⟩ := exists_readTokens_of_same_tokens hs (readTokens_tree s)
    obtain ⟨s', hs', -⟩ := exists_tree_of_readTokens hread
    exact ⟨s', hs'⟩
  · rintro ⟨s, rfl⟩
    exact ⟨s, rfl⟩

/-- Tokens with which a derivation tree goes on go on with it in any places. -/
theorem viable_iff : Viable IsSentence (ls.map Located.token) ↔
    ∃ rest, ∃ s : SchemaTree, s.tokens = ls ++ rest := by
  constructor
  · rintro ⟨rest, hrest⟩
    have hplaced : rest = (rest.map (Mark.as ⟨1, 0⟩)).map Located.token := by
      simp [Function.comp_def]
    rw [hplaced, ← List.map_append] at hrest
    exact ⟨_, isSentence_iff.1 hrest⟩
  · rintro ⟨rest, s, hs⟩
    exact ⟨rest.map Located.token, s, by rw [hs, List.map_append]⟩

/-- A text is not read because of the first of its tokens that goes on with no derivation tree, or where
the scan of it stopped, or because it ends too early. -/
theorem readText_eq_error {f : ReadFault} (h : readText text = .error f) :
    (∃ t, f = .unexpected t ∧ RefusedFirst IsSentence (Token.scan text).tokens t) ∨
    (∃ stop, f = .stopped stop) ∨
    f = .unexpectedEnd ∧ (Token.scan text).stop = none ∧
      EndsEarly IsSentence (Token.scan text).tokens := by
  obtain h | ⟨r, hrun, h⟩ := Outcome.bind_eq_error_iff.1 h
  · obtain ⟨before, l, after, r, htokens, hbefore, hstep, hf⟩ := run_eq_error h
    refine .inl ⟨l, hf, before, after, htokens, viable_iff.2 (exists_tree_of_takes hbefore), ?_⟩
    rw [viable_iff]
    rintro ⟨rest, s, hs⟩
    rw [List.append_assoc] at hs
    exact tokens_ne_of_step_eq_error hbefore hstep rest s hs
  · cases hstop : (Token.scan text).stop with
    | some stop =>
      rw [hstop] at h
      cases h
      exact .inr (.inl ⟨stop, rfl⟩)
    | none =>
      rw [hstop] at h
      have hfinish : r.finish = .error f := h
      have hread : readTokens (Token.scan text).tokens = .error f := by
        rw [readTokens, hrun]
        exact hfinish
      obtain rfl : f = .unexpectedEnd := by
        unfold Reading.finish at hfinish
        split at hfinish <;> cases hfinish
        rfl
      refine .inr (.inr ⟨rfl, rfl, .of_viable (viable_iff.2 (exists_tree_of_takes hrun)) ?_⟩)
      rw [isSentence_iff]
      rintro ⟨s, hs⟩
      rw [← hs, readTokens_tree] at hread
      cases hread

end Shapewise.Schema
