import Shapewise.Proofs.Selection.Recognition

/-!
# What is no selection

Selection text is refused as early as it can be. Whatever has been read can be ended, if only with an
argument that is given twice, so the tokens that have been taken always are the first of a derivation
tree (`Reading.Follows.viable`); and what the reader refuses goes on with no tree, because the
tokens of a tree are taken to their end (`readTokens_ne_of_tree`).
-/

namespace Shapewise.Selection

open Text

variable {r : Reading} {l : Located Token} {ls : List (Located Token)} {ts us : List Token}
  {name : String} {items : List Value} {es : List (String × Value)} {call : Call} {mode : Mode}
  {text : List Char}

/-- Tokens are those of a derivation tree. -/
def IsSentence (ts : List Token) : Prop :=
  ∃ s : SelectionTree, s.tokens = ts

/-! ## What has begun can be ended -/

/-- The lists that are open can be closed behind a value. -/
theorem ListsOpen.exists_value {lists : List (List Value)} (h : ListsOpen lists ts) (v : ValueTree) :
    ∃ (w : ValueTree) (rest : List Token), w.tokens = ts ++ v.tokens ++ rest := by
  induction lists generalizing ts v with
  | nil =>
    obtain rfl : ts = [] := h
    exact ⟨v, [], (List.append_nil _).symm⟩
  | cons list lists ih =>
    obtain ⟨us, vs, rfl, hus, hvs⟩ := h
    obtain ⟨inner, hinner, -⟩ := exists_list (hvs.listed_value v) false
    obtain ⟨w, rest, hw⟩ := ih hus inner
    exact ⟨w, .closeBracket :: rest, by simp [hw, hinner, trailing]⟩

/-- An argument goes on with arguments, whatever its name is. -/
theorem Begun.exists_arguments (h : Begun ArgumentsListed ts es) (a : ArgumentTree) :
    ∃ l : ArgumentListTree, l.tokens = ts ++ a.tokens := by
  obtain ⟨rfl, -⟩ | ⟨us, rfl, l, -, rfl, -⟩ := h
  · exact ⟨.single a, rfl⟩
  · exact ⟨.more l a, by simp⟩

/-- A field goes on with fields, whatever its arguments are. -/
theorem Begun.exists_fields (h : Begun FieldsListed ts items) (f : FieldTree) :
    ∃ l : FieldListTree, l.tokens = ts ++ f.tokens := by
  obtain ⟨rfl, -⟩ | ⟨us, rfl, l, -, rfl, -⟩ := h
  · exact ⟨.single f, rfl⟩
  · exact ⟨.more l f, by simp⟩

/-- A parenthesis that is open can be closed behind an argument. -/
theorem CallOpen.exists_tree (h : CallOpen items call ts) (a : ArgumentTree) :
    ∃ s : SelectionTree, s.tokens = ts ++ (a.tokens ++ [.closeParen]) := by
  obtain ⟨us, vs, rfl, hus, hvs⟩ := h
  obtain ⟨arguments, harguments⟩ := hvs.exists_arguments a
  obtain ⟨l, hl⟩ := hus.exists_fields (.call call.field (.list arguments false))
  exact ⟨.list l false, by simp [hl, ArgumentsTree.tokens, harguments, trailing]⟩

/-- The innermost selection can be ended. -/
theorem Mode.Follows.exists_tree (h : mode.Follows items ts) :
    ∃ (s : SelectionTree) (rest : List Token), s.tokens = ts ++ rest := by
  have hended : ∀ {fields : List Value},
      Reading.settled? ⟨[], items, mode⟩ = some fields →
      ∃ (s : SelectionTree) (rest : List Token), s.tokens = ts ++ rest := by
    intro fields hsettled
    obtain ⟨s, -, hs, -⟩ := h.selection hsettled
    exact ⟨s, [], by rw [hs, List.append_nil]⟩
  cases mode with
  | start | named | called | closed => exact hended rfl
  | argument call =>
    obtain ⟨s, hs⟩ := CallOpen.exists_tree h ⟨"a", .null⟩
    exact ⟨s, _, hs⟩
  | argumentName call name =>
    obtain ⟨us, rfl, hus⟩ := h
    obtain ⟨s, hs⟩ := hus.exists_tree ⟨name, .null⟩
    exact ⟨s, [.colon, .null, .closeParen], by simp [hs]⟩
  | value call name lists =>
    obtain ⟨us, vs, rfl, hus, hvs⟩ := h
    obtain ⟨w, rest, hw⟩ := hvs.exists_value .null
    obtain ⟨s, hs⟩ := hus.exists_tree ⟨name, w⟩
    exact ⟨s, .null :: rest ++ [.closeParen], by simp [hs, hw]⟩
  | element call name list lists =>
    obtain ⟨us, vs, ws, rfl, hus, hvs, hws⟩ := h
    obtain ⟨v, hv, -⟩ := exists_list hws false
    obtain ⟨w, rest, hw⟩ := hvs.exists_value v
    obtain ⟨s, hs⟩ := hus.exists_tree ⟨name, w⟩
    exact ⟨s, .closeBracket :: rest ++ [.closeParen], by simp [hs, hw, hv, trailing]⟩
  | argumentValue call name v =>
    obtain ⟨us, w, rfl, hus, -⟩ := h
    obtain ⟨s, hs⟩ := hus.exists_tree ⟨name, w⟩
    exact ⟨s, [.closeParen], by simp [hs]⟩

/-- The braces that are open can be closed behind a selection. -/
theorem LevelsFollow.exists_tree {outer : List Level} (h : LevelsFollow outer ts)
    (s : SelectionTree) : ∃ (s' : SelectionTree) (rest : List Token),
      s'.tokens = ts ++ s.tokens ++ rest := by
  induction outer generalizing ts s with
  | nil =>
    obtain rfl : ts = [] := h
    exact ⟨s, [], (List.append_nil _).symm⟩
  | cons level outer ih =>
    obtain ⟨us, vs, rfl, hus, hlevel⟩ := h
    obtain ⟨l, hl⟩ : ∃ l : FieldListTree,
        l.tokens = vs ++ .openBrace :: (s.tokens ++ [.closeBrace]) := by
      obtain ⟨before, field, arguments⟩ := level
      cases arguments with
      | none =>
        obtain ⟨ws, rfl, hws⟩ := hlevel
        obtain ⟨l, hl⟩ := hws.exists_fields (.block field s)
        exact ⟨l, by simp [hl]⟩
      | some es =>
        obtain ⟨ws, a, rfl, hws, -⟩ := hlevel
        obtain ⟨l, hl⟩ := hws.exists_fields (.callBlock field a s)
        exact ⟨l, by simp [hl]⟩
    obtain ⟨s', rest, hs'⟩ := ih hus (.list l false)
    exact ⟨s', .closeBrace :: rest, by simp [hs', hl, trailing]⟩

/-- Tokens that have been taken are the first of a derivation tree. -/
theorem Reading.Follows.viable (h : r.Follows ts) : Viable IsSentence ts := by
  obtain ⟨us, vs, rfl, hlevels, hmode⟩ := h
  obtain ⟨s, rest, hs⟩ := hmode.exists_tree
  obtain ⟨s', rest', hs'⟩ := hlevels.exists_tree s
  exact ⟨rest ++ rest', s', by simp [hs', hs]⟩

/-! ## Tokens that are refused -/

theorem addArgument_eq_error {v : Value} {f : ReadFault}
    (h : Reading.addArgument call name v = .error f) :
    name ∈ Entries.keys call.arguments ∧ f = .duplicateArgument name call.comma := by
  unfold Reading.addArgument at h
  split at h
  · next hold =>
    cases h
    exact ⟨(Entries.has_eq_true_iff _ _).1 hold, rfl⟩
  · cases h

/-- A token is refused, or it stands behind an argument that is repeated. -/
theorem step_eq_error {f : ReadFault} (h : r.step l = .error f) :
    f = .unexpected l ∨ ∃ call name v, r.mode = .argumentValue call name v ∧
      name ∈ Entries.keys call.arguments ∧ (l.token = .comma ∨ l.token = .closeParen) ∧
      f = .duplicateArgument name call.comma := by
  have hclose : ∀ {o : Option Reading}, o.elim (.error (.unexpected l)) .ok = Except.error f →
      f = .unexpected l := by
    intro o ho
    cases o <;> cases ho
    rfl
  obtain ⟨outer, items, mode⟩ := r
  obtain ⟨token, line, position⟩ := l
  cases mode with
  | argumentValue call name v =>
    have hadd : ∀ {next : List (String × Value) → Reading},
        (Reading.addArgument call name v >>= fun es => .ok (next es)) = .error f →
        name ∈ Entries.keys call.arguments ∧ f = .duplicateArgument name call.comma := by
      intro next h
      obtain h | ⟨es, -, h⟩ := Outcome.bind_eq_error_iff.1 h
      · exact addArgument_eq_error h
      · cases h
    cases token with
    | comma =>
      obtain ⟨hname, hf⟩ := hadd h
      exact .inr ⟨call, name, v, rfl, hname, .inl rfl, hf⟩
    | closeParen =>
      obtain ⟨hname, hf⟩ := hadd h
      exact .inr ⟨call, name, v, rfl, hname, .inr rfl, hf⟩
    | _ =>
      cases h
      exact .inl rfl
  | value call name lists =>
    cases lists <;> cases token
    all_goals first | (cases h; exact .inl rfl) | cases h
  | _ =>
    cases token
    all_goals first | (cases h; exact .inl rfl) | cases h | exact .inl (hclose h)

/-- The tokens of a derivation tree are read, or an argument of theirs is repeated. -/
theorem readTokens_ne_of_tree {f : ReadFault} (s : SelectionTree)
    (hs : s.tokens = ls.map Located.token) (hf : ∀ name line, f ≠ .duplicateArgument name line) :
    readTokens ls ≠ .error f := by
  intro hread
  obtain ⟨honce, htwice⟩ := readTokens_tree s hs
  by_cases h : s.NamesOnce
  · cases (honce h).symm.trans hread
  · obtain ⟨name, line, hfault⟩ := htwice h
    cases hfault.symm.trans hread
    exact hf name line rfl

/-- A token that is refused goes on with no derivation tree. -/
theorem not_viable_of_refused {t : Located Token}
    (hrun : ls.foldlM Reading.step .initial = .ok r) (hstep : r.step l = .error (.unexpected t)) :
    ¬ Viable IsSentence ((ls ++ [l]).map Located.token) := by
  rintro ⟨rest, s, hs⟩
  have htokens : s.tokens = (ls ++ l :: inLine rest).map Located.token := by
    simp [hs]
  refine readTokens_ne_of_tree s htokens (f := .unexpected t) nofun ?_
  rw [readTokens, List.foldlM_append, hrun]
  show (l :: inLine rest).foldlM Reading.step r >>= Reading.finish = _
  rw [List.foldlM_cons, hstep]
  rfl

/-! ## Texts -/

theorem finish_eq_error {f : ReadFault} (h : r.finish = .error f) : f = .unexpectedEnd := by
  unfold Reading.finish at h
  split at h <;> cases h
  rfl

/-- A text is not read because of one of its tokens, or where the scan of it stopped, or where it
ends. -/
theorem readScanned_eq_error {s : Scanned Token ScanFault} {f : ReadFault}
    (h : readScanned s = .error f) :
    s.tokens.foldlM Reading.step .initial = .error f ∨
    (∃ stop, f = .stopped stop) ∨
    s.stop = none ∧ f = .unexpectedEnd ∧
      ∃ r, s.tokens.foldlM Reading.step .initial = .ok r ∧ r.finish = .error .unexpectedEnd := by
  obtain h | ⟨r, hrun, h⟩ := Outcome.bind_eq_error_iff.1 h
  · exact .inl h
  · cases hstop : s.stop with
    | some stop =>
      rw [hstop] at h
      cases h
      exact .inr (.inl ⟨stop, rfl⟩)
    | none =>
      rw [hstop] at h
      obtain rfl := finish_eq_error h
      exact .inr (.inr ⟨rfl, rfl, r, hrun, h⟩)

/-- A token that is named in a fault is the first that goes on with no derivation tree. -/
theorem refusedFirst_of_readText {t : Located Token}
    (h : readText text = .error (.unexpected t)) :
    RefusedFirst IsSentence (Token.scan 1 text).tokens t := by
  obtain h | ⟨stop, hstop⟩ | ⟨-, hend, -⟩ := readScanned_eq_error h
  · obtain ⟨before, l, after, r, htokens, hrun, hstep⟩ := Outcome.exists_of_foldlM_eq_error h
    obtain hl | ⟨_, _, _, -, -, -, hfault⟩ := step_eq_error hstep
    · cases hl
      exact ⟨before, after, htokens, (Reading.Follows.initial.run hrun).viable,
        not_viable_of_refused hrun hstep⟩
    · cases hfault
  · cases hstop
  · cases hend

/-- What ends too early has been scanned to its end, and it is the first part of a derivation tree. -/
theorem endsEarly_of_readText (h : readText text = .error .unexpectedEnd) :
    (Token.scan 1 text).stop = none ∧ EndsEarly IsSentence (Token.scan 1 text).tokens := by
  obtain h | ⟨stop, hstop⟩ | ⟨hstop, -, r, hrun, hfinish⟩ := readScanned_eq_error h
  · obtain ⟨_, _, _, _, -, -, hstep⟩ := Outcome.exists_of_foldlM_eq_error h
    obtain hfault | ⟨_, _, _, -, -, -, hfault⟩ := step_eq_error hstep
    · cases hfault
    · cases hfault
  · cases hstop
  · refine ⟨hstop, .of_viable (Reading.Follows.initial.run hrun).viable ?_⟩
    rintro ⟨s, hs⟩
    refine readTokens_ne_of_tree s hs (f := .unexpectedEnd) nofun ?_
    rw [readTokens, hrun]
    exact hfinish

end Shapewise.Selection
