import Shapewise.Proofs.Selection.Located
import Shapewise.Proofs.Selection.ReadFaults

/-!
# The line of a repeated argument

An argument that is given twice is reported with the line of the comma before it
(`repeated_argument_line`). The reader does not keep the comma, only its line: that the line is the one
of the comma is read off the run, which goes from the comma to the end of the argument in one way only
(`exists_comma_of_run`). The scanner does not count the line feeds in texts and in names between
backticks, so behind these the line is too low, by as many.
-/

namespace Shapewise.Selection

open Text

variable {r r' : Reading} {l : Located Token} {ls again : List (Located Token)} {name : String}
  {n : Nat} {call : Call} {v : Value}

/-- Behind a comma a field may stand, or a value, or an argument that is kept with the line of the
comma. -/
theorem mode_of_step_comma (h : r.step l = .ok r') (hcomma : l.token = .comma) :
    r'.mode = .start ∨ (∃ call name lists, r'.mode = .value call name lists) ∨
      ∃ call, r'.mode = .argument call ∧ call.comma = l.line := by
  obtain ⟨outer, items, mode⟩ := r
  obtain ⟨token, line, position⟩ := l
  obtain rfl : token = .comma := hcomma
  cases mode with
  | named | called | closed =>
    cases h
    exact .inl rfl
  | element call x list lists =>
    cases h
    exact .inr (.inl ⟨_, _, _, rfl⟩)
  | argumentValue call x v =>
    obtain ⟨es, -, h⟩ := Outcome.bind_eq_ok_iff.1 h
    cases h
    exact .inr (.inr ⟨_, rfl, rfl⟩)
  | value call x lists => cases lists <;> cases h
  | _ => cases h

/-! ## The comma before an argument -/

/-- An argument that has been read from a comma on is kept with the line of the comma. -/
theorem line_of_run {comma : Located Token} {r₁ : Reading} {a : ArgumentTree}
    (hstep : r.step comma = .ok r₁) (hcomma : comma.token = .comma)
    (hagain : again.map Located.token = a.tokens) (hrun : again.foldlM Reading.step r₁ = .ok r')
    (hmode : r'.mode = .argumentValue call name v) : comma.line = call.comma := by
  obtain ⟨outer, items, mode⟩ := r₁
  obtain ⟨t, rest, rfl, ht, hrest⟩ := List.map_eq_cons_iff.1 hagain
  obtain ⟨c, rest, rfl, hc, -⟩ := List.map_eq_cons_iff.1 hrest
  obtain ⟨_, _, _⟩ := t
  obtain ⟨_, _, _⟩ := c
  obtain rfl := ht
  obtain rfl := hc
  obtain rfl | ⟨call', x, lists, rfl⟩ | ⟨call', rfl, hline⟩ := mode_of_step_comma hstep hcomma
  · cases hrun
  · cases lists <;> cases hrun
  · have hread := @reads_argumentTree outer items call' a _ hagain
    cases hread.symm.trans hrun
    cases hmode
    exact hline.symm

/-- The argument `name` is given again behind a comma: it is among the arguments that a field has been
given before the comma, which have different names. -/
structure GivenAgain (name : String) (before : List (Located Token)) (comma : Located Token)
    (again : List (Located Token)) : Prop where
  given : ∃ front field, ∃ items : ArgumentListTree,
    before.map Located.token = front ++ .name field :: .openParen :: items.tokens ∧
      items.names.Nodup ∧ name ∈ items.names
  comma : comma.token = .comma
  again : ∃ v : ValueTree, again.map Located.token = (ArgumentTree.mk name v).tokens

/-- Where an argument has been read that was given before, it stands behind the comma whose line is
kept. -/
theorem exists_comma_of_run (hrun : ls.foldlM Reading.step .initial = .ok r)
    (hmode : r.mode = .argumentValue call name v) (hname : name ∈ Entries.keys call.arguments) :
    ∃ before comma again, ls = before ++ comma :: again ∧ GivenAgain name before comma again ∧
      comma.line = call.comma := by
  obtain ⟨us, vs, hsplit, -, hfollows⟩ := Reading.Follows.initial.run hrun
  rw [hmode] at hfollows
  obtain ⟨-, w, rfl, ⟨front, xs, rfl, -, hxs⟩, -⟩ := hfollows
  obtain ⟨-, hnil⟩ | ⟨ts, rfl, items, hnodup, rfl, hitems⟩ := hxs
  · rw [hnil] at hname
    cases hname
  have htokens : ls.map Located.token =
      (us ++ front ++ .name call.field :: .openParen :: items.tokens) ++
        .comma :: (ArgumentTree.mk name w).tokens := by
    rw [← List.nil_append (ls.map _), hsplit]
    simp
  obtain ⟨before, behind, rfl, hbefore, hbehind⟩ := List.map_eq_append_iff.1 htokens
  obtain ⟨comma, again, rfl, hcomma, hagain⟩ := List.map_eq_cons_iff.1 hbehind
  rw [← hitems] at hname
  refine ⟨before, comma, again, rfl, ⟨⟨_, _, items, hbefore, hnodup, hname⟩, hcomma, w, hagain⟩, ?_⟩
  rw [List.foldlM_append] at hrun
  obtain ⟨r₀, -, hrun⟩ := Outcome.bind_eq_ok_iff.1 hrun
  rw [List.foldlM_cons] at hrun
  obtain ⟨r₁, hstep, hrun⟩ := Outcome.bind_eq_ok_iff.1 hrun
  exact line_of_run hstep hcomma hagain hrun hmode

/-! ## Texts -/

/-- A run that reports a repeated argument stands behind its value, and it has read the argument from
the comma on whose line it is reported. -/
theorem exists_comma_of_error
    (h : ls.foldlM Reading.step .initial = .error (.duplicateArgument name n)) :
    ∃ before comma again closing after, ls = before ++ comma :: (again ++ closing :: after) ∧
      GivenAgain name before comma again ∧
      (closing.token = .comma ∨ closing.token = .closeParen) ∧ comma.line = n := by
  obtain ⟨taken, closing, after, r, rfl, hrun, hstep⟩ := Outcome.exists_of_foldlM_eq_error h
  obtain hfault | ⟨call, name, v, hmode, hname, hclosing, hfault⟩ := step_eq_error hstep
  · cases hfault
  cases hfault
  obtain ⟨before, comma, again, rfl, hagain, hline⟩ := exists_comma_of_run hrun hmode hname
  exact ⟨before, comma, again, closing, after, by simp, hagain, hclosing, hline⟩

/-- A name with a line feed, and on the line behind it an argument that is given twice. -/
def twoLines : List Char := "`a\nb`, f(x: 1, x: 2)".toList

end Shapewise.Selection
