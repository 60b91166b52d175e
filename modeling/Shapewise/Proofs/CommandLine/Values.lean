import Shapewise.CommandLine.Options
import Shapewise.Proofs.Text.Scan

/-!
# The values of a command line

Where the words of a command line can be read, a value is missing only because `--` stands for it: as
a word of its own, or behind the equals sign of an option (`given_of_ofWords?`).
-/

namespace Shapewise.CommandLine

variable {word value : String} {words : List String} {ws : List Word} {m : Meaning} {s : Setting}
  {p p' : Progress} {o : Options} {cs : List Char}

/-! ## Words -/

/-- A word that does not stand for a missing value: it is not `--` and does not end in `=--`. -/
def IsGiven (word : String) : Prop :=
  word ≠ "--" ∧ ∀ name, word ≠ name ++ "=--"

/-- What a word can be: itself, an option, or an option with the value behind an equals sign. -/
inductive Classified (word : String) : Word → Prop
  | plain : Classified word (.plain word)
  | bare (m : Meaning) : Classified word (.option m none)
  | assigned (m : Meaning) {value : Option String} (hvalue : (splitValue word.toList).2 = value) :
    Classified word (.option m value)
  | unknown : Classified word .unknown

theorem classified_classifyRest (word : String) : Classified word (classifyRest word) := by
  unfold classifyRest
  split
  · exact .plain
  · exact .unknown

theorem classified_classifyLetters (word : String) (m : Meaning) (letter : Char) (more : List Char) :
    Classified word (classifyLetters m letter more) := by
  unfold classifyLetters
  split
  · exact .bare m
  · exact .unknown

theorem classified_classify (word : String) : Classified word (classify word) := by
  unfold classify
  split
  · next c cs hword =>
    split
    · exact .bare _
    · rw [← hword]
      dsimp only
      split
      · next m _ =>
        generalize (if c = '-' then [] else cs.drop 1) = more
        split
        · exact .assigned m rfl
        · exact classified_classifyLetters word m c more
      · split
        · split
          · exact .assigned _ rfl
          · exact classified_classifyRest word
          · exact .unknown
        · split
          · exact classified_classifyLetters _ _ _ _
          · exact classified_classifyRest word
  · exact .plain

theorem exists_name_of_splitValue (h : (splitValue cs).2 = some value) :
    ∃ name, cs = name ++ '=' :: value.toList := by
  obtain ⟨rest, hcs, -, hrest⟩ := Text.exists_takeWhile (· ≠ '=') cs
  generalize hname : cs.takeWhile (fun c => decide (c ≠ '=')) = name at hcs
  subst hcs
  simp only [splitValue, hname] at h
  cases rest with
  | nil => simp at h
  | cons c rest =>
    obtain rfl : c = '=' := by simpa using hrest c rfl
    simp only [List.length_append, List.length_cons] at h
    rw [if_neg (by omega), ← List.drop_drop, List.drop_left, Option.some.injEq] at h
    refine ⟨name, ?_⟩
    rw [← h, String.toList_ofList]
    rfl

/-! ## Reading the words -/

/-- A word that leaves no value missing. -/
def Word.Given : Word → Prop
  | .plain word => word ≠ "--"
  | .option _ (some value) => value ≠ "--"
  | _ => True

theorem Word.given_classify (h : IsGiven word) : (classify word).Given := by
  have hclass := classified_classify word
  generalize classify word = w at hclass
  cases hclass with
  | plain => exact h.1
  | bare m => trivial
  | @assigned m value hvalue =>
    cases value with
    | none => trivial
    | some value =>
      rintro rfl
      obtain ⟨name, hname⟩ := exists_name_of_splitValue hvalue
      refine h.2 (String.ofList name) (String.toList_injective ?_)
      rw [hname]
      simp
  | unknown => trivial

/-- No value is missing among those that have been read. -/
structure Progress.Given (p : Progress) : Prop where
  page : p.page ≠ some none
  maxDepth : p.maxDepth ≠ none

namespace Progress

theorem given_initial : initial.Given :=
  ⟨by simp [initial], by simp [initial]⟩

theorem Given.turnOn (h : p.Given) (s : Switch) : (p.turnOn s).Given := by
  cases s <;> exact ⟨h.page, h.maxDepth⟩

theorem Given.assign (h : p.Given) (hvalue : value ≠ "--") (ha : p.assign s value = some p') :
    p'.Given := by
  have hgiven : given value = some value := if_neg hvalue
  cases s with
  | page =>
    cases ha
    exact ⟨by simp [hgiven], h.maxDepth⟩
  | maxDepth =>
    simp only [Progress.assign, hgiven, Option.map_eq_some_iff] at ha
    obtain ⟨n, -, rfl⟩ := ha
    exact ⟨h.page, by simp⟩

/-- Reading words that leave no value missing leaves none missing. -/
theorem Given.addWords (h : p.Given) (hws : ∀ w ∈ ws, w.Given) (ha : p.addWords ws = some p') :
    p'.Given := by
  fun_induction Progress.addWords p ws with
  | case1 p =>
    cases ha
    exact h
  | case2 p word rest ih =>
    exact ih ⟨h.page, h.maxDepth⟩ (List.forall_mem_cons.1 hws).2 ha
  | case3 p s rest ih =>
    exact ih (h.turnOn s) (List.forall_mem_cons.1 hws).2 ha
  | case4 p s value rest ih =>
    obtain ⟨hvalue, hrest⟩ := List.forall_mem_cons.1 hws
    obtain ⟨p₁, hp₁, ha⟩ := Option.bind_eq_some_iff.1 ha
    exact ih p₁ (h.assign hvalue hp₁) hrest ha
  | case5 p s value rest ih =>
    obtain ⟨-, hvalue, hrest⟩ := (List.forall_mem_cons.1 hws).imp_right List.forall_mem_cons.1
    obtain ⟨p₁, hp₁, ha⟩ := Option.bind_eq_some_iff.1 ha
    exact ih p₁ (h.assign hvalue hp₁) hrest ha
  | case6 => cases ha

end Progress

/-- No value of a command line is missing. -/
structure Options.Given (o : Options) : Prop where
  entity : o.entity ≠ none
  selection : o.selection ≠ none
  page : o.page ≠ some none
  maxDepth : o.maxDepth ≠ none

theorem Progress.Given.options (h : p.Given) (ho : p.options? none = some o) : o.Given := by
  unfold Progress.options? Progress.allPlain at ho
  split at ho
  · next schema entity selection hplain =>
    cases ho
    have hsome : ∀ word ∈ p.plain.map some, word ≠ none := by
      simp
    rw [Option.some.inj hplain] at hsome
    exact ⟨hsome entity (by simp), hsome selection (by simp), h.page, h.maxDepth⟩
  · cases ho

/-- A value is missing only where `--` stands for it. -/
theorem given_of_ofWords? (hwords : ∀ word ∈ words, IsGiven word)
    (h : Options.ofWords? words = some o) : o.Given := by
  have hfront : words.takeWhile (· ≠ "--") = words := by
    rw [List.takeWhile_eq_self_iff]
    intro word hword
    simpa using (hwords word hword).1
  simp only [Options.ofWords?, hfront, if_pos] at h
  obtain ⟨p, hp, ho⟩ := Option.bind_eq_some_iff.1 h
  refine (Progress.given_initial.addWords ?_ hp).options ho
  intro w hw
  obtain ⟨word, hword, rfl⟩ := List.mem_map.1 hw
  exact Word.given_classify (hwords word hword)

end Shapewise.CommandLine
