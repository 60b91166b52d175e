import Shapewise.Proofs.Schema.Printed
import Shapewise.Proofs.Schema.Reordered

/-!
# Reading printed definitions

The reader gives back the definitions that were printed, but for the lines of members, which are
those of the text (`readText_print`). The proof follows the tokens of a definition through the
reader. Members, variants and arguments are all lists of the same form, so what is shared, a comma
between two parts and perhaps one behind the last, is read once for all of them (`ReadsList.reads`).
-/

namespace Shapewise.Schema

open Text

/-- Tokens take the reader from a state to one with a property. -/
abbrev Reads (ts : List Token) (r : Reading) (P : Reading → Prop) : Prop :=
  Runs Reading.step ts r P

/-! ## Lists -/

section lists

variable {α β : Type} {close : Token} {opened closed : List α → Reading}
  {held : List α → α → Reading}

/-- How a list is read: a part is held until a comma or the closing token puts it behind those that
were read before, and after a comma the list may end as well. -/
structure ReadsList (close : Token) (opened : List α → Reading) (held : List α → α → Reading)
    (closed : List α → Reading) : Prop where
  comma : ∀ done x line position,
    (held done x).step ⟨.comma, line, position⟩ = .ok (opened (done ++ [x]))
  last : ∀ done x line position,
    (held done x).step ⟨close, line, position⟩ = .ok (closed (done ++ [x]))
  trailing : ∀ done x line position,
    (opened (done ++ [x])).step ⟨close, line, position⟩ = .ok (closed (done ++ [x]))

/-- A list that is not empty is read part by part. -/
theorem ReadsList.reads (h : ReadsList close opened held closed) (isTrailing : Bool)
    {R : β → α → Prop} {tokens : β → List Token} {ys : List β}
    (hparts : ∀ y ∈ ys, ∀ done, Reads (tokens y) (opened done) fun r => ∃ x, R y x ∧ r = held done x)
    (hne : ys ≠ []) (done : List α) :
    Reads (listed isTrailing (ys.map tokens) ++ [close]) (opened done) fun r =>
      ∃ xs, List.Forall₂ R ys xs ∧ r = closed (done ++ xs) := by
  induction ys generalizing done with
  | nil => exact absurd rfl hne
  | cons y ys ih =>
    obtain ⟨hy, hys⟩ := List.forall_mem_cons.1 hparts
    cases ys with
    | nil =>
      -- the last part is closed at once or after a comma
      have hend : ∀ x, Reads ((if isTrailing then [.comma] else []) ++ [close]) (held done x)
          (· = closed (done ++ [x])) := by
        intro x
        cases isTrailing with
        | false => exact .take (h.last done x) (.nil rfl)
        | true => exact .take (h.comma done x) (.take (h.trailing done x) (.nil rfl))
      rw [List.map_singleton, listed, List.append_assoc]
      refine (hy done).append ?_
      rintro _ ⟨x, hx, rfl⟩
      exact (hend x).imp fun r hr => ⟨[x], .cons hx .nil, hr⟩
    | cons y' ys =>
      rw [List.map_cons, List.map_cons, listed, List.append_assoc]
      refine (hy done).append ?_
      rintro _ ⟨x, hx, rfl⟩
      refine .take (h.comma done x) ((ih hys (List.cons_ne_nil _ _) _).imp ?_)
      rintro _ ⟨xs, hxs, rfl⟩
      exact ⟨x :: xs, .cons hx hxs, by rw [List.append_assoc, List.singleton_append]⟩

end lists

/-! ## Types -/

variable {ds : List Definition}

/-- A type of which everything has been read. -/
def PartialType.ofRef (t : TypeRef) : PartialType :=
  ⟨t.name, if t.isNullable then .nullable else if t.isArray then .array else .named, t.isArray⟩

/-- Where types are read, the rest of one is read behind its name. -/
theorem reads_suffix {mode : PartialType → Mode}
    (hmode : ∀ {p p' : PartialType} {t : Token}, p.step? t = some p' → ∀ line position,
      Reading.step ⟨ds, mode p⟩ ⟨t, line, position⟩ = .ok ⟨ds, mode p'⟩) (t : TypeRef) :
    Reads t.suffix ⟨ds, mode (.ofName t.name)⟩ (· = ⟨ds, mode (.ofRef t)⟩) := by
  obtain ⟨name, _ | _, _ | _⟩ := t
  · exact .nil rfl
  · exact .take (hmode rfl) (.nil rfl)
  · exact .take (hmode rfl) (.take (hmode rfl) (.nil rfl))
  · exact .take (hmode rfl) (.take (hmode rfl) (.take (hmode rfl) (.nil rfl)))

theorem reads_memberSuffix (o : OpenRecord) (m : MemberName) (kind : MemberKind) (t : TypeRef) :
    Reads t.suffix ⟨ds, .memberType o m kind (.ofName t.name)⟩
      (· = ⟨ds, .memberType o m kind (.ofRef t)⟩) := by
  refine reads_suffix (fun {p p' t} h line position => ?_) t
  unfold Reading.step
  simp only [h]
  rfl

theorem reads_argumentSuffix (o : OpenRecord) (m : MemberName) (arguments : List ArgumentDef)
    (name : String) (isOptional : Bool) (t : TypeRef) :
    Reads t.suffix ⟨ds, .argumentType o m arguments name isOptional (.ofName t.name)⟩
      (· = ⟨ds, .argumentType o m arguments name isOptional (.ofRef t)⟩) := by
  refine reads_suffix (fun {p p' t} h line position => ?_) t
  unfold Reading.step
  simp only [h]
  rfl

/-! ## Arguments -/

/-- The type of an argument has been read. -/
def heldArgument (ds : List Definition) (o : OpenRecord) (m : MemberName) (done : List ArgumentDef)
    (a : ArgumentDef) : Reading :=
  ⟨ds, .argumentType o m done a.name a.isOptional (.ofRef a.type)⟩

theorem readsList_arguments (o : OpenRecord) (m : MemberName) :
    ReadsList .closeParen (fun done => ⟨ds, .argument o m done⟩) (heldArgument ds o m)
      (fun done => ⟨ds, .called o m done⟩) where
  comma done a line position := by obtain ⟨_, ⟨_, _ | _, _ | _⟩, _⟩ := a <;> rfl
  last done a line position := by obtain ⟨_, ⟨_, _ | _, _ | _⟩, _⟩ := a <;> rfl
  trailing _ _ _ _ := rfl

theorem reads_argument (o : OpenRecord) (m : MemberName) (done : List ArgumentDef)
    (a : ArgumentDef) :
    Reads a.tokens ⟨ds, .argument o m done⟩ fun r => ∃ a', a = a' ∧ r = heldArgument ds o m done a' := by
  have htype : Reads a.type.tokens ⟨ds, .argumentColon o m done a.name a.isOptional⟩
      fun r => ∃ a', a = a' ∧ r = heldArgument ds o m done a' := by
    refine .take (fun _ _ => rfl) ((reads_argumentSuffix o m done a.name a.isOptional a.type).imp ?_)
    exact fun r hr => ⟨a, rfl, hr⟩
  obtain ⟨name, type, _ | _⟩ := a
  · exact .take (fun _ _ => rfl) (.take (fun _ _ => rfl) htype)
  · exact .take (fun _ _ => rfl) (.take (fun _ _ => rfl) (.take (fun _ _ => rfl) htype))

/-- The arguments of a calculation are read from one parenthesis to the other. -/
theorem reads_arguments (isTrailing : Bool) (o : OpenRecord) (m : MemberName)
    (arguments : List ArgumentDef) :
    Reads (listed isTrailing (arguments.map ArgumentDef.tokens) ++ [.closeParen])
      ⟨ds, .argument o m []⟩ (· = ⟨ds, .called o m arguments⟩) := by
  by_cases hne : arguments = []
  · subst hne
    exact .take (fun _ _ => rfl) (.nil rfl)
  · refine ((readsList_arguments o m).reads isTrailing
      (fun a _ done => reads_argument o m done a) hne []).imp ?_
    rintro _ ⟨as, has, rfl⟩
    rw [List.forall₂_eq_eq_eq] at has
    rw [has, List.nil_append]

/-! ## Members -/

/-- The type of a member has been read. -/
def heldMember (ds : List Definition) (kind : RecordKind) (name : String) (done : List Member)
    (m : Member) : Reading :=
  ⟨ds, .memberType ⟨kind, name, done⟩ ⟨m.name, m.line⟩ m.kind (.ofRef m.type)⟩

theorem readsList_members (kind : RecordKind) (name : String) :
    ReadsList .closeBrace (fun done => ⟨ds, .member ⟨kind, name, done⟩⟩) (heldMember ds kind name)
      (fun done => ⟨ds ++ [.record kind name done], .start⟩) where
  comma done m line position := by obtain ⟨_, _, ⟨_, _ | _, _ | _⟩, _⟩ := m <;> rfl
  last done m line position := by obtain ⟨_, _, ⟨_, _ | _, _ | _⟩, _⟩ := m <;> rfl
  trailing _ _ _ _ := rfl

/-- A member is read, on whatever line it stands. -/
theorem reads_member (isTrailing : Bool) (kind : RecordKind) (name : String) (done : List Member)
    (m : Member) :
    Reads (m.tokens isTrailing) ⟨ds, .member ⟨kind, name, done⟩⟩ fun r =>
      ∃ m', m.unlined = m'.unlined ∧ r = heldMember ds kind name done m' := by
  have hsuffix : ∀ line, Reads m.type.suffix
      ⟨ds, .memberType ⟨kind, name, done⟩ ⟨m.name, line⟩ m.kind (.ofName m.type.name)⟩ fun r =>
        ∃ m', m.unlined = m'.unlined ∧ r = heldMember ds kind name done m' := fun line =>
    (reads_memberSuffix _ _ m.kind m.type).imp fun r hr => ⟨{ m with line := line }, rfl, hr⟩
  obtain ⟨memberName, _ | _ | _ | arguments, type, line⟩ := m
  · exact .cons fun line _ => ⟨_, rfl, .take (fun _ _ => rfl) (.take (fun _ _ => rfl) (hsuffix line))⟩
  · exact .cons fun line _ => ⟨_, rfl, .take (fun _ _ => rfl) (.take (fun _ _ => rfl)
      (.take (fun _ _ => rfl) (hsuffix line)))⟩
  · exact .take (fun _ _ => rfl) (.cons fun line _ => ⟨_, rfl, .take (fun _ _ => rfl)
      (.take (fun _ _ => rfl) (hsuffix line))⟩)
  · refine .take (fun _ _ => rfl) (.cons fun line _ => ⟨_, rfl, .take (fun _ _ => rfl) ?_⟩)
    have htokens : listed isTrailing (arguments.map ArgumentDef.tokens) ++
        .closeParen :: .colon :: type.tokens =
          listed isTrailing (arguments.map ArgumentDef.tokens) ++ [.closeParen] ++
            .colon :: type.tokens := by simp
    rw [htokens]
    refine (reads_arguments isTrailing _ _ arguments).append ?_
    rintro _ rfl
    exact .take (fun _ _ => rfl) (.take (fun _ _ => rfl) (hsuffix line))

/-! ## Variants -/

theorem readsList_variants (name : String) (tagField : Option String) :
    ReadsList .closeBrace (fun done => ⟨ds, .variant ⟨name, tagField, done⟩⟩)
      (fun done v => ⟨ds, .variantType ⟨name, tagField, done ++ [v]⟩⟩)
      (fun done => ⟨ds ++ [.union name done tagField], .start⟩) where
  comma _ _ _ _ := rfl
  last _ _ _ _ := rfl
  trailing done v line position := by
    show (if (done ++ [v]).isEmpty then _ else _) = _
    rw [if_neg (by simp)]
    rfl

theorem reads_variant (name : String) (tagField : Option String) (done : List VariantDef)
    (v : VariantDef) :
    Reads v.tokens ⟨ds, .variant ⟨name, tagField, done⟩⟩ fun r =>
      ∃ v', v = v' ∧ r = ⟨ds, .variantType ⟨name, tagField, done ++ [v']⟩⟩ :=
  .take (fun _ _ => rfl) (.take (fun _ _ => rfl) (.take (fun _ _ => rfl) (.nil ⟨v, rfl, rfl⟩)))

/-! ## Definitions -/

/-- A definition that can be printed: its names fit between backticks, and a union has a variant. -/
structure Definition.Printable (d : Definition) : Prop where
  quotable : ∀ n ∈ d.names, Quotable n
  inhabited : ∀ name tagField, d ≠ .union name [] tagField

/-- A definition is read behind those that were read before. -/
theorem reads_definition (isTrailing : Bool) {d : Definition} (h : d.Printable) :
    Reads (d.tokens isTrailing) ⟨ds, .start⟩ fun r =>
      ∃ d', d'.unlined = d.unlined ∧ r = ⟨ds ++ [d'], .start⟩ := by
  rcases d with ⟨name, base⟩ | ⟨kind, name, members⟩ | ⟨name, variants, tagField⟩
  · exact .take (fun _ _ => rfl) (.take (fun _ _ => rfl) (.take (fun _ _ => rfl)
      (.take (fun _ _ => rfl) (.nil ⟨_, rfl, rfl⟩))))
  · have hbody : Reads (listed isTrailing (members.map (Member.tokens isTrailing)) ++ [.closeBrace])
        ⟨ds, .member ⟨kind, name, []⟩⟩ fun r => ∃ d', d'.unlined =
          Definition.unlined (.record kind name members) ∧ r = ⟨ds ++ [d'], .start⟩ := by
      by_cases hne : members = []
      · subst hne
        exact .take (fun _ _ => rfl) (.nil ⟨_, rfl, rfl⟩)
      · refine ((readsList_members kind name).reads isTrailing
          (fun m _ done => reads_member isTrailing kind name done m) hne []).imp ?_
        rintro _ ⟨ms, hms, rfl⟩
        have hunlined : members.map Member.unlined = ms.map Member.unlined := by
          rw [← List.forall₂_eq_eq_eq, List.forall₂_map_left_iff, List.forall₂_map_right_iff]
          exact hms
        exact ⟨.record kind name ms, by rw [Definition.unlined, Definition.unlined, hunlined], rfl⟩
    cases kind
    all_goals exact .take (fun _ _ => rfl) (.take (fun _ _ => rfl) (.take (fun _ _ => rfl) hbody))
  · have hne : variants ≠ [] := fun he => h.inhabited name tagField (by rw [he])
    have hbody : Reads (listed isTrailing (variants.map VariantDef.tokens) ++ [.closeBrace])
        ⟨ds, .variant ⟨name, tagField, []⟩⟩ fun r => ∃ d', d'.unlined =
          Definition.unlined (.union name variants tagField) ∧ r = ⟨ds ++ [d'], .start⟩ := by
      refine ((readsList_variants name tagField).reads isTrailing
        (fun v _ done => reads_variant name tagField done v) hne []).imp ?_
      rintro _ ⟨vs, hvs, rfl⟩
      rw [List.forall₂_eq_eq_eq] at hvs
      exact ⟨.union name vs tagField, by rw [hvs], rfl⟩
    refine .take (fun _ _ => rfl) (.take (fun _ _ => rfl) ?_)
    cases tagField with
    | none => exact .take (fun _ _ => rfl) hbody
    | some tag =>
      exact .take (fun _ _ => rfl) (.take (fun _ _ => rfl) (.take (fun _ _ => rfl) hbody))

theorem reads_definitions (isTrailing : Bool) {definitions : List Definition}
    (h : ∀ d ∈ definitions, d.Printable) :
    Reads (definitions.flatMap (Definition.tokens isTrailing)) ⟨ds, .start⟩ fun r =>
      ∃ ds', ds'.map Definition.unlined = definitions.map Definition.unlined ∧
        r = ⟨ds ++ ds', .start⟩ := by
  induction definitions generalizing ds with
  | nil => exact .nil ⟨[], rfl, by rw [List.append_nil]⟩
  | cons d definitions ih =>
    obtain ⟨hd, hdefinitions⟩ := List.forall_mem_cons.1 h
    rw [List.flatMap_cons]
    refine (reads_definition isTrailing hd).append ?_
    rintro _ ⟨d', hd', rfl⟩
    refine (ih hdefinitions).imp ?_
    rintro _ ⟨ds', hds', rfl⟩
    refine ⟨d' :: ds', ?_, by rw [List.append_assoc, List.singleton_append]⟩
    rw [List.map_cons, List.map_cons, hd', hds']

/-- Printed definitions are read back, but for the lines of members. -/
theorem readText_print (l : Layout) {definitions : List Definition}
    (h : ∀ d ∈ definitions, d.Printable) :
    ∃ ds, readText (l.print definitions) = .ok ds ∧
      ds.map Definition.unlined = definitions.map Definition.unlined := by
  obtain ⟨htokens, hstop⟩ := scans_print l (fun d hd => (h d hd).quotable) 1 0
  obtain ⟨r, hr, ds, hds, rfl⟩ := reads_definitions l.isTrailing h _ htokens
  refine ⟨ds, ?_, hds⟩
  rw [readText, Token.scan, readScanned, Reading.initial, hr, hstop]
  rfl

end Shapewise.Schema
