import Shapewise.Proofs.Schema.Recognition
import Shapewise.Proofs.Schema.Reordered

/-!
# Reading schema text without places

Where the tokens of a schema text stand does not matter for what it defines: the line of a member is
all that the reader keeps of the places. So reading goes on in the same way once the places are taken
away, step by step (`step_unplaced`), and lists of the same tokens are read alike, with the same
definitions but for the lines of members (`exists_readTokens_of_same_tokens`).
-/

namespace Shapewise.Schema

open Text

variable {ls ls' : List (Located Token)} {ds : List Definition}

/-! ## Without places -/

/-- A token that stands nowhere in particular. -/
def unplaced (l : Located Token) : Located Token := ⟨l.token, 0, 0⟩

/-- A fault whose token stands nowhere in particular. -/
def ReadFault.unplaced : ReadFault → ReadFault
  | .unexpected l => .unexpected (Schema.unplaced l)
  | f => f

/-- The name of a member without its line. -/
def MemberName.unlined (m : MemberName) : MemberName := { m with line := 0 }

/-- A record that is open without the lines of its members. -/
def OpenRecord.unlined (o : OpenRecord) : OpenRecord :=
  { o with members := o.members.map Member.unlined }

/-- What was read last without the lines of members. -/
def Mode.unlined : Mode → Mode
  | .member o => .member o.unlined
  | .memberName o m => .memberName o.unlined m.unlined
  | .memberColon o m => .memberColon o.unlined m.unlined
  | .memberKind o m kind => .memberKind o.unlined m.unlined kind
  | .memberType o m kind type => .memberType o.unlined m.unlined kind type
  | .calc o => .calc o.unlined
  | .calcName o m => .calcName o.unlined m.unlined
  | .argument o m arguments => .argument o.unlined m.unlined arguments
  | .argumentName o m arguments name => .argumentName o.unlined m.unlined arguments name
  | .argumentMark o m arguments name => .argumentMark o.unlined m.unlined arguments name
  | .argumentColon o m arguments name isOptional =>
    .argumentColon o.unlined m.unlined arguments name isOptional
  | .argumentType o m arguments name isOptional type =>
    .argumentType o.unlined m.unlined arguments name isOptional type
  | .called o m arguments => .called o.unlined m.unlined arguments
  | mode => mode

/-- A state without the lines of members. -/
def Reading.unlined (r : Reading) : Reading :=
  ⟨r.definitions.map Definition.unlined, r.mode.unlined⟩

/-- The outcome of a step without places. -/
def withoutPlaces (x : Except ReadFault Reading) : Except ReadFault Reading :=
  (x.map Reading.unlined).mapError ReadFault.unplaced

/-! ## Reading -/

theorem withoutPlaces_endStatement (r : Reading) (d : Definition) :
    withoutPlaces (r.endStatement d) = r.unlined.endStatement d.unlined := by
  simp [withoutPlaces, Reading.endStatement, Except.map, Except.mapError, Reading.unlined, Mode.unlined]

/-- A record with one more member. -/
def OpenRecord.add (o : OpenRecord) (m : Member) : OpenRecord :=
  { o with members := o.members ++ [m] }

theorem unlined_add (o : OpenRecord) (m : Member) : (o.add m).unlined = o.unlined.add m.unlined := by
  simp [OpenRecord.add, OpenRecord.unlined]

theorem unlined_closeRecord (o : OpenRecord) :
    (Reading.closeRecord o).unlined = Reading.closeRecord o.unlined := rfl

/-- Behind the type of a member, the member is kept with its line, if the type goes on no further. -/
theorem step_memberType_unplaced (ds : List Definition) (o : OpenRecord) (m : MemberName)
    (kind : MemberKind) (type : PartialType) (l : Located Token) :
    (Reading.unlined ⟨ds, .memberType o m kind type⟩).step (unplaced l) =
      withoutPlaces (Reading.step ⟨ds, .memberType o m kind type⟩ l) := by
  obtain ⟨token, line, position⟩ := l
  show Reading.step ⟨_, .memberType o.unlined m.unlined kind type⟩ ⟨token, 0, 0⟩ = _
  unfold Reading.step
  dsimp only
  cases type.step? token with
  | some type => rfl
  | none =>
    cases type.complete? with
    | none => rfl
    | some type =>
      have hadd := unlined_add o ⟨m.name, kind, type, m.line⟩
      cases token with
      | comma =>
        show Except.ok _ = Except.ok (Reading.mk _ (.member (OpenRecord.unlined (o.add _))))
        rw [hadd]
        rfl
      | closeBrace =>
        show _ = withoutPlaces (Reading.endStatement _ (Reading.closeRecord (o.add _)))
        rw [withoutPlaces_endStatement, unlined_closeRecord, hadd]
        rfl
      | _ => rfl

/-- A step does not depend on places. -/
theorem step_unplaced (r : Reading) (l : Located Token) :
    r.unlined.step (unplaced l) = withoutPlaces (r.step l) := by
  obtain ⟨definitions, mode⟩ := r
  obtain ⟨token, line, position⟩ := l
  cases mode with
  | aliasAs name =>
    cases token with
    | name base => exact (withoutPlaces_endStatement _ (.alias name base)).symm
    | _ => rfl
  | member o =>
    cases token with
    | closeBrace => exact (withoutPlaces_endStatement _ (Reading.closeRecord o)).symm
    | keyword k => cases k <;> rfl
    | _ => rfl
  | memberType o m kind type => exact step_memberType_unplaced definitions o m kind type _
  | argumentType o m arguments name isOptional type =>
    show Reading.step ⟨_, .argumentType o.unlined m.unlined _ _ _ _⟩ ⟨token, 0, 0⟩ = _
    unfold Reading.step
    dsimp only
    cases type.step? token with
    | some type => rfl
    | none =>
      cases type.complete? with
      | none => rfl
      | some type => cases token <;> rfl
  | variant u =>
    cases token with
    | closeBrace =>
      show Reading.step ⟨_, .variant u⟩ ⟨.closeBrace, 0, 0⟩ = _
      unfold Reading.step
      dsimp only
      split
      · rfl
      · exact (withoutPlaces_endStatement ⟨definitions, .variant u⟩ (Reading.closeUnion u)).symm
    | _ => rfl
  | variantType u =>
    cases token with
    | closeBrace => exact (withoutPlaces_endStatement _ (Reading.closeUnion u)).symm
    | _ => rfl
  | _ =>
    cases token with
    | keyword k => cases k <;> rfl
    | _ => rfl

/-- A run does not depend on places. -/
theorem run_unplaced (r : Reading) (ls : List (Located Token)) :
    (ls.map unplaced).foldlM Reading.step r.unlined = withoutPlaces (ls.foldlM Reading.step r) := by
  induction ls generalizing r with
  | nil => rfl
  | cons l ls ih =>
    rw [List.map_cons, List.foldlM_cons, List.foldlM_cons, step_unplaced]
    cases r.step l with
    | error f => rfl
    | ok r' => exact ih r'

theorem finish_unlined (r : Reading) :
    r.unlined.finish = r.finish.map (List.map Definition.unlined) := by
  obtain ⟨definitions, mode⟩ := r
  cases mode <;> rfl

/-- What tokens are read as does not depend on where they stand, but for the lines of members. -/
theorem readTokens_unplaced (ls : List (Located Token)) :
    readTokens (ls.map unplaced) =
      ((readTokens ls).map (List.map Definition.unlined)).mapError ReadFault.unplaced := by
  have hrun : (ls.map unplaced).foldlM Reading.step .initial = _ := run_unplaced .initial ls
  rw [readTokens, readTokens, hrun]
  cases ls.foldlM Reading.step .initial with
  | error f => rfl
  | ok r =>
    show r.unlined.finish = (r.finish.map _).mapError _
    rw [finish_unlined]
    unfold Reading.finish
    split <;> rfl

/-- Lists of the same tokens are read alike, and define the same but for the lines of members. -/
theorem exists_readTokens_of_same_tokens (h : ls.map Located.token = ls'.map Located.token)
    (hread : readTokens ls = .ok ds) :
    ∃ ds', readTokens ls' = .ok ds' ∧ ds'.map Definition.unlined = ds.map Definition.unlined := by
  have hunplaced : ls'.map unplaced = ls.map unplaced := by
    have hmap : ∀ ls : List (Located Token),
        ls.map unplaced = (ls.map Located.token).map fun t => ⟨t, 0, 0⟩ := by
      intro ls
      rw [List.map_map]
      rfl
    rw [hmap, hmap, h]
  have hread' := readTokens_unplaced ls'
  rw [hunplaced, readTokens_unplaced, hread] at hread'
  cases hls' : readTokens ls' with
  | error f =>
    rw [hls'] at hread'
    cases hread'
  | ok ds' =>
    rw [hls'] at hread'
    exact ⟨ds', rfl, (Except.ok.inj hread').symm⟩

end Shapewise.Schema
