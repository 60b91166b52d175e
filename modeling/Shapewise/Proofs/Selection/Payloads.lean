import Shapewise.Proofs.Schema.Selection
import Shapewise.Proofs.Value.Same

/-!
# Arguments of repeated picks

A calculation may be picked several times in one list, and its shape keeps the arguments of the
first pick only. The check compares them by an equality that counts truth values as numbers, so the
kept arguments are those that every pick asked for, up to that: `accepted_picks_agree` says how any
two picks agree. They are the same values unless a truth value stands in the place of a number,
which only an argument without a type lets in.
-/

namespace Shapewise

/-! ## Values of one type -/

namespace Scalar

/-- A type other than `unknown` takes truth values or numbers, not both. -/
theorem not_confused_of_accepts {type : Scalar} (htype : type ≠ .unknown) {x y : Value}
    (hx : type.accepts x = true) (hy : type.accepts y = true) : ¬ x.Confused y := by
  intro hc
  cases hc with
  | truth_number hv =>
    obtain rfl : type = .boolean := by
      cases type <;> simp_all [accepts]
    cases y <;> simp_all [accepts, Value.number?]
  | number_truth hv =>
    obtain rfl : type = .boolean := by
      cases type <;> simp_all [accepts]
    cases x <;> simp_all [accepts, Value.number?]
  | list | obj => cases type <;> simp_all [accepts]

end Scalar

namespace Argument

variable {a : Argument}

/-- What an argument takes is null, a list of values of its type or one such value. -/
theorem taken_cases {v : Value} (h : a.accepts v = true) :
    v = .null ∨ (∃ items, v = .list items ∧ ∀ item ∈ items, a.type.accepts item = true) ∨
      a.type.accepts v = true := by
  cases v with
  | null => exact .inl rfl
  | list items =>
    rw [accepts] at h
    split at h
    · exact .inr (.inl ⟨items, rfl, List.all_eq_true.1 h⟩)
    · exact .inr (.inr h)
  | bool | int | float | str | obj =>
    rw [accepts, Bool.and_eq_true] at h
    · exact .inr (.inr h.2)
    all_goals simp

/-- An argument with a type takes no two values in which truth values and numbers are confused. -/
theorem not_confused_of_accepts (htype : a.type ≠ .unknown) {x y : Value}
    (hx : a.accepts x = true) (hy : a.accepts y = true) : ¬ x.Confused y := by
  have hlist : ∀ items, a.type.accepts (.list items) ≠ true := by
    intro items h
    cases ht : a.type <;> simp_all [Scalar.accepts]
  intro hc
  rcases taken_cases hx with rfl | ⟨xs, rfl, hxs⟩ | hx
  · cases hc with
    | number_truth hv => cases hv
  · rcases taken_cases hy with rfl | ⟨ys, rfl, hys⟩ | hy
    · cases hc
    · cases hc with
      | list hm hc =>
        obtain ⟨hx, hy⟩ := List.of_mem_zip hm
        exact Scalar.not_confused_of_accepts htype (hxs _ hx) (hys _ hy) hc
    · cases hc with
      | number_truth hv => cases hv
      | list => exact hlist _ hy
  · rcases taken_cases hy with rfl | ⟨ys, rfl, hys⟩ | hy
    · cases hc with
      | truth_number hv => cases hv
    · cases hc with
      | truth_number hv => cases hv
      | list => exact hlist _ hx
    · exact Scalar.not_confused_of_accepts htype hx hy hc

end Argument

namespace Selection

open Outcome

/-! ## Payloads of picks -/

/-- The payload of a pick is null where nothing is declared, and otherwise an object of values that
the declarations take. -/
def Payload (declared : Option (List Argument)) (x : Value) : Prop :=
  match declared with
  | none => x = .null
  | some args => ∃ supplied, x = .obj supplied ∧ ∀ name value, (name, value) ∈ supplied →
      ∃ a, Arguments.find? args name = some a ∧ a.accepts value = true

variable {g : Graph} {maxDepth depth : Nat} {r : Record} {n : String} {f : Field}
  {declared : Option (List Argument)}

theorem payload_of_validEntry (hf : r.field? n = some f) (hk : f.kind = .calculation declared)
    {v : Value} (hv : ValidEntry g maxDepth (.record r) depth n v) :
    Payload declared (selectedArguments declared v) := by
  cases declared with
  | none => rfl
  | some args =>
    have hc := ((validEntry_calculation_iff hf hk).1 hv).1
    cases v with
    | list items => exact ⟨[], rfl, by simp⟩
    | obj entries =>
      obtain ⟨-, hfit, -⟩ := checkCalculation_obj_eq_ok_iff.1 hc
      rw [selectedArguments]
      cases hgiven : Entries.get? entries "args" with
      | none => exact ⟨[], rfl, by simp⟩
      | some given =>
        rw [hgiven] at hfit
        obtain ⟨supplied, rfl, htaken, -⟩ := hfit
        exact ⟨supplied, rfl, htaken⟩
    | _ => simp [checkCalculation] at hc

/-- Where every declared argument has a type, payloads confuse nothing. -/
theorem Payload.not_confused {x y : Value} (htyped : ∀ a ∈ declared.getD [], a.type ≠ .unknown)
    (hx : Payload declared x) (hy : Payload declared y) : ¬ x.Confused y := by
  cases declared with
  | none =>
    obtain rfl : x = .null := hx
    obtain rfl : y = .null := hy
    intro hc
    cases hc
  | some args =>
    obtain ⟨es, rfl, hes⟩ := hx
    obtain ⟨fs, rfl, hfs⟩ := hy
    intro hc
    cases hc with
    | @obj _ _ name v w hm hc =>
      obtain ⟨hv, hw⟩ := List.of_mem_zip hm
      obtain ⟨a, ha, hav⟩ := hes name v (Entries.mem_valuesOf.1 hv)
      obtain ⟨b, hb, hbw⟩ := hfs name w (Entries.mem_valuesOf.1 hw)
      obtain rfl : a = b := Option.some.inj (ha.symm.trans hb)
      have htype : a.type ≠ .unknown := htyped a (List.mem_of_find?_eq_some ha)
      exact Argument.not_confused_of_accepts htype hav hbw hc

/-- How the payloads of two picks of a calculation agree. -/
structure Agreement (declared : Option (List Argument)) (x y : Value) : Prop where
  /-- They are alike, a truth value counting as the number 1 or 0. -/
  alike : Value.Alike Value.numberOrTruth? x y
  /-- They are the same where no truth value stands in the place of a number. -/
  same_iff : x.Same y ↔ ¬ x.Confused y
  /-- They are the same where every declared argument has a type. -/
  same_of_typed : (∀ a ∈ declared.getD [], a.type ≠ .unknown) → x.Same y

theorem Payload.agreement {x y : Value} (hx : Payload declared x) (hy : Payload declared y)
    (h : x.Equal y) : Agreement declared x y where
  alike := Value.equal_iff_alike.1 h
  same_iff := Value.same_iff_not_confused h
  same_of_typed htyped := Value.same_of_not_confused h (hx.not_confused htyped hy)

/-! ## Accepted lists -/

variable {text : List Char} {limits L : Limits} {schema : Schema} {id : EntityId}
  {label : Option String} {items : List Value}

/-- The shape of a calculation keeps the arguments of one of its picks. -/
theorem exists_kept_arguments (hg : g.Closed) (hr : g.get? id = some (.record r))
    (hf : r.field? n = some f) (hk : f.kind = .calculation declared) {t : Shape}
    (ht : Grouped g items (.record r) n t) :
    ∃ result v, v ∈ selectedOf items n ∧ t = .calculation result (selectedArguments declared v)
      (declared.map Arguments.shape) := by
  rcases ht with hp | ⟨hf', hk', -⟩ | ⟨hf', hk', -⟩ | ⟨hf', hk', -, hv⟩ | ⟨hf', hk', -, hv, -⟩
  · have hnone := hg.field?_eq_none hr hp
    rw [hf] at hnone
    cases hnone
  all_goals obtain rfl := Option.some.inj (hf.symm.trans hf')
  · cases hk.symm.trans hk'
  · rcases hk' with hk' | hk' <;> cases hk.symm.trans hk'
  all_goals
    obtain rfl := FieldKind.calculation.inj (hk.symm.trans hk')
    exact ⟨_, _, List.mem_of_head? hv, rfl⟩

/-- Any two picks of a calculation in a list that the check accepts agree in their arguments, and so
does each of them with the arguments that the shape of the calculation keeps. -/
theorem accepted_picks_agree (hs : Schema.ofText text limits = .ok schema)
    (hc : checkNode schema.graph L (.entity id) label depth (.list items) = .ok ())
    (hr : schema.graph.get? id = some (.record r)) (hf : r.field? n = some f)
    (hk : f.kind = .calculation declared) :
    (∀ v ∈ selectedOf items n, ∀ w ∈ selectedOf items n,
      Agreement declared (selectedArguments declared v) (selectedArguments declared w)) ∧
    ∀ fields t, project schema.graph id (.list items) = .ok (.record fields) → (n, t) ∈ fields →
      ∃ result kept, t = .calculation result kept (declared.map Arguments.shape) ∧
        ∀ v ∈ selectedOf items n, Agreement declared kept (selectedArguments declared v) := by
  have hg := Schema.closed_of_ofText hs
  have he : schema.graph.follow? (.entity id) = some (.record r) := hr
  obtain ⟨e, he', hitems, hagree⟩ := ((checkNode_eq_ok_iff _ _ _ _ _ _).1 hc).elements
  obtain rfl : Entity.record r = e := Option.some.inj (he.symm.trans he')
  have hpicks : ∀ v ∈ selectedOf items n, ∀ w ∈ selectedOf items n,
      Agreement declared (selectedArguments declared v) (selectedArguments declared w) := by
    intro v hv w hw
    have hpv := payload_of_validEntry hf hk (validEntry_of_selected hitems hv)
    have hpw := payload_of_validEntry hf hk (validEntry_of_selected hitems hw)
    exact hpv.agreement hpw (hagree n r f declared rfl hf hk v hv w hw)
  refine ⟨hpicks, fun fields t hp hm => ?_⟩
  rw [project_list, projectList_eq_ok_iff_grouped hg he hitems] at hp
  obtain ⟨-, _, ⟨⟩, -, hgrouped⟩ := hp
  obtain ⟨result, v, hv, rfl⟩ := exists_kept_arguments hg hr hf hk (hgrouped n t hm)
  exact ⟨result, _, rfl, hpicks v hv⟩

/-- A rank on a scale without a type. -/
def openScaleText : List Char :=
  "resource User { calc rank(scale: unknown): number }".toList

/-- The arguments of that rank. -/
def openScale : List Argument :=
  [⟨"scale", .unknown, true, false, false⟩]

/-- The rank. -/
def openRank : Field :=
  ⟨"rank", .calculation (some openScale), .scalar .number, false, false⟩

/-- The user with that rank. -/
def openScaleUser : Record :=
  ⟨.resource, "User", [], [("rank", openRank)]⟩

/-- Picks the rank on a scale. -/
def rankOn (scale : Value) : Value :=
  .obj [("rank", .obj [("args", .obj [("scale", scale)])])]

/-- Picks the rank twice, on scales that are written differently. -/
def rankTwice : List Value :=
  [rankOn (.obj [("from", .int 1), ("to", .null)]),
    rankOn (.obj [("to", .null), ("from", .float (.finite 1))])]

theorem accepted_picks_agree_rankTwice : ∃ schema,
    Schema.ofText openScaleText .standard = .ok schema ∧
    checkNode schema.graph .standard (.entity ⟨0⟩) none 1 (.list rankTwice) = .ok () ∧
    schema.graph.get? ⟨0⟩ = some (.record openScaleUser) ∧
    openScaleUser.field? "rank" = some openRank ∧ openRank.kind = .calculation (some openScale) ∧
    (∀ v ∈ selectedOf rankTwice "rank", ∀ w ∈ selectedOf rankTwice "rank",
      Agreement (some openScale) (selectedArguments (some openScale) v)
        (selectedArguments (some openScale) w)) ∧
    ∀ fields t, project schema.graph ⟨0⟩ (.list rankTwice) = .ok (.record fields) →
      ("rank", t) ∈ fields →
      ∃ result kept, t = .calculation result kept (some (Arguments.shape openScale)) ∧
        ∀ v ∈ selectedOf rankTwice "rank",
          Agreement (some openScale) kept (selectedArguments (some openScale) v) := by
  have haccepted : Settles (fun schema => schema.graph.get? ⟨0⟩ = some (.record openScaleUser) ∧
      checkNode schema.graph .standard (.entity ⟨0⟩) none 1 (.list rankTwice) = .ok ())
      (fun _ => False) (Schema.ofText openScaleText .standard) := by
    decide +kernel
  obtain ⟨schema, hs, hr, hc⟩ := haccepted.exists_ok
  have hf : openScaleUser.field? "rank" = some openRank := by decide
  exact ⟨schema, hs, hc, hr, hf, rfl, accepted_picks_agree hs hc hr hf rfl⟩

/-- Picks the rank on the scale 1 and on the scale `true`. -/
def rankOnTruth : List Value :=
  [rankOn (.int 1), rankOn (.bool true)]

/-- Not all payloads of repeated picks are the same: here the check accepts the scales 1 and `true`
of one rank, and its shape keeps 1. -/
theorem accepted_picks_not_same_rankOnTruth : ∃ schema t,
    Schema.ofText openScaleText .standard = .ok schema ∧
    schema.graph.get? ⟨0⟩ = some (.record openScaleUser) ∧
    check schema.graph .standard ⟨0⟩ (.list rankOnTruth) = .ok () ∧
    selectedOf rankOnTruth "rank" =
      [.obj [("args", .obj [("scale", .int 1)])], .obj [("args", .obj [("scale", .bool true)])]] ∧
    ¬ Value.Same (.obj [("scale", .int 1)]) (.obj [("scale", .bool true)]) ∧
    project schema.graph ⟨0⟩ (.list rankOnTruth) = .ok (.record [("rank", t)]) ∧
    t = .calculation (.scalar .number) (.obj [("scale", .int 1)])
      (some (Arguments.shape openScale)) := by
  have haccepted : Settles (fun schema => schema.graph.get? ⟨0⟩ = some (.record openScaleUser) ∧
      check schema.graph .standard ⟨0⟩ (.list rankOnTruth) = .ok () ∧
      project schema.graph ⟨0⟩ (.list rankOnTruth) = .ok (.record [("rank", .calculation
        (.scalar .number) (.obj [("scale", .int 1)]) (some (Arguments.shape openScale)))]))
      (fun _ => False) (Schema.ofText openScaleText .standard) := by
    decide +kernel
  obtain ⟨schema, hs, hr, hc, hp⟩ := haccepted.exists_ok
  have hscale : (Value.int 1, Value.bool true) ∈
      (Entries.valuesOf [("scale", Value.int 1)] "scale").zip
        (Entries.valuesOf [("scale", Value.bool true)] "scale") := by
    simp [Entries.valuesOf]
  have hconfused : Value.Confused (.obj [("scale", .int 1)]) (.obj [("scale", .bool true)]) :=
    .obj hscale (.number_truth rfl)
  exact ⟨schema, _, hs, hr, hc, rfl, fun hsame => hsame.not_confused hconfused, hp, rfl⟩

end Selection

end Shapewise
