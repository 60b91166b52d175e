import Shapewise.Proofs.Selection.Valid
import Shapewise.Proofs.Shape.Conforms
import Shapewise.Schema.Basic

/-!
# Arguments and their declared type

The arguments that a calculation declares are read twice: the check takes the first declaration of
a name, the type of the arguments keeps the last one. So an accepted payload is of the declared type
as long as the last declaration of each name takes every value that the first one takes
(`accepted_ofDeclaredType_iff`), and in particular where no name is declared twice. A schema text may
declare a name twice, with different types.
-/

namespace Shapewise

/-- The shape of the values of an argument. -/
def Argument.shape (a : Argument) : Shape :=
  (Shape.scalar a.type).wrap a.isArray a.isNullable

/-- The last declaration of a name. -/
def Arguments.findLast? (args : List Argument) (name : String) : Option Argument :=
  (args.filter fun a => a.name = name).getLast?

namespace Selection

open Outcome Shape

/-- Supplied arguments are of a type: an object of this type that has no other names and is null
only where the type says so. -/
structure Inhabits (type : Shape) (supplied : List (String × Value)) : Prop where
  conforms : type.Conforms (.obj supplied)
  named : ∀ k ∈ Entries.keys supplied, k ∈ Entries.keys type.fields
  null : ∀ k s, (k, .null) ∈ supplied → (k, s) ∈ type.fields → ∃ inner, s = .nullable inner

/-- A payload is an object of the type that arguments are declared to have. -/
def OfDeclaredType (args : List Argument) (payload : Value) : Prop :=
  ∃ supplied, payload = .obj supplied ∧ Inhabits (Arguments.shape args) supplied

/-- The last declaration of each name takes every value that the first one takes. -/
def LastTakesAll (args : List Argument) : Prop :=
  ∀ name first last, Arguments.find? args name = some first →
    Arguments.findLast? args name = some last →
    ∀ v, first.accepts v = true → last.accepts v = true

variable {args : List Argument} {supplied : List (String × Value)} {name : String}

/-! ## Values of one argument -/

/-- An argument takes the values of its shape, but null only where it may be null. -/
theorem accepts_eq_true_iff (a : Argument) (v : Value) :
    a.accepts v = true ↔
      a.shape.Conforms v ∧ (v = .null → ∃ inner, a.shape = .nullable inner) := by
  obtain ⟨name, type, isRequired, isNullable, isArray⟩ := a
  have hshape : (∃ inner, (Shape.scalar type).wrap isArray isNullable = .nullable inner) ↔
      isNullable = true := by
    cases isArray <;> cases isNullable <;> simp [Shape.wrap, Shape.orNull]
  rw [Argument.shape, hshape]
  cases v with
  | null =>
    cases isArray <;> cases isNullable <;>
      simp [Argument.accepts, Shape.wrap, Shape.orNull, Conforms]
  | list items =>
    cases isArray <;> cases isNullable <;>
      simp [Argument.accepts, Shape.wrap, Shape.orNull, Conforms]
  | _ =>
    cases isArray <;> cases isNullable <;>
      simp [Argument.accepts, Shape.wrap, Shape.orNull, Conforms]

/-- There is a value that an argument takes. -/
theorem exists_accepts (a : Argument) : ∃ v, a.accepts v = true := by
  obtain ⟨name, type, isRequired, isNullable, isArray⟩ := a
  cases isArray with
  | true => exact ⟨.list [], rfl⟩
  | false =>
    cases type with
    | string => exact ⟨.str "", rfl⟩
    | number => exact ⟨.int 0, rfl⟩
    | boolean => exact ⟨.bool true, rfl⟩
    | unknown => exact ⟨.str "", rfl⟩

/-! ## Declarations of a name -/

theorem findLast?_mem {a : Argument} (h : Arguments.findLast? args name = some a) :
    a ∈ args ∧ a.name = name := by
  have hm := List.mem_of_getLast? h
  simpa using hm

theorem exists_find?_iff :
    (∃ a, Arguments.find? args name = some a) ↔ name ∈ Arguments.names args := by
  rw [← Option.isSome_iff_exists, Arguments.find?, List.find?_isSome]
  simp [Arguments.names]

theorem exists_findLast?_iff :
    (∃ a, Arguments.findLast? args name = some a) ↔ name ∈ Arguments.names args := by
  rw [← Option.isSome_iff_exists, Arguments.findLast?, List.getLast?_isSome, ne_eq,
    List.filter_eq_nil_iff]
  simp [Arguments.names]

/-- Where no name is declared twice, the first declaration of a name is the last one. -/
theorem findLast?_eq_find? (hd : (Arguments.names args).Nodup) (name : String) :
    Arguments.findLast? args name = Arguments.find? args name := by
  cases hf : Arguments.find? args name with
  | none =>
    have hnone : name ∉ Arguments.names args := fun hm => by
      obtain ⟨a, ha⟩ := exists_find?_iff.2 hm
      rw [hf] at ha
      cases ha
    cases hl : Arguments.findLast? args name with
    | none => rfl
    | some b => exact absurd (exists_findLast?_iff.1 ⟨b, hl⟩) hnone
  | some a =>
    have ha : a ∈ args := List.mem_of_find?_eq_some hf
    have hname : a.name = name := by simpa using List.find?_some hf
    obtain ⟨b, hb⟩ := exists_findLast?_iff.2 (exists_find?_iff.1 ⟨a, hf⟩)
    obtain ⟨hbm, hbn⟩ := findLast?_mem hb
    rw [hb, List.inj_on_of_nodup_map hd hbm ha (hbn.trans hname.symm)]

/-! ## The declared type -/

theorem mem_fields_shape {k : String} {s : Shape} :
    (k, s) ∈ (Arguments.shape args).fields ↔
      ∃ a, Arguments.findLast? args k = some a ∧ a.shape = s := by
  have hvalues : Entries.valuesOf (args.map fun a => (a.name, a.shape)) k =
      (args.filter fun a => a.name = k).map Argument.shape := by
    simp [Entries.valuesOf, List.filter_map, Function.comp_def]
  show (k, s) ∈ Entries.ofList (args.map fun a => (a.name, a.shape)) ↔ _
  rw [← Entries.get?_eq_some_iff (Entries.distinct_ofList _), Entries.get?_ofList, hvalues,
    List.getLast?_map, Option.map_eq_some_iff]
  rfl

theorem mem_keys_shape {k : String} :
    k ∈ Entries.keys (Arguments.shape args).fields ↔ k ∈ Arguments.names args := by
  rw [Entries.mem_keys, ← exists_findLast?_iff]
  simp only [mem_fields_shape]
  constructor
  · rintro ⟨s, a, ha, -⟩
    exact ⟨a, ha⟩
  · rintro ⟨a, ha⟩
    exact ⟨_, a, ha, rfl⟩

/-- Supplied arguments are of the declared type when the last declaration of each name takes what is
supplied, and nothing is left out that all declarations require. -/
theorem inhabits_iff :
    Inhabits (Arguments.shape args) supplied ↔
      (∀ k v, (k, v) ∈ supplied →
        ∃ a, Arguments.findLast? args k = some a ∧ a.accepts v = true) ∧
      ∀ k ∈ Arguments.names args, (∀ a ∈ args, a.name = k → a.isRequired = true) →
        k ∈ Entries.keys supplied := by
  have hoptional : ∀ k, k ∉ NameSet.ofList (Arguments.names (args.filter fun a => !a.isRequired)) ↔
      ∀ a ∈ args, a.name = k → a.isRequired = true := by
    intro k
    rw [NameSet.mem_ofList]
    simp only [Arguments.names, List.mem_map, List.mem_filter, Bool.not_eq_true']
    grind
  have hconforms : (Arguments.shape args).Conforms (.obj supplied) ↔
      (∀ k ∈ Arguments.names args, (∀ a ∈ args, a.name = k → a.isRequired = true) →
        k ∈ Entries.keys supplied) ∧
      ∀ k s, (k, s) ∈ (Arguments.shape args).fields → ∀ v, (k, v) ∈ supplied → s.Conforms v := by
    simp only [← hoptional, ← mem_keys_shape]
    exact conforms_object_iff
  constructor
  · intro h
    obtain ⟨hrequired, hvalues⟩ := hconforms.1 h.conforms
    refine ⟨fun k v hm => ?_, hrequired⟩
    have hk : k ∈ Arguments.names args :=
      mem_keys_shape.1 (h.named k (Entries.mem_keys.2 ⟨v, hm⟩))
    obtain ⟨a, ha⟩ := exists_findLast?_iff.2 hk
    have hfield : (k, a.shape) ∈ (Arguments.shape args).fields := mem_fields_shape.2 ⟨a, ha, rfl⟩
    refine ⟨a, ha, (accepts_eq_true_iff a v).2 ⟨hvalues k _ hfield v hm, ?_⟩⟩
    rintro rfl
    exact h.null k _ hm hfield
  · rintro ⟨htaken, hrequired⟩
    have hfits : ∀ k s v, (k, s) ∈ (Arguments.shape args).fields → (k, v) ∈ supplied →
        s.Conforms v ∧ (v = .null → ∃ inner, s = .nullable inner) := by
      intro k s v hs hv
      obtain ⟨a, ha, rfl⟩ := mem_fields_shape.1 hs
      obtain ⟨b, hb, hacc⟩ := htaken k v hv
      cases ha.symm.trans hb
      exact (accepts_eq_true_iff a v).1 hacc
    refine ⟨hconforms.2 ⟨hrequired, fun k s hs v hv => (hfits k s v hs hv).1⟩, ?_, ?_⟩
    · intro k hk
      obtain ⟨v, hv⟩ := Entries.mem_keys.1 hk
      obtain ⟨a, ha, -⟩ := htaken k v hv
      exact mem_keys_shape.2 (exists_findLast?_iff.1 ⟨a, ha⟩)
    · intro k s hv hs
      exact (hfits k s .null hs hv).2 rfl

/-! ## Accepted payloads -/

/-- Some payload is accepted that has a given value which its first declaration takes. -/
theorem exists_accepted (calculation : String) {a : Argument} {v : Value}
    (ha : Arguments.find? args name = some a) (hv : a.accepts v = true) :
    ∃ supplied, checkArguments calculation (some args) (.obj supplied) = .ok () ∧
      (name, v) ∈ supplied := by
  -- every declared name gets a value that its first declaration takes
  have hchoice : ∀ k ∈ Arguments.names args, ∃ w, (k = name → w = v) ∧
      ∃ b, Arguments.find? args k = some b ∧ b.accepts w = true := by
    intro k hk
    by_cases hkn : k = name
    · exact ⟨v, fun _ => rfl, a, hkn ▸ ha, hv⟩
    · obtain ⟨b, hb⟩ := exists_find?_iff.2 hk
      obtain ⟨w, hw⟩ := exists_accepts b
      exact ⟨w, fun h => absurd h hkn, b, hb, hw⟩
  choose! value hname hvalue using hchoice
  have hmem : ∀ k w, (k, w) ∈ (Arguments.names args).map (fun k => (k, value k)) ↔
      k ∈ Arguments.names args ∧ value k = w := by
    simp
  refine ⟨(Arguments.names args).map fun k => (k, value k), ?_, ?_⟩
  · refine checkArguments_eq_ok_iff.2 ⟨_, rfl, fun k w hm => ?_, fun b hb _ => ?_⟩
    · obtain ⟨hk, rfl⟩ := (hmem k w).1 hm
      exact hvalue k hk
    · have hb' : b.name ∈ Arguments.names args := List.mem_map_of_mem hb
      exact Entries.mem_keys.2 ⟨_, (hmem _ _).2 ⟨hb', rfl⟩⟩
  · have hn : name ∈ Arguments.names args := exists_find?_iff.1 ⟨a, ha⟩
    exact (hmem _ _).2 ⟨hn, hname name hn rfl⟩

theorem ofDeclaredType_of_accepted {calculation : String} {payload : Value}
    (htakes : LastTakesAll args)
    (haccepted : checkArguments calculation (some args) payload = .ok ()) :
    OfDeclaredType args payload := by
  obtain ⟨supplied, rfl, htaken, hrequired⟩ := checkArguments_eq_ok_iff.1 haccepted
  refine ⟨supplied, rfl, inhabits_iff.2 ⟨fun k v hm => ?_, fun k hk hall => ?_⟩⟩
  · obtain ⟨first, hfirst, hv⟩ := htaken k v hm
    obtain ⟨last, hlast⟩ := exists_findLast?_iff.2 (exists_find?_iff.1 ⟨first, hfirst⟩)
    exact ⟨last, hlast, htakes k first last hfirst hlast v hv⟩
  · obtain ⟨a, ha, rfl⟩ := List.mem_map.1 hk
    exact hrequired a ha (hall a ha rfl)

theorem lastTakesAll_of_nodup (hd : (Arguments.names args).Nodup) : LastTakesAll args := by
  intro name first last hfirst hlast v hv
  rw [findLast?_eq_find? hd, hfirst] at hlast
  cases hlast
  exact hv

/-- Every accepted payload is of the declared type exactly when the last declaration of each name
takes every value that the first one takes. Where no name is declared twice it always is. -/
theorem accepted_ofDeclaredType_iff (calculation : String) (args : List Argument) :
    ((∀ payload, checkArguments calculation (some args) payload = .ok () →
        OfDeclaredType args payload) ↔ LastTakesAll args) ∧
    ((Arguments.names args).Nodup →
      ∀ payload, checkArguments calculation (some args) payload = .ok () →
        OfDeclaredType args payload) := by
  refine ⟨⟨fun h name first last hfirst hlast v hv => ?_, ?_⟩, ?_⟩
  · obtain ⟨supplied, haccepted, hm⟩ := exists_accepted calculation hfirst hv
    obtain ⟨_, ⟨⟩, hinhabits⟩ := h _ haccepted
    obtain ⟨a, ha, hav⟩ := (inhabits_iff.1 hinhabits).1 name v hm
    cases ha.symm.trans hlast
    exact hav
  · exact fun htakes payload haccepted => ofDeclaredType_of_accepted htakes haccepted
  · exact fun hd payload haccepted =>
      ofDeclaredType_of_accepted (lastTakesAll_of_nodup hd) haccepted

/-- A scale that may be null, and perhaps a unit. -/
def scaleAndUnit : List Argument :=
  [⟨"scale", .number, true, true, false⟩, ⟨"unit", .string, false, false, false⟩]

theorem accepted_ofDeclaredType_null_scale :
    (Arguments.names scaleAndUnit).Nodup ∧
      checkArguments "rank" (some scaleAndUnit) (.obj [("scale", .null)]) = .ok () ∧
      OfDeclaredType scaleAndUnit (.obj [("scale", .null)]) := by
  have hd : (Arguments.names scaleAndUnit).Nodup := by decide
  have haccepted : checkArguments "rank" (some scaleAndUnit) (.obj [("scale", .null)]) = .ok () := by
    decide
  exact ⟨hd, haccepted, (accepted_ofDeclaredType_iff "rank" scaleAndUnit).2 hd _ haccepted⟩

/-- Declares the scale of a rank twice, as a text and as a number. -/
def repeatedScaleText : List Char :=
  "resource User { calc rank(scale: string, scale: number): number }".toList

/-- The two declarations of the scale. -/
def repeatedScale : List Argument :=
  [⟨"scale", .string, true, false, false⟩, ⟨"scale", .number, true, false, false⟩]

/-- The user with a rank on a scale that is declared twice. -/
def repeatedScaleUser : Record :=
  ⟨.resource, "User", [],
    [("rank", ⟨"rank", .calculation (some repeatedScale), .scalar .number, false, false⟩)]⟩

/-- A schema text may declare a name twice: then a text is accepted that should be a number. -/
theorem accepted_not_ofDeclaredType_repeated_scale :
    (∃ schema, Schema.ofText repeatedScaleText .standard = .ok schema ∧
      schema.graph.get? ⟨0⟩ = some (.record repeatedScaleUser)) ∧
    checkArguments "rank" (some repeatedScale) (.obj [("scale", .str "big")]) = .ok () ∧
    ¬ OfDeclaredType repeatedScale (.obj [("scale", .str "big")]) := by
  have hread : Settles (fun schema => schema.graph.get? ⟨0⟩ = some (.record repeatedScaleUser))
      (fun _ => False) (Schema.ofText repeatedScaleText .standard) := by
    decide +kernel
  refine ⟨hread.exists_ok, by decide, ?_⟩
  rintro ⟨_, ⟨⟩, hinhabits⟩
  obtain ⟨a, ha, hv⟩ := (inhabits_iff.1 hinhabits).1 "scale" (.str "big") (by simp)
  have hlast : Arguments.findLast? repeatedScale "scale" =
      some ⟨"scale", .number, true, false, false⟩ := by
    decide
  cases ha.symm.trans hlast
  cases hv

end Selection

end Shapewise
