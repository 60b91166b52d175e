import Shapewise.Proofs.Entries
import Shapewise.Schema.Resolve

/-!
# Chains of aliases

An alias leads to a scalar type if following bases from its name reaches the name of one. The passes
over the aliases find exactly these (`resolveAliases_isOk_iff`, `scalarOf?_resolveAliases`): what is known
always belongs to a chain, an alias that is not known remains, and a pass that finds nothing new has
seen every base that can be known, so that nothing that leads to a scalar type remains. A pass that
does find something leaves fewer aliases, so the passes are never used up.
-/

namespace Shapewise.Schema

variable {aliases pending skipped : List Alias} {known known' : List (String × Scalar)}

/-- Following aliases from a name reaches a scalar type. -/
inductive LeadsTo (aliases : List Alias) : String → Scalar → Prop
  | builtin {name : String} {type : Scalar} (h : Scalar.ofName? name = some type) :
    LeadsTo aliases name type
  | step {a : Alias} {type : Scalar} (ha : a ∈ aliases) (h : LeadsTo aliases a.base type) :
    LeadsTo aliases a.name type

theorem LeadsTo.mono {aliases' : List Alias} (hsub : ∀ a ∈ aliases, a ∈ aliases') {name : String}
    {type : Scalar} (h : LeadsTo aliases name type) : LeadsTo aliases' name type := by
  induction h with
  | builtin h => exact .builtin h
  | step ha _ ih => exact .step (hsub _ ha) ih

/-- A name is a scalar type, or it is an alias of what leads to one. -/
theorem LeadsTo.cases_alias {name : String} {type : Scalar} (h : LeadsTo aliases name type) :
    Scalar.ofName? name = some type ∨
      ∃ a ∈ aliases, a.name = name ∧ LeadsTo aliases a.base type := by
  cases h with
  | builtin h => exact .inl h
  | step ha h => exact .inr ⟨_, ha, rfl, h⟩

/-- Every alias has a name of its own, which is not that of a scalar type. -/
structure OwnNames (aliases : List Alias) : Prop where
  nodup : (aliases.map Alias.name).Nodup
  new : ∀ a ∈ aliases, Scalar.ofName? a.name = none

theorem OwnNames.eq_of_name (h : OwnNames aliases) {a b : Alias} (ha : a ∈ aliases)
    (hb : b ∈ aliases) (hname : a.name = b.name) : a = b :=
  List.inj_on_of_nodup_map h.nodup ha hb hname

/-- Where aliases have names of their own, a chain has one end. -/
theorem LeadsTo.unique (h : OwnNames aliases) {name : String} {type type' : Scalar}
    (hl : LeadsTo aliases name type) (hl' : LeadsTo aliases name type') : type = type' := by
  induction hl with
  | builtin hb =>
    rcases hl'.cases_alias with hb' | ⟨a, ha, rfl, -⟩
    · exact Option.some.inj (hb.symm.trans hb')
    · rw [h.new a ha] at hb
      cases hb
  | step ha _ ih =>
    rcases hl'.cases_alias with hb' | ⟨b, hb, hname, hbase⟩
    · rw [h.new _ ha] at hb'
      cases hb'
    · rw [h.eq_of_name hb ha hname] at hbase
      exact ih hbase

/-! ## Passes -/

/-- What is known belongs to chains of aliases, and the aliases that are not known remain. -/
structure Progress (aliases : List Alias) (known : List (String × Scalar))
    (remaining : List Alias) : Prop where
  sound : ∀ name type, Entries.get? known name = some type → LeadsTo aliases name type
  subset : ∀ a ∈ remaining, a ∈ aliases
  covered : ∀ a ∈ aliases, a ∈ remaining ∨
    (∃ type, Entries.get? known a.name = some type) ∧ ∃ type, LeadsTo aliases a.base type

theorem Progress.leadsTo_of_scalarOf? (h : Progress aliases known pending) {name : String}
    {type : Scalar} (hs : scalarOf? known name = some type) : LeadsTo aliases name type := by
  rcases Option.or_eq_some_iff.1 hs with hb | ⟨-, hk⟩
  · exact .builtin hb
  · exact h.sound _ _ hk

/-- An alias becomes known when its base is known. -/
theorem Progress.learn {a : Alias} (h : Progress aliases known (skipped ++ a :: pending))
    {type : Scalar} (hs : scalarOf? known a.base = some type) :
    Progress aliases (Entries.put known a.name type) (skipped ++ pending) := by
  have ha : a ∈ aliases := h.subset a (List.mem_append_right _ List.mem_cons_self)
  refine ⟨fun name type' hget => ?_, fun b hb => ?_, fun b hb => ?_⟩
  · rw [Entries.get?_put] at hget
    split at hget
    · next hname =>
      cases hget
      exact hname ▸ .step ha (h.leadsTo_of_scalarOf? hs)
    · exact h.sound _ _ hget
  · refine h.subset b ?_
    rcases List.mem_append.1 hb with hb | hb
    · exact List.mem_append_left _ hb
    · exact List.mem_append_right _ (List.mem_cons_of_mem _ hb)
  · by_cases hba : b = a
    · subst hba
      exact .inr ⟨⟨type, by rw [Entries.get?_put, if_pos rfl]⟩, type, h.leadsTo_of_scalarOf? hs⟩
    · refine (h.covered b hb).imp (fun hmem => by simpa [hba] using hmem) (And.imp_left ?_)
      rintro ⟨type', hk⟩
      rw [Entries.get?_put]
      split
      · exact ⟨type, rfl⟩
      · exact ⟨type', hk⟩

/-- A pass keeps the progress. It leaves no more aliases than there were, and if it leaves as many,
nothing has become known and no base was known. -/
theorem Progress.pass (h : Progress aliases known (skipped ++ pending)) :
    Progress aliases (aliasPass known pending).1 (skipped ++ (aliasPass known pending).2) ∧
      (aliasPass known pending).2.length ≤ pending.length ∧
      ((aliasPass known pending).2.length = pending.length →
        ∀ a ∈ pending, scalarOf? known a.base = none) := by
  induction pending generalizing known skipped with
  | nil => exact ⟨h, Nat.le_refl _, fun _ _ ha => nomatch ha⟩
  | cons a pending ih =>
    rw [aliasPass]
    cases hs : scalarOf? known a.base with
    | some type =>
      obtain ⟨hprogress, hle, -⟩ := ih (h.learn hs)
      refine ⟨hprogress, Nat.le_succ_of_le hle, fun hlength => ?_⟩
      exact absurd (hlength ▸ hle) (Nat.not_succ_le_self _)
    | none =>
      have hskip : Progress aliases known ((skipped ++ [a]) ++ pending) := by simpa using h
      obtain ⟨hprogress, hle, hstuck⟩ := ih hskip
      refine ⟨by simpa using hprogress, Nat.succ_le_succ hle, fun hlength => ?_⟩
      exact List.forall_mem_cons.2 ⟨hs, hstuck (Nat.succ.inj hlength)⟩

/-- Where no base of what remains is known, all that leads to a scalar type is known. -/
theorem Progress.exists_scalarOf? (h : Progress aliases known pending)
    (hstuck : ∀ a ∈ pending, scalarOf? known a.base = none) {name : String} {type : Scalar}
    (hl : LeadsTo aliases name type) : ∃ type, scalarOf? known name = some type := by
  induction hl with
  | builtin hb => exact ⟨_, Option.or_eq_some_iff.2 (.inl hb)⟩
  | @step a type ha _ ih =>
    obtain ⟨type', hbase⟩ := ih
    rcases h.covered a ha with hmem | ⟨⟨type', hk⟩, -⟩
    · rw [hstuck a hmem] at hbase
      cases hbase
    · cases hb : Scalar.ofName? a.name with
      | some type => exact ⟨type, Option.or_eq_some_iff.2 (.inl hb)⟩
      | none => exact ⟨type', Option.or_eq_some_iff.2 (.inr ⟨hb, hk⟩)⟩

/-- With more passes than aliases that remain, the passes succeed when every alias leads to a scalar
type, and then none remains. -/
theorem Progress.passes {passes : Nat} (h : Progress aliases known pending)
    (hpasses : pending.length < passes) :
    ((∃ known', aliasPasses known pending passes = .ok known') ↔
      ∀ a ∈ aliases, ∃ type, LeadsTo aliases a.base type) ∧
    ∀ known', aliasPasses known pending passes = .ok known' → Progress aliases known' [] := by
  induction passes generalizing known pending with
  | zero => exact absurd hpasses (Nat.not_lt_zero _)
  | succ passes ih =>
    rw [aliasPasses]
    split
    · next hempty =>
      rw [List.isEmpty_iff] at hempty
      subst hempty
      refine ⟨iff_of_true ⟨known, rfl⟩ fun a ha => ?_, fun known' hk => Except.ok.inj hk ▸ h⟩
      exact ((h.covered a ha).resolve_left List.not_mem_nil).2
    · next hne =>
      have hnil : pending ≠ [] := fun he => hne (List.isEmpty_iff.2 he)
      obtain ⟨hprogress, hle, hstuck⟩ := @Progress.pass aliases pending [] known h
      dsimp only
      split
      · next hlength =>
        refine ⟨iff_of_false (fun ⟨_, hk⟩ => nomatch hk) fun hall => ?_, nofun⟩
        obtain ⟨a, ha⟩ := List.exists_mem_of_ne_nil _ hnil
        obtain ⟨type, hl⟩ := hall a (h.subset a ha)
        obtain ⟨type', hk⟩ := h.exists_scalarOf? (hstuck hlength) hl
        rw [hstuck hlength a ha] at hk
        cases hk
      · next hlength => exact ih hprogress (by omega)

theorem progress_initial (aliases : List Alias) : Progress aliases [] aliases where
  sound _ _ h := nomatch h
  subset _ h := h
  covered _ h := .inl h

/-! ## What aliases resolve to -/

/-- Aliases resolve exactly when each of them leads to a scalar type. -/
theorem resolveAliases_isOk_iff (aliases : List Alias) :
    (∃ known, resolveAliases aliases = .ok known) ↔
      ∀ a ∈ aliases, ∃ type, LeadsTo aliases a.base type :=
  ((progress_initial aliases).passes (Nat.lt_succ_self _)).1

/-- With resolved aliases a name means the scalar type that it leads to. -/
theorem scalarOf?_resolveAliases (hown : OwnNames aliases) (h : resolveAliases aliases = .ok known)
    {name : String} {type : Scalar} :
    scalarOf? known name = some type ↔ LeadsTo aliases name type := by
  have hdone := ((progress_initial aliases).passes (Nat.lt_succ_self _)).2 known h
  refine ⟨hdone.leadsTo_of_scalarOf?, fun hl => ?_⟩
  obtain ⟨type', hk⟩ := hdone.exists_scalarOf? nofun hl
  rw [hk, (hdone.leadsTo_of_scalarOf? hk).unique hown hl]

end Shapewise.Schema
