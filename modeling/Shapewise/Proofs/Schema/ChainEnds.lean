import Shapewise.Proofs.Schema.Announced

/-!
# Where chains of aliases end

The passes over the aliases stop in one of two ways. Either nothing remains after at most as many
passes as there are aliases, or a pass finds no base that is known; then what remains are the aliases
whose chains do not reach a scalar type, in the order in which they are defined (`Progress.ends`). So
each alias is given the scalar type at the end of its chain, or the definitions are refused with the
names of all aliases that lead nowhere (`aliases_resolve_to_chain_ends`).
-/

namespace Shapewise.Schema

open Outcome

variable {aliases pending : List Alias} {known : List (String × Scalar)}
  {definitions : List Definition}

/-- What is known and what remains after some passes. -/
def afterPasses (known : List (String × Scalar)) (pending : List Alias) :
    Nat → List (String × Scalar) × List Alias
  | 0 => (known, pending)
  | passes + 1 => afterPasses (aliasPass known pending).1 (aliasPass known pending).2 passes

/-! ## What a pass keeps -/

/-- What a pass leaves stands in the order in which it stood before. -/
theorem sublist_aliasPass (known : List (String × Scalar)) (pending : List Alias) :
    (aliasPass known pending).2.Sublist pending := by
  induction pending generalizing known with
  | nil => exact .slnil
  | cons a pending ih =>
    rw [aliasPass]
    cases scalarOf? known a.base with
    | some type => exact (ih _).cons a
    | none => exact (ih _).cons_cons a

/-- A pass learns nothing but aliases. -/
theorem mem_keys_aliasPass {name : String} (h : name ∈ Entries.keys (aliasPass known pending).1) :
    name ∈ Entries.keys known ∨ name ∈ pending.map Alias.name := by
  induction pending generalizing known with
  | nil => exact .inl h
  | cons a pending ih =>
    rw [aliasPass] at h
    rw [List.map_cons, List.mem_cons]
    cases hs : scalarOf? known a.base with
    | some type =>
      rw [hs] at h
      rcases ih h with hk | hp
      · rcases Entries.mem_keys_put.1 hk with hk | rfl
        · exact .inl hk
        · exact .inr (.inl rfl)
      · exact .inr (.inr hp)
    | none =>
      rw [hs] at h
      exact (ih h).imp_right .inr

theorem mem_keys_afterPasses {passes : Nat} {name : String}
    (h : name ∈ Entries.keys (afterPasses known pending passes).1) :
    name ∈ Entries.keys known ∨ name ∈ pending.map Alias.name := by
  induction passes generalizing known pending with
  | zero => exact .inl h
  | succ passes ih =>
    rcases ih h with hk | hp
    · exact mem_keys_aliasPass hk
    · exact .inr (((sublist_aliasPass known pending).map Alias.name).subset hp)

/-! ## How the passes stop -/

/-- With more passes than aliases that remain, the passes stop: after at most as many of them as
aliases remain, when none remains, or when no base of what remains is known. -/
theorem Progress.ends {passes : Nat} (h : Progress aliases known pending)
    (hpasses : pending.length < passes) :
    (∃ used ≤ pending.length, ∃ known', afterPasses known pending used = (known', []) ∧
      aliasPasses known pending passes = .ok known' ∧ Progress aliases known' []) ∨
    ∃ known' stuck, stuck ≠ [] ∧ stuck.Sublist pending ∧ Progress aliases known' stuck ∧
      (∀ a ∈ stuck, scalarOf? known' a.base = none) ∧
      aliasPasses known pending passes = .error (.openAliases (stuck.map Alias.name)) := by
  induction passes generalizing known pending with
  | zero => exact absurd hpasses (Nat.not_lt_zero _)
  | succ passes ih =>
    rw [aliasPasses]
    split
    · next hempty =>
      rw [List.isEmpty_iff] at hempty
      subst hempty
      exact .inl ⟨0, Nat.zero_le _, known, rfl, rfl, h⟩
    · next hne =>
      obtain ⟨hprogress, hle, hstuck⟩ := @Progress.pass aliases pending [] known h
      rw [List.nil_append] at hprogress
      have hsub := sublist_aliasPass known pending
      dsimp only
      split
      · next hlength =>
        -- as many remain as there were, so these are the same
        have hsame : (aliasPass known pending).2 = pending := hsub.eq_of_length hlength
        rw [hsame]
        exact .inr ⟨known, pending, fun he => hne (List.isEmpty_iff.2 he), .refl _, h,
          hstuck hlength, rfl⟩
      · next hlength =>
        have hlt : (aliasPass known pending).2.length < pending.length :=
          lt_of_le_of_ne hle hlength
        rcases ih hprogress (by omega) with
          ⟨used, hused, known', hafter, hok, hdone⟩ | ⟨known', stuck, hnil, hkept, hrest⟩
        · refine .inl ⟨used + 1, ?_, known', hafter, hok, hdone⟩
          exact Nat.succ_le_of_lt (lt_of_le_of_lt hused hlt)
        · exact .inr ⟨known', stuck, hnil, hkept.trans hsub, hrest⟩

/-- Where aliases have names of their own, an alias leads where its base leads. -/
theorem LeadsTo.name_iff (h : OwnNames aliases) {a : Alias} (ha : a ∈ aliases) {type : Scalar} :
    LeadsTo aliases a.name type ↔ LeadsTo aliases a.base type := by
  refine ⟨fun hl => ?_, .step ha⟩
  rcases hl.cases_alias with hb | ⟨b, hb, hname, hbase⟩
  · rw [h.new a ha] at hb
    cases hb
  · rwa [h.eq_of_name hb ha hname] at hbase

/-- Where no base of what remains is known, what remains are the aliases that lead nowhere. -/
theorem Progress.mem_iff_of_stuck (h : Progress aliases known pending) (hown : OwnNames aliases)
    (hstuck : ∀ a ∈ pending, scalarOf? known a.base = none) {a : Alias} (ha : a ∈ aliases) :
    a ∈ pending ↔ ¬ ∃ type, LeadsTo aliases a.name type := by
  constructor
  · rintro hpending ⟨type, hl⟩
    obtain ⟨type', hk⟩ := h.exists_scalarOf? hstuck ((LeadsTo.name_iff hown ha).1 hl)
    rw [hstuck a hpending] at hk
    cases hk
  · intro hnone
    refine (h.covered a ha).resolve_right ?_
    rintro ⟨-, type, hl⟩
    exact hnone ⟨type, .step ha hl⟩

/-- Once nothing remains, the names that are known are those of the aliases, each with the scalar type
to which it leads. -/
theorem Progress.get?_eq_some_iff (h : Progress aliases known []) (hown : OwnNames aliases)
    (hkeys : ∀ name ∈ Entries.keys known, name ∈ aliases.map Alias.name) {name : String}
    {type : Scalar} : Entries.get? known name = some type ↔
      name ∈ aliases.map Alias.name ∧ LeadsTo aliases name type := by
  constructor
  · intro hk
    exact ⟨hkeys name (Entries.exists_get?_iff.1 ⟨type, hk⟩), h.sound name type hk⟩
  · rintro ⟨hname, hl⟩
    obtain ⟨a, ha, rfl⟩ := List.mem_map.1 hname
    obtain ⟨⟨type', hk⟩, -⟩ := (h.covered a ha).resolve_left List.not_mem_nil
    rw [hk, (h.sound _ _ hk).unique hown hl]

/-! ## Definitions -/

/-- Definitions with names of their own are announced as far as their aliases resolve. -/
theorem Named.announceAll_eq (h : Named definitions) : announceAll definitions =
    (resolveAliases (aliasesOf definitions)).map fun known =>
      .stage known [] (announced definitions) := by
  obtain ⟨⟨hnodup, hnew⟩, haliases⟩ := named_iff.1 h
  have hempty : Draft.empty = .stage [] [] [] := rfl
  have hannounced : definitions.foldlM Draft.announceDefinition .empty =
      .ok (.stage [] [] (announced definitions)) := by
    rw [hempty, foldlM_announceDefinition_iff]
    exact ⟨⟨hnodup, fun name hname => ⟨hnew name hname, List.not_mem_nil⟩⟩, rfl⟩
  have hchecked := checkAlias_eq_ok_iff.2 haliases
  rw [announceAll, hannounced]
  show ((aliasesOf definitions).forM ((Draft.stage [] [] (announced definitions)).checkAlias _) >>=
    fun _ => _) = _
  rw [hchecked]
  cases resolveAliases (aliasesOf definitions) with
  | ok known => rfl
  | error f => rfl

/-- Definitions have names of their own. If every alias leads to a scalar type, nothing remains after at
most as many passes as there are aliases, and each alias has become known with the type to which it
leads. Otherwise the definitions are refused, and the fault lists the aliases that lead to no scalar
type and no others, in the order of their definitions. -/
theorem aliases_resolve_to_chain_ends (definitions : List Definition) (h : Named definitions) :
    let aliases := aliasesOf definitions
    ((∀ a ∈ aliases, ∃ type, LeadsTo aliases a.name type) →
      ∃ passes < aliases.length + 1, ∃ known, afterPasses [] aliases passes = (known, []) ∧
        announceAll definitions = .ok (.stage known [] (announced definitions)) ∧
        ∀ name type, Entries.get? known name = some type ↔
          name ∈ aliases.map Alias.name ∧ LeadsTo aliases name type) ∧
    ((¬ ∀ a ∈ aliases, ∃ type, LeadsTo aliases a.name type) →
      ∃ stuck : List Alias, stuck.Sublist aliases ∧
        (∀ a ∈ aliases, a ∈ stuck ↔ ¬ ∃ type, LeadsTo aliases a.name type) ∧
        resolve definitions = .error (.openAliases (stuck.map Alias.name)) ∧
        let names := Text.Quoted.encodeList (stuck.map Alias.name)
        (ResolveFault.openAliases (stuck.map Alias.name)).message =
          s!"Cannot resolve aliases: {names}") := by
  intro aliases
  have hown : OwnNames aliases := h.ownNames
  have hannounce := h.announceAll_eq
  rcases (progress_initial aliases).ends (Nat.lt_succ_self _) with
    ⟨used, hused, known, hafter, hok, hdone⟩ | ⟨known, stuck, hnil, hsub, hprogress, hstuck, herror⟩
  · have hkeys : ∀ name ∈ Entries.keys known, name ∈ aliases.map Alias.name := by
      intro name hname
      have hk : name ∈ Entries.keys (afterPasses [] aliases used).1 := by rwa [hafter]
      exact (mem_keys_afterPasses hk).resolve_left List.not_mem_nil
    refine ⟨fun _ => ⟨used, Nat.lt_succ_of_le hused, known, hafter, ?_, fun name type => ?_⟩,
      fun hnone => absurd (fun a ha => ?_) hnone⟩
    · rw [hannounce, resolveAliases, hok]
      rfl
    · exact hdone.get?_eq_some_iff hown hkeys
    · obtain ⟨-, type, hl⟩ := (hdone.covered a ha).resolve_left List.not_mem_nil
      exact ⟨type, .step ha hl⟩
  · have hiff : ∀ a ∈ aliases, a ∈ stuck ↔ ¬ ∃ type, LeadsTo aliases a.name type :=
      fun a ha => hprogress.mem_iff_of_stuck hown hstuck ha
    refine ⟨fun hall => ?_, fun _ => ⟨stuck, hsub, hiff, ?_, rfl⟩⟩
    · obtain ⟨a, ha⟩ := List.exists_mem_of_ne_nil _ hnil
      exact absurd (hall a (hsub.subset ha)) ((hiff a (hsub.subset ha)).1 ha)
    · have hfault : announceAll definitions = .error (.openAliases (stuck.map Alias.name)) := by
        rw [hannounce, resolveAliases, herror]
        rfl
      rw [resolve, resolveFar, hfault]

/-- A chain with its end last, a cycle around it and a base that is not defined: `a` and `b` reach
`string`, the others reach nothing. -/
def mixedAliases : List Definition :=
  [.alias "a" "b", .alias "c" "d", .alias "b" "string", .alias "d" "c", .alias "e" "nowhere"]

/-- The same chain alone. -/
def chainedAliases : List Definition :=
  [.alias "a" "b", .alias "b" "string"]

theorem aliases_resolve_to_chain_ends_mixed :
    (Named mixedAliases ∧ (¬ ∀ a ∈ aliasesOf mixedAliases, ∃ type,
        LeadsTo (aliasesOf mixedAliases) a.name type) ∧
      ∃ stuck : List Alias, (∀ a ∈ aliasesOf mixedAliases, a ∈ stuck ↔
          ¬ ∃ type, LeadsTo (aliasesOf mixedAliases) a.name type) ∧
        stuck.map Alias.name = ["c", "d", "e"]) ∧
    Named chainedAliases ∧ (∀ a ∈ aliasesOf chainedAliases, ∃ type,
        LeadsTo (aliasesOf chainedAliases) a.name type) ∧
      ∃ passes < 3, ∃ known, afterPasses [] (aliasesOf chainedAliases) passes = (known, []) ∧
        Entries.get? known "a" = some .string := by
  have hmixed : Named mixedAliases := ⟨by decide, by decide⟩
  have hchained : Named chainedAliases := ⟨by decide, by decide⟩
  have hrefused : resolve mixedAliases = .error (.openAliases ["c", "d", "e"]) := by decide
  obtain ⟨hall, hstuck⟩ := aliases_resolve_to_chain_ends mixedAliases hmixed
  have hnot : ¬ ∀ a ∈ aliasesOf mixedAliases, ∃ type,
      LeadsTo (aliasesOf mixedAliases) a.name type := by
    intro h
    obtain ⟨-, -, known, -, hok, -⟩ := hall h
    rw [resolve, resolveFar, hok] at hrefused
    cases hrefused
  have hend : LeadsTo (aliasesOf chainedAliases) "b" .string :=
    .step (a := ⟨"b", "string"⟩) (by decide) (.builtin rfl)
  have hstart : LeadsTo (aliasesOf chainedAliases) "a" .string :=
    .step (a := ⟨"a", "b"⟩) (by decide) hend
  have hleads : ∀ a ∈ aliasesOf chainedAliases, ∃ type,
      LeadsTo (aliasesOf chainedAliases) a.name type := by
    intro a ha
    have hlist : aliasesOf chainedAliases = [⟨"a", "b"⟩, ⟨"b", "string"⟩] := rfl
    obtain rfl | rfl : a = ⟨"a", "b"⟩ ∨ a = ⟨"b", "string"⟩ := by simpa [hlist] using ha
    · exact ⟨_, hstart⟩
    · exact ⟨_, hend⟩
  refine ⟨⟨hmixed, hnot, ?_⟩, hchained, hleads, ?_⟩
  · obtain ⟨stuck, -, hiff, hresolve, -⟩ := hstuck hnot
    rw [hrefused, Except.error.injEq, ResolveFault.openAliases.injEq] at hresolve
    exact ⟨stuck, hiff, hresolve.symm⟩
  · obtain ⟨passes, hpasses, known, hafter, -, hget⟩ :=
      (aliases_resolve_to_chain_ends chainedAliases hchained).1 hleads
    exact ⟨passes, hpasses, known, hafter, (hget "a" .string).2 ⟨by decide, hstart⟩⟩

end Shapewise.Schema
