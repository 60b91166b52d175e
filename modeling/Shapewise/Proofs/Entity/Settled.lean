import Shapewise.Proofs.Entity.Construction

/-!
# What a frozen registry guarantees

An entity is checked against the rules when it is registered, at a time when what it leads to may
still be empty or not be registered at all, and freezing looks one step ahead only. Yet where no
entity is changed after it was registered (`Construction.LeftAlone`), a registry that is frozen is
closed: every entity keeps the rules, and all that is reached from it is what its own name means
(`frozen_registry_closed`).

The invariant (`Construction.Settled`) carries along the entities that were registered: they keep the
rules, and a name that is no longer merely announced is bound to one of them. A later event leaves
them as they are and lets the graph grow, so their rules and their references survive it.
-/

namespace Shapewise.Construction

/-- The entity that an event registers with success. -/
def registered? (s : Construction) : Event → Option EntityId
  | .call (.register id) =>
    if (s.graph.get? id).isSome ∧ (s.call (.register id)).isOk then some id else none
  | _ => none

/-- No event changes an entity after it was registered; `done` are those that were registered before. -/
def LeftAlone (s : Construction) (done : List EntityId) : List Event → Prop
  | [] => True
  | ev :: es => (∀ id ∈ done, (s.after ev).graph.get? id = s.graph.get? id) ∧
    LeftAlone (s.after ev) ((s.registered? ev).toList ++ done) es

instance decidableLeftAlone (s : Construction) (done : List EntityId) :
    (es : List Event) → Decidable (s.LeftAlone done es)
  | [] => .isTrue trivial
  | ev :: es =>
    have := decidableLeftAlone (s.after ev) ((s.registered? ev).toList ++ done) es
    inferInstanceAs (Decidable (_ ∧ _))

/-- The entities that were registered keep the rules, a name that is not merely announced is bound to
one of them, and what is frozen is complete. -/
structure Settled (s : Construction) (done : List EntityId) : Prop extends s.Invariant where
  finished : ∀ name id, (name, id) ∈ s.registry.bindings →
    name ∈ s.registry.announced ∨ id ∈ done
  keepsRules : ∀ id ∈ done, ∃ e, s.graph.get? id = some e ∧ s.graph.KeepsRules e
  complete : s.registry.isFrozen = true → s.registry.Complete s.graph

variable {s s' : Construction} {done : List EntityId} {ev : Event} {id : EntityId}

theorem settled_empty : empty.Settled [] :=
  ⟨invariant_empty, nofun, nofun, nofun⟩

theorem Invariant.registry_named (h : s.Invariant) : s.registry.Named s.graph :=
  fun name id hid => h.named name id (Entries.mem_of_get? hid)

/-! ## One step -/

theorem registered?_of_call {e : Entity} (he : s.graph.get? id = some e)
    (h : s.call (.register id) = .ok s') : s.registered? (.call (.register id)) = some id := by
  have hok : (s.graph.get? id).isSome ∧ (s.call (.register id)).isOk := by
    rw [he, h]
    exact ⟨rfl, rfl⟩
  exact if_pos hok

theorem after_of_call {c : Call} (h : s.call c = .ok s') : s.after (.call c) = s' := by
  rw [after, c.program_eq, h]

/-- An entity that is registered keeps the rules, and registering changes no entity. -/
theorem keepsRules_of_registered? (h : s.registered? ev = some id) :
    (s.after ev).graph = s.graph ∧ ∃ e, s.graph.get? id = some e ∧ s.graph.KeepsRules e := by
  unfold registered? at h
  split at h
  · next id' =>
    split at h
    · next hok =>
      cases h
      obtain ⟨e, he⟩ := Option.isSome_iff_exists.1 hok.1
      cases hcall : s.call (.register id) with
      | error f => simp [hcall, Except.isOk, Except.toBool] at hok
      | ok s' =>
        rw [after_of_call hcall]
        cases Call.does_of_call hcall with
        | nothing hid =>
          rw [hid] at he
          cases he
        | bind hid hopen hnew hrules => exact ⟨rfl, _, hid, hrules⟩
        | finish hid hopen hannounced hbound hrules => exact ⟨rfl, _, hid, hrules⟩
    · cases h
  · cases h

/-- A complete registry stays so while the entities with names are left alone. -/
theorem complete_of_grows {r : Registry} {g g' : Graph} (h : r.Complete g) (hnamed : r.Named g)
    (hg : g.Grows g') (hsame : ∀ name id, (name, id) ∈ r.bindings → g'.get? id = g.get? id) :
    r.Complete g' := by
  have hnamed' : r.Named g' := by
    intro name id hid
    obtain ⟨e, he, hname⟩ := hnamed name id hid
    obtain ⟨e', he', hname', -⟩ := hg id e he
    exact ⟨e', he', hname'.trans hname⟩
  refine ⟨h.announced, fun name id e hb he t ht => ?_⟩
  rw [hsame name id hb] at he
  have hbound := h.leads name id e hb he t ht
  cases t with
  | entity id' =>
    obtain ⟨e', he', hid'⟩ := hnamed.isBound_iff.1 hbound
    obtain ⟨e'', he'', hname, -⟩ := hg id' e' he'
    exact hnamed'.isBound_iff.2 ⟨e'', he'', hname ▸ hid'⟩
  | _ => cases hbound

/-- A name of the state after an event is still announced, it is bound to an entity that the event
registers, or it was bound and no longer announced before. -/
theorem binding_cases (h : s.Invariant) (ev : Event) {name : String}
    (hb : (name, id) ∈ (s.after ev).registry.bindings) :
    name ∈ (s.after ev).registry.announced ∨ s.registered? ev = some id ∨
      (name, id) ∈ s.registry.bindings ∧ name ∉ s.registry.announced := by
  by_cases hold : (name, id) ∈ s.registry.bindings ∧ name ∉ s.registry.announced
  · exact .inr (.inr hold)
  have hannounced : (name, id) ∈ s.registry.bindings → name ∈ s.registry.announced :=
    fun hm => not_not.1 fun hn => hold ⟨hm, hn⟩
  rcases s.after_cases ev with ⟨hregistry, -⟩ | ⟨c, rfl, hcall⟩
  · rw [hregistry] at hb ⊢
    exact .inl (hannounced hb)
  · generalize s.after (.call c) = s' at hb hcall ⊢
    cases Call.does_of_call hcall with
    | nothing | again | still | freeze => exact .inl (hannounced hb)
    | @bind _ e hid hopen hnew hrules =>
      rcases List.mem_append.1 hb with hb | hb
      · have hne : name ≠ e.name := by
          rintro rfl
          exact Entries.get?_eq_none_iff.1 hnew (Entries.mem_keys.2 ⟨id, hb⟩)
        exact .inl (NameSet.mem_erase.2 ⟨hannounced hb, hne⟩)
      · cases List.mem_singleton.1 hb
        exact .inr (.inl (registered?_of_call hid hcall))
    | @finish id' e hid hopen hmem hbound hrules =>
      by_cases hname : name = e.name
      · obtain rfl : id' = id := by
          have hget := (Entries.get?_eq_some_iff h.nodup).2 hb
          rw [hname] at hget
          exact Option.some.inj (hbound.symm.trans hget)
        exact .inr (.inl (registered?_of_call hid hcall))
      · exact .inl (NameSet.mem_erase.2 ⟨hannounced hb, hname⟩)
    | @announce new kind hopen hnew =>
      rcases List.mem_append.1 hb with hb | hb
      · exact .inl (NameSet.mem_insert.2 (.inr (hannounced hb)))
      · cases List.mem_singleton.1 hb
        exact .inl (NameSet.mem_insert.2 (.inl rfl))

/-- What is frozen after an event was frozen before, or it is complete. -/
theorem frozen_cases (h : (s.after ev).registry.isFrozen = true) :
    s.registry.isFrozen = true ∨ (s.after ev).registry.Complete (s.after ev).graph := by
  rcases s.after_cases ev with ⟨hregistry, -⟩ | ⟨c, rfl, hcall⟩
  · exact .inl (hregistry ▸ h)
  · generalize s.after (.call c) = s' at h hcall ⊢
    cases Call.does_of_call hcall with
    | nothing | again | still => exact .inl h
    | bind | finish | announce => cases h
    | freeze hopen hcomplete => exact .inr hcomplete.freeze

/-- An event that leaves alone what was registered keeps the invariant. -/
theorem Settled.after (h : s.Settled done)
    (halone : ∀ id ∈ done, (s.after ev).graph.get? id = s.graph.get? id) :
    (s.after ev).Settled ((s.registered? ev).toList ++ done) := by
  have hcontinues := s.continues_after ev
  refine ⟨h.toInvariant.after ev, fun name id hb => ?_, fun id hid => ?_, fun hfrozen => ?_⟩
  · rcases binding_cases h.toInvariant ev hb with hname | hid | ⟨hb, hname⟩
    · exact .inl hname
    · exact .inr (List.mem_append_left _ (Option.mem_toList.2 hid))
    · exact .inr (List.mem_append_right _ ((h.finished name id hb).resolve_left hname))
  · rcases List.mem_append.1 hid with hid | hid
    · obtain ⟨hgraph, e, he, hrules⟩ := keepsRules_of_registered? (Option.mem_toList.1 hid)
      rw [hgraph]
      exact ⟨e, he, hrules⟩
    · obtain ⟨e, he, hrules⟩ := h.keepsRules id hid
      exact ⟨e, (halone id hid).trans he, hrules.grows hcontinues.grows⟩
  · rcases frozen_cases hfrozen with hfrozen | hcomplete
    · have hcomplete := h.complete hfrozen
      rw [hcontinues.frozen hfrozen]
      refine complete_of_grows hcomplete h.registry_named hcontinues.grows fun name id hb => ?_
      exact halone id ((h.finished name id hb).resolve_left (hcomplete.announced name))
    · exact hcomplete

/-! ## Runs -/

theorem Settled.run (h : s.Settled done) {es : List Event} (halone : s.LeftAlone done es) :
    ∃ done', (s.run es).Settled done' := by
  induction es generalizing s done with
  | nil => exact ⟨done, h⟩
  | cons ev es ih => exact ih (h.after halone.1) halone.2

/-- Where nothing is changed after it was registered, a complete registry is closed. -/
theorem Settled.closed (h : s.Settled done) (hcomplete : s.registry.Complete s.graph) :
    s.registry.Closed s.graph := by
  refine hcomplete.closed fun name id hid => ?_
  have hb := Entries.mem_of_get? hid
  obtain ⟨e, he, hname⟩ := h.named name id hb
  obtain ⟨e', he', hrules⟩ := h.keepsRules id
    ((h.finished name id hb).resolve_left (hcomplete.announced name))
  obtain rfl : e = e' := Option.some.inj (he.symm.trans he')
  exact ⟨e, he, hname, hrules⟩

/-- Where no entity is changed after it was registered, freezing succeeds for a closed registry only;
and where a name is merely announced, or something that is reached is not what its own name means, it
fails and leaves the registry open and everything as it was. -/
theorem frozen_registry_closed (es : List Event) (h : empty.LeftAlone [] es) {s : Construction}
    (hs : s = empty.run es) :
    (∀ s', Call.freeze.program s = .ok () s' → s'.registry.Closed s'.graph) ∧
    (s.registry.isFrozen = true → s.registry.Closed s.graph) ∧
    (((∃ name, name ∈ s.registry.announced) ∨ ∃ name id id', s.registry.get? name = some id ∧
        s.graph.Reaches id id' ∧ ¬ s.registry.Binds s.graph id') →
      s.registry.isFrozen = false ∧ ∃ f, Call.freeze.program s = .error f s) := by
  obtain ⟨done, hsettled⟩ := settled_empty.run h
  rw [← hs] at hsettled
  have hfrozen : s.registry.isFrozen = true → s.registry.Closed s.graph :=
    fun hf => hsettled.closed (hsettled.complete hf)
  have hfreeze : ∀ {s'}, s.call .freeze = .ok s' → s.registry.Closed s.graph ∧
      s'.registry.Closed s'.graph := by
    intro s' hcall
    cases Call.does_of_call hcall with
    | still hf => exact ⟨hfrozen hf, hfrozen hf⟩
    | freeze hopen hcomplete =>
      have hclosed := hsettled.closed hcomplete
      exact ⟨hclosed, hclosed.freeze⟩
  refine ⟨fun s' hs' => ?_, hfrozen, fun hmissing => ?_⟩
  · rw [Call.program_eq] at hs'
    cases hcall : s.call .freeze with
    | error f =>
      rw [hcall] at hs'
      cases hs'
    | ok s'' =>
      rw [hcall] at hs'
      cases hs'
      exact (hfreeze hcall).2
  · have hnot : ¬ s.registry.Closed s.graph := by
      rintro ⟨hannounced, -, hbinds⟩
      rcases hmissing with ⟨name, hname⟩ | ⟨name, id, id', hid, hreach, hnot⟩
      · exact hannounced name hname
      · exact hnot (hbinds name id id' hid hreach)
    refine ⟨Bool.eq_false_iff.2 fun hf => hnot (hfrozen hf), ?_⟩
    rw [Call.program_eq]
    cases hcall : s.call .freeze with
    | error f => exact ⟨f, rfl⟩
    | ok s' => exact absurd (hfreeze hcall).1 hnot

/-- Posts of users: the users are announced, the posts refer to them and are registered, and then the
users get their posts and are registered. -/
def postsOfUsers : List Event := [
  .call (.announce "User" .resource),
  .create (.record ⟨.resource, "Post", [],
    [("author", ⟨"author", .relationship, .entity ⟨0⟩, false, true⟩)]⟩),
  .call (.register ⟨1⟩),
  .change ⟨0⟩ (.record ⟨.resource, "User", [],
    [("posts", ⟨"posts", .relationship, .entity ⟨1⟩, true, false⟩)]⟩),
  .call (.register ⟨0⟩)]

theorem frozen_registry_closed_posts : empty.LeftAlone [] postsOfUsers ∧
    (∃ s', Call.freeze.program (empty.run postsOfUsers) = .ok () s' ∧
      s'.registry.Closed s'.graph) ∧
    empty.LeftAlone [] (postsOfUsers.take 4) ∧
    (empty.run (postsOfUsers.take 4)).registry.isFrozen = false ∧
    ∃ f, Call.freeze.program (empty.run (postsOfUsers.take 4)) =
      .error f (empty.run (postsOfUsers.take 4)) := by
  have halone : empty.LeftAlone [] postsOfUsers := by decide +kernel
  have hopen : empty.LeftAlone [] (postsOfUsers.take 4) := by decide +kernel
  have hannounced : "User" ∈ (empty.run (postsOfUsers.take 4)).registry.announced := by
    decide +kernel
  have hfreeze : ∃ s', Call.freeze.program (empty.run postsOfUsers) = .ok () s' := ⟨_, rfl⟩
  obtain ⟨s', hs'⟩ := hfreeze
  exact ⟨halone, ⟨s', hs', (frozen_registry_closed postsOfUsers halone rfl).1 s' hs'⟩, hopen,
    (frozen_registry_closed _ hopen rfl).2.2 (.inl ⟨"User", hannounced⟩)⟩

end Shapewise.Construction
