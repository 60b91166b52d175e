import Shapewise.Proofs.Entity.Reach

/-!
# Building a registry by hand

Entities are made, their members are changed, and in between a registry is called: to register an
entity, to announce one, or to freeze. A call is a program (`Call.program`) that checks and writes
one step after the other; what is written before a fault stays written. Nothing ever is: a call
writes only when nothing can fail any more, so it either does all that its function of the registry
does or leaves everything as it was (`Call.program_eq`).

What a call does is said once (`Call.Does`), with its guards. From that follow what holds in every
state (`Construction.Invariant`) and how a later state relates to an earlier one
(`Construction.Continues`): first for one step and then, by induction, for every run.
-/

namespace Shapewise

/-- Entities and the registry into which they go. -/
structure Construction where
  graph : Graph
  registry : Registry
  deriving DecidableEq

/-- A call of a registry. -/
inductive Call
  | register (id : EntityId)
  | announce (name : String) (kind : EntityKind)
  | freeze
  deriving DecidableEq, Repr

/-- What can happen: an entity is made, the members of one are replaced, or the registry is called. -/
inductive Event
  | create (e : Entity)
  | change (id : EntityId) (e : Entity)
  | call (c : Call)
  deriving DecidableEq, Repr

namespace Construction

/-- No entities and an empty registry. -/
def empty : Construction := ⟨.empty, .empty⟩

/-- What the registry makes of a call. -/
def call (s : Construction) : Call → Except SchemaFault Construction
  | .register id => do
    return { s with registry := ← s.registry.register s.graph id }
  | .announce name kind => do
    let (registry, graph, _) ← s.registry.announce s.graph name kind
    return ⟨graph, registry⟩
  | .freeze => do
    return { s with registry := ← s.registry.freeze s.graph }

end Construction

/-! ## Calls as programs -/

namespace Call

/-- A program over a construction that can fail; what it has written before a fault stays. -/
abbrev Program : Type → Type := EStateM SchemaFault Construction

/-- Writes to the registry. -/
def write (f : Registry → Registry) : Program Unit :=
  modify fun s => { s with registry := f s.registry }

/-- Fails for a registry that is frozen. -/
def ensureOpen (name : String) : Program Unit := do
  if (← get).registry.isFrozen then throw (.frozen name)

/-- A call, step by step. -/
def program : Call → Program Unit
  | .register id => do
    let s ← get
    match s.graph.get? id with
    | none => return
    | some e =>
      ensureOpen e.name
      match s.registry.get? e.name with
      | some old =>
        unless e.name ∈ s.registry.announced ∧ old = id do throw (.alreadyDefined e.name)
      | none => pure ()
      ofExcept (s.graph.checkRules e)
      write fun r => { r with bindings := Entries.put r.bindings e.name id }
      write fun r => { r with announced := r.announced.erase e.name }
  | .announce name kind => do
    ensureOpen name
    let s ← get
    match s.registry.get? name with
    | some old =>
      unless name ∈ s.registry.announced ∧ (s.graph.get? old).map Entity.kind = some kind do
        throw (.alreadyDefined name)
    | none =>
      let (graph, id) := s.graph.add (.empty kind name)
      set { s with graph := graph }
      write fun r => { r with bindings := Entries.put r.bindings name id }
      write fun r => { r with announced := r.announced.insert name }
  | .freeze => do
    let s ← get
    if s.registry.isFrozen then return
    unless s.registry.announced.names.isEmpty do throw (.neverDefined s.registry.announced.names)
    ofExcept (Graph.firstFault
      (s.registry.bindings.map fun b => (s.graph.get? b.2).bind (s.registry.leakFault? s.graph)))
    write fun r => { r with isFrozen := true }

/-! ### Runs of programs -/

section runs

variable {α β : Type} {s : Construction}

theorem bind_run (x : Program α) (f : α → Program β) : (x >>= f) s =
    match x s with
    | .ok a s' => f a s'
    | .error e s' => .error e s' := by
  show EStateM.bind x f s = _
  rw [EStateM.bind]
  cases x s <;> rfl

theorem get_run : (get : Program Construction) s = .ok s s := rfl

theorem write_run (f : Registry → Registry) :
    write f s = .ok () { s with registry := f s.registry } := rfl

theorem ensureOpen_run (name : String) : ensureOpen name s =
    if s.registry.isFrozen then .error (.frozen name) s else .ok () s := by
  unfold ensureOpen
  rw [bind_run, get_run]
  simp only
  split
  · rfl
  · rfl

theorem ofExcept_run (x : Except SchemaFault Unit) : (ofExcept x : Program Unit) s =
    match x with
    | .ok _ => .ok () s
    | .error f => .error f s := by
  cases x <;> rfl

end runs

/-- Binding checks the rules before it writes. -/
theorem bind_entity_run (g : Graph) (r : Registry) (id : EntityId) (e : Entity) :
    (do ofExcept (g.checkRules e)
        write fun r => { r with bindings := Entries.put r.bindings e.name id }
        write fun r => { r with announced := r.announced.erase e.name } : Program Unit) ⟨g, r⟩ =
      match Registry.register.bind r g id e with
      | .ok r' => .ok () ⟨g, r'⟩
      | .error f => .error f ⟨g, r⟩ := by
  simp only [bind_run, ofExcept_run, write_run, Registry.register.bind]
  cases g.checkRules e <;> rfl

theorem program_register_eq (s : Construction) (id : EntityId) : (register id).program s =
    match s.registry.register s.graph id with
    | .ok r => .ok () ⟨s.graph, r⟩
    | .error f => .error f s := by
  obtain ⟨g, r⟩ := s
  simp only [program, Registry.register, bind_run, get_run]
  cases g.get? id with
  | none => rfl
  | some e =>
    simp only [bind_run, ensureOpen_run]
    cases r.isFrozen with
    | true => rfl
    | false =>
      simp only [Bool.false_eq_true, if_false]
      cases r.get? e.name with
      | none => exact bind_entity_run g r id e
      | some old =>
        by_cases hfinish : e.name ∈ r.announced ∧ old = id
        · simp only [if_pos hfinish]
          exact bind_entity_run g r id e
        · simp only [if_neg hfinish]
          rfl

theorem program_announce_eq (s : Construction) (name : String) (kind : EntityKind) :
    (announce name kind).program s =
      match s.registry.announce s.graph name kind with
      | .ok (r, g, _) => .ok () ⟨g, r⟩
      | .error f => .error f s := by
  obtain ⟨g, bindings, names, isFrozen⟩ := s
  simp only [program, Registry.announce, bind_run, ensureOpen_run]
  cases isFrozen with
  | true => rfl
  | false =>
    simp only [Bool.false_eq_true, if_false, get_run]
    cases Registry.get? ⟨bindings, names, false⟩ name with
    | none => rfl
    | some old =>
      by_cases hrepeat : name ∈ names ∧ (g.get? old).map Entity.kind = some kind
      · simp only [if_pos hrepeat]
        rfl
      · simp only [if_neg hrepeat]
        rfl

theorem program_freeze_eq (s : Construction) : freeze.program s =
    match s.registry.freeze s.graph with
    | .ok r => .ok () ⟨s.graph, r⟩
    | .error f => .error f s := by
  obtain ⟨g, r⟩ := s
  simp only [program, Registry.freeze, bind_run, get_run]
  cases r.isFrozen with
  | true => rfl
  | false =>
    simp only [Bool.false_eq_true, if_false]
    cases r.announced.names.isEmpty with
    | false => rfl
    | true =>
      simp only [bind_run, ofExcept_run, Bool.not_true, Bool.false_eq_true, if_false, if_true]
      cases Graph.firstFault (r.bindings.map fun b => (g.get? b.2).bind (r.leakFault? g)) <;> rfl

/-- A call does all that its function of the registry does, or it leaves everything as it was. -/
theorem program_eq (c : Call) (s : Construction) : c.program s =
    match s.call c with
    | .ok s' => .ok () s'
    | .error f => .error f s := by
  cases c with
  | register id =>
    rw [program_register_eq, Construction.call]
    cases s.registry.register s.graph id <;> rfl
  | announce name kind =>
    rw [program_announce_eq, Construction.call]
    cases s.registry.announce s.graph name kind <;> rfl
  | freeze =>
    rw [program_freeze_eq, Construction.call]
    cases s.registry.freeze s.graph <;> rfl

/-! ## What a call does -/

/-- What a call does, with all that it asks for. It may do nothing: registering what is no entity,
announcing what is announced already, and freezing what is frozen. -/
inductive Does (s : Construction) : Call → Construction → Prop
  | nothing {id : EntityId} (hid : s.graph.get? id = none) : Does s (register id) s
  | bind {id : EntityId} {e : Entity} (hid : s.graph.get? id = some e)
    (hopen : s.registry.isFrozen = false) (hnew : s.registry.get? e.name = none)
    (hrules : s.graph.KeepsRules e) :
    Does s (register id) ⟨s.graph, ⟨s.registry.bindings ++ [(e.name, id)],
      s.registry.announced.erase e.name, false⟩⟩
  | finish {id : EntityId} {e : Entity} (hid : s.graph.get? id = some e)
    (hopen : s.registry.isFrozen = false) (hannounced : e.name ∈ s.registry.announced)
    (hbound : s.registry.get? e.name = some id) (hrules : s.graph.KeepsRules e) :
    Does s (register id) ⟨s.graph, ⟨s.registry.bindings, s.registry.announced.erase e.name, false⟩⟩
  | again {name : String} {kind : EntityKind} {id : EntityId}
    (hopen : s.registry.isFrozen = false) (hannounced : name ∈ s.registry.announced)
    (hbound : s.registry.get? name = some id)
    (hkind : (s.graph.get? id).map Entity.kind = some kind) : Does s (announce name kind) s
  | announce {name : String} {kind : EntityKind} (hopen : s.registry.isFrozen = false)
    (hnew : s.registry.get? name = none) :
    Does s (announce name kind) ⟨(s.graph.add (.empty kind name)).1,
      ⟨s.registry.bindings ++ [(name, ⟨s.graph.entities.length⟩)],
        s.registry.announced.insert name, false⟩⟩
  | still (hfrozen : s.registry.isFrozen = true) : Does s freeze s
  | freeze (hopen : s.registry.isFrozen = false) (hcomplete : s.registry.Complete s.graph) :
    Does s freeze ⟨s.graph, ⟨s.registry.bindings, s.registry.announced, true⟩⟩

variable {s s' : Construction}

theorem does_of_register {id : EntityId} {r : Registry}
    (h : s.registry.register s.graph id = .ok r) : (register id).Does s ⟨s.graph, r⟩ := by
  cases hid : s.graph.get? id with
  | none =>
    rw [Registry.register, hid] at h
    cases h
    exact .nothing hid
  | some e =>
    obtain ⟨hopen, hfree, hrules, rfl⟩ := (Registry.register_eq_ok_iff hid).1 h
    rw [hopen]
    rcases hfree with hnew | ⟨hannounced, hbound⟩
    · rw [Entries.put_of_not_mem (Entries.get?_eq_none_iff.1 hnew)]
      exact .bind hid hopen hnew hrules
    · rw [Entries.put_of_get? hbound]
      exact .finish hid hopen hannounced hbound hrules

theorem does_of_announce {name : String} {kind : EntityKind} {r : Registry} {g : Graph}
    {id : EntityId} (h : s.registry.announce s.graph name kind = .ok (r, g, id)) :
    (announce name kind).Does s ⟨g, r⟩ := by
  obtain ⟨hopen, hnew | hagain⟩ := Registry.announce_eq_ok_iff.1 h
  · obtain ⟨hnew, rfl, rfl, rfl⟩ := hnew
    rw [Entries.put_of_not_mem (Entries.get?_eq_none_iff.1 hnew), hopen]
    exact .announce hopen hnew
  · obtain ⟨⟨hannounced, hkind⟩, hbound, rfl, rfl⟩ := hagain
    exact .again hopen hannounced hbound hkind

theorem does_of_freeze {r : Registry} (h : s.registry.freeze s.graph = .ok r) :
    freeze.Does s ⟨s.graph, r⟩ := by
  cases hfrozen : s.registry.isFrozen with
  | true =>
    rw [Registry.freeze_of_isFrozen hfrozen] at h
    cases h
    exact .still hfrozen
  | false =>
    obtain ⟨hcomplete, rfl⟩ := (Registry.freeze_eq_ok_iff hfrozen).1 h
    exact .freeze hfrozen hcomplete

/-- Whatever a call does is one of these. -/
theorem does_of_call {c : Call} (h : s.call c = .ok s') : c.Does s s' := by
  cases c with
  | register id =>
    obtain ⟨r, hr, h⟩ := Outcome.bind_eq_ok_iff.1 h
    cases h
    exact does_of_register hr
  | announce name kind =>
    obtain ⟨⟨r, g, id⟩, hr, h⟩ := Outcome.bind_eq_ok_iff.1 h
    cases h
    exact does_of_announce hr
  | freeze =>
    obtain ⟨r, hr, h⟩ := Outcome.bind_eq_ok_iff.1 h
    cases h
    exact does_of_freeze hr

end Call

/-! ## Runs -/

namespace Construction

/-- What follows an event. Entities keep their names and kinds, and a call that fails leaves what it
has written. -/
def after (s : Construction) : Event → Construction
  | .create e => { s with graph := (s.graph.add e).1 }
  | .change id e =>
    match s.graph.get? id with
    | some old =>
      if e.name = old.name ∧ e.kind = old.kind then { s with graph := s.graph.set id e } else s
    | none => s
  | .call c =>
    match c.program s with
    | .ok _ s' => s'
    | .error _ s' => s'

/-- What follows events, one after the other. -/
def run (s : Construction) (es : List Event) : Construction :=
  es.foldl after s

variable {s s' s'' : Construction}

theorem run_append (s : Construction) (es es' : List Event) :
    s.run (es ++ es') = (s.run es).run es' :=
  List.foldl_append

/-- An event leaves the registry alone, and the entities keep their names and kinds, or it is a call
that succeeds. -/
theorem after_cases (s : Construction) (ev : Event) :
    (s.after ev).registry = s.registry ∧ s.graph.Grows (s.after ev).graph ∨
      ∃ c, ev = .call c ∧ s.call c = .ok (s.after ev) := by
  cases ev with
  | create e => exact .inl ⟨rfl, Graph.grows_add _ e⟩
  | change id e =>
    refine .inl ?_
    rw [after]
    split
    · next old hold =>
      split
      · next hsame => exact ⟨rfl, Graph.grows_set hold hsame.1 hsame.2⟩
      · exact ⟨rfl, .refl _⟩
    · exact ⟨rfl, .refl _⟩
  | call c =>
    rw [after, c.program_eq]
    cases h : s.call c with
    | error f => exact .inl ⟨rfl, .refl _⟩
    | ok s' => exact .inr ⟨c, rfl, h⟩

/-! ### What holds in every state -/

/-- What holds in every state: names that are merely announced are bound, no name is bound twice,
and every name is bound to an entity of that name. -/
structure Invariant (s : Construction) : Prop where
  announced : ∀ name ∈ s.registry.announced, name ∈ s.registry.names
  nodup : s.registry.names.Nodup
  named : ∀ name id, (name, id) ∈ s.registry.bindings →
    ∃ e, s.graph.get? id = some e ∧ e.name = name

theorem invariant_empty : empty.Invariant :=
  ⟨nofun, .nil, nofun⟩

/-- The invariant reaches over to a larger graph. -/
theorem Invariant.grows (h : s.Invariant) {g : Graph} (hg : s.graph.Grows g) {r : Registry}
    (hr : r = s.registry) : Invariant ⟨g, r⟩ := by
  subst hr
  refine ⟨h.announced, h.nodup, fun name id hb => ?_⟩
  obtain ⟨e, he, hname⟩ := h.named name id hb
  obtain ⟨e', he', hname', -⟩ := hg id e he
  exact ⟨e', he', hname'.trans hname⟩

/-- A free name can be bound to an entity of that name. -/
theorem Invariant.bind (h : s.Invariant) {name : String} {id : EntityId} {e : Entity}
    (hnew : s.registry.get? name = none) (he : s.graph.get? id = some e) (hname : e.name = name)
    {announced : NameSet} (hannounced : ∀ n ∈ announced, n = name ∨ n ∈ s.registry.announced)
    (isFrozen : Bool) :
    Invariant ⟨s.graph, ⟨s.registry.bindings ++ [(name, id)], announced, isFrozen⟩⟩ := by
  have hkeys : Entries.keys (s.registry.bindings ++ [(name, id)]) = s.registry.names ++ [name] :=
    Entries.keys_append _ _
  refine ⟨fun n hn => ?_, ?_, fun n id' hb => ?_⟩
  · rw [Registry.names, hkeys, List.mem_append, List.mem_singleton]
    exact ((hannounced n hn).imp_right (h.announced n)).symm
  · rw [Registry.names, hkeys, ← List.concat_eq_append]
    exact List.Nodup.concat (Entries.get?_eq_none_iff.1 hnew) h.nodup
  · rcases List.mem_append.1 hb with hb | hb
    · exact h.named n id' hb
    · cases List.mem_singleton.1 hb
      exact ⟨e, he, hname⟩

theorem Invariant.after (h : s.Invariant) (ev : Event) : (s.after ev).Invariant := by
  rcases s.after_cases ev with ⟨hregistry, hgrows⟩ | ⟨c, -, hcall⟩
  · exact h.grows hgrows hregistry
  · generalize s.after ev = s' at hcall
    cases Call.does_of_call hcall with
    | nothing => exact h
    | bind hid hopen hnew hrules =>
      exact h.bind hnew hid rfl (fun n hn => .inr (NameSet.mem_erase.1 hn).1) false
    | finish =>
      exact ⟨fun n hn => h.announced n (NameSet.mem_erase.1 hn).1, h.nodup, h.named⟩
    | again => exact h
    | @announce name kind hopen hnew =>
      have hadd : Invariant ⟨(s.graph.add (.empty kind name)).1, s.registry⟩ :=
        h.grows (Graph.grows_add _ _) rfl
      exact hadd.bind hnew (Graph.get?_add.2 (.inr ⟨rfl, rfl⟩)) (Entity.name_empty kind name)
        (fun n hn => NameSet.mem_insert.1 hn) false
    | still => exact h
    | freeze => exact ⟨h.announced, h.nodup, h.named⟩

theorem Invariant.run (h : s.Invariant) (es : List Event) : (s.run es).Invariant := by
  induction es generalizing s with
  | nil => exact h
  | cons ev es ih => exact ih (h.after ev)

/-! ### What later states keep -/

/-- How a later state continues an earlier one: what is bound stays bound and where it is listed, a
name that is bound and not merely announced is never announced again, a frozen registry stays as it
is, and entities keep their names and kinds. -/
structure Continues (s s' : Construction) : Prop where
  bindings : s.registry.bindings <+: s'.registry.bindings
  finished : ∀ name ∈ s.registry.names, name ∉ s.registry.announced → name ∉ s'.registry.announced
  frozen : s.registry.isFrozen = true → s'.registry = s.registry
  grows : s.graph.Grows s'.graph

theorem Continues.refl (s : Construction) : s.Continues s :=
  ⟨List.prefix_refl _, fun _ _ => id, fun _ => rfl, .refl _⟩

theorem Continues.names (h : s.Continues s') {name : String} (hname : name ∈ s.registry.names) :
    name ∈ s'.registry.names := by
  obtain ⟨more, hmore⟩ := h.bindings
  rw [Registry.names, ← hmore, Entries.keys_append]
  exact List.mem_append_left _ hname

theorem Continues.trans (h : s.Continues s') (h' : s'.Continues s'') : s.Continues s'' := by
  refine ⟨h.bindings.trans h'.bindings, fun name hname hn => ?_, fun hfrozen => ?_,
    h.grows.trans h'.grows⟩
  · exact h'.finished name (h.names hname) (h.finished name hname hn)
  · have hs : s'.registry = s.registry := h.frozen hfrozen
    rw [h'.frozen (hs ▸ hfrozen), hs]

theorem continues_after (s : Construction) (ev : Event) : s.Continues (s.after ev) := by
  rcases s.after_cases ev with ⟨hregistry, hgrows⟩ | ⟨c, -, hcall⟩
  · exact ⟨hregistry ▸ List.prefix_refl _, fun name _ hn => hregistry ▸ hn, fun _ => hregistry,
      hgrows⟩
  · have hclosed : s.registry.isFrozen = false → s.registry.isFrozen = true → False := by
      intro hopen hfrozen
      rw [hopen] at hfrozen
      cases hfrozen
    generalize s.after ev = s' at hcall
    cases Call.does_of_call hcall with
    | nothing => exact .refl s
    | bind hid hopen hnew hrules =>
      exact ⟨List.prefix_append _ _, fun name _ hn he => hn (NameSet.mem_erase.1 he).1,
        fun hfrozen => (hclosed hopen hfrozen).elim, .refl _⟩
    | finish hid hopen hannounced hbound hrules =>
      exact ⟨List.prefix_refl _, fun name _ hn he => hn (NameSet.mem_erase.1 he).1,
        fun hfrozen => (hclosed hopen hfrozen).elim, .refl _⟩
    | again => exact .refl s
    | @announce new kind hopen hnew =>
      refine ⟨List.prefix_append _ _, fun name hname hn he => ?_,
        fun hfrozen => (hclosed hopen hfrozen).elim, Graph.grows_add _ _⟩
      rcases NameSet.mem_insert.1 he with rfl | he
      · exact Entries.get?_eq_none_iff.1 hnew hname
      · exact hn he
    | still => exact .refl s
    | freeze hopen hcomplete =>
      exact ⟨List.prefix_refl _, fun _ _ => id, fun hfrozen => (hclosed hopen hfrozen).elim, .refl _⟩

theorem continues_run (s : Construction) (es : List Event) : s.Continues (s.run es) := by
  induction es generalizing s with
  | nil => exact .refl s
  | cons ev es ih => exact (s.continues_after ev).trans (ih _)

theorem Continues.get? (h : s.Continues s') (hs' : s'.Invariant) {name : String} {id : EntityId}
    (hid : s.registry.get? name = some id) : s'.registry.get? name = some id := by
  refine (Entries.get?_eq_some_iff hs'.nodup).2 ?_
  exact h.bindings.subset (Entries.mem_of_get? hid)

/-! ## The history of a registry -/

/-- Whatever happens, the names of a registry keep the invariant; a call that fails leaves everything
as it was; and later states continue earlier ones, so a name stays bound to its entity at its place,
one that is no longer merely announced never is again, and a frozen registry never changes. -/
theorem registry_history (es : List Event) :
    (empty.run es).Invariant ∧
    (∀ c s', c.program (empty.run es) = .ok () s' ↔ (empty.run es).call c = .ok s') ∧
    (∀ c f s', c.program (empty.run es) = .error f s' ↔
      (empty.run es).call c = .error f ∧ s' = empty.run es) ∧
    (∀ later, (empty.run es).Continues (empty.run (es ++ later)) ∧
      ∀ name id, (empty.run es).registry.get? name = some id →
        (empty.run (es ++ later)).registry.get? name = some id) ∧
    ∀ later last name, name ∈ (empty.run es).registry.announced →
      name ∉ (empty.run (es ++ later)).registry.announced →
      name ∉ (empty.run (es ++ later ++ last)).registry.announced := by
  have hinvariant : ∀ es, (empty.run es).Invariant := invariant_empty.run
  have hcontinues : ∀ es later, (empty.run es).Continues (empty.run (es ++ later)) := by
    intro es later
    rw [run_append]
    exact continues_run _ later
  refine ⟨hinvariant es, fun c s' => ?_, fun c f s' => ?_, fun later => ?_, ?_⟩
  · rw [c.program_eq]
    cases (empty.run es).call c <;> simp
  · rw [c.program_eq]
    cases (empty.run es).call c <;> simp [eq_comm]
  · exact ⟨hcontinues es later, fun name id hid => (hcontinues es later).get? (hinvariant _) hid⟩
  · intro later last name hname hleft
    have hbound : name ∈ (empty.run es).registry.names := (hinvariant es).announced name hname
    exact (hcontinues (es ++ later) last).finished name ((hcontinues es later).names hbound) hleft

/-- A second entity of an announced name is refused; the announced one is finished and frozen. -/
example : (empty.run [.call (.announce "Post" .resource), .create (.empty .resource "Post"),
    .call (.register ⟨1⟩), .call .freeze, .call (.register ⟨0⟩), .call .freeze,
    .call (.announce "User" .map)]).registry = ⟨[("Post", ⟨0⟩)], .empty, true⟩ := by
  decide +kernel

end Construction

end Shapewise
