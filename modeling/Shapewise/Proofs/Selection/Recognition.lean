import Shapewise.Proofs.Selection.Grammar
import Shapewise.Proofs.Selection.ReadBack

/-!
# The reader recognises the grammar

The reader gives a selection for exactly the token lists that have a derivation tree in which no
argument is given twice, and it gives the meaning of the tree. If an argument of a tree is given
twice, that is the fault that is reported (`readTokens_grammar`).

One half follows the tokens of a tree through the reader, `Takes`. The other half is an invariant of
the reader, `Reading.Follows`: the tokens that have been taken are those of the open trees that the
state describes. Which lists end in a comma is not part of the state, so the invariant relates
states to tokens and does not compute one from the other.
-/

namespace Shapewise.Selection

open Text

variable {once once' : Prop} {ts us vs : List Token} {t : Token} {r r' : Reading}
  {P Q : Reading → Prop}

/-! ## Taking the tokens of a tree -/

/-- Tokens that are taken from a state lead to a state with a property if a condition holds;
otherwise they lead to the fault of an argument that is given twice. -/
def Takes (once : Prop) (ts : List Token) (r : Reading) (P : Reading → Prop) : Prop :=
  ∀ ls : List (Located Token), ls.map Located.token = ts →
    (once → ∃ r', ls.foldlM Reading.step r = .ok r' ∧ P r') ∧
    (¬ once → ∃ name line, ls.foldlM Reading.step r = .error (.duplicateArgument name line))

theorem Reads.takes (h : Reads ts r r') (hr' : P r') : Takes True ts r P :=
  fun ls hls => ⟨fun _ => ⟨r', h ls hls, hr'⟩, fun hn => absurd trivial hn⟩

theorem Takes.congr (h : Takes once ts r P) (hc : once ↔ once') : Takes once' ts r P := by
  rwa [← propext hc]

theorem Takes.imp (h : Takes once ts r P) (hPQ : ∀ r', P r' → Q r') : Takes once ts r Q := by
  intro ls hls
  obtain ⟨hok, herror⟩ := h ls hls
  refine ⟨fun honce => ?_, herror⟩
  obtain ⟨r', hr', hP⟩ := hok honce
  exact ⟨r', hr', hPQ r' hP⟩

/-- The condition is known to hold once the tokens have been taken. -/
theorem Takes.and_once (h : Takes once ts r P) : Takes once ts r fun r' => P r' ∧ once := by
  intro ls hls
  obtain ⟨hok, herror⟩ := h ls hls
  refine ⟨fun honce => ?_, herror⟩
  obtain ⟨r', hr', hP⟩ := hok honce
  exact ⟨r', hr', hP, honce⟩

theorem Takes.append (h : Takes once ts r P) (h' : ∀ r', P r' → Takes once' us r' Q) :
    Takes (once ∧ once') (ts ++ us) r Q := by
  intro ls hls
  obtain ⟨ls₁, ls₂, rfl, h₁, h₂⟩ := List.map_eq_append_iff.1 hls
  obtain ⟨hok, herror⟩ := h ls₁ h₁
  rw [List.foldlM_append]
  by_cases honce : once
  · obtain ⟨r', hr', hP⟩ := hok honce
    rw [hr']
    obtain ⟨hok', herror'⟩ := h' r' hP ls₂ h₂
    exact ⟨fun hboth => hok' hboth.2, fun hn => herror' fun honce' => hn ⟨honce, honce'⟩⟩
  · obtain ⟨name, line, herror⟩ := herror honce
    rw [herror]
    exact ⟨fun hboth => absurd hboth.1 honce, fun _ => ⟨name, line, rfl⟩⟩

/-- A token is taken; the line on which it stands may show in the state after it. -/
theorem Takes.cons
    (h : ∀ line position, ∃ s, Reading.step r ⟨t, line, position⟩ = .ok s ∧ Takes once ts s P) :
    Takes once (t :: ts) r P := by
  intro ls hls
  obtain ⟨l, ls, rfl, rfl, hts⟩ := List.map_eq_cons_iff.1 hls
  obtain ⟨s, hs, hrest⟩ := h l.line l.position
  rw [List.foldlM_cons, hs]
  exact hrest ls hts

theorem Takes.take (h : ∀ line position, Reading.step r ⟨t, line, position⟩ = .ok r')
    (hrest : Takes once ts r' P) : Takes once (t :: ts) r P :=
  .cons fun line position => ⟨r', h line position, hrest⟩

/-! ### Values -/

mutual
theorem reads_value (outer : List Level) (items : List Value) (call : Call) (name : String) :
    ∀ (v : ValueTree) (lists : List (List Value)),
      Reads v.tokens ⟨outer, items, .value call name lists⟩
        ⟨outer, items, Reading.valueRead call name lists v.value⟩
  | .text _, _ | .int _, _ | .float _, _ | .bool _, _ | .null, _ =>
    .take (fun _ _ => rfl) (.nil _)
  | .emptyList, _ => .take (fun _ _ => rfl) (.take (fun _ _ => rfl) (.nil _))
  | .list vs comma, lists => by
    have hinner := reads_values outer items call name vs [] lists
    have hclose : Reads (trailing comma ++ [.closeBracket])
        ⟨outer, items, .element call name vs.values lists⟩
        ⟨outer, items, Reading.valueRead call name lists (.list vs.values)⟩ := by
      cases comma with
      | false => exact .take (fun _ _ => rfl) (.nil _)
      | true => exact .take (fun _ _ => rfl) (.take (fun _ _ => rfl) (.nil _))
    exact .take (fun _ _ => rfl) (hinner.append hclose)
theorem reads_values (outer : List Level) (items : List Value) (call : Call) (name : String) :
    ∀ (vs : ValueListTree) (list : List Value) (lists : List (List Value)),
      Reads vs.tokens ⟨outer, items, .value call name (list :: lists)⟩
        ⟨outer, items, .element call name (list ++ vs.values) lists⟩
  | .single v, list, lists => reads_value outer items call name v (list :: lists)
  | .more vs v, list, lists => by
    have hlast : Reads (.comma :: v.tokens)
        ⟨outer, items, .element call name (list ++ vs.values) lists⟩
        ⟨outer, items, .element call name (list ++ vs.values ++ [v.value]) lists⟩ :=
      .take (fun _ _ => rfl) (reads_value outer items call name v ((list ++ vs.values) :: lists))
    rw [ValueListTree.values, ← List.append_assoc]
    exact (reads_values outer items call name vs list lists).append hlast
end

/-! ### Arguments -/

variable {outer : List Level} {items : List Value} {field : String}
  {es : List (String × Value)}

theorem reads_argumentTree (call : Call) (a : ArgumentTree) :
    Reads a.tokens ⟨outer, items, .argument call⟩
      ⟨outer, items, .argumentValue call a.name a.value.value⟩ :=
  .take (fun _ _ => rfl) (.take (fun _ _ => rfl) (reads_value outer items call a.name a.value []))

/-- Arguments have been read; the last one has not been compared with those before it. -/
def Pending (outer : List Level) (items : List Value) (field : String)
    (es : List (String × Value)) (r : Reading) : Prop :=
  ∃ line before name v, r = ⟨outer, items, .argumentValue ⟨field, before, line⟩ name v⟩ ∧
    before ++ [(name, v)] = es ∧ (Entries.keys before).Nodup

/-- At a comma or parenthesis the last argument is compared with those before it. -/
theorem Pending.takes (next : List (String × Value) → Nat → Mode)
    (h : Pending outer items field es r)
    (hstep : ∀ before line name v line' position,
      Reading.step ⟨outer, items, .argumentValue ⟨field, before, line⟩ name v⟩
          ⟨t, line', position⟩ =
        Reading.addArgument ⟨field, before, line⟩ name v >>= fun es =>
          .ok ⟨outer, items, next es line'⟩) :
    Takes (Entries.keys es).Nodup [t] r fun r' =>
      ∃ line, r' = ⟨outer, items, next es line⟩ := by
  obtain ⟨line, before, name, v, rfl, rfl, hbefore⟩ := h
  intro ls hls
  obtain ⟨l, rfl, rfl⟩ := List.map_eq_singleton_iff.1 hls
  have hkeys : (Entries.keys (before ++ [(name, v)])).Nodup ↔ name ∉ Entries.keys before := by
    rw [Entries.keys, List.map_append, List.map_singleton, ← List.concat_eq_append,
      List.nodup_concat]
    exact and_iff_left hbefore
  rw [hkeys, List.foldlM_cons, hstep]
  refine ⟨fun hnew => ?_, fun hold => ⟨name, line, ?_⟩⟩
  · have hadd : Reading.addArgument ⟨field, before, line⟩ name v = .ok (before ++ [(name, v)]) :=
      addArgument_eq_ok hnew
    rw [hadd]
    exact ⟨_, rfl, l.line, rfl⟩
  · rw [Reading.addArgument, if_pos ((Entries.has_eq_true_iff _ _).2 (not_not.1 hold))]
    rfl

/-- Arguments are taken up to the last one, if those before it have different names. -/
theorem takes_argumentList : ∀ (l : ArgumentListTree) (line : Nat),
    Takes l.names.dropLast.Nodup l.tokens ⟨outer, items, .argument ⟨field, [], line⟩⟩
      (Pending outer items field l.entries)
  | .single a, line => by
    have hpending : Pending outer items field [(a.name, a.value.value)]
        ⟨outer, items, .argumentValue ⟨field, [], line⟩ a.name a.value.value⟩ :=
      ⟨line, [], _, _, rfl, rfl, List.nodup_nil⟩
    exact ((reads_argumentTree _ a).takes hpending).congr (by simp [ArgumentListTree.names])
  | .more l a, line => by
    have hcomma : ∀ r, Pending outer items field l.entries r →
        Takes (Entries.keys l.entries).Nodup [.comma] r fun r' =>
          ∃ line, r' = ⟨outer, items, .argument ⟨field, l.entries, line⟩⟩ :=
      fun r hr => hr.takes (fun es line => .argument ⟨field, es, line⟩) fun _ _ _ _ _ _ => rfl
    have hlast : ∀ r, ((∃ line, r = ⟨outer, items, .argument ⟨field, l.entries, line⟩⟩) ∧
        (Entries.keys l.entries).Nodup) → Takes True a.tokens r
          (Pending outer items field (l.more a).entries) := by
      rintro r ⟨⟨line', rfl⟩, hnodup⟩
      exact (reads_argumentTree _ a).takes ⟨line', l.entries, _, _, rfl, rfl, hnodup⟩
    have h := (takes_argumentList l line).append fun r hr => (hcomma r hr).and_once.append hlast
    have hnames : (l.more a).names.dropLast = l.names := by
      simp [ArgumentListTree.names, Entries.keys]
    rw [hnames]
    exact h.congr ⟨fun hall => hall.2.1, fun hn => ⟨hn.sublist (List.dropLast_sublist _), hn, trivial⟩⟩

/-- Arguments in parentheses are taken if none is given twice. -/
theorem takes_arguments (a : ArgumentsTree) :
    Takes a.NamesOnce a.tokens ⟨outer, items, .named field⟩
      (· = ⟨outer, items, .called field a.entries⟩) := by
  cases a with
  | empty =>
    have hclose : ∀ line, Reads [.closeParen] ⟨outer, items, .argument ⟨field, [], line⟩⟩
        ⟨outer, items, .called field []⟩ := fun _ => .take (fun _ _ => rfl) (.nil _)
    exact .cons fun line _ => ⟨_, rfl, (hclose line).takes rfl⟩
  | list l comma =>
    have hclose : ∀ r, Pending outer items field l.entries r →
        Takes l.names.Nodup (trailing comma ++ [.closeParen]) r
          (· = ⟨outer, items, .called field l.entries⟩) := by
      intro r hr
      cases comma with
      | false =>
        exact (hr.takes (fun es _ => .called field es) fun _ _ _ _ _ _ => rfl).imp
          fun r' ⟨_, hr'⟩ => hr'
      | true =>
        have hcomma : Takes l.names.Nodup [.comma] r fun r' =>
            ∃ line, r' = ⟨outer, items, .argument ⟨field, l.entries, line⟩⟩ :=
          hr.takes (fun es line => .argument ⟨field, es, line⟩) fun _ _ _ _ _ _ => rfl
        refine (hcomma.append ?_).congr (and_iff_left trivial)
        rintro r' ⟨line, rfl⟩
        exact (Reads.take (fun _ _ => rfl) (.nil _)).takes rfl
    have h : ∀ line, Takes (ArgumentsTree.list l comma).NamesOnce
        (l.tokens ++ (trailing comma ++ [.closeParen]))
        ⟨outer, items, .argument ⟨field, [], line⟩⟩ (· = ⟨outer, items, .called field l.entries⟩) :=
      fun line => ((takes_argumentList l line).append hclose).congr
        ⟨fun hall => hall.2, fun hn => ⟨hn.sublist (List.dropLast_sublist _), hn⟩⟩
    refine .cons fun line _ => ⟨_, rfl, (h line).and_once.imp fun r' ⟨hr', honce⟩ => ?_⟩
    rw [hr', ArgumentsTree.entries_list honce]

/-! ### Fields -/

/-- The braces of a field are taken with the selection between them. -/
theorem takes_block {arguments : Option (List (String × Value))} {s : SelectionTree}
    (hopen : ∀ line position, r.step ⟨.openBrace, line, position⟩ = .ok (r.openLevel field arguments))
    (hinner : Takes s.NamesOnce s.tokens (r.openLevel field arguments) fun inner =>
      inner.outer = ⟨r.items, field, arguments⟩ :: r.outer ∧ inner.settled? = some s.values) :
    Takes s.NamesOnce (.openBrace :: (s.tokens ++ [.closeBrace])) r
      (Ended r.outer (r.items ++ [Reading.blockItem field arguments s.values])) := by
  have hclose : ∀ inner : Reading, inner.outer = ⟨r.items, field, arguments⟩ :: r.outer ∧
      inner.settled? = some s.values → Takes True [.closeBrace] inner
        (Ended r.outer (r.items ++ [Reading.blockItem field arguments s.values])) := by
    rintro inner ⟨houter, hsettled⟩
    exact (Reads.take (step_closeBrace houter hsettled) (.nil _)).takes ⟨rfl, rfl, by simp⟩
  exact .take hopen ((hinner.append hclose).congr (and_iff_left trivial))

mutual
/-- A field is taken behind those that were read before. -/
theorem takes_field : ∀ (f : FieldTree) (outer : List Level) (items : List Value),
    Takes f.NamesOnce f.tokens ⟨outer, items, .start⟩ (Ended outer (items ++ [f.value]))
  | .name field, outer, items => by
    have hname : Reads [.name field] ⟨outer, items, .start⟩ ⟨outer, items, .named field⟩ :=
      .take (fun _ _ => rfl) (.nil _)
    exact hname.takes ⟨rfl, rfl, by simp⟩
  | .block field s, outer, items => by
    have hinner := takes_selection s (⟨items, field, none⟩ :: outer)
    have hblock := takes_block (r := ⟨outer, items, .named field⟩) (fun _ _ => rfl) hinner
    exact .take (fun _ _ => rfl) hblock
  | .call field a, outer, items =>
    .take (fun _ _ => rfl) ((takes_arguments a).imp fun r hr => by
      subst hr
      exact ⟨rfl, rfl, by simp⟩)
  | .callBlock field a s, outer, items => by
    have hinner := takes_selection s (⟨items, field, some a.entries⟩ :: outer)
    have hblock := takes_block (r := ⟨outer, items, .called field a.entries⟩) (fun _ _ => rfl) hinner
    rw [FieldTree.tokens, List.append_assoc, List.cons_append, List.cons_append]
    refine .take (fun _ _ => rfl) ((takes_arguments a).append fun r hr => ?_)
    subst hr
    exact hblock
/-- Fields are taken behind those that were read before. -/
theorem takes_fieldList : ∀ (l : FieldListTree) (outer : List Level) (items : List Value),
    Takes l.NamesOnce l.tokens ⟨outer, items, .start⟩ (Ended outer (items ++ l.values))
  | .single f, outer, items => takes_field f outer items
  | .more l f, outer, items => by
    have hlast := takes_field f outer (items ++ l.values)
    rw [List.append_assoc] at hlast
    exact (takes_fieldList l outer items).append fun r hr => .take (step_comma hr) hlast
/-- A selection is taken from its start. -/
theorem takes_selection : ∀ (s : SelectionTree) (outer : List Level),
    Takes s.NamesOnce s.tokens ⟨outer, [], .start⟩ fun r =>
      r.outer = outer ∧ r.settled? = some s.values
  | .empty, _ => (Reads.nil _).takes ⟨rfl, rfl⟩
  | .list l comma, outer => by
    have hcomma : ∀ r, Ended outer l.values r → Takes True (trailing comma) r fun r =>
        r.outer = outer ∧ r.settled? = some l.values := by
      intro r hr
      cases comma with
      | false => exact (Reads.nil r).takes ⟨hr.outer_eq, hr.settled⟩
      | true => exact (Reads.take (step_comma hr) (.nil _)).takes ⟨rfl, rfl⟩
    exact ((takes_fieldList l outer []).append hcomma).congr (and_iff_left trivial)
end

/-- The tokens of a derivation tree are read as its meaning, unless an argument is given twice. -/
theorem readTokens_tree (s : SelectionTree) {ls : List (Located Token)}
    (hls : s.tokens = ls.map Located.token) :
    (s.NamesOnce → readTokens ls = .ok s.values) ∧
    (¬ s.NamesOnce → ∃ name line, readTokens ls = .error (.duplicateArgument name line)) := by
  obtain ⟨hok, herror⟩ := takes_selection s [] ls hls.symm
  constructor
  · intro honce
    obtain ⟨r, hr, houter, hsettled⟩ := hok honce
    have hfold : ls.foldlM Reading.step .initial = .ok r := hr
    rw [readTokens, hfold]
    show r.finish = _
    rw [Reading.finish, hsettled, houter]
  · intro honce
    obtain ⟨name, line, hfault⟩ := herror honce
    have hfold : ls.foldlM Reading.step .initial = .error (.duplicateArgument name line) := hfault
    exact ⟨name, line, by rw [readTokens, hfold]; rfl⟩

/-! ## The tokens that have been taken -/

/-- Tokens are those of a list with a comma behind it, or there is no element of the list yet. -/
def Begun {α : Type} (Listed : List Token → List α → Prop) (ts : List Token) (as : List α) : Prop :=
  (ts = [] ∧ as = []) ∨ ∃ us, ts = us ++ [.comma] ∧ Listed us as

/-- Tokens are those of values in a list. -/
def ValuesListed (ts : List Token) (vs : List Value) : Prop :=
  ∃ l : ValueListTree, l.tokens = ts ∧ l.values = vs

/-- Tokens are those of arguments with different names. -/
def ArgumentsListed (ts : List Token) (es : List (String × Value)) : Prop :=
  ∃ l : ArgumentListTree, l.names.Nodup ∧ l.tokens = ts ∧ l.entries = es

/-- Tokens are those of fields in which no argument is given twice. -/
def FieldsListed (ts : List Token) (items : List Value) : Prop :=
  ∃ l : FieldListTree, l.NamesOnce ∧ l.tokens = ts ∧ l.values = items

theorem Begun.listed_value {list : List Value} (h : Begun ValuesListed ts list) (v : ValueTree) :
    ValuesListed (ts ++ v.tokens) (list ++ [v.value]) := by
  obtain ⟨rfl, rfl⟩ | ⟨us, rfl, l, rfl, rfl⟩ := h
  · exact ⟨.single v, rfl, rfl⟩
  · exact ⟨.more l v, by simp, rfl⟩

theorem Begun.listed_argument (h : Begun ArgumentsListed ts es) (a : ArgumentTree)
    (hnew : a.name ∉ Entries.keys es) :
    ArgumentsListed (ts ++ a.tokens) (es ++ [(a.name, a.value.value)]) := by
  obtain ⟨rfl, rfl⟩ | ⟨us, rfl, l, hnodup, rfl, rfl⟩ := h
  · exact ⟨.single a, List.nodup_singleton _, rfl, rfl⟩
  · refine ⟨.more l a, ?_, by simp, rfl⟩
    rw [ArgumentListTree.names, ArgumentListTree.entries, Entries.keys, List.map_append,
      List.map_singleton, ← List.concat_eq_append, List.nodup_concat]
    exact ⟨hnew, hnodup⟩

theorem Begun.listed_field (h : Begun FieldsListed ts items) {f : FieldTree} (hf : f.NamesOnce) :
    FieldsListed (ts ++ f.tokens) (items ++ [f.value]) := by
  obtain ⟨rfl, rfl⟩ | ⟨us, rfl, l, honce, rfl, rfl⟩ := h
  · exact ⟨.single f, hf, rfl, rfl⟩
  · exact ⟨.more l f, ⟨honce, hf⟩, by simp, rfl⟩

/-- The tokens of the lists of values that are open, the innermost list first. -/
def ListsOpen : List (List Value) → List Token → Prop
  | [], ts => ts = []
  | list :: lists, ts => ∃ us vs, ts = us ++ .openBracket :: vs ∧ ListsOpen lists us ∧
    Begun ValuesListed vs list

/-- The tokens of fields and of a field whose parenthesis is open. -/
def CallOpen (items : List Value) (call : Call) (ts : List Token) : Prop :=
  ∃ us vs, ts = us ++ .name call.field :: .openParen :: vs ∧ Begun FieldsListed us items ∧
    Begun ArgumentsListed vs call.arguments

/-- The tokens since the innermost brace that is open, by what was read last. -/
def Mode.Follows (items : List Value) : Mode → List Token → Prop
  | .start, ts => Begun FieldsListed ts items
  | .named field, ts => ∃ us, ts = us ++ [.name field] ∧ Begun FieldsListed us items
  | .called field es, ts => ∃ us, ∃ a : ArgumentsTree, ts = us ++ .name field :: a.tokens ∧
    Begun FieldsListed us items ∧ a.NamesOnce ∧ a.entries = es
  | .closed, ts => FieldsListed ts items
  | .argument call, ts => CallOpen items call ts
  | .argumentName call name, ts => ∃ us, ts = us ++ [.name name] ∧ CallOpen items call us
  | .value call name lists, ts => ∃ us vs, ts = us ++ .name name :: .colon :: vs ∧
    CallOpen items call us ∧ ListsOpen lists vs
  | .element call name list lists, ts => ∃ us vs ws,
    ts = us ++ .name name :: .colon :: (vs ++ .openBracket :: ws) ∧ CallOpen items call us ∧
    ListsOpen lists vs ∧ ValuesListed ws list
  | .argumentValue call name v, ts => ∃ us, ∃ w : ValueTree,
    ts = us ++ .name name :: .colon :: w.tokens ∧ CallOpen items call us ∧ w.value = v

/-- What was read last before the braces of a field were opened. -/
def Level.mode (level : Level) : Mode :=
  match level.arguments with
  | none => .named level.field
  | some es => .called level.field es

/-- The tokens up to the innermost brace that is open. -/
def LevelsFollow : List Level → List Token → Prop
  | [], ts => ts = []
  | level :: outer, ts => ∃ us vs, ts = us ++ (vs ++ [.openBrace]) ∧ LevelsFollow outer us ∧
    level.mode.Follows level.before vs

/-- The tokens that have been taken are those of the trees that a state describes. -/
def Reading.Follows (r : Reading) (ts : List Token) : Prop :=
  ∃ us vs, ts = us ++ vs ∧ LevelsFollow r.outer us ∧ r.mode.Follows r.items vs

/-! ### What a step keeps -/

variable {call : Call} {name : String} {mode : Mode}

/-- A field that may be followed by a comma ends a list of fields. -/
theorem Mode.Follows.listed (h : mode.Follows items ts) (hstart : mode ≠ .start)
    {fields : List Value} (hsettled : Reading.settled? ⟨outer, items, mode⟩ = some fields) :
    FieldsListed ts fields := by
  cases mode with
  | start => exact absurd rfl hstart
  | named field =>
    cases hsettled
    obtain ⟨us, rfl, hus⟩ := h
    exact hus.listed_field (f := .name field) trivial
  | called field es =>
    cases hsettled
    obtain ⟨us, a, rfl, hus, honce, rfl⟩ := h
    exact hus.listed_field (f := .call field a) honce
  | closed =>
    cases hsettled
    exact h
  | _ => cases hsettled

/-- Where the innermost level may end, a selection has been read. -/
theorem Mode.Follows.selection (h : mode.Follows items ts) {fields : List Value}
    (hsettled : Reading.settled? ⟨outer, items, mode⟩ = some fields) :
    ∃ s : SelectionTree, s.NamesOnce ∧ s.tokens = ts ∧ s.values = fields := by
  by_cases hstart : mode = .start
  · subst hstart
    cases hsettled
    obtain ⟨rfl, rfl⟩ | ⟨us, rfl, l, honce, rfl, rfl⟩ := h
    · exact ⟨.empty, trivial, rfl, rfl⟩
    · exact ⟨.list l true, honce, rfl, rfl⟩
  · obtain ⟨l, honce, rfl, rfl⟩ := h.listed hstart hsettled
    exact ⟨.list l false, honce, by simp [trailing], rfl⟩

/-- Behind a field a comma may be taken. -/
theorem Mode.Follows.comma (h : mode.Follows items ts) (hstart : mode ≠ .start)
    {fields : List Value} (hsettled : Reading.settled? ⟨outer, items, mode⟩ = some fields) :
    Mode.start.Follows fields (ts ++ [.comma]) :=
  .inr ⟨ts, rfl, h.listed hstart hsettled⟩

/-- A closing brace ends the selection of the field that was open. -/
theorem Reading.Follows.closeLevel (h : r.Follows ts) (hclose : r.closeLevel? = some r') :
    r'.Follows (ts ++ [.closeBrace]) := by
  obtain ⟨outer, items, mode⟩ := r
  obtain ⟨us, vs, rfl, hlevels, hmode⟩ := h
  unfold Reading.closeLevel? at hclose
  split at hclose
  · next fields level outer' hsettled houter =>
    cases hclose
    obtain ⟨s, honce, rfl, rfl⟩ := hmode.selection hsettled
    obtain rfl : outer = level :: outer' := houter
    obtain ⟨us, vs, rfl, hlevels, hlevel⟩ := hlevels
    obtain ⟨before, field, arguments⟩ := level
    refine ⟨us, vs ++ .openBrace :: (s.tokens ++ [.closeBrace]), by simp, hlevels, ?_⟩
    cases arguments with
    | none =>
      obtain ⟨ws, rfl, hws⟩ := hlevel
      have htokens : ws ++ [.name field] ++ .openBrace :: (s.tokens ++ [.closeBrace]) =
          ws ++ (FieldTree.block field s).tokens := by simp
      rw [htokens]
      exact hws.listed_field (f := .block field s) honce
    | some es =>
      obtain ⟨ws, a, rfl, hws, hnames, rfl⟩ := hlevel
      have htokens : ws ++ .name field :: a.tokens ++ .openBrace :: (s.tokens ++ [.closeBrace]) =
          ws ++ (FieldTree.callBlock field a s).tokens := by simp
      rw [htokens]
      exact hws.listed_field (f := .callBlock field a s) ⟨hnames, honce⟩
  · cases hclose

/-- A value ends an argument or becomes an element of the innermost list. -/
theorem follows_valueRead {lists : List (List Value)} (hus : CallOpen items call us)
    (hvs : ListsOpen lists vs) (name : String) (v : ValueTree) :
    (Reading.valueRead call name lists v.value).Follows items
      (us ++ .name name :: .colon :: (vs ++ v.tokens)) := by
  cases lists with
  | nil =>
    obtain rfl : vs = [] := hvs
    exact ⟨us, v, rfl, hus, rfl⟩
  | cons list lists =>
    obtain ⟨ws, xs, rfl, hws, hxs⟩ := hvs
    exact ⟨us, ws, xs ++ v.tokens, by simp, hus, hws, hxs.listed_value v⟩

/-- Arguments with a new one behind them, if it is new. -/
theorem listed_of_addArgument {a : ArgumentTree} (hvs : Begun ArgumentsListed vs call.arguments)
    (hadd : Reading.addArgument call a.name a.value.value = .ok es) :
    ArgumentsListed (vs ++ a.tokens) es := by
  rw [Reading.addArgument] at hadd
  split at hadd
  · cases hadd
  · next hnew =>
    rw [Entries.has_eq_true_iff] at hnew
    cases hadd
    exact hvs.listed_argument a hnew

theorem exists_literal {v : Value} (h : Reading.literal? t = some v) :
    ∃ w : ValueTree, w.tokens = [t] ∧ w.value = v := by
  cases t with
  | text s => exact ⟨.text s, rfl, Option.some.inj h⟩
  | int i => exact ⟨.int i, rfl, Option.some.inj h⟩
  | float x => exact ⟨.float x, rfl, Option.some.inj h⟩
  | bool b => exact ⟨.bool b, rfl, Option.some.inj h⟩
  | null => exact ⟨.null, rfl, Option.some.inj h⟩
  | _ => cases h

/-- The brackets of a list end a value. -/
theorem exists_list {list : List Value} (h : ValuesListed ts list) (comma : Bool) :
    ∃ w : ValueTree, w.tokens = .openBracket :: (ts ++ (trailing comma ++ [.closeBracket])) ∧
      w.value = .list list := by
  obtain ⟨l, rfl, rfl⟩ := h
  exact ⟨.list l comma, rfl, rfl⟩

/-- Parentheses around what has been read of their arguments end the arguments. -/
theorem CallOpen.closeParen (h : CallOpen items call ts) :
    (Mode.called call.field call.arguments).Follows items (ts ++ [.closeParen]) := by
  obtain ⟨us, vs, rfl, hus, hvs⟩ := h
  obtain ⟨rfl, hes⟩ | ⟨ws, rfl, l, hnames, rfl, hes⟩ := hvs
  · exact ⟨us, .empty, by simp [ArgumentsTree.tokens], hus, trivial, hes.symm⟩
  · refine ⟨us, .list l true, by simp [ArgumentsTree.tokens, trailing], hus, hnames, ?_⟩
    rw [ArgumentsTree.entries_list hnames, hes]

/-- An argument with its value is the last of the arguments if it is new. -/
theorem CallOpen.listed {a : ArgumentTree} (h : CallOpen items call ts)
    (hadd : Reading.addArgument call a.name a.value.value = .ok es) :
    ∃ us vs, ts ++ a.tokens = us ++ .name call.field :: .openParen :: vs ∧
      Begun FieldsListed us items ∧ ArgumentsListed vs es := by
  obtain ⟨us, vs, rfl, hus, hvs⟩ := h
  exact ⟨us, vs ++ a.tokens, by simp, hus, listed_of_addArgument hvs hadd⟩

/-- Where a value may stand, a literal, an opening bracket or the closing bracket of a list that has
no last element is taken. -/
theorem Mode.Follows.step_value {l : Located Token} {lists : List (List Value)}
    (h : (Mode.value call name lists).Follows items ts)
    (hstep : Reading.step ⟨outer, items, .value call name lists⟩ l = .ok r') :
    ∃ mode, r' = ⟨outer, items, mode⟩ ∧ mode.Follows items (ts ++ [l.token]) := by
  obtain ⟨token, line, position⟩ := l
  obtain ⟨us, vs, rfl, hus, hvs⟩ := h
  have hliteral : ∀ {v : Value}, Reading.literal? token = some v →
      (Reading.valueRead call name lists v).Follows items
        (us ++ .name name :: .colon :: vs ++ [token]) := by
    intro v hv
    obtain ⟨w, hw, rfl⟩ := exists_literal hv
    have hread := follows_valueRead hus hvs name w
    rw [hw] at hread
    simpa using hread
  cases token with
  | openBracket =>
    cases hstep
    exact ⟨_, rfl, us, vs ++ [.openBracket], by simp, hus, vs, [], rfl, hvs, .inl ⟨rfl, rfl⟩⟩
  | closeBracket =>
    cases lists with
    | nil => cases hstep
    | cons list lists =>
      cases hstep
      obtain ⟨vs, ws, rfl, hvs, hws⟩ := hvs
      obtain ⟨w, hw, hvalue⟩ : ∃ w : ValueTree,
          w.tokens = .openBracket :: (ws ++ [.closeBracket]) ∧ w.value = .list list := by
        obtain ⟨rfl, rfl⟩ | ⟨xs, rfl, hxs⟩ := hws
        · exact ⟨.emptyList, rfl, rfl⟩
        · obtain ⟨w, hw, hvalue⟩ := exists_list hxs true
          exact ⟨w, by simp [hw, trailing], hvalue⟩
      have hread := follows_valueRead hus hvs name w
      rw [hw, hvalue] at hread
      exact ⟨_, rfl, by simpa using hread⟩
  | text | int | float | bool | null =>
    cases hstep
    exact ⟨_, rfl, hliteral rfl⟩
  | _ => cases hstep

/-- Behind an element of a list a comma or the closing bracket is taken. -/
theorem Mode.Follows.step_element {l : Located Token} {list : List Value}
    {lists : List (List Value)} (h : (Mode.element call name list lists).Follows items ts)
    (hstep : Reading.step ⟨outer, items, .element call name list lists⟩ l = .ok r') :
    ∃ mode, r' = ⟨outer, items, mode⟩ ∧ mode.Follows items (ts ++ [l.token]) := by
  obtain ⟨token, line, position⟩ := l
  obtain ⟨us, vs, ws, rfl, hus, hvs, hws⟩ := h
  cases token with
  | comma =>
    cases hstep
    exact ⟨_, rfl, us, vs ++ .openBracket :: (ws ++ [.comma]), by simp, hus, vs, _, rfl, hvs,
      .inr ⟨ws, rfl, hws⟩⟩
  | closeBracket =>
    cases hstep
    obtain ⟨w, hw, hvalue⟩ := exists_list hws false
    have hread := follows_valueRead hus hvs name w
    rw [hw, hvalue] at hread
    exact ⟨_, rfl, by simpa [trailing] using hread⟩
  | _ => cases hstep

/-- Behind an argument a comma or the closing parenthesis is taken, if the argument is new. -/
theorem Mode.Follows.step_argumentValue {l : Located Token} {v : Value}
    (h : (Mode.argumentValue call name v).Follows items ts)
    (hstep : Reading.step ⟨outer, items, .argumentValue call name v⟩ l = .ok r') :
    ∃ mode, r' = ⟨outer, items, mode⟩ ∧ mode.Follows items (ts ++ [l.token]) := by
  obtain ⟨token, line, position⟩ := l
  obtain ⟨us, w, rfl, hus, rfl⟩ := h
  have htokens : us ++ .name name :: .colon :: w.tokens =
      us ++ (ArgumentTree.mk name w).tokens := rfl
  cases token with
  | comma =>
    obtain ⟨es, hadd, hstep⟩ := Outcome.bind_eq_ok_iff.1 hstep
    cases hstep
    obtain ⟨vs, ws, hsplit, hvs, hws⟩ := hus.listed (a := ⟨name, w⟩) hadd
    refine ⟨_, rfl, vs, ws ++ [.comma], ?_, hvs, .inr ⟨ws, rfl, hws⟩⟩
    rw [htokens, hsplit]
    simp
  | closeParen =>
    obtain ⟨es, hadd, hstep⟩ := Outcome.bind_eq_ok_iff.1 hstep
    cases hstep
    obtain ⟨vs, ws, hsplit, hvs, l, hnames, rfl, rfl⟩ := hus.listed (a := ⟨name, w⟩) hadd
    refine ⟨_, rfl, vs, .list l false, ?_, hvs, hnames, ArgumentsTree.entries_list hnames⟩
    rw [htokens, hsplit]
    simp [ArgumentsTree.tokens, trailing]
  | _ => cases hstep

/-- Opening the braces of a field begins a selection. -/
theorem Reading.Follows.openLevel {arguments : Option (List (String × Value))}
    (hlevels : LevelsFollow r.outer us)
    (hmode : (Level.mode ⟨r.items, field, arguments⟩).Follows r.items vs) :
    (r.openLevel field arguments).Follows (us ++ vs ++ [.openBrace]) :=
  ⟨us ++ (vs ++ [.openBrace]), [], by simp, ⟨us, vs, rfl, hlevels, hmode⟩, .inl ⟨rfl, rfl⟩⟩

/-- Taking a token keeps the state in line with the tokens that have been taken. -/
theorem Reading.Follows.step {l : Located Token} (h : r.Follows ts) (hstep : r.step l = .ok r') :
    r'.Follows (ts ++ [l.token]) := by
  have hclose : ∀ {fault : ReadFault}, (r.closeLevel?).elim (.error fault) .ok = Except.ok r' →
      r'.Follows (ts ++ [.closeBrace]) := fun hc => h.closeLevel (closeLevel?_of_elim hc)
  obtain ⟨outer, items, mode⟩ := r
  obtain ⟨token, line, position⟩ := l
  obtain ⟨us, vs, rfl, hlevels, hmode⟩ := h
  have hopen := @Reading.Follows.openLevel us vs ⟨outer, items, mode⟩
  -- what was read last is followed at the innermost level alone
  have hnext : ∀ {items' : List Value} {mode' : Mode}, mode'.Follows items' (vs ++ [token]) →
      Reading.Follows ⟨outer, items', mode'⟩ (us ++ vs ++ [token]) := fun hm =>
    ⟨us, vs ++ [token], List.append_assoc _ _ _, hlevels, hm⟩
  cases mode with
  | start =>
    cases token with
    | name field =>
      cases hstep
      exact hnext ⟨vs, rfl, hmode⟩
    | closeBrace => exact hclose hstep
    | _ => cases hstep
  | named field =>
    cases token with
    | openBrace =>
      cases hstep
      exact hopen hlevels hmode
    | openParen =>
      cases hstep
      obtain ⟨ws, rfl, hws⟩ := hmode
      exact hnext ⟨ws, [], by simp, hws, .inl ⟨rfl, rfl⟩⟩
    | comma =>
      cases hstep
      exact hnext (hmode.comma (by simp) rfl)
    | closeBrace => exact hclose hstep
    | _ => cases hstep
  | called field es =>
    cases token with
    | openBrace =>
      cases hstep
      exact hopen hlevels hmode
    | comma =>
      cases hstep
      exact hnext (hmode.comma (by simp) rfl)
    | closeBrace => exact hclose hstep
    | _ => cases hstep
  | closed =>
    cases token with
    | comma =>
      cases hstep
      exact hnext (hmode.comma (by simp) rfl)
    | closeBrace => exact hclose hstep
    | _ => cases hstep
  | argument call =>
    cases token with
    | name name =>
      cases hstep
      exact hnext ⟨vs, rfl, hmode⟩
    | closeParen =>
      cases hstep
      exact hnext hmode.closeParen
    | _ => cases hstep
  | argumentName call name =>
    cases token with
    | colon =>
      cases hstep
      obtain ⟨ws, rfl, hws⟩ := hmode
      exact hnext ⟨ws, [], by simp, hws, rfl⟩
    | _ => cases hstep
  | value call name lists =>
    obtain ⟨mode', rfl, hmode'⟩ := hmode.step_value hstep
    exact hnext hmode'
  | element call name list lists =>
    obtain ⟨mode', rfl, hmode'⟩ := hmode.step_element hstep
    exact hnext hmode'
  | argumentValue call name v =>
    obtain ⟨mode', rfl, hmode'⟩ := hmode.step_argumentValue hstep
    exact hnext hmode'

/-- Taking tokens keeps the state in line with the tokens that have been taken. -/
theorem Reading.Follows.run {ls : List (Located Token)} (h : r.Follows ts)
    (hrun : ls.foldlM Reading.step r = .ok r') : r'.Follows (ts ++ ls.map Located.token) := by
  induction ls generalizing r ts with
  | nil =>
    cases hrun
    simpa using h
  | cons l ls ih =>
    rw [List.foldlM_cons] at hrun
    obtain ⟨s, hs, hrun⟩ := Outcome.bind_eq_ok_iff.1 hrun
    have htail := ih (h.step hs) hrun
    rwa [List.append_assoc, List.singleton_append] at htail

theorem Reading.Follows.initial : Reading.initial.Follows [] :=
  ⟨[], [], rfl, rfl, .inl ⟨rfl, rfl⟩⟩

/-- What is read is the meaning of a derivation tree in which no argument is given twice. -/
theorem exists_tree_of_readTokens {ls : List (Located Token)} {selection : List Value}
    (h : readTokens ls = .ok selection) :
    ∃ s : SelectionTree, s.tokens = ls.map Located.token ∧ s.NamesOnce ∧ s.values = selection := by
  obtain ⟨r, hrun, hfinish⟩ := Outcome.bind_eq_ok_iff.1 h
  obtain ⟨us, vs, hsplit, hlevels, hmode⟩ := Reading.Follows.initial.run hrun
  obtain ⟨outer, items, mode⟩ := r
  unfold Reading.finish at hfinish
  split at hfinish
  · next fields hsettled houter =>
    cases hfinish
    obtain rfl : outer = [] := houter
    obtain rfl : us = [] := hlevels
    obtain ⟨s, honce, rfl, rfl⟩ := hmode.selection hsettled
    exact ⟨s, hsplit.symm, honce, rfl⟩
  · cases hfinish

/-! ## Texts -/

/-- A text that is scanned to its end is read as its tokens are. -/
theorem readText_eq_readTokens {text : List Char} (h : (Token.scan 1 text).stop = none) :
    readText text = readTokens (Token.scan 1 text).tokens := by
  rw [readText, readScanned, h]
  rfl

/-- A text that is read has a derivation tree for the tokens that are scanned in it. -/
theorem exists_tree_of_text {text : List Char} {selection : List Value}
    (h : readText text = .ok selection) :
    ∃ s : SelectionTree, s.tokens = (Token.scan 1 text).tokens.map Located.token ∧
      s.values = selection := by
  cases hstop : (Token.scan 1 text).stop with
  | some stop =>
    rw [readText, readScanned, hstop] at h
    obtain ⟨r, -, hr⟩ := Outcome.bind_eq_ok_iff.1 h
    cases hr
  | none =>
    rw [readText_eq_readTokens hstop] at h
    obtain ⟨s, htokens, -, hvalues⟩ := exists_tree_of_readTokens h
    exact ⟨s, htokens, hvalues⟩

/-- A text that is cut into tokens is read as what a derivation tree with these tokens means. -/
theorem readText_eq_ok_iff {text : List Char} (h : Scans text ts) {selection : List Value} :
    readText text = .ok selection ↔
      ∃ s : SelectionTree, s.tokens = ts ∧ s.NamesOnce ∧ s.values = selection := by
  obtain ⟨htokens, hstop⟩ := h 1 0
  rw [readText_eq_readTokens hstop, ← htokens]
  refine ⟨exists_tree_of_readTokens, ?_⟩
  rintro ⟨s, hs, honce, rfl⟩
  exact (readTokens_tree s hs).1 honce

/-- A text that is cut into the tokens of a derivation tree is read as what the tree means. -/
theorem readText_of_scans {text : List Char} {s : SelectionTree} (honce : s.NamesOnce)
    (h : Scans text s.tokens) : readText text = .ok s.values :=
  (readText_eq_ok_iff h).2 ⟨s, rfl, honce, rfl⟩

/-! ## What is recognised -/

/-- Tokens on one line, at no position in particular. -/
def inLine (ts : List Token) : List (Located Token) :=
  ts.map fun t => ⟨t, 1, 0⟩

@[simp] theorem token_inLine (ts : List Token) : (inLine ts).map Located.token = ts := by
  simp [inLine, Function.comp_def]

/-- Derivation trees with the same tokens mean the same. -/
theorem values_eq_of_tokens_eq {s s' : SelectionTree} (hs : s.NamesOnce) (hs' : s'.NamesOnce)
    (h : s.tokens = s'.tokens) : s.values = s'.values := by
  have hread : readTokens (inLine s.tokens) = .ok s.values :=
    (readTokens_tree s (token_inLine _).symm).1 hs
  have hread' : readTokens (inLine s.tokens) = .ok s'.values :=
    (readTokens_tree s' (by rw [token_inLine, h])).1 hs'
  exact Except.ok.inj (hread.symm.trans hread')

/-- The tokens that are read as a selection are those of the derivation trees in which no argument
is given twice, and the selection is what such a tree means; for a tree in which an argument is given
twice that is the fault, and what has no tree is not read. Two lists of tokens are read as the same
selection exactly when they differ only in commas at the ends of lists. The tokens of a text that is
scanned to its end are read in this way. -/
theorem readTokens_grammar :
    (∀ ls line, readScanned ⟨ls, none, line⟩ = readTokens ls) ∧
    (∀ ls selection, readTokens ls = .ok selection ↔ ∃ s : SelectionTree,
      s.tokens = ls.map Located.token ∧ s.NamesOnce ∧ s.values = selection) ∧
    (∀ ls, ∀ s : SelectionTree, s.tokens = ls.map Located.token → ¬ s.NamesOnce →
      ∃ name line, readTokens ls = .error (.duplicateArgument name line)) ∧
    (∀ ls, (¬ ∃ s : SelectionTree, s.tokens = ls.map Located.token) →
      ∃ f, readTokens ls = .error f) ∧
    ∀ ls ls' selection selection', readTokens ls = .ok selection →
      readTokens ls' = .ok selection' → (selection = selection' ↔
        withoutTrailing (ls.map Located.token) = withoutTrailing (ls'.map Located.token)) := by
  have hread : ∀ {ls selection}, readTokens ls = .ok selection ↔ ∃ s : SelectionTree,
      s.tokens = ls.map Located.token ∧ s.NamesOnce ∧ s.values = selection := by
    refine fun {ls selection} => ⟨exists_tree_of_readTokens, ?_⟩
    rintro ⟨s, hls, honce, rfl⟩
    exact (readTokens_tree s hls).1 honce
  refine ⟨fun _ _ => rfl, fun _ _ => hread, fun ls s hls => (readTokens_tree s hls).2, fun ls hls => ?_, ?_⟩
  · cases h : readTokens ls with
    | ok selection =>
      obtain ⟨s, hs, -⟩ := exists_tree_of_readTokens h
      exact absurd ⟨s, hs⟩ hls
    | error f => exact ⟨f, rfl⟩
  · intro ls ls' _ _ h h'
    obtain ⟨s, hls, honce, rfl⟩ := hread.1 h
    obtain ⟨s', hls', honce', rfl⟩ := hread.1 h'
    have hbare : ∀ s : SelectionTree, withoutTrailing s.tokens = s.bare.tokens := by
      intro s
      have htokens := @SelectionTree.withoutTrailing_tokens s [] rfl
      rwa [List.append_nil, withoutTrailing, List.append_nil] at htokens
    rw [← hls, ← hls', hbare, hbare]
    refine ⟨fun hvalues => by rw [s.bare_eq s' honce honce' hvalues], fun htokens => ?_⟩
    rw [← s.values_bare, ← s'.values_bare]
    exact values_eq_of_tokens_eq (s.namesOnce_bare.2 honce) (s'.namesOnce_bare.2 honce') htokens

/-- A name and a call with every optional comma: `id, rank(by: [1, 2,], to: null,) { },`. -/
def ranksTree : SelectionTree :=
  .list (.more (.single (.name "id")) (.callBlock "rank"
    (.list (.more (.single ⟨"by", .list (.more (.single (.int 1)) (.int 2)) true⟩)
      ⟨"to", .null⟩) true) .empty)) true

/-- A call with an argument that is given twice: `rank(by: 1, by: 1)`. -/
def ranksTwiceTree : SelectionTree :=
  .list (.single (.call "rank" (.list (.more (.single ⟨"by", .int 1⟩) ⟨"by", .int 1⟩) false))) false

theorem readTokens_grammar_ranks :
    readTokens (inLine ranksTree.tokens) = .ok ranksTree.values ∧
    (∃ name line, readTokens (inLine ranksTwiceTree.tokens) =
      .error (.duplicateArgument name line)) ∧
    (¬ ∃ s : SelectionTree, s.tokens = [.comma]) ∧
    (∃ f, readTokens (inLine [.comma]) = .error f) ∧
    withoutTrailing ranksTree.tokens = withoutTrailing ranksTree.bare.tokens := by
  obtain ⟨-, hread, htwice, hnone, hsame⟩ := readTokens_grammar
  have hnames : ranksTree.NamesOnce := by
    simp [ranksTree, ArgumentsTree.NamesOnce, ArgumentListTree.names, Entries.keys]
  have hranks : readTokens (inLine ranksTree.tokens) = .ok ranksTree.values :=
    (hread _ _).2 ⟨ranksTree, (token_inLine _).symm, hnames, rfl⟩
  have hbare : readTokens (inLine ranksTree.bare.tokens) = .ok ranksTree.values :=
    (hread _ _).2 ⟨ranksTree.bare, (token_inLine _).symm, ranksTree.namesOnce_bare.2 hnames,
      ranksTree.values_bare⟩
  have hcomma : ¬ ∃ s : SelectionTree, s.tokens = [.comma] := by
    rintro ⟨s, hs⟩
    have htokens : s.tokens = (inLine [.comma]).map Located.token := hs
    by_cases honce : s.NamesOnce
    · cases (hread (inLine [.comma]) s.values).2 ⟨s, htokens, honce, rfl⟩
    · obtain ⟨_, _, hfault⟩ := htwice _ s htokens honce
      cases hfault
  refine ⟨hranks, ?_, hcomma, hnone _ hcomma, ?_⟩
  · refine htwice _ ranksTwiceTree (token_inLine _).symm ?_
    simp [ranksTwiceTree, ArgumentsTree.NamesOnce, ArgumentListTree.names, Entries.keys]
  · have htokens := (hsame _ _ _ _ hranks hbare).1 rfl
    rwa [token_inLine, token_inLine] at htokens

end Shapewise.Selection
