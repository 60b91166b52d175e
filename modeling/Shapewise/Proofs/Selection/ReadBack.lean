import Mathlib.Data.List.TakeWhile
import Shapewise.Proofs.Entries
import Shapewise.Proofs.Outcome
import Shapewise.Proofs.Selection.Printed

/-!
# Reading selection text

Selection text says trees, all of them and, where it has no fractions, nothing else: the printed
form of a tree is read back as the selection that the tree stands for, and a text without fractions
that is read at all is read as the selection of some tree (`readText_roundtrip`).

The first half follows the tokens of a tree through the reader. The second half is an invariant of
the reader, `Reading.Sound`: whatever has been read so far belongs to a tree.
-/

namespace Shapewise.Selection

open Text

/-! ## Reading tokens -/

/-- The reader goes from one state to another by taking tokens, wherever they stand. -/
def Reads (ts : List Token) (r r' : Reading) : Prop :=
  ∀ ls : List (Located Token), ls.map Located.token = ts → ls.foldlM Reading.step r = .ok r'

variable {ts us : List Token} {t : Token} {r r' r'' : Reading}

theorem reads_iff : Reads ts r r' ↔ Runs Reading.step ts r (· = r') := by
  refine ⟨fun h ls hls => ⟨r', h ls hls, rfl⟩, fun h ls hls => ?_⟩
  obtain ⟨_, hr, rfl⟩ := h ls hls
  exact hr

theorem Reads.nil (r : Reading) : Reads [] r r :=
  reads_iff.2 (.nil rfl)

/-- A token is taken; the line on which it stands may show in the state after it. -/
theorem Reads.cons
    (h : ∀ line position, ∃ s, Reading.step r ⟨t, line, position⟩ = .ok s ∧ Reads ts s r') :
    Reads (t :: ts) r r' := by
  simp only [reads_iff] at h ⊢
  exact .cons h

theorem Reads.take (h : ∀ line position, Reading.step r ⟨t, line, position⟩ = .ok r')
    (hrest : Reads ts r' r'') : Reads (t :: ts) r r'' :=
  .cons fun line position => ⟨r', h line position, hrest⟩

theorem Reads.append (h : Reads ts r r') (h' : Reads us r' r'') : Reads (ts ++ us) r r'' := by
  rw [reads_iff] at h h' ⊢
  refine h.append ?_
  rintro _ rfl
  exact h'

/-! ## Values -/

variable {outer : List Level} {items : List Value} {call : Call} {name : String}

mutual
theorem reads_literal (outer : List Level) (items : List Value) (call : Call) (name : String) :
    ∀ (l : Literal) (lists : List (List Value)),
      Reads l.tokens ⟨outer, items, .value call name lists⟩
        ⟨outer, items, Reading.valueRead call name lists l.value⟩
  | .text _, _ | .int _, _ | .bool _, _ | .null, _ => .take (fun _ _ => rfl) (.nil _)
  | .list ls, lists => .take (fun _ _ => rfl) (reads_literals outer items call name ls [] lists)
theorem reads_literals (outer : List Level) (items : List Value) (call : Call) (name : String) :
    ∀ (ls : List Literal) (list : List Value) (lists : List (List Value)),
      Reads (separated (Literal.tokensEach ls) ++ [.closeBracket])
        ⟨outer, items, .value call name (list :: lists)⟩
        ⟨outer, items, Reading.valueRead call name lists (.list (list ++ Literal.values ls))⟩
  | [], list, lists => by
    rw [Literal.values, List.append_nil]
    exact .take (fun _ _ => rfl) (.nil _)
  | [l], list, lists => by
    have hclose : Reads [.closeBracket] ⟨outer, items, .element call name (list ++ [l.value]) lists⟩
        ⟨outer, items, Reading.valueRead call name lists (.list (list ++ [l.value]))⟩ :=
      .take (fun _ _ => rfl) (.nil _)
    have h := (reads_literal outer items call name l (list :: lists)).append hclose
    simpa [Literal.tokensEach, Literal.values] using h
  | l :: m :: ls, list, lists => by
    have hrest := reads_literals outer items call name (m :: ls) (list ++ [l.value]) lists
    rw [List.append_assoc] at hrest
    have hcomma : Reads (.comma :: (separated (Literal.tokensEach (m :: ls)) ++ [.closeBracket]))
        ⟨outer, items, .element call name (list ++ [l.value]) lists⟩
        ⟨outer, items, Reading.valueRead call name lists
          (.list (list ++ Literal.values (l :: m :: ls)))⟩ :=
      .take (fun _ _ => rfl) hrest
    have h := (reads_literal outer items call name l (list :: lists)).append hcomma
    simpa [Literal.tokensEach, separated_cons_cons] using h
end

/-! ## Arguments -/

theorem reads_argument (outer : List Level) (items : List Value) (call : Call)
    (e : Name × Literal) : Reads (argumentTokens e) ⟨outer, items, .argument call⟩
      ⟨outer, items, .argumentValue call e.1.text e.2.value⟩ :=
  .take (fun _ _ => rfl) (.take (fun _ _ => rfl) (reads_literal outer items call e.1.text e.2 []))

theorem keys_argumentValues (es : List (Name × Literal)) :
    Entries.keys (argumentValues es) = es.map fun e => e.1.text := by
  simp [Entries.keys, argumentValues]

theorem addArgument_eq_ok {name : String} {v : Value} (h : name ∉ Entries.keys call.arguments) :
    Reading.addArgument call name v = .ok (call.arguments ++ [(name, v)]) := by
  rw [Reading.addArgument, if_neg]
  rwa [Entries.has_eq_true_iff]

theorem step_closeParen {v : Value} {arguments : List (String × Value)}
    (h : Reading.addArgument call name v = .ok arguments) (line position : Nat) :
    Reading.step ⟨outer, items, .argumentValue call name v⟩ ⟨.closeParen, line, position⟩ =
      .ok ⟨outer, items, .called call.field arguments⟩ := by
  show (do
    let arguments ← Reading.addArgument call name v
    return ⟨outer, items, .called call.field arguments⟩ : Except ReadFault Reading) = _
  rw [h]
  rfl

theorem step_argumentComma {v : Value} {arguments : List (String × Value)}
    (h : Reading.addArgument call name v = .ok arguments) (line position : Nat) :
    Reading.step ⟨outer, items, .argumentValue call name v⟩ ⟨.comma, line, position⟩ =
      .ok ⟨outer, items, .argument ⟨call.field, arguments, line⟩⟩ := by
  show (do
    let arguments ← Reading.addArgument call name v
    return ⟨outer, items, .argument ⟨call.field, arguments, line⟩⟩ : Except ReadFault Reading) = _
  rw [h]
  rfl

/-- Arguments with different names are read behind those that were read before. -/
theorem reads_arguments (outer : List Level) (items : List Value) (field : String) :
    ∀ (es : List (Name × Literal)) (before : List (String × Value)) (line : Nat),
      (Entries.keys (before ++ argumentValues es)).Nodup →
      Reads (separated (es.map argumentTokens) ++ [.closeParen])
        ⟨outer, items, .argument ⟨field, before, line⟩⟩
        ⟨outer, items, .called field (before ++ argumentValues es)⟩
  | [], before, line, _ => by
    have hnone : before ++ argumentValues [] = before := List.append_nil before
    rw [hnone]
    exact .take (fun _ _ => rfl) (.nil _)
  | e :: es, before, line, hnodup => by
    have hsplit : before ++ argumentValues (e :: es) =
        before ++ [(e.1.text, e.2.value)] ++ argumentValues es := by
      simp [argumentValues]
    have hnew : e.1.text ∉ Entries.keys before := by
      intro hm
      rw [Entries.keys, List.map_append] at hnodup
      exact (List.nodup_append.1 hnodup).2.2 _ hm _ List.mem_cons_self rfl
    have hadd : Reading.addArgument ⟨field, before, line⟩ e.1.text e.2.value =
        .ok (before ++ [(e.1.text, e.2.value)]) := addArgument_eq_ok hnew
    cases es with
    | nil =>
      have hclose : Reads [.closeParen]
          ⟨outer, items, .argumentValue ⟨field, before, line⟩ e.1.text e.2.value⟩
          ⟨outer, items, .called field (before ++ argumentValues [e])⟩ :=
        .take (step_closeParen hadd) (.nil _)
      have h := (reads_argument outer items ⟨field, before, line⟩ e).append hclose
      simpa using h
    | cons e' es =>
      have hcomma : Reads (.comma :: (separated ((e' :: es).map argumentTokens) ++ [.closeParen]))
          ⟨outer, items, .argumentValue ⟨field, before, line⟩ e.1.text e.2.value⟩
          ⟨outer, items, .called field (before ++ argumentValues (e :: e' :: es))⟩ := by
        refine .cons fun line' position => ⟨_, step_argumentComma hadd line' position, ?_⟩
        rw [hsplit] at hnodup ⊢
        exact reads_arguments outer items field (e' :: es) _ line' hnodup
      have h := (reads_argument outer items ⟨field, before, line⟩ e).append hcomma
      simpa [separated_cons_cons] using h

theorem reads_supplied (outer : List Level) (items : List Value) (n : Name) (a : Supplied) :
    Reads a.tokens ⟨outer, items, .named n.text⟩ ⟨outer, items, .called n.text a.values⟩ := by
  refine .cons fun line _ => ⟨⟨outer, items, .argument ⟨n.text, [], line⟩⟩, rfl, ?_⟩
  have hnodup : (Entries.keys ([] ++ argumentValues a.entries)).Nodup := by
    rw [List.nil_append, keys_argumentValues]
    exact a.distinct
  exact reads_arguments outer items n.text a.entries [] line hnodup

/-! ## Fields -/

/-- A field has been read, and with it the given fields of the innermost level. -/
structure Ended (outer : List Level) (items : List Value) (r : Reading) : Prop where
  outer_eq : r.outer = outer
  settled : r.settled? = some items
  not_start : r.mode ≠ .start

theorem step_comma {outer : List Level} {items : List Value} (h : Ended outer items r)
    (line position : Nat) : r.step ⟨.comma, line, position⟩ = .ok ⟨outer, items, .start⟩ := by
  obtain ⟨outer', items', mode⟩ := r
  obtain ⟨rfl, hsettled, hstart⟩ := h
  cases mode with
  | start => exact absurd rfl hstart
  | named | called | closed =>
    cases hsettled
    rfl
  | _ => cases hsettled

theorem step_closeBrace {level : Level} {outer : List Level} {items : List Value}
    (houter : r.outer = level :: outer) (hsettled : r.settled? = some items) (line position : Nat) :
    r.step ⟨.closeBrace, line, position⟩ =
      .ok ⟨outer, level.before ++ [Reading.blockItem level.field level.arguments items], .closed⟩ := by
  have hclose : r.closeLevel? = some
      ⟨outer, level.before ++ [Reading.blockItem level.field level.arguments items], .closed⟩ := by
    rw [Reading.closeLevel?, hsettled, houter]
  have hstep : r.step ⟨.closeBrace, line, position⟩ =
      (r.closeLevel?).elim (.error (.unexpected ⟨.closeBrace, line, position⟩)) .ok := by
    obtain ⟨outer', items', mode⟩ := r
    cases mode with
    | start | named | called | closed => rfl
    | _ => cases hsettled
  rw [hstep, hclose]
  rfl

/-- The braces of a field are read with the fields between them. -/
theorem reads_block (r : Reading) {field : String} {arguments : Option (List (String × Value))}
    {is : List Item} {inner : Reading}
    (hopen : ∀ line position, r.step ⟨.openBrace, line, position⟩ = .ok (r.openLevel field arguments))
    (hinner : Reads (separated (Item.tokensEach is)) (r.openLevel field arguments) inner)
    (houter : inner.outer = ⟨r.items, field, arguments⟩ :: r.outer)
    (hsettled : inner.settled? = some (Item.values is)) :
    Reads (.openBrace :: separated (Item.tokensEach is) ++ [.closeBrace]) r
      ⟨r.outer, r.items ++ [Reading.blockItem field arguments (Item.values is)], .closed⟩ :=
  .take hopen (hinner.append (.take (step_closeBrace houter hsettled) (.nil _)))

mutual
/-- A field of a tree is read. -/
theorem reads_item (outer : List Level) (items : List Value) : ∀ i : Item,
    ∃ r, Reads i.tokens ⟨outer, items, .start⟩ r ∧ Ended outer (items ++ [i.value]) r
  | .name n => ⟨⟨outer, items, .named n.text⟩, .take (fun _ _ => rfl) (.nil _), rfl, rfl, by simp⟩
  | .block n is => by
    obtain ⟨inner, hinner, houter, hsettled⟩ := reads_items (⟨items, n.text, none⟩ :: outer) [] is
    have hblock := reads_block ⟨outer, items, .named n.text⟩ (fun _ _ => rfl) hinner houter hsettled
    exact ⟨_, .take (fun _ _ => rfl) hblock, rfl, rfl, by simp⟩
  | .call n arguments => by
    have harguments := reads_supplied outer items n arguments
    exact ⟨_, .take (fun _ _ => rfl) harguments, rfl, rfl, by simp⟩
  | .callBlock n arguments is => by
    obtain ⟨inner, hinner, houter, hsettled⟩ :=
      reads_items (⟨items, n.text, some arguments.values⟩ :: outer) [] is
    have hblock := reads_block ⟨outer, items, .called n.text arguments.values⟩ (fun _ _ => rfl)
      hinner houter hsettled
    have harguments := reads_supplied outer items n arguments
    exact ⟨_, .take (fun _ _ => rfl) (harguments.append hblock), rfl, rfl, by simp⟩
/-- Fields of a tree are read behind those that were read before. -/
theorem reads_items (outer : List Level) (items : List Value) : ∀ is : List Item,
    ∃ r, Reads (separated (Item.tokensEach is)) ⟨outer, items, .start⟩ r ∧ r.outer = outer ∧
      r.settled? = some (items ++ Item.values is)
  | [] => ⟨_, .nil _, rfl, by rw [Item.values, List.append_nil]; rfl⟩
  | [i] => by
    obtain ⟨r, hr, hended⟩ := reads_item outer items i
    refine ⟨r, ?_, hended.outer_eq, hended.settled⟩
    simpa [Item.tokensEach] using hr
  | i :: j :: is => by
    obtain ⟨r, hr, hended⟩ := reads_item outer items i
    obtain ⟨s, hs, houter, hsettled⟩ := reads_items outer (items ++ [i.value]) (j :: is)
    have h := hr.append (.take (step_comma hended) hs)
    refine ⟨s, ?_, houter, ?_⟩
    · simpa [Item.tokensEach, separated_cons_cons] using h
    · simpa [Item.values] using hsettled
end

/-- The printed form of a tree is read as the selection that the tree stands for. -/
theorem readText_printAll (is : List Item) : readText (Item.printAll is) = .ok (Item.values is) := by
  obtain ⟨htokens, hstop⟩ := scans_printAll is 1 0
  obtain ⟨r, hr, houter, hsettled⟩ := reads_items [] [] is
  have hfinish : r.finish = .ok (Item.values is) := by
    rw [Reading.finish, hsettled, houter]
    rfl
  have hfold : (scan Token.scanner 1 0 (Item.printAll is)).tokens.foldlM Reading.step
      Reading.initial = .ok r := hr _ htokens
  rw [readText, readScanned, Token.scan, hfold, hstop]
  exact hfinish

/-! ## Parts of trees -/

/-- A text that is a name of a tree. -/
def IsName (s : String) : Prop :=
  ∃ n : Name, n.text = s

/-- A value that is a literal of a tree. -/
def IsLiteral (v : Value) : Prop :=
  ∃ l : Literal, l.value = v

/-- Entries that are the arguments of a field. -/
def IsSupplied (es : List (String × Value)) : Prop :=
  ∃ a : Supplied, a.values = es

/-- A value that is a field of a tree. -/
def IsItem (v : Value) : Prop :=
  ∃ i : Item, i.value = v

theorem exists_literals {vs : List Value} (h : ∀ v ∈ vs, IsLiteral v) :
    ∃ ls, Literal.values ls = vs := by
  induction vs with
  | nil => exact ⟨[], rfl⟩
  | cons v vs ih =>
    obtain ⟨⟨l, rfl⟩, hvs⟩ := List.forall_mem_cons.1 h
    obtain ⟨ls, rfl⟩ := ih hvs
    exact ⟨l :: ls, rfl⟩

theorem exists_items {vs : List Value} (h : ∀ v ∈ vs, IsItem v) : ∃ is, Item.values is = vs := by
  induction vs with
  | nil => exact ⟨[], rfl⟩
  | cons v vs ih =>
    obtain ⟨⟨i, rfl⟩, hvs⟩ := List.forall_mem_cons.1 h
    obtain ⟨is, rfl⟩ := ih hvs
    exact ⟨i :: is, rfl⟩

theorem isLiteral_list {vs : List Value} (h : ∀ v ∈ vs, IsLiteral v) : IsLiteral (.list vs) := by
  obtain ⟨ls, rfl⟩ := exists_literals h
  exact ⟨.list ls, rfl⟩

theorem isSupplied_nil : IsSupplied [] :=
  ⟨⟨[], List.nodup_nil⟩, rfl⟩

/-- Arguments may be followed by one with a new name. -/
theorem IsSupplied.append {es : List (String × Value)} {name : String} {v : Value}
    (hes : IsSupplied es) (hname : IsName name) (hv : IsLiteral v) (hnew : name ∉ Entries.keys es) :
    IsSupplied (es ++ [(name, v)]) := by
  obtain ⟨a, rfl⟩ := hes
  obtain ⟨n, rfl⟩ := hname
  obtain ⟨l, rfl⟩ := hv
  have hdistinct : ((a.entries ++ [(n, l)]).map fun e => e.1.text).Nodup := by
    rw [Supplied.values, keys_argumentValues] at hnew
    rw [List.map_append, List.nodup_append]
    refine ⟨a.distinct, List.nodup_singleton _, fun m hm k hk => ?_⟩
    obtain rfl := List.mem_singleton.1 hk
    rintro rfl
    exact hnew hm
  exact ⟨⟨_, hdistinct⟩, by simp [Supplied.values, argumentValues]⟩

theorem isItem_name {field : String} (h : IsName field) : IsItem (.str field) := by
  obtain ⟨n, rfl⟩ := h
  exact ⟨.name n, rfl⟩

theorem isItem_call {field : String} {arguments : List (String × Value)} (h : IsName field)
    (ha : IsSupplied arguments) : IsItem (Reading.callItem field arguments) := by
  obtain ⟨n, rfl⟩ := h
  obtain ⟨a, rfl⟩ := ha
  exact ⟨.call n a, rfl⟩

theorem isItem_block {field : String} {arguments : Option (List (String × Value))}
    {items : List Value} (h : IsName field) (ha : ∀ es, arguments = some es → IsSupplied es)
    (hitems : ∀ v ∈ items, IsItem v) : IsItem (Reading.blockItem field arguments items) := by
  obtain ⟨n, rfl⟩ := h
  obtain ⟨is, rfl⟩ := exists_items hitems
  cases arguments with
  | none => exact ⟨.block n is, rfl⟩
  | some es =>
    obtain ⟨a, rfl⟩ := ha es rfl
    exact ⟨.callBlock n a is, rfl⟩

/-! ## What has been read belongs to a tree -/

/-- The arguments that are being read belong to a tree. -/
structure Call.Sound (call : Call) : Prop where
  field : IsName call.field
  arguments : IsSupplied call.arguments

/-- A field whose braces are open belongs to a tree. -/
structure Level.Sound (level : Level) : Prop where
  before : ∀ v ∈ level.before, IsItem v
  field : IsName level.field
  arguments : ∀ es, level.arguments = some es → IsSupplied es

/-- What was read last belongs to a tree. -/
def Mode.Sound : Mode → Prop
  | .start => True
  | .named field => IsName field
  | .called field arguments => IsName field ∧ IsSupplied arguments
  | .closed => True
  | .argument call => call.Sound
  | .argumentName call name => call.Sound ∧ IsName name
  | .value call name lists => call.Sound ∧ IsName name ∧ ∀ l ∈ lists, ∀ v ∈ l, IsLiteral v
  | .element call name list lists =>
    call.Sound ∧ IsName name ∧ (∀ v ∈ list, IsLiteral v) ∧ ∀ l ∈ lists, ∀ v ∈ l, IsLiteral v
  | .argumentValue call name v => call.Sound ∧ IsName name ∧ IsLiteral v

/-- All that has been read belongs to a tree. -/
structure Reading.Sound (r : Reading) : Prop where
  outer : ∀ level ∈ r.outer, level.Sound
  items : ∀ v ∈ r.items, IsItem v
  mode : r.mode.Sound

/-- Whether a token is a number with a fraction. -/
def Token.isFraction : Token → Bool
  | .float _ => true
  | _ => false

/-- A token that can stand in the text of a tree. -/
structure Token.Sound (t : Token) : Prop where
  name : ∀ s, t = .name s → IsName s
  no_fraction : t.isFraction = false

theorem forall_mem_append_singleton {α : Type} {P : α → Prop} {as : List α} {a : α}
    (has : ∀ b ∈ as, P b) (ha : P a) : ∀ b ∈ as ++ [a], P b := by
  intro b hb
  rcases List.mem_append.1 hb with hb | hb
  · exact has b hb
  · exact List.mem_singleton.1 hb ▸ ha

theorem Reading.Sound.settled {r : Reading} (h : r.Sound) {items : List Value}
    (hsettled : r.settled? = some items) : ∀ v ∈ items, IsItem v := by
  obtain ⟨outer, items', mode⟩ := r
  obtain ⟨-, hitems, hmode⟩ := h
  cases mode with
  | start | closed =>
    cases hsettled
    exact hitems
  | named field =>
    cases hsettled
    exact forall_mem_append_singleton hitems (isItem_name hmode)
  | called field arguments =>
    cases hsettled
    exact forall_mem_append_singleton hitems (isItem_call hmode.1 hmode.2)
  | _ => cases hsettled

theorem Reading.Sound.closeLevel {r r' : Reading} (h : r.Sound)
    (hclose : r.closeLevel? = some r') : r'.Sound := by
  unfold Reading.closeLevel? at hclose
  split at hclose
  · next items level outer hsettled houter =>
    obtain ⟨hlevel, hrest⟩ := List.forall_mem_cons.1 (houter ▸ h.outer)
    cases hclose
    have hblock := isItem_block hlevel.field hlevel.arguments (h.settled hsettled)
    exact ⟨hrest, forall_mem_append_singleton hlevel.before hblock, trivial⟩
  · cases hclose

theorem isLiteral_of_literal? {t : Token} (ht : t.Sound) {v : Value}
    (h : Reading.literal? t = some v) : IsLiteral v := by
  cases t with
  | text s => exact ⟨.text s, Option.some.inj h⟩
  | int i => exact ⟨.int i, Option.some.inj h⟩
  | float x => cases ht.no_fraction
  | bool b => exact ⟨.bool b, Option.some.inj h⟩
  | null => exact ⟨.null, Option.some.inj h⟩
  | _ => cases h

/-- A value that has been read ends an argument or becomes an element of the innermost list. -/
theorem valueRead_sound {call : Call} {name : String} {lists : List (List Value)} {v : Value}
    (hcall : call.Sound) (hname : IsName name) (hlists : ∀ l ∈ lists, ∀ w ∈ l, IsLiteral w)
    (hv : IsLiteral v) : (Reading.valueRead call name lists v).Sound := by
  cases lists with
  | nil => exact ⟨hcall, hname, hv⟩
  | cons list lists =>
    obtain ⟨hlist, hlists⟩ := List.forall_mem_cons.1 hlists
    exact ⟨hcall, hname, forall_mem_append_singleton hlist hv, hlists⟩

theorem addArgument_sound {call : Call} {name : String} {v : Value}
    {arguments : List (String × Value)} (hcall : call.Sound) (hname : IsName name)
    (hv : IsLiteral v) (h : Reading.addArgument call name v = .ok arguments) :
    IsSupplied arguments := by
  rw [Reading.addArgument] at h
  split at h
  · cases h
  · next hnew =>
    rw [Entries.has_eq_true_iff] at hnew
    cases h
    exact hcall.arguments.append hname hv hnew

theorem closeLevel?_of_elim {r r' : Reading} {fault : ReadFault}
    (h : (r.closeLevel?).elim (.error fault) .ok = Except.ok r') : r.closeLevel? = some r' := by
  cases hclose : r.closeLevel? with
  | none =>
    rw [hclose] at h
    cases h
  | some s =>
    rw [hclose] at h
    cases h
    rfl

/-- Opening the braces of a field keeps the reader sound. -/
theorem openLevel_sound {r : Reading} (hr : r.Sound) {field : String}
    {arguments : Option (List (String × Value))} (hfield : IsName field)
    (harguments : ∀ es, arguments = some es → IsSupplied es) :
    (r.openLevel field arguments).Sound where
  outer := List.forall_mem_cons.2 ⟨⟨hr.items, hfield, harguments⟩, hr.outer⟩
  items := fun _ h => nomatch h
  mode := trivial

/-- Taking a token keeps the reader sound. -/
theorem step_sound {r r' : Reading} {t : Located Token} (hr : r.Sound) (ht : t.token.Sound)
    (h : r.step t = .ok r') : r'.Sound := by
  have hclose : ∀ {fault : ReadFault}, (r.closeLevel?).elim (.error fault) .ok = Except.ok r' →
      r'.Sound := fun h => hr.closeLevel (closeLevel?_of_elim h)
  obtain ⟨outer, items, mode⟩ := r
  obtain ⟨token, line, position⟩ := t
  have hopen := @openLevel_sound _ hr
  obtain ⟨houter, hitems, hmode⟩ := hr
  cases mode with
  | start =>
    cases token with
    | name field =>
      cases h
      exact ⟨houter, hitems, ht.name field rfl⟩
    | closeBrace => exact hclose h
    | _ => cases h
  | named field =>
    cases token with
    | openBrace =>
      cases h
      exact hopen hmode nofun
    | openParen =>
      cases h
      exact ⟨houter, hitems, hmode, isSupplied_nil⟩
    | comma =>
      cases h
      exact ⟨houter, forall_mem_append_singleton hitems (isItem_name hmode), trivial⟩
    | closeBrace => exact hclose h
    | _ => cases h
  | called field arguments =>
    cases token with
    | openBrace =>
      cases h
      exact hopen hmode.1 fun es he => Option.some.inj he ▸ hmode.2
    | comma =>
      cases h
      exact ⟨houter, forall_mem_append_singleton hitems (isItem_call hmode.1 hmode.2), trivial⟩
    | closeBrace => exact hclose h
    | _ => cases h
  | closed =>
    cases token with
    | comma =>
      cases h
      exact ⟨houter, hitems, trivial⟩
    | closeBrace => exact hclose h
    | _ => cases h
  | argument call =>
    cases token with
    | name name =>
      cases h
      exact ⟨houter, hitems, hmode, ht.name name rfl⟩
    | closeParen =>
      cases h
      exact ⟨houter, hitems, hmode.field, hmode.arguments⟩
    | _ => cases h
  | argumentName call name =>
    cases token with
    | colon =>
      cases h
      exact ⟨houter, hitems, hmode.1, hmode.2, nofun⟩
    | _ => cases h
  | value call name lists =>
    obtain ⟨hcall, hname, hlists⟩ := hmode
    have hliteral : ∀ {v : Value}, Reading.literal? token = some v →
        Reading.Sound ⟨outer, items, Reading.valueRead call name lists v⟩ := fun hv =>
      ⟨houter, hitems, valueRead_sound hcall hname hlists (isLiteral_of_literal? ht hv)⟩
    cases token with
    | openBracket =>
      cases h
      exact ⟨houter, hitems, hcall, hname, List.forall_mem_cons.2 ⟨nofun, hlists⟩⟩
    | closeBracket =>
      cases lists with
      | nil => cases h
      | cons list lists =>
        cases h
        obtain ⟨hlist, hlists⟩ := List.forall_mem_cons.1 hlists
        exact ⟨houter, hitems, valueRead_sound hcall hname hlists (isLiteral_list hlist)⟩
    | text | int | float | bool | null =>
      cases h
      exact hliteral rfl
    | _ => cases h
  | element call name list lists =>
    obtain ⟨hcall, hname, hlist, hlists⟩ := hmode
    cases token with
    | comma =>
      cases h
      exact ⟨houter, hitems, hcall, hname, List.forall_mem_cons.2 ⟨hlist, hlists⟩⟩
    | closeBracket =>
      cases h
      exact ⟨houter, hitems, valueRead_sound hcall hname hlists (isLiteral_list hlist)⟩
    | _ => cases h
  | argumentValue call name v =>
    obtain ⟨hcall, hname, hv⟩ := hmode
    cases token with
    | comma =>
      obtain ⟨arguments, harguments, h⟩ := Outcome.bind_eq_ok_iff.1 h
      cases h
      exact ⟨houter, hitems, hcall.field, addArgument_sound hcall hname hv harguments⟩
    | closeParen =>
      obtain ⟨arguments, harguments, h⟩ := Outcome.bind_eq_ok_iff.1 h
      cases h
      exact ⟨houter, hitems, hcall.field, addArgument_sound hcall hname hv harguments⟩
    | _ => cases h

theorem foldlM_step_sound {ls : List (Located Token)} (hls : ∀ l ∈ ls, l.token.Sound)
    {r r' : Reading} (hr : r.Sound) (h : ls.foldlM Reading.step r = .ok r') : r'.Sound := by
  induction ls generalizing r with
  | nil =>
    cases h
    exact hr
  | cons l ls ih =>
    obtain ⟨hl, hls⟩ := List.forall_mem_cons.1 hls
    rw [List.foldlM_cons] at h
    obtain ⟨s, hs, h⟩ := Outcome.bind_eq_ok_iff.1 h
    exact ih hls (step_sound hr hl hs) h

/-! ## Scanned names -/

/-- Every token of a text is what the scanner gives for some front of a text. -/
theorem exists_scanner_of_mem {τ ρ : Type} {scanner : Scanner τ ρ} {line position : Nat}
    {text : List Char} {l : Located τ} (h : l ∈ (scan scanner line position text).tokens) :
    ∃ c cs n, scanner c cs = .ok (.token l.token, n) := by
  induction line, position, text using scan.induct scanner with
  | case1 =>
    rw [scan] at h
    cases h
  | case2 line position c cs reason hc =>
    rw [scan, hc] at h
    cases h
  | case3 line position c cs lexeme n hc ih =>
    rw [scan, hc] at h
    cases lexeme with
    | skipped | lineFeed => exact ih h
    | token t =>
      rcases List.mem_cons.1 h with rfl | h
      · exact ⟨c, cs, n, hc⟩
      · exact ih h

theorem isName_ofList {cs : List Char} (hne : cs ≠ []) (hcs : '`' ∉ cs) :
    IsName (String.ofList cs) :=
  ⟨⟨String.ofList cs, by rwa [String.toList_ofList], by rwa [String.toList_ofList]⟩, rfl⟩

theorem eq_of_ofWord {w s : String} (h : Token.ofWord w = .name s) : w = s := by
  unfold Token.ofWord at h
  split at h
  all_goals cases h
  rfl

theorem number?_ne_name {negative : Bool} {cs : List Char} {s : String} {n : Nat} :
    Token.number? negative cs ≠ some (.name s, n) := by
  unfold Token.number?
  dsimp only
  split
  · simp
  · split <;> simp

theorem ofPunctuation?_ne_name {c : Char} {s : String} :
    Token.ofPunctuation? c ≠ some (.name s) := by
  unfold Token.ofPunctuation?
  split <;> simp

/-- A name is scanned between backticks or as a plain word. -/
theorem isName_of_scanner {c : Char} {cs : List Char} {s : String} {n : Nat}
    (h : Token.scanner c cs = .ok (.token (.name s), n)) : IsName s := by
  have hword : ∀ d, Token.isWordPart d = true → d ≠ '`' := by
    rintro d hd rfl
    cases hd
  unfold Token.scanner at h
  -- blanks, line feeds and comments are no tokens
  split at h
  · cases h
  split at h
  · cases h
  split at h
  · cases h
  -- between double quotes stands a text
  split at h
  · split at h
    · cases h
    · split at h <;> cases h
  -- between backticks stands a name
  split at h
  · dsimp only at h
    split at h
    · cases h
    · next hquoted =>
      cases h
      refine isName_ofList ?_ ?_
      · intro hnil
        rw [hnil] at hquoted
        exact hquoted rfl
      · intro hmem
        have hne := List.mem_takeWhile_imp hmem
        simp at hne
  -- a plain word may be a name
  split at h
  · next hstart =>
    have hname : Token.ofWord (String.ofList (c :: cs.takeWhile Token.isWordPart)) = .name s :=
      Lexeme.token.inj (Prod.mk.inj (Except.ok.inj h)).1
    rw [← eq_of_ofWord hname]
    refine isName_ofList (List.cons_ne_nil _ _) fun hmem => ?_
    rcases List.mem_cons.1 hmem with rfl | hmem
    · cases hstart
    · exact hword _ (List.mem_takeWhile_imp hmem) rfl
  -- numbers and punctuation are no names
  split at h
  · split at h
    · next hnumber =>
      cases h
      exact absurd hnumber number?_ne_name
    · cases h
  split at h
  · split at h
    · next hnumber =>
      cases h
      exact absurd hnumber number?_ne_name
    · cases h
  · split at h
    · next hpunctuation =>
      cases h
      exact absurd hpunctuation ofPunctuation?_ne_name
    · cases h

/-! ## Texts and trees -/

/-- A text without fractions is read as the selection of a tree, if it is read. -/
theorem exists_tree_of_readText {text : List Char} {selection : List Value}
    (h : readText text = .ok selection)
    (hfractions : ∀ t ∈ (Token.scan 1 text).tokens, t.token.isFraction = false) :
    ∃ is, Item.values is = selection := by
  have hsound : ∀ t ∈ (Token.scan 1 text).tokens, t.token.Sound := by
    intro t ht
    refine ⟨fun s hs => ?_, hfractions t ht⟩
    obtain ⟨c, cs, n, hscanner⟩ := exists_scanner_of_mem ht
    rw [hs] at hscanner
    exact isName_of_scanner hscanner
  have hinitial : Reading.initial.Sound := ⟨nofun, nofun, trivial⟩
  rw [readText, readScanned] at h
  obtain ⟨r, hr, h⟩ := Outcome.bind_eq_ok_iff.1 h
  have hrsound := foldlM_step_sound hsound hinitial hr
  split at h
  · cases h
  · unfold Reading.finish at h
    split at h
    · next hsettled _ =>
      cases h
      exact exists_items (hrsound.settled hsettled)
    · cases h

/-- A text with names of both kinds, arguments and trailing commas. -/
def mixedText : List Char :=
  "id, `a # b`(n: -7, `true`: [\"\\x41\", null,],) { name, },".toList

end Shapewise.Selection
