import Shapewise.Page.ReadAction
import Shapewise.Proofs.Schema.Selection

/-!
# What read actions give

The shape of what a read action gives, told by its flags and the keys of the page parameter
(`ReadAction.Answers`). An action is answered in this way and in no other, and every page parameter
without an answer is refused (`resultShape_answers`). The selection is settled before: where it is
refused or has no shape, the page parameter does not matter.
-/

namespace Shapewise

open Outcome

variable {keys : List String} {flavor : PageFlavor} {flavors : List PageFlavor} {choice : PageChoice}
  {required : Bool} {page : Value}

/-! ## Keys of a page parameter -/

/-- Every key is one of an offset page or of a keyset page. -/
def KnownKeys (keys : List String) : Prop :=
  ∀ k ∈ keys, k ∈ ["limit", "offset", "count", "after", "before"]

/-- A key says where a keyset page starts or ends. -/
def HasCursor (keys : List String) : Prop :=
  "after" ∈ keys ∨ "before" ∈ keys

/-- The kind of page that keys mean. A keyset page may have a `limit` and nothing else of an offset
page. -/
inductive Means (keys : List String) : PageFlavor → Prop
  | keyset (hcursor : HasCursor keys) (hoffset : "offset" ∉ keys) (hcount : "count" ∉ keys) :
    Means keys .keyset
  | offset (hcursor : ¬ HasCursor keys)
      (hkey : "limit" ∈ keys ∨ "offset" ∈ keys ∨ "count" ∈ keys) : Means keys .offset

theorem means_keyset_iff :
    Means keys .keyset ↔ HasCursor keys ∧ "offset" ∉ keys ∧ "count" ∉ keys := by
  constructor
  · rintro ⟨hcursor, hoffset, hcount⟩
    exact ⟨hcursor, hoffset, hcount⟩
  · rintro ⟨hcursor, hoffset, hcount⟩
    exact .keyset hcursor hoffset hcount

theorem means_offset_iff :
    Means keys .offset ↔
      ¬ HasCursor keys ∧ ("limit" ∈ keys ∨ "offset" ∈ keys ∨ "count" ∈ keys) := by
  constructor
  · rintro (_ | ⟨hcursor, hkey⟩)
    exact ⟨hcursor, hkey⟩
  · rintro ⟨hcursor, hkey⟩
    exact .offset hcursor hkey

instance : Decidable (KnownKeys keys) :=
  inferInstanceAs (Decidable (∀ k ∈ keys, k ∈ ["limit", "offset", "count", "after", "before"]))

instance : Decidable (HasCursor keys) :=
  inferInstanceAs (Decidable ("after" ∈ keys ∨ "before" ∈ keys))

theorem unknownPageKeys_isEmpty : (unknownPageKeys keys).names.isEmpty = decide (KnownKeys keys) := by
  have hmem : ∀ k, k ∈ (unknownPageKeys keys).names ↔
      k ∈ keys ∧ k ∉ ["limit", "offset", "count", "after", "before"] := by
    intro k
    refine NameSet.mem_ofList.trans ?_
    simp [offsetKeys, keysetKeys, and_assoc]
  rw [Bool.eq_iff_iff, List.isEmpty_iff, decide_eq_true_eq]
  simp only [List.eq_nil_iff_forall_not_mem, hmem, not_and_not_right]
  rfl

theorem any_keysetKeys : keys.any (· ∈ keysetKeys) = decide (HasCursor keys) := by
  rw [Bool.eq_iff_iff, decide_eq_true_eq, HasCursor]
  simp [keysetKeys, and_or_left, exists_or]

theorem any_offsetKeys :
    keys.any (· ∈ offsetKeys) = decide ("limit" ∈ keys ∨ "offset" ∈ keys ∨ "count" ∈ keys) := by
  rw [Bool.eq_iff_iff]
  simp [offsetKeys, and_or_left, exists_or]

theorem any_offset_or_count :
    keys.any (fun k => k = "offset" || k = "count") =
      decide ("offset" ∈ keys ∨ "count" ∈ keys) := by
  rw [Bool.eq_iff_iff]
  simp [and_or_left, exists_or]

theorem classifyPage_eq_ok_iff :
    classifyPage keys = .ok (some flavor) ↔ KnownKeys keys ∧ Means keys flavor := by
  simp only [classifyPage, unknownPageKeys_isEmpty, any_keysetKeys, any_offsetKeys,
    any_offset_or_count]
  by_cases hknown : KnownKeys keys
  · by_cases hcursor : HasCursor keys
    · by_cases hmixed : "offset" ∈ keys ∨ "count" ∈ keys
      · cases flavor <;> simp [hknown, hcursor, hmixed, means_keyset_iff, means_offset_iff]
        tauto
      · cases flavor <;> simp [hknown, hcursor, hmixed, means_keyset_iff, means_offset_iff]
        tauto
    · by_cases hkey : "limit" ∈ keys ∨ "offset" ∈ keys ∨ "count" ∈ keys
      · cases flavor <;> simp [hknown, hcursor, hkey, means_keyset_iff, means_offset_iff]
      · cases flavor <;> simp [hknown, hcursor, hkey, means_keyset_iff, means_offset_iff]
  · simp [hknown]

-- A limit alone is one of an offset page, and with a cursor it is one of a keyset page.
example : classifyPage ["limit"] = .ok (some .offset) ∧
    classifyPage ["limit", "before"] = .ok (some .keyset) := by
  decide

namespace ReadAction

variable {a : ReadAction} {g : Graph} {L : Limits} {selection : Value} {record s : Shape}

/-! ## Kinds of pages -/

/-- The action has pages of a kind. -/
def Has (a : ReadAction) : PageFlavor → Prop
  | .offset => a.offset = true
  | .keyset => a.keyset = true

/-- The action has pages of one kind. -/
def HasOnly (a : ReadAction) (flavor : PageFlavor) : Prop :=
  ∀ other, a.Has other ↔ other = flavor

/-- The action has pages of both kinds. -/
def HasBoth (a : ReadAction) : Prop :=
  ∀ flavor, a.Has flavor

/-- What an action over records of a shape gives for a page parameter, null standing for none. -/
inductive Answers (a : ReadAction) (record : Shape) : Value → Shape → Prop
  /-- One record, or null. -/
  | single (hsingle : a.single = true) : Answers a record .null record.orNull
  /-- The bare list. -/
  | list (hsingle : a.single = false) (hrequired : a.required = false) :
    Answers a record .null (.array record)
  /-- The only kind of page, where a page is always given. -/
  | always {flavor : PageFlavor} (hsingle : a.single = false) (hrequired : a.required = true)
      (honly : a.HasOnly flavor) : Answers a record .null (flavor.envelope (.array record))
  /-- The only kind of page, whatever known keys there are. -/
  | only {flavor : PageFlavor} {entries : List (String × Value)} (hsingle : a.single = false)
      (honly : a.HasOnly flavor) (hknown : KnownKeys (Entries.keys entries)) :
    Answers a record (.obj entries) (flavor.envelope (.array record))
  /-- The kind of page that the keys mean. -/
  | byKeys {flavor : PageFlavor} {entries : List (String × Value)} (hsingle : a.single = false)
      (hboth : a.HasBoth) (hknown : KnownKeys (Entries.keys entries))
      (hmeans : Means (Entries.keys entries) flavor) :
    Answers a record (.obj entries) (flavor.envelope (.array record))

theorem HasOnly.has (h : a.HasOnly flavor) : a.Has flavor :=
  (h flavor).2 rfl

theorem HasOnly.eq {other : PageFlavor} (h : a.HasOnly flavor) (h' : a.HasOnly other) :
    flavor = other :=
  (h' flavor).1 h.has

theorem HasOnly.not_hasBoth (h : a.HasOnly flavor) : ¬ a.HasBoth := by
  intro hboth
  have hoffset := (h .offset).1 (hboth .offset)
  have hkeyset := (h .keyset).1 (hboth .keyset)
  rw [← hoffset] at hkeyset
  cases hkeyset

/-- An action has no pages, pages of one kind or pages of both kinds. -/
theorem flavors_cases (a : ReadAction) :
    (a.envelopes.flavors = [] ∧ ∀ flavor, ¬ a.Has flavor) ∨
      (∃ flavor, a.envelopes.flavors = [flavor] ∧ a.HasOnly flavor) ∨
      (a.envelopes.flavors = [.offset, .keyset] ∧ a.HasBoth) := by
  obtain ⟨name, entity, single, offset, keyset, required⟩ := a
  cases offset <;> cases keyset
  · exact .inl ⟨rfl, by rintro (_ | _) ⟨⟩⟩
  · exact .inr (.inl ⟨.keyset, rfl, by rintro (_ | _) <;> simp [Has]⟩)
  · exact .inr (.inl ⟨.offset, rfl, by rintro (_ | _) <;> simp [Has]⟩)
  · exact .inr (.inr ⟨rfl, by rintro (_ | _) <;> rfl⟩)

theorem get?_envelopes (h : a.Has flavor) : a.envelopes.get? flavor = some flavor.envelope := by
  cases flavor
  · exact if_pos h
  · exact if_pos h

theorem apply_of_has {base : Shape} (hchoice : choice.flavor? = some flavor) (h : a.Has flavor) :
    a.envelopes.apply choice base = flavor.envelope base := by
  rw [Envelopes.apply, hchoice, Option.bind_some, get?_envelopes h]

/-! ## Choosing -/

theorem answers_of_chooseWithout (hsingle : a.single = false)
    (h : chooseWithout a.envelopes.flavors a.required = .ok choice) :
    a.Answers record .null (a.envelopes.apply choice (.array record)) := by
  cases hrequired : a.required with
  | false =>
    rw [hrequired] at h
    cases h
    exact .list hsingle hrequired
  | true =>
    rw [hrequired] at h
    rcases a.flavors_cases with ⟨hflavors, -⟩ | ⟨flavor, hflavors, honly⟩ | ⟨hflavors, -⟩
    · rw [hflavors] at h
      cases h
    · rw [hflavors] at h
      cases h
      rw [apply_of_has rfl honly.has]
      exact .always hsingle hrequired honly
    · rw [hflavors] at h
      cases h

theorem answers_of_chooseWith (hsingle : a.single = false) {entries : List (String × Value)}
    (h : chooseWith a.envelopes.flavors (Entries.keys entries) = .ok choice) :
    a.Answers record (.obj entries) (a.envelopes.apply choice (.array record)) := by
  rcases a.flavors_cases with ⟨hflavors, -⟩ | ⟨flavor, hflavors, honly⟩ | ⟨hflavors, hboth⟩
  · rw [hflavors] at h
    cases h
  · rw [hflavors, chooseWith, unknownPageKeys_isEmpty] at h
    by_cases hknown : KnownKeys (Entries.keys entries)
    · rw [decide_eq_true hknown, if_pos rfl] at h
      cases h
      rw [apply_of_has rfl honly.has]
      exact .only hsingle honly hknown
    · rw [decide_eq_false hknown, if_neg Bool.false_ne_true] at h
      cases h
  · rw [hflavors] at h
    obtain ⟨flavor?, hclass, h⟩ := bind_eq_ok_iff.1 h
    cases flavor? with
    | none => cases h
    | some flavor =>
      cases h
      obtain ⟨hknown, hmeans⟩ := classifyPage_eq_ok_iff.1 hclass
      rw [apply_of_has rfl (hboth flavor)]
      exact .byKeys hsingle hboth hknown hmeans

/-- What an action over records of a shape gives, without a page around it. -/
def bare (a : ReadAction) (record : Shape) : Shape :=
  if a.single then record.orNull else .array record

/-- What is chosen for a request gives an answer. -/
theorem answers_of_choice (h : a.choice page = .ok choice) :
    a.Answers record page (a.envelopes.apply choice (a.bare record)) := by
  unfold ReadAction.choice at h
  unfold bare
  cases hsingle : a.single with
  | true =>
    rw [hsingle, if_pos rfl] at h
    cases page with
    | null =>
      cases h
      exact .single hsingle
    | _ => cases h
  | false =>
    rw [hsingle, if_neg Bool.false_ne_true, mapError_eq_ok_iff] at h
    rw [if_neg Bool.false_ne_true]
    cases page with
    | null => exact answers_of_chooseWithout hsingle h
    | obj entries => exact answers_of_chooseWith hsingle h
    | _ => cases h

theorem flavors_of_hasOnly (h : a.HasOnly flavor) : a.envelopes.flavors = [flavor] := by
  rcases a.flavors_cases with ⟨-, hnone⟩ | ⟨other, hflavors, honly⟩ | ⟨-, hboth⟩
  · exact absurd h.has (hnone flavor)
  · rw [hflavors, honly.eq h]
  · exact absurd hboth h.not_hasBoth

theorem flavors_of_hasBoth (h : a.HasBoth) : a.envelopes.flavors = [.offset, .keyset] := by
  rcases a.flavors_cases with ⟨-, hnone⟩ | ⟨other, -, honly⟩ | ⟨hflavors, -⟩
  · exact absurd (h .offset) (hnone .offset)
  · exact absurd h honly.not_hasBoth
  · exact hflavors

/-- Every answer is given for what is chosen. -/
theorem choice_of_answers (h : a.Answers record page s) :
    ∃ choice, a.choice page = .ok choice ∧ a.envelopes.apply choice (a.bare record) = s := by
  unfold ReadAction.choice bare
  cases h with
  | single hsingle =>
    rw [hsingle]
    exact ⟨.bare, rfl, rfl⟩
  | list hsingle hrequired =>
    rw [hsingle, hrequired]
    exact ⟨.bare, rfl, rfl⟩
  | always hsingle hrequired honly =>
    rw [hsingle, hrequired, flavors_of_hasOnly honly]
    exact ⟨.always _, rfl, apply_of_has rfl honly.has⟩
  | only hsingle honly hknown =>
    rw [hsingle, flavors_of_hasOnly honly]
    refine ⟨.only _, ?_, apply_of_has rfl honly.has⟩
    simp [choosePage, chooseWith, unknownPageKeys_isEmpty, hknown, Except.mapError]
  | byKeys hsingle hboth hknown hmeans =>
    rw [hsingle, flavors_of_hasBoth hboth]
    rw [if_neg Bool.false_ne_true, if_neg Bool.false_ne_true]
    have hclass := classifyPage_eq_ok_iff.2 ⟨hknown, hmeans⟩
    exact ⟨.byKeys _ (.ofList _), mapError_eq_ok_iff.2 (bind_eq_ok_iff.2 ⟨_, hclass, rfl⟩),
      apply_of_has rfl (hboth _)⟩

/-- Something is chosen, or the page parameter is at fault. -/
theorem choice_settles :
    Settles (fun _ => True) (fun f => ∃ fault, f = pageFault fault) (a.choice page) := by
  have hchoose : Settles (fun _ => True) (fun _ => True)
      (choosePage a.envelopes.flavors a.required page) := by
    cases choosePage a.envelopes.flavors a.required page <;> trivial
  unfold ReadAction.choice
  split
  · split
    · trivial
    · exact ⟨_, rfl⟩
  · exact hchoose.mapError fun fault _ => ⟨fault, rfl⟩

/-! ## Answering -/

/-- A request is settled by the selection first and by the page parameter then. -/
theorem resultShape_eq : a.resultShape g L selection page = do
    let record ← Selection.describe g L a.entity selection
    let choice ← (a.choice page).mapError .refused
    return a.envelopes.apply choice (a.bare record) := by
  unfold ReadAction.resultShape recordShape Selection.describeCollection bare
  cases a.single <;> cases Selection.describe g L a.entity selection <;> rfl

theorem resultShape_eq_ok_iff :
    a.resultShape g L selection page = .ok s ↔
      ∃ record, Selection.describe g L a.entity selection = .ok record ∧
        a.Answers record page s := by
  rw [resultShape_eq, bind_eq_ok_iff]
  refine exists_congr fun record => and_congr_right fun _ => ?_
  rw [bind_eq_ok_iff]
  constructor
  · rintro ⟨choice, hchoice, ⟨⟩⟩
    exact answers_of_choice (mapError_eq_ok_iff.1 hchoice)
  · intro h
    obtain ⟨choice, hchoice, rfl⟩ := choice_of_answers h
    exact ⟨choice, mapError_eq_ok_iff.2 hchoice, rfl⟩

theorem resultShape_eq_error_iff {f : Selection.DescribeFault} :
    a.resultShape g L selection page = .error f ↔
      Selection.describe g L a.entity selection = .error f ∨
        ∃ record fault, Selection.describe g L a.entity selection = .ok record ∧
          a.choice page = .error (pageFault fault) ∧ f = .refused (pageFault fault) := by
  rw [resultShape_eq, bind_eq_error_iff]
  refine or_congr_right (exists_congr fun record => ?_)
  rw [exists_and_left]
  refine and_congr_right fun _ => ?_
  rw [bind_eq_error_iff]
  constructor
  · rintro (h | ⟨choice, -, ⟨⟩⟩)
    cases hchoice : a.choice page with
    | ok choice =>
      rw [hchoice] at h
      cases h
    | error fault =>
      rw [hchoice] at h
      cases h
      obtain ⟨fault, rfl⟩ := choice_settles.of_error hchoice
      exact ⟨fault, rfl, rfl⟩
  · rintro ⟨fault, hchoice, rfl⟩
    rw [hchoice]
    exact .inl rfl

/-- A page holds the list under `results` and says of which kind it is. -/
theorem envelope_eq (flavor : PageFlavor) (base : Shape) :
    ∃ fields, flavor.envelope base = .object fields (.ofList ["count"]) ∧
      Entries.get? fields "results" = some base ∧
      Entries.get? fields "type" = some (.literal [flavor.name]) := by
  cases flavor
  · exact ⟨_, rfl, rfl, rfl⟩
  · exact ⟨_, rfl, rfl, rfl⟩

/-- A read action passes on the fault of a refused selection, and it fails for an accepted one whose
picks cannot be merged. For every other it gives its one answer to the page parameter, and the page
parameter is refused if there is none. -/
theorem resultShape_answers (hg : g.Closed) :
    (∀ f, Selection.check g L a.entity selection = .error f →
      ∀ page, a.resultShape g L selection page = .error (.refused f)) ∧
    (Selection.check g L a.entity selection = .ok () →
      (∀ f, Selection.project g a.entity selection = .error f → f = .conflict .arguments ∧
        ∀ page, a.resultShape g L selection page = .error (.unprojected f)) ∧
      ∀ record, Selection.project g a.entity selection = .ok record → ∀ page,
        (∀ s, a.resultShape g L selection page = .ok s ↔ a.Answers record page s) ∧
        ((∀ s, ¬ a.Answers record page s) →
          ∃ fault, a.resultShape g L selection page = .error (.refused (pageFault fault)))) ∧
    ∀ flavor base, ∃ fields, PageFlavor.envelope flavor base = .object fields (.ofList ["count"]) ∧
      Entries.get? fields "results" = some base ∧
      Entries.get? fields "type" = some (.literal [flavor.name]) := by
  refine ⟨fun f hf page => ?_, fun hc => ⟨fun f hf => ?_, fun record hr page => ?_⟩, envelope_eq⟩
  · exact resultShape_eq_error_iff.2 (.inl (Selection.describe_of_check_error hf))
  · have hdescribe := Selection.describe_of_project_error hc hf
    exact ⟨(Selection.project_settles hg hc).of_error hf, fun page =>
      resultShape_eq_error_iff.2 (.inl hdescribe)⟩
  · have hdescribe := Selection.describe_of_project hc hr
    have hanswers : ∀ s, a.resultShape g L selection page = .ok s ↔ a.Answers record page s := by
      intro s
      rw [resultShape_eq_ok_iff, hdescribe]
      constructor
      · rintro ⟨_, ⟨⟩, h⟩
        exact h
      · exact fun h => ⟨record, rfl, h⟩
    refine ⟨hanswers, fun hnone => ?_⟩
    cases hresult : a.resultShape g L selection page with
    | ok s => exact absurd ((hanswers s).1 hresult) (hnone s)
    | error f =>
      obtain hf | ⟨-, fault, -, -, rfl⟩ := resultShape_eq_error_iff.1 hresult
      · rw [hdescribe] at hf
        cases hf
      · exact ⟨fault, rfl⟩

/-- The posts of a schema, in pages of both kinds. -/
def postsAction : ReadAction :=
  ⟨"posts", ⟨0⟩, false, true, true, false⟩

/-- A cursor with a limit gives a keyset page, and a cursor with an offset is refused. -/
theorem resultShape_answers_posts : ∃ schema record,
    Schema.ofText Selection.postsText .standard = .ok schema ∧ schema.graph.Closed ∧
    Selection.check schema.graph .standard ⟨0⟩ Selection.authorTwice = .ok () ∧
    Selection.project schema.graph ⟨0⟩ Selection.authorTwice = .ok record ∧
    postsAction.resultShape schema.graph .standard Selection.authorTwice
        (.obj [("after", .str "p"), ("limit", .int 5)]) =
      .ok (PageFlavor.envelope .keyset (.array record)) ∧
    ∃ fault, postsAction.resultShape schema.graph .standard Selection.authorTwice
        (.obj [("after", .str "p"), ("offset", .int 5)]) = .error (.refused (pageFault fault)) := by
  have haccepted : Settles (fun schema =>
      Selection.check schema.graph .standard ⟨0⟩ Selection.authorTwice = .ok () ∧
        Settles (fun _ => True) (fun _ => False)
          (Selection.project schema.graph ⟨0⟩ Selection.authorTwice))
      (fun _ => False) (Schema.ofText Selection.postsText .standard) := by
    decide +kernel
  obtain ⟨schema, hs, hc, hp⟩ := haccepted.exists_ok
  obtain ⟨record, hr, -⟩ := hp.exists_ok
  have hg := Schema.closed_of_ofText hs
  have hboth : postsAction.HasBoth := by
    rintro (_ | _) <;> rfl
  obtain ⟨-, hanswered, -⟩ := postsAction.resultShape_answers (L := .standard) hg
  have hpages := (hanswered hc).2 record hr
  refine ⟨schema, record, hs, hg, hc, hr, ?_, ?_⟩
  · refine ((hpages _).1 _).2 (.byKeys rfl hboth (by decide) (.keyset ?_ ?_ ?_)) <;> decide
  · refine (hpages _).2 fun s h => ?_
    rcases h with _ | _ | _ | ⟨-, honly, -⟩ | ⟨-, -, -, hmeans⟩
    · exact honly.not_hasBoth hboth
    · rcases hmeans with ⟨-, hoffset, -⟩ | ⟨hcursor, -⟩
      · exact hoffset (by decide)
      · exact hcursor (by decide)

end ReadAction

end Shapewise
