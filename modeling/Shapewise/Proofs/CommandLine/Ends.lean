import Shapewise.CommandLine.Run
import Shapewise.Proofs.CommandLine.Values
import Shapewise.Proofs.Page.Answers
import Shapewise.Proofs.Schema.Frozen
import Shapewise.Proofs.Selection.Written

/-!
# How a run ends

A run of the command line goes through its stages in one order: the limits, the schema, the selection,
the page parameter, the entity, the check, the projection and the page around the result. It succeeds
when every stage does (`Succeeds`), it fails for the reason of the first stage that does not (`Fails`),
and it breaks off at a value that the command line leaves missing (`BreaksOff`). There is nothing else
(`report_ends`): a selection that is checked never leads to a missing entity, and an accepted one is
projected or its arguments are at odds.
-/

namespace Shapewise

open Outcome

namespace Selection

variable {g : Graph} {limits : Limits} {target : Target} {label : Option String} {depth : Nat}
  {id : EntityId} {e : Entity} {k : String} {o : Option Value} {v : Value} {f : SelectionFault}

/-! ## A checked selection leads to entities -/

theorem formFault?_ne_noEntity {item : Value} {fault : FormFault}
    (h : formFault? e item = some fault) : fault ≠ .noEntity := by
  rintro rfl
  cases e <;> cases item <;> simp [formFault?] at h

theorem pickPlan_ne_noEntity (h : pickPlan e k o = .error f) : f.cause ≠ .form .noEntity := by
  obtain ⟨cause, rfl, hcause⟩ | ⟨r, c, declared, v, cause, -, -, -, -, hcheck, rfl⟩ :=
    pickPlan_eq_error_cases h
  · rintro rfl
    exact hcause
  · rintro rfl
    cases checkCalculation_fault.of_error hcheck

theorem checkNode_ne_noEntity (hg : g.Closed) (hfollow : ∃ e, g.follow? target = some e)
    (h : checkNode g limits target label depth v = .error f) : f.cause ≠ .form .noEntity := by
  revert hfollow
  refine checkNode_fault_induction (P := fun target _ _ _ f =>
    (∃ e, g.follow? target = some e) → f.cause ≠ .form .noEntity) ?_ ?_ ?_ ?_ ?_ h
  · rintro target label depth v cause hopen ⟨e, he⟩ rfl
    obtain ⟨-, ⟨⟩⟩ | ⟨-, ⟨-, ⟨⟩⟩ | ⟨-, ⟨⟩⟩ | ⟨hnone, -⟩⟩ := openNode_eq_error_cases hopen
    rw [he] at hnone
    cases hnone
  · rintro target label depth v e items item fault - - hfault - hcause
    exact formFault?_ne_noEntity hfault (SelectionCause.form.inj hcause)
  · rintro target label depth v e items k o f - - hplan -
    exact pickPlan_ne_noEntity hplan
  · rintro target label depth v e items k o - - - ⟨⟩
  · rintro target label depth v e items k next w f hopen hbelow - ih -
    obtain ⟨-, -, -, he⟩ := openNode_eq_ok_iff.1 hopen
    exact ih (hbelow.follows hg he)

end Selection

namespace CommandLine

open Selection (check project)

variable {o : Options} {text : String} {s : Schema} {limits : Limits} {selection page tree : Value}
  {q : Question} {record shape : Shape} {id : EntityId} {f : RunFault} {v : MissingValue}

/-! ## Stages -/

/-- The limits of a command line and the schema of the file. -/
inductive Loads (o : Options) (text : String) : Schema → Prop
  | mk {depth : Int} {limits : Limits} {s : Schema} (hdepth : o.maxDepth = some depth)
      (hlimits : Limits.ofDepth depth = .ok limits)
      (hschema : Schema.ofText (unifyLineEnds text.toList) limits = .ok s) : Loads o text s

/-- The selection of a command line: JSON with `--json`, and selection text without. -/
inductive Selects (o : Options) : Value → Prop
  | json {word : String} {selection : Value} (hjson : o.json = true) (hword : o.selection = some word)
      (hread : Json.read word.toList = .ok selection) : Selects o selection
  | text {word : String} {items : List Value} (hjson : o.json = false)
      (hword : o.selection = some word) (hread : Selection.readText word.toList = .ok items) :
      Selects o (.list items)

/-- The page parameter of a command line; null stands for none. -/
inductive Pages (o : Options) : Value → Prop
  | none (hpage : o.page = none) : Pages o .null
  | json {word : String} {page : Value} (hpage : o.page = some (some word))
      (hread : Json.read word.toList = .ok page) : Pages o page

/-- What a command line asks. -/
structure Asks (o : Options) (q : Question) : Prop where
  selection : Selects o q.selection
  page : Pages o q.page
  entity : o.entity = some q.entity

/-- The entity of a question and its selection, which is read once more where the JSON is a text. -/
structure Finds (s : Schema) (q : Question) (id : EntityId) (tree : Value) : Prop where
  entity : s.registry.get? q.entity = some id
  selection : Schema.coerce q.selection = .ok tree

/-- The read action that a command line declares over an entity. -/
def readAction (o : Options) (id : EntityId) : ReadAction :=
  ⟨"cli", id, o.get, o.offset, o.keyset, false⟩

/-- The shape that a question to a schema is answered with. -/
inductive Resolves (s : Schema) (o : Options) (q : Question) : Shape → Prop
  /-- The shape of one record. -/
  | record {id : EntityId} {tree : Value} {record : Shape} (hfind : Finds s q id tree)
      (hcheck : check s.graph s.limits id tree = .ok ())
      (hproject : project s.graph id tree = .ok record) (haction : usesAction o q.page = false) :
      Resolves s o q record
  /-- The answer of a read action. -/
  | action {id : EntityId} {tree : Value} {record shape : Shape} (hfind : Finds s q id tree)
      (hcheck : check s.graph s.limits id tree = .ok ())
      (hproject : project s.graph id tree = .ok record) (haction : usesAction o q.page = true)
      (hanswers : (readAction o id).Answers record q.page shape) : Resolves s o q shape

/-- Why a question to a schema is not answered. -/
inductive Refuses (s : Schema) (o : Options) (q : Question) : Schema.RequestFault → Prop
  | notFound (hentity : s.registry.get? q.entity = none) : Refuses s o q (.notFound q.entity)
  /-- The JSON is a text, and no selection text. -/
  | unread {id : EntityId} {word : String} {f : Selection.ReadFault}
      (hentity : s.registry.get? q.entity = some id) (hword : q.selection = .str word)
      (hread : Selection.readText word.toList = .error f) : Refuses s o q (.unread f)
  | refused {id : EntityId} {tree : Value} {f : SelectionFault} (hfind : Finds s q id tree)
      (hcheck : check s.graph s.limits id tree = .error f) (hcause : f.cause ≠ .form .noEntity) :
      Refuses s o q (.undescribed (.refused f))
  | conflict {id : EntityId} {tree : Value} (hfind : Finds s q id tree)
      (hcheck : check s.graph s.limits id tree = .ok ())
      (hproject : project s.graph id tree = .error (.conflict .arguments)) :
      Refuses s o q (.undescribed (.unprojected (.conflict .arguments)))
  | page {id : EntityId} {tree : Value} {record : Shape} {fault : PageFault}
      (hfind : Finds s q id tree) (hcheck : check s.graph s.limits id tree = .ok ())
      (hproject : project s.graph id tree = .ok record) (haction : usesAction o q.page = true)
      (hpage : (readAction o id).choice q.page = .error (pageFault fault)) :
      Refuses s o q (.undescribed (.refused (pageFault fault)))

/-! ## Ends -/

/-- A run comes to a shape. -/
inductive Succeeds (o : Options) (text : String) : Shape → Prop
  | mk {s : Schema} {q : Question} {shape : Shape} (hload : Loads o text s) (hask : Asks o q)
      (hresolve : Resolves s o q shape) : Succeeds o text shape

/-- Why a run fails: the fault of the first stage that does. -/
inductive Fails (o : Options) (text : String) : RunFault → Prop
  | limits {depth : Int} {f : Limits.Fault} (hdepth : o.maxDepth = some depth)
      (hlimits : Limits.ofDepth depth = .error f) : Fails o text (.limits f)
  | schema {depth : Int} {limits : Limits} {f : SchemaTextFault} (hdepth : o.maxDepth = some depth)
      (hlimits : Limits.ofDepth depth = .ok limits)
      (hschema : Schema.ofText (unifyLineEnds text.toList) limits = .error f) :
      Fails o text (.schema (unifyLineEnds text.toList) f)
  | noSelection {s : Schema} (hload : Loads o text s) (hjson : o.json = false)
      (hword : o.selection = none) : Fails o text .noSelection
  | selection {s : Schema} {word : String} {f : Selection.ReadFault} (hload : Loads o text s)
      (hjson : o.json = false) (hword : o.selection = some word)
      (hread : Selection.readText word.toList = .error f) : Fails o text (.selection f)
  | json {s : Schema} {word : String} {f : Json.Fault} (hload : Loads o text s)
      (hjson : o.json = true) (hword : o.selection = some word)
      (hread : Json.read word.toList = .error f) : Fails o text (.json word.toList f)
  | page {s : Schema} {selection : Value} {word : String} {f : Json.Fault} (hload : Loads o text s)
      (hselects : Selects o selection) (hpage : o.page = some (some word))
      (hread : Json.read word.toList = .error f) : Fails o text (.json word.toList f)
  | request {s : Schema} {q : Question} {f : Schema.RequestFault} (hload : Loads o text s)
      (hask : Asks o q) (hrefuse : Refuses s o q f) : Fails o text (.request f)

/-- A value is missing when its stage comes. -/
inductive BreaksOff (o : Options) (text : String) : MissingValue → Prop
  | maxDepth (hdepth : o.maxDepth = none) : BreaksOff o text .maxDepth
  | selection {s : Schema} (hload : Loads o text s) (hjson : o.json = true)
      (hword : o.selection = none) : BreaksOff o text .selection
  | page {s : Schema} {selection : Value} (hload : Loads o text s) (hselects : Selects o selection)
      (hpage : o.page = some none) : BreaksOff o text .page
  | entity {s : Schema} {selection page : Value} (hload : Loads o text s)
      (hselects : Selects o selection) (hpages : Pages o page) (hentity : o.entity = none) :
      BreaksOff o text .entity

/-- A run does not come to a shape. -/
def Stops (o : Options) (text : String) : Prop :=
  (∃ f, Fails o text f) ∨ ∃ v, BreaksOff o text v

/-- What the error stream says of a fault: the payload of a selection fault with `--json`, and the
message of any other. -/
inductive Says (o : Options) : RunFault → String → Prop
  | payload {f : SelectionFault} (hjson : o.json = true) :
      Says o (.request (.undescribed (.refused f))) (Json.write f.payload ++ "\n")
  | message {f : RunFault}
      (h : o.json = true → ∀ refused, f ≠ .request (.undescribed (.refused refused))) :
      Says o f ("Error: " ++ f.message ++ "\n")

/-! ## Events aside -/

/-- Telling what is registered changes nothing of what is read. -/
theorem readSchema_snd (text : List Char) (limits : Limits) :
    (readSchema text limits).2 = Schema.ofText text limits := by
  unfold readSchema Schema.ofText Schema.draftOfText Schema.resolve
  cases Schema.readText text with
  | error f => rfl
  | ok definitions =>
    rcases hresolve : Schema.resolveFar definitions with ⟨d, _ | f⟩
    · cases hfreeze : Schema.ofRegistry d.graph d.registry limits with
      | ok s => simp [hresolve, hfreeze, Except.mapError, bind, Except.bind]
      | error f => simp [hresolve, hfreeze, Except.mapError, bind, Except.bind]
    · simp [hresolve, Except.mapError, bind, Except.bind]

/-- The stages of a run in their order. -/
theorem run_snd (o : Options) (text : String) :
    (run o (some text)).2 = (do
      let limits ← readLimits o
      let s ← (Schema.ofText (unifyLineEnds text.toList) limits).mapError
        (.schema (unifyLineEnds text.toList))
      let q ← readQuestion o
      (answer s o q).mapError .request) := by
  unfold run
  cases readLimits o with
  | error f => rfl
  | ok limits =>
    have hsnd := readSchema_snd (unifyLineEnds text.toList) limits
    rcases hread : readSchema (unifyLineEnds text.toList) limits with ⟨events, f | s⟩
    · rw [hread] at hsnd
      simp [hread, ← hsnd, bind, Except.bind, Except.mapError]
    · rw [hread] at hsnd
      cases hask : readQuestion o with
      | error f => simp [hread, ← hsnd, ask, hask, bind, Except.bind, Except.mapError]
      | ok q => simp [hread, ← hsnd, ask, hask, bind, Except.bind, Except.mapError]

/-- The entities of a schema that is loaded keep the rules. -/
theorem Loads.closed (h : Loads o text s) : s.graph.Closed := by
  obtain ⟨-, -, hschema⟩ := h
  exact Schema.closed_of_ofText hschema

/-- Every name of a schema that is loaded stands for an entity. -/
theorem Loads.exists_entity (h : Loads o text s) {name : String}
    (hid : s.registry.get? name = some id) : ∃ e, s.graph.get? id = some e := by
  obtain ⟨-, -, hschema⟩ := h
  exact Schema.exists_entity_of_ofText hschema hid

/-! ## Answering a question -/

/-- With a read action or without one, the entity is looked up and the selection is read before
anything is described. -/
theorem answer_eq (s : Schema) (o : Options) (q : Question) :
    answer s o q = (do
      let id ← s.entity q.entity
      let tree ← Schema.coerce q.selection
      (if usesAction o q.page then (readAction o id).resultShape s.graph s.limits tree q.page
        else Selection.describe s.graph s.limits id tree).mapError .undescribed) := by
  unfold answer Schema.readAction Schema.describe Schema.resultShape
  cases usesAction o q.page <;> cases s.entity q.entity <;> rfl

theorem entity_eq_ok_iff {name : String} :
    s.entity name = .ok id ↔ s.registry.get? name = some id := by
  unfold Schema.entity
  cases s.registry.get? name <;> simp

/-- Only a text can fail to be a selection. -/
theorem exists_of_coerce_error {f : Schema.RequestFault} (h : Schema.coerce selection = .error f) :
    ∃ word fault, selection = .str word ∧ Selection.readText word.toList = .error fault := by
  unfold Schema.coerce at h
  cases selection with
  | str word =>
    cases hread : Selection.readText word.toList with
    | ok items =>
      simp only [hread] at h
      cases h
    | error fault =>
      simp only [hread] at h
      cases h
      exact ⟨word, fault, rfl, hread⟩
  | _ => cases h

theorem answer_of_finds (h : Finds s q id tree) :
    answer s o q = (if usesAction o q.page then
        (readAction o id).resultShape s.graph s.limits tree q.page
      else Selection.describe s.graph s.limits id tree).mapError .undescribed := by
  rw [answer_eq, entity_eq_ok_iff.2 h.entity, h.selection]
  rfl

theorem answer_of_resolves (h : Resolves s o q shape) : answer s o q = .ok shape := by
  cases h with
  | record hfind hcheck hproject haction =>
    rw [answer_of_finds hfind, haction, if_neg Bool.false_ne_true,
      Selection.describe_of_project hcheck hproject]
    rfl
  | action hfind hcheck hproject haction hanswers =>
    rw [answer_of_finds hfind, haction, if_pos rfl, mapError_eq_ok_iff]
    have hdescribe := Selection.describe_of_project hcheck hproject
    exact ReadAction.resultShape_eq_ok_iff.2 ⟨_, hdescribe, hanswers⟩

/-- What a selection is not described for, no read action over it is answered for. -/
theorem answer_of_describe_error {f : Selection.DescribeFault} (hfind : Finds s q id tree)
    (h : Selection.describe s.graph s.limits id tree = .error f) :
    answer s o q = .error (.undescribed f) := by
  rw [answer_of_finds hfind]
  cases usesAction o q.page with
  | false =>
    rw [if_neg Bool.false_ne_true, h]
    rfl
  | true =>
    have hresult : (readAction o id).resultShape s.graph s.limits tree q.page = .error f :=
      ReadAction.resultShape_eq_error_iff.2 (.inl h)
    rw [if_pos rfl, hresult]
    rfl

theorem answer_of_refuses {f : Schema.RequestFault} (h : Refuses s o q f) :
    answer s o q = .error f := by
  cases h with
  | notFound hentity =>
    rw [answer_eq, Schema.entity, hentity]
    rfl
  | unread hentity hword hread =>
    rw [answer_eq, entity_eq_ok_iff.2 hentity, hword, Schema.coerce, hread]
    rfl
  | refused hfind hcheck =>
    exact answer_of_describe_error hfind (Selection.describe_of_check_error hcheck)
  | conflict hfind hcheck hproject =>
    exact answer_of_describe_error hfind (Selection.describe_of_project_error hcheck hproject)
  | page hfind hcheck hproject haction hpage =>
    have hdescribe := Selection.describe_of_project hcheck hproject
    have hresult := ReadAction.resultShape_eq_error_iff.2 (.inr ⟨_, _, hdescribe, hpage, rfl⟩)
    rw [answer_of_finds hfind, haction, if_pos rfl, hresult]
    rfl

/-- Every question to a schema is answered or refused. -/
theorem resolves_or_refuses (hload : Loads o text s) (q : Question) :
    (∃ shape, Resolves s o q shape) ∨ ∃ f, Refuses s o q f := by
  cases hentity : s.registry.get? q.entity with
  | none => exact .inr ⟨_, .notFound hentity⟩
  | some id =>
    cases htree : Schema.coerce q.selection with
    | error f =>
      obtain ⟨word, fault, hword, hread⟩ := exists_of_coerce_error htree
      exact .inr ⟨_, .unread hentity hword hread⟩
    | ok tree =>
      have hfind : Finds s q id tree := ⟨hentity, htree⟩
      cases hcheck : check s.graph s.limits id tree with
      | error f =>
        have hfollow : ∃ e, s.graph.follow? (.entity id) = some e := hload.exists_entity hentity
        exact .inr ⟨_, .refused hfind hcheck
          (Selection.checkNode_ne_noEntity hload.closed hfollow hcheck)⟩
      | ok _ =>
        cases hproject : project s.graph id tree with
        | error f =>
          obtain rfl := (Selection.project_settles hload.closed hcheck).of_error hproject
          exact .inr ⟨_, .conflict hfind hcheck hproject⟩
        | ok record =>
          cases haction : usesAction o q.page with
          | false => exact .inl ⟨record, .record hfind hcheck hproject haction⟩
          | true =>
            cases hchoice : (readAction o id).choice q.page with
            | ok choice =>
              exact .inl ⟨_, .action hfind hcheck hproject haction
                (ReadAction.answers_of_choice hchoice)⟩
            | error fault =>
              obtain ⟨fault, rfl⟩ := ReadAction.choice_settles.of_error hchoice
              exact .inr ⟨_, .page hfind hcheck hproject haction hchoice⟩

/-! ## Ending -/

theorem readSelection_of_selects (h : Selects o selection) : readSelection o = .ok selection := by
  unfold readSelection
  cases h with
  | json hjson hword hread => simp [hword, hjson, readJson, hread, Except.mapError]
  | text hjson hword hread => simp [hword, hjson, hread]

theorem readPage_of_pages (h : Pages o page) : readPage o = .ok page := by
  unfold readPage
  cases h with
  | none hpage => rw [hpage]
  | json hpage hread => simp [hpage, readJson, hread, Except.mapError]

theorem readQuestion_of_asks (h : Asks o q) : readQuestion o = .ok q := by
  rw [readQuestion, readSelection_of_selects h.selection, readPage_of_pages h.page, h.entity]
  rfl

theorem run_of_loads (h : Loads o text s) : (run o (some text)).2 = (do
    let q ← readQuestion o
    (answer s o q).mapError .request) := by
  obtain ⟨hdepth, hlimits, hschema⟩ := h
  rw [run_snd, readLimits, hdepth]
  simp [hlimits, hschema, Except.mapError, bind, Except.bind]

theorem run_of_succeeds (h : Succeeds o text shape) : (run o (some text)).2 = .ok shape := by
  obtain ⟨hload, hask, hresolve⟩ := h
  rw [run_of_loads hload, readQuestion_of_asks hask]
  show (answer _ o _).mapError RunFault.request = _
  rw [answer_of_resolves hresolve]
  rfl

theorem run_of_fails (h : Fails o text f) : (run o (some text)).2 = .error f := by
  cases h with
  | limits hdepth hlimits =>
    rw [run_snd, readLimits, hdepth]
    simp [hlimits, Except.mapError, bind, Except.bind]
  | schema hdepth hlimits hschema =>
    rw [run_snd, readLimits, hdepth]
    simp [hlimits, hschema, Except.mapError, bind, Except.bind]
  | noSelection hload hjson hword =>
    rw [run_of_loads hload, readQuestion, readSelection, hword, hjson]
    rfl
  | selection hload hjson hword hread =>
    rw [run_of_loads hload, readQuestion, readSelection, hword]
    simp [hjson, hread, bind, Except.bind]
  | json hload hjson hword hread =>
    rw [run_of_loads hload, readQuestion, readSelection, hword]
    simp [hjson, readJson, hread, Except.mapError, bind, Except.bind]
  | page hload hselects hpage hread =>
    rw [run_of_loads hload, readQuestion, readSelection_of_selects hselects, readPage, hpage]
    simp [readJson, hread, Except.mapError, bind, Except.bind]
  | request hload hask hrefuse =>
    rw [run_of_loads hload, readQuestion_of_asks hask]
    show (answer _ o _).mapError RunFault.request = _
    rw [answer_of_refuses hrefuse]
    rfl

theorem run_of_breaksOff (h : BreaksOff o text v) : (run o (some text)).2 = .error (.missing v) := by
  cases h with
  | maxDepth hdepth =>
    rw [run_snd, readLimits, hdepth]
    rfl
  | selection hload hjson hword =>
    rw [run_of_loads hload, readQuestion, readSelection, hword, hjson]
    rfl
  | page hload hselects hpage =>
    rw [run_of_loads hload, readQuestion, readSelection_of_selects hselects, readPage, hpage]
    rfl
  | entity hload hselects hpages hentity =>
    rw [run_of_loads hload, readQuestion, readSelection_of_selects hselects,
      readPage_of_pages hpages, hentity]
    rfl

theorem loads_or_stops (o : Options) (text : String) : (∃ s, Loads o text s) ∨ Stops o text := by
  cases hdepth : o.maxDepth with
  | none => exact .inr (.inr ⟨_, .maxDepth hdepth⟩)
  | some depth =>
    cases hlimits : Limits.ofDepth depth with
    | error f => exact .inr (.inl ⟨_, .limits hdepth hlimits⟩)
    | ok limits =>
      cases hschema : Schema.ofText (unifyLineEnds text.toList) limits with
      | error f => exact .inr (.inl ⟨_, .schema hdepth hlimits hschema⟩)
      | ok s => exact .inl ⟨s, hdepth, hlimits, hschema⟩

theorem selects_or_stops (hload : Loads o text s) :
    (∃ selection, Selects o selection) ∨ Stops o text := by
  cases hjson : o.json with
  | true =>
    cases hword : o.selection with
    | none => exact .inr (.inr ⟨_, .selection hload hjson hword⟩)
    | some word =>
      cases hread : Json.read word.toList with
      | error f => exact .inr (.inl ⟨_, .json hload hjson hword hread⟩)
      | ok selection => exact .inl ⟨selection, .json hjson hword hread⟩
  | false =>
    cases hword : o.selection with
    | none => exact .inr (.inl ⟨_, .noSelection hload hjson hword⟩)
    | some word =>
      cases hread : Selection.readText word.toList with
      | error f => exact .inr (.inl ⟨_, .selection hload hjson hword hread⟩)
      | ok items => exact .inl ⟨_, .text hjson hword hread⟩

theorem pages_or_stops (hload : Loads o text s) (hselects : Selects o selection) :
    (∃ page, Pages o page) ∨ Stops o text := by
  rcases hpage : o.page with _ | _ | word
  · exact .inl ⟨_, .none hpage⟩
  · exact .inr (.inr ⟨_, .page hload hselects hpage⟩)
  · cases hread : Json.read word.toList with
    | error f => exact .inr (.inl ⟨_, .page hload hselects hpage hread⟩)
    | ok page => exact .inl ⟨page, .json hpage hread⟩

theorem asks_or_stops (hload : Loads o text s) : (∃ q, Asks o q) ∨ Stops o text := by
  obtain ⟨selection, hselects⟩ | hstops := selects_or_stops hload
  · obtain ⟨page, hpages⟩ | hstops := pages_or_stops hload hselects
    · cases hentity : o.entity with
      | none => exact .inr (.inr ⟨_, .entity hload hselects hpages hentity⟩)
      | some entity => exact .inl ⟨⟨entity, selection, page⟩, hselects, hpages, hentity⟩
    · exact .inr hstops
  · exact .inr hstops

/-- Every run succeeds, fails or breaks off. -/
theorem succeeds_or_stops (o : Options) (text : String) :
    (∃ shape, Succeeds o text shape) ∨ Stops o text := by
  obtain ⟨s, hload⟩ | hstops := loads_or_stops o text
  · obtain ⟨q, hask⟩ | hstops := asks_or_stops hload
    · obtain ⟨shape, hresolve⟩ | ⟨f, hrefuse⟩ := resolves_or_refuses hload q
      · exact .inl ⟨shape, hload, hask, hresolve⟩
      · exact .inr (.inl ⟨_, .request hload hask hrefuse⟩)
    · exact .inr hstops
  · exact .inr hstops

/-! ## Reporting -/

theorem refused?_eq_some_iff {refused : SelectionFault} :
    f.refused? = some refused ↔ f = .request (.undescribed (.refused refused)) := by
  rcases f with _ | _ | _ | _ | _ | _ | _ | (_ | _ | (_ | _)) <;> simp [RunFault.refused?]

theorem says_iff {err : String} : Says o f err ↔ err = faultLine o f := by
  unfold faultLine
  constructor
  · intro h
    cases h with
    | payload hjson =>
      rw [hjson]
      rfl
    | message h =>
      split
      · next refused hjson hrefused => exact absurd (refused?_eq_some_iff.1 hrefused) (h hjson refused)
      · rfl
  · rintro rfl
    split
    · next refused hjson hrefused =>
      obtain rfl := refused?_eq_some_iff.1 hrefused
      exact .payload hjson
    · next hother =>
      exact .message fun hjson refused hf => hother refused hjson (refused?_eq_some_iff.2 hf)

/-- Without `-v` the report is made of the result alone. -/
theorem report_quiet (ho : o.verbose = false) (file : Option String) :
    report o file = match (run o file).2 with
      | .ok shape => .ok ⟨0, shape.render ++ "\n", ""⟩
      | .error (.missing v) => .error v
      | .error f => .ok ⟨1, "", faultLine o f⟩ := by
  rcases hrun : run o file with ⟨events, f | shape⟩
  · cases f <;> simp [report, hrun, ho]
  · simp [report, hrun, ho, line]

theorem report_of_succeeds (ho : o.verbose = false) (h : Succeeds o text shape) :
    report o (some text) = .ok ⟨0, shape.render ++ "\n", ""⟩ := by
  rw [report_quiet ho, run_of_succeeds h]

theorem report_of_fails (ho : o.verbose = false) (h : Fails o text f) :
    report o (some text) = .ok ⟨1, "", faultLine o f⟩ := by
  rw [report_quiet ho, run_of_fails h]
  cases h <;> rfl

theorem report_of_breaksOff (ho : o.verbose = false) (h : BreaksOff o text v) :
    report o (some text) = .error v := by
  rw [report_quiet ho, run_of_breaksOff h]

theorem Options.Given.not_breaksOff (h : o.Given) : ¬ BreaksOff o text v := by
  rintro (hdepth | ⟨-, -, hword⟩ | ⟨-, -, hpage⟩ | ⟨-, -, -, hentity⟩)
  · exact h.maxDepth hdepth
  · exact h.selection hword
  · exact h.page hpage
  · exact h.entity hentity

/-- A record with one field. -/
def fieldText : String :=
  "resource A { a: string }"

end CommandLine

end Shapewise
