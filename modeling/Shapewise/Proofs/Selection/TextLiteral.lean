import Shapewise.Proofs.Selection.Recognition

/-!
# Text between double quotes

The plain way to write a text is to put it between double quotes, with a backslash before each quote
and each backslash in it. Such a literal is cut as one token, whatever stands in it, and the
backslashes are taken away again. But the inside is decoded byte by byte: the token holds one
character for each byte of the UTF-8 form of the text. That is the text itself where it is plain
ASCII, and another one where it is not (`text_literal_read`).
-/

namespace Shapewise.Selection

open Text

/-- A character with a backslash before it, where it is a double quote or a backslash. -/
def guarded (c : Char) : List Char :=
  if c = '"' ∨ c = '\\' then ['\\', c] else [c]

/-- A text between double quotes. -/
def textLiteral (s : String) : List Char :=
  '"' :: (s.toList.flatMap guarded ++ ['"'])

/-- The bytes of the UTF-8 form of a text, each as the character of the same number. -/
def bytewise (s : String) : String :=
  String.ofList ((s.toList.flatMap String.utf8EncodeChar).map fun b => Char.ofNat b.toNat)

variable {c : Char} {rest : List Char} {us : List Token}

theorem bytewise_eq (s : String) : bytewise s = String.ofList (s.toList.flatMap Escape.bytes) := by
  rw [bytewise, List.map_flatMap]
  rfl

theorem bytewise_eq_self_iff (s : String) : bytewise s = s ↔ ∀ c ∈ s.toList, c.toNat < 128 := by
  rw [bytewise_eq, ← Escape.flatMap_bytes_eq_iff, ← String.toList_inj, String.toList_ofList]

/-! ## Where the literal ends -/

theorem quotation_guarded (cs : List Char) : Token.Quotation (cs.flatMap guarded) := by
  induction cs with
  | nil => exact .nil
  | cons c cs ih =>
    rw [List.flatMap_cons]
    by_cases hc : c = '"' ∨ c = '\\'
    · -- the backslash takes the quote or the backslash along
      have hlineFeed : c ≠ '\n' := by
        obtain rfl | rfl := hc
        · decide
        · decide
      rw [guarded, if_pos hc]
      exact .escape hlineFeed ih
    · obtain ⟨hquote, hslash⟩ := not_or.1 hc
      rw [guarded, if_neg hc]
      exact .plain hquote hslash ih

/-! ## What the literal holds -/

theorem run_guarded (c : Char) (position : Nat) (rest : List Char) :
    ∃ position', Escape.run .plain position ((guarded c).flatMap Escape.bytes ++ rest) =
      (Escape.bytes c ++ ·) <$> Escape.run .plain position' rest := by
  by_cases hc : c = '"' ∨ c = '\\'
  · have hascii : c.toNat < 128 := by
      obtain rfl | rfl := hc
      · decide
      · decide
    have hbytes : (guarded c).flatMap Escape.bytes = ['\\', c] := by
      rw [guarded, if_pos hc]
      refine Escape.flatMap_bytes_of_ascii ?_
      simpa using hascii
    have hopen : Escape.step .plain position '\\' = .ok (.backslash position, []) := rfl
    have hletter : Escape.step (.backslash position) (position + 1) c = .ok (.plain, [c]) := by
      obtain rfl | rfl := hc
      · rfl
      · rfl
    refine ⟨position + 1 + 1, ?_⟩
    rw [hbytes, Escape.bytes_of_ascii hascii]
    show Escape.run _ _ ('\\' :: c :: rest) = _
    rw [Escape.run_cons hopen, Escape.run_cons hletter, Functor.map_map]
    rfl
  · have hbytes : (guarded c).flatMap Escape.bytes = Escape.bytes c := by
      rw [guarded, if_neg hc, List.flatMap_singleton]
    rw [hbytes]
    exact ⟨_, Escape.run_plain (Escape.backslash_not_mem_bytes (not_or.1 hc).2) position rest⟩

/-- The backslashes are taken away, and what is left is decoded byte by byte. -/
theorem decode_guarded (cs : List Char) :
    Escape.decode (cs.flatMap guarded) = .ok (cs.flatMap Escape.bytes) := by
  have hrun : ∀ position, Escape.run .plain position ((cs.flatMap guarded).flatMap Escape.bytes) =
      .ok (cs.flatMap Escape.bytes) := by
    induction cs with
    | nil => exact fun _ => rfl
    | cons c cs ih =>
      intro position
      obtain ⟨position', hc⟩ := run_guarded c position ((cs.flatMap guarded).flatMap Escape.bytes)
      rw [List.flatMap_cons, List.flatMap_append, hc, ih]
      rfl
  exact hrun 0

/-! ## The literal in a text -/

theorem spelling_textLiteral (s : String) : Token.Spelling (.text (bytewise s)) (textLiteral s) := by
  rw [bytewise_eq]
  exact .text (quotation_guarded s.toList) (decode_guarded s.toList)

theorem scans_textLiteral (s : String) (hrest : Scans rest us) :
    Scans (textLiteral s ++ rest) (.text (bytewise s) :: us) :=
  scans_spelling (spelling_textLiteral s) (Token.ends_text _ _ _) hrest

/-- The only token of a literal that stands alone. -/
theorem scan_textLiteral (s : String) (line : Nat) :
    Token.scan line (textLiteral s) = ⟨[⟨.text (bytewise s), line, 0⟩], none, line⟩ := by
  obtain ⟨c, body, hword, hscanner⟩ :=
    Token.scanner_of_spelling (spelling_textLiteral s) (Token.ends_text _ _ [])
  rw [List.append_nil] at hscanner
  rw [Token.scan, hword, scan, hscanner]
  simp only [List.drop_length]
  rw [scan]
  rfl

/-- A call with one argument that is a literal: `f(a: "…")`. -/
def literalCall (s : String) : List Char :=
  "f(a: ".toList ++ (textLiteral s ++ ")".toList)

/-- A literal is one token and one argument, whatever text it is of; the token and the argument hold
the text byte by byte, so they hold the text itself exactly when it is plain ASCII. -/
theorem text_literal_read (s : String) :
    (∀ line, Token.scan line (textLiteral s) = ⟨[⟨.text (bytewise s), line, 0⟩], none, line⟩) ∧
    readText (literalCall s) =
      .ok [.obj [("f", .obj [("args", .obj [("a", .str (bytewise s))])])]] ∧
    (bytewise s = s ↔ ∀ c ∈ s.toList, c.toNat < 128) := by
  refine ⟨scan_textLiteral s, ?_, bytewise_eq_self_iff s⟩
  have hscans : Scans (literalCall s)
      [.name "f", .openParen, .name "a", .colon, .text (bytewise s), .closeParen] := by
    have hclose : Scans ")".toList [.closeParen] := scans_punctuation rfl scans_nil
    have hvalue : Scans (' ' :: (textLiteral s ++ ")".toList)) [.text (bytewise s), .closeParen] :=
      scans_space (scans_textLiteral s hclose)
    have hname : ∀ {c d : Char} {cs : List Char} {ts : List Token},
        Token.scanner c (d :: cs) = .ok (.token (.name (String.ofList [c])), 0) →
        Scans (d :: cs) ts → Scans (c :: d :: cs) (.name (String.ofList [c]) :: ts) :=
      fun h hrest => scans_of_token h hrest
    exact hname rfl (scans_punctuation rfl (hname rfl (scans_punctuation rfl hvalue)))
  exact readText_of_scans
    (s := .list (.single (.call "f" (.list (.single ⟨"a", .text (bytewise s)⟩) false))) false)
    (List.nodup_singleton _) hscans

/-- An accented letter is not read back: its literal holds two other characters. -/
theorem text_literal_not_read_accented : ¬ readText (literalCall "é") =
    .ok [.obj [("f", .obj [("args", .obj [("a", .str "é")])])]] := by
  decide +kernel

end Shapewise.Selection
