import Shapewise.Proofs.Text.Digits
import Shapewise.Text.Escape

/-!
# Escapes of single characters

Every character can be written as an escape of eight hexadecimal digits; the decoder gives it back
(`decode_escaped`). A character that is not escaped is decoded to its bytes, which are the character
itself only in ASCII (`flatMap_bytes_eq_iff`).
-/

namespace Shapewise.Text.Escape

/-- A character as an escape of eight hexadecimal digits. -/
def escaped (c : Char) : List Char :=
  '\\' :: 'U' :: hexDigits 8 c.toNat

theorem bytes_of_ascii {c : Char} (hc : c.toNat < 128) : bytes c = [c] := by
  have hbyte : String.utf8EncodeChar c = [UInt8.ofNat c.toNat] := by
    rw [String.utf8EncodeChar]
    exact if_pos (Nat.le_of_lt_succ hc)
  have hlt : c.toNat % 256 = c.toNat := Nat.mod_eq_of_lt (by omega)
  rw [bytes, hbyte, List.map_singleton, UInt8.toNat_ofNat', hlt, Char.ofNat_toNat]

theorem toNat_lt_of_mem_hexDigits {width n : Nat} {c : Char} (hc : c ∈ hexDigits width n) :
    c.toNat < 128 := by
  obtain ⟨d, hd, rfl⟩ := exists_digitChar_of_mem_hexDigits hc
  interval_cases d <;> decide

theorem flatMap_bytes_of_ascii {cs : List Char} (h : ∀ c ∈ cs, c.toNat < 128) :
    cs.flatMap bytes = cs := by
  induction cs with
  | nil => rfl
  | cons c cs ih =>
    obtain ⟨hc, hcs⟩ := List.forall_mem_cons.1 h
    rw [List.flatMap_cons, bytes_of_ascii hc, ih hcs]
    rfl

/-- The bytes of a character beyond ASCII are beyond ASCII, and there are several of them. -/
theorem bytes_of_not_ascii {c : Char} (hc : 128 ≤ c.toNat) :
    2 ≤ (bytes c).length ∧ ∀ b ∈ bytes c, 128 ≤ b.toNat := by
  have htoNat : ∀ n : Nat, 128 ≤ n → n < 256 → 128 ≤ (Char.ofNat (UInt8.ofNat n).toNat).toNat := by
    intro n hle hlt
    have hvalid : n.isValidChar := .inl (by omega)
    rw [UInt8.toNat_ofNat', Nat.mod_eq_of_lt hlt, Char.ofNat, dif_pos hvalid]
    exact hle
  have hval : ¬ c.val.toNat ≤ 127 := Nat.not_le.2 hc
  rw [bytes, String.utf8EncodeChar]
  simp only [if_neg hval]
  split
  · refine ⟨le_rfl, ?_⟩
    simp only [List.map_cons, List.map_nil, List.forall_mem_cons]
    exact ⟨htoNat _ (by omega) (by omega), htoNat _ (by omega) (by omega), nofun⟩
  · split
    · refine ⟨Nat.le_add_left 2 1, ?_⟩
      simp only [List.map_cons, List.map_nil, List.forall_mem_cons]
      exact ⟨htoNat _ (by omega) (by omega), htoNat _ (by omega) (by omega),
        htoNat _ (by omega) (by omega), nofun⟩
    · refine ⟨Nat.le_add_left 2 2, ?_⟩
      simp only [List.map_cons, List.map_nil, List.forall_mem_cons]
      exact ⟨htoNat _ (by omega) (by omega), htoNat _ (by omega) (by omega),
        htoNat _ (by omega) (by omega), htoNat _ (by omega) (by omega), nofun⟩

theorem length_le_flatMap_bytes (cs : List Char) : cs.length ≤ (cs.flatMap bytes).length := by
  induction cs with
  | nil => exact le_rfl
  | cons c cs ih =>
    have hpos : 1 ≤ (bytes c).length := by
      rw [bytes, List.length_map, String.length_utf8EncodeChar]
      exact c.utf8Size_pos
    rw [List.flatMap_cons, List.length_append, List.length_cons]
    omega

/-- A text is what its bytes are, one by one, exactly when it is plain ASCII. -/
theorem flatMap_bytes_eq_iff {cs : List Char} :
    cs.flatMap bytes = cs ↔ ∀ c ∈ cs, c.toNat < 128 := by
  refine ⟨fun h => ?_, flatMap_bytes_of_ascii⟩
  induction cs with
  | nil => exact nofun
  | cons c cs ih =>
    rw [List.flatMap_cons] at h
    have hc : c.toNat < 128 := by
      by_contra hc
      obtain ⟨htwo, -⟩ := bytes_of_not_ascii (Nat.not_lt.1 hc)
      have hlength := congrArg List.length h
      have hrest := length_le_flatMap_bytes cs
      rw [List.length_append, List.length_cons] at hlength
      omega
    rw [bytes_of_ascii hc] at h
    exact List.forall_mem_cons.2 ⟨hc, ih (List.cons_eq_cons.1 h).2⟩

/-- No byte of a character is a backslash, but for the backslash. -/
theorem backslash_not_mem_bytes {c : Char} (hc : c ≠ '\\') : '\\' ∉ bytes c := by
  by_cases hascii : c.toNat < 128
  · rw [bytes_of_ascii hascii, List.mem_singleton]
    exact hc.symm
  · intro hmem
    have hle := (bytes_of_not_ascii (Nat.not_lt.1 hascii)).2 _ hmem
    exact absurd hle (by decide)

/-- An escape is plain ASCII. -/
theorem toNat_lt_of_mem_escaped {b c : Char} (hb : b ∈ escaped c) : b.toNat < 128 := by
  rcases List.mem_cons.1 hb with rfl | hb
  · decide
  rcases List.mem_cons.1 hb with rfl | hb
  · decide
  · exact toNat_lt_of_mem_hexDigits hb

/-! ## Decoding -/

theorem run_cons {s s' : State} {position : Nat} {c : Char} {cs out : List Char}
    (h : step s position c = .ok (s', out)) :
    run s position (c :: cs) = (out ++ ·) <$> run s' (position + 1) cs := by
  rw [run, h]
  cases hr : run s' (position + 1) cs with
  | error e => simp only [hr]; rfl
  | ok rest => simp only [hr]; rfl

/-- Outside an escape bytes stand for themselves. -/
theorem run_plain {bs : List Char} (hbs : '\\' ∉ bs) (position : Nat) (rest : List Char) :
    run .plain position (bs ++ rest) = (bs ++ ·) <$> run .plain (position + bs.length) rest := by
  induction bs generalizing position with
  | nil =>
    show run .plain position rest = id <$> run .plain position rest
    rw [id_map]
  | cons b bs ih =>
    obtain ⟨hb, hbs⟩ := not_or.1 (List.mem_cons.not.1 hbs)
    have hstep : step .plain position b = .ok (.plain, [b]) := by
      rw [step, plainStep, if_neg (Ne.symm hb)]
    have hlen : position + 1 + bs.length = position + (bs.length + 1) := by omega
    rw [List.cons_append, run_cons hstep, ih hbs, Functor.map_map, hlen]
    rfl

theorem step_hex {start position value left : Nat} {width : Width} {d : Char} {v : Nat}
    (hd : hexValue? d = some v) (hleft : 1 < left) :
    step (.hex start width value left) position d =
      .ok (.hex start width (16 * value + v) (left - 1), []) := by
  rw [step, hd]
  exact if_neg (by omega)

theorem step_hex_last {start position value : Nat} {width : Width} {d c : Char} {v : Nat}
    (hd : hexValue? d = some v) (hc : 16 * value + v = c.toNat) :
    step (.hex start width value 1) position d = .ok (.plain, [c]) := by
  have hvalid : c.toNat.isValidChar := c.valid
  rw [step, hd]
  simp [hc, hvalid, Char.ofNat_toNat]

/-- Hexadecimal digits are taken until there are enough of them, and give one character. -/
theorem run_hex {start position value : Nat} {width : Width} {ds rest : List Char} {c : Char}
    (hne : ds ≠ []) (hds : ∀ d ∈ ds, ∃ v, hexValue? d = some v)
    (hc : readDigits 16 hexValue? value ds = c.toNat) :
    run (.hex start width value ds.length) position (ds ++ rest) =
      (c :: ·) <$> run .plain (position + ds.length) rest := by
  induction ds generalizing position value with
  | nil => exact absurd rfl hne
  | cons d ds ih =>
    obtain ⟨⟨v, hv⟩, hds⟩ := List.forall_mem_cons.1 hds
    rw [readDigits_cons, hv, Option.getD_some] at hc
    cases ds with
    | nil =>
      have hstep : step (.hex start width value 1) position d = .ok (.plain, [c]) :=
        step_hex_last hv hc
      exact run_cons hstep
    | cons e ds =>
      have hstep : step (.hex start width value (ds.length + 2)) position d =
          .ok (.hex start width (16 * value + v) (ds.length + 1), []) :=
        step_hex hv (by omega)
      have hrest : run (.hex start width (16 * value + v) (ds.length + 1)) (position + 1)
          (e :: ds ++ rest) = (c :: ·) <$> run .plain (position + 1 + (ds.length + 1)) rest :=
        ih (List.cons_ne_nil e ds) hds hc
      have hlen : position + 1 + (ds.length + 1) = position + (ds.length + 2) := by omega
      rw [hlen] at hrest
      show run (.hex start width value (ds.length + 2)) position (d :: (e :: ds ++ rest)) = _
      rw [run_cons hstep, hrest, Functor.map_map]
      rfl

theorem exists_hexValue? {width n : Nat} {d : Char} (hd : d ∈ hexDigits width n) :
    ∃ v, hexValue? d = some v := by
  obtain ⟨v, hv, rfl⟩ := exists_digitChar_of_mem_hexDigits hd
  exact ⟨v, hexValue?_digitChar hv⟩

theorem length_escapeDigits (c : Char) : (hexDigits 8 c.toNat).length = 8 := by
  have hc : c.toNat < 16 ^ 8 := by
    have hvalid : c.toNat < 0xd800 ∨ 0xdfff < c.toNat ∧ c.toNat < 0x110000 := c.valid
    omega
  exact length_hexDigits (by omega) hc

/-- An escaped character is decoded to the character. -/
theorem run_escaped (position : Nat) (c : Char) (rest : List Char) :
    run .plain position (escaped c ++ rest) = (c :: ·) <$> run .plain (position + 10) rest := by
  have hlen := length_escapeDigits c
  have hne : hexDigits 8 c.toNat ≠ [] := by
    intro h
    rw [h] at hlen
    cases hlen
  have hdigits : run (.hex position .eight 0 8) (position + 2) (hexDigits 8 c.toNat ++ rest) =
      (c :: ·) <$> run .plain (position + 10) rest := by
    have h : run (.hex position .eight 0 (hexDigits 8 c.toNat).length) (position + 2)
        (hexDigits 8 c.toNat ++ rest) =
          (c :: ·) <$> run .plain (position + 2 + (hexDigits 8 c.toNat).length) rest :=
      run_hex hne (fun d => exists_hexValue?) (readDigits_hexDigits 8 c.toNat)
    rwa [hlen] at h
  have hbackslash : step .plain position '\\' = .ok (.backslash position, []) := rfl
  have hopen : step (.backslash position) (position + 1) 'U' = .ok (.hex position .eight 0 8, []) :=
    rfl
  show run _ _ ('\\' :: 'U' :: (hexDigits 8 c.toNat ++ rest)) = _
  rw [run_cons hbackslash, run_cons hopen, hdigits, Functor.map_map, Functor.map_map]
  rfl

/-- Escaping every character of a text and decoding it again gives the text. -/
theorem decode_escaped (cs : List Char) : decode (cs.flatMap escaped) = .ok cs := by
  have hrun : ∀ (cs : List Char) (position : Nat),
      run .plain position (cs.flatMap escaped) = .ok cs := by
    intro cs
    induction cs with
    | nil => exact fun _ => rfl
    | cons c cs ih =>
      intro position
      rw [List.flatMap_cons, run_escaped, ih]
      rfl
  have hascii : ∀ b ∈ cs.flatMap escaped, b.toNat < 128 := by
    intro b hb
    obtain ⟨c, -, hbc⟩ := List.mem_flatMap.1 hb
    exact toNat_lt_of_mem_escaped hbc
  rw [decode, flatMap_bytes_of_ascii hascii, hrun]

end Shapewise.Text.Escape
