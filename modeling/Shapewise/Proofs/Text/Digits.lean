import Mathlib.Tactic.IntervalCases
import Shapewise.Text.Class

/-!
# Digits of numbers

Reading the digits that a number is written with gives the number back, in base 10 and in base 16.
-/

namespace Shapewise.Text

/-- The number that digits write in a base, read on from the number that was written before. -/
def readDigits (base : Nat) (value? : Char → Option Nat) (n : Nat) (cs : List Char) : Nat :=
  cs.foldl (fun n c => base * n + (value? c).getD 0) n

theorem numberOfDigits_eq_readDigits (cs : List Char) :
    numberOfDigits cs = readDigits 10 digitValue? 0 cs := rfl

@[simp] theorem readDigits_nil (base : Nat) (value? : Char → Option Nat) (n : Nat) :
    readDigits base value? n [] = n := rfl

theorem readDigits_cons (base : Nat) (value? : Char → Option Nat) (n : Nat) (c : Char)
    (cs : List Char) : readDigits base value? n (c :: cs) =
      readDigits base value? (base * n + (value? c).getD 0) cs := rfl

theorem readDigits_append (base : Nat) (value? : Char → Option Nat) (n : Nat) (cs ds : List Char) :
    readDigits base value? n (cs ++ ds) =
      readDigits base value? (readDigits base value? n cs) ds :=
  List.foldl_append

/-- Zeros in front of digits change nothing. -/
theorem readDigits_zeros {base : Nat} {value? : Char → Option Nat} (hzero : value? '0' = some 0)
    (k : Nat) (cs : List Char) :
    readDigits base value? 0 (List.replicate k '0' ++ cs) = readDigits base value? 0 cs := by
  induction k with
  | zero => rfl
  | succ k ih => rw [List.replicate_succ, List.cons_append, readDigits_cons, hzero]; simpa using ih

theorem readDigits_toDigits {base : Nat} {value? : Char → Option Nat} (hbase : 1 < base)
    (hvalue : ∀ d, d < base → value? d.digitChar = some d) (n : Nat) :
    readDigits base value? 0 (Nat.toDigits base n) = n := by
  induction n using Nat.strong_induction_on with
  | _ n ih =>
    by_cases hn : n < base
    · rw [Nat.toDigits_of_lt_base hn, readDigits_cons, hvalue n hn]
      simp
    · have hlt : n / base < n := Nat.div_lt_self (by omega) hbase
      have hmod : n % base < base := Nat.mod_lt n (by omega)
      rw [Nat.toDigits_of_base_le hbase (by omega), readDigits_append, ih _ hlt, readDigits_cons,
        hvalue _ hmod, Option.getD_some, readDigits_nil]
      exact Nat.div_add_mod n base

/-- Every digit of a number is the character of a digit below the base. -/
theorem exists_digitChar_of_mem {base n : Nat} (hbase : 1 < base) {c : Char}
    (hc : c ∈ Nat.toDigits base n) : ∃ d, d < base ∧ d.digitChar = c := by
  induction n using Nat.strong_induction_on with
  | _ n ih =>
    by_cases hn : n < base
    · rw [Nat.toDigits_of_lt_base hn] at hc
      exact ⟨n, hn, (List.mem_singleton.1 hc).symm⟩
    · rw [Nat.toDigits_of_base_le hbase (by omega)] at hc
      rcases List.mem_append.1 hc with hc | hc
      · exact ih _ (Nat.div_lt_self (by omega) hbase) hc
      · exact ⟨n % base, Nat.mod_lt n (by omega), (List.mem_singleton.1 hc).symm⟩

/-! ## Decimal digits -/

theorem digitValue?_digitChar {d : Nat} (hd : d < 10) : digitValue? d.digitChar = some d := by
  interval_cases d <;> decide

theorem numberOfDigits_toDigits (n : Nat) : numberOfDigits (Nat.toDigits 10 n) = n := by
  rw [numberOfDigits_eq_readDigits]
  exact readDigits_toDigits (by omega) (fun _ => digitValue?_digitChar) n

theorem isDigit_of_mem_toDigits {n : Nat} {c : Char} (hc : c ∈ Nat.toDigits 10 n) :
    isDigit c = true := by
  obtain ⟨d, hd, rfl⟩ := exists_digitChar_of_mem (by omega) hc
  interval_cases d <;> decide

theorem isDecimal_of_isDigit {c : Char} (hc : isDigit c = true) : isDecimal c = true := by
  rw [isDecimal, digitValue?_of_isDigit hc]
  rfl

/-! ## Hexadecimal digits -/

theorem hexValue?_digitChar {d : Nat} (hd : d < 16) : hexValue? d.digitChar = some d := by
  interval_cases d <;> decide

theorem readDigits_hexDigits (width n : Nat) :
    readDigits 16 hexValue? 0 (hexDigits width n) = n := by
  unfold hexDigits
  rw [readDigits_zeros (by decide)]
  exact readDigits_toDigits (by omega) (fun _ => hexValue?_digitChar) n

theorem length_hexDigits {width n : Nat} (hwidth : 0 < width) (hn : n < 16 ^ width) :
    (hexDigits width n).length = width := by
  have hlen : (Nat.toDigits 16 n).length ≤ width :=
    (Nat.length_toDigits_le_iff (by omega) hwidth).2 hn
  rw [hexDigits, List.length_append, List.length_replicate]
  omega

theorem exists_digitChar_of_mem_hexDigits {width n : Nat} {c : Char} (hc : c ∈ hexDigits width n) :
    ∃ d, d < 16 ∧ d.digitChar = c := by
  rcases List.mem_append.1 hc with hc | hc
  · exact ⟨0, by omega, (List.eq_of_mem_replicate hc).symm⟩
  · exact exists_digitChar_of_mem (by omega) hc

end Shapewise.Text
