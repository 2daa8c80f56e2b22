import SourceAtlas.Text.Digits

/-!
# Decimal digits

The digits of a number are digits, write the number, and start with a zero only for zero itself. So
a reader that takes all digits in front of a text finds the number again, if what follows does not
go on with a digit (`takeWhile_digits`, `natOf_toDigits`).
-/

namespace SourceAtlas.Text

theorem isAsciiDigit_iff {c : Char} : isAsciiDigit c = true ↔ '0' ≤ c ∧ c ≤ '9' := by
  unfold isAsciiDigit
  rw [Bool.and_eq_true, decide_eq_true_iff, decide_eq_true_iff]

/-- A digit is none of the characters that are no digits. -/
theorem ne_of_isAsciiDigit {c d : Char} (hc : isAsciiDigit c = true) (hd : isAsciiDigit d = false) :
    c ≠ d := by
  rintro rfl
  rw [hd] at hc
  cases hc

theorem digitValue_of_isAsciiDigit {c : Char} (h : isAsciiDigit c = true) :
    digitValue c = c.toNat - 48 := by
  unfold digitValue hexDigit?
  rw [if_pos (show ('0' ≤ c && c ≤ '9') = true from h)]
  rfl

/-! ## Numbers from digits -/

/-- On digits the number is the one of the library. -/
theorem foldl_digitValue {ds : List Char} (h : ∀ c ∈ ds, isAsciiDigit c = true) (start : Nat) :
    ds.foldl (fun n c => n * 10 + digitValue c) start = Nat.ofDigitChars 10 ds start := by
  -- the two folds differ in the order of one product
  induction ds generalizing start with
  | nil => rfl
  | cons c ds ih =>
    rw [List.foldl_cons, Nat.ofDigitChars_cons, ih fun d hd => h d (List.mem_cons_of_mem c hd),
      digitValue_of_isAsciiDigit (h c List.mem_cons_self), Nat.mul_comm]
    rfl

/-! ## The digits of a number -/

theorem isAsciiDigit_of_mem_toDigits {n : Nat} {c : Char} (h : c ∈ Nat.toDigits 10 n) :
    isAsciiDigit c = true := by
  have hdigit := Nat.isDigit_of_mem_toDigits (by decide) (by decide) h
  unfold Char.isDigit at hdigit
  rw [Bool.and_eq_true, decide_eq_true_iff, decide_eq_true_iff] at hdigit
  exact isAsciiDigit_iff.mpr hdigit

theorem natOf_toDigits (n : Nat) : natOf 10 (Nat.toDigits 10 n) = n := by
  unfold natOf
  rw [foldl_digitValue fun c => isAsciiDigit_of_mem_toDigits, Nat.ofDigitChars_ten_toDigits]

/-- A number starts with a zero only if it is zero. -/
theorem head_toDigits_ne_zero {n : Nat} (h : n ≠ 0) : (Nat.toDigits 10 n).head? ≠ some '0' := by
  induction n using Nat.strongRecOn with
  | _ n ih =>
    by_cases hlt : n < 10
    · rw [Nat.toDigits_of_lt_base hlt]
      have hall : ∀ m < 10, m ≠ 0 → [m.digitChar].head? ≠ some '0' := by decide
      exact hall n hlt h
    · have hle : 10 ≤ n := Nat.le_of_not_lt hlt
      -- all but the last digit are those of a tenth, which is not zero
      have hhead := ih (n / 10) (by omega) (by omega)
      have hne : Nat.toDigits 10 (n / 10) ≠ [] := Nat.toDigits_ne_nil
      obtain ⟨c, cs, hcs⟩ := List.exists_cons_of_ne_nil hne
      rw [Nat.toDigits_of_base_le (by decide) hle]
      rw [hcs] at hhead ⊢
      exact hhead

/-- Whether a text goes on with a digit. -/
def StartsWithDigit (cs : List Char) : Prop :=
  ∃ c, cs.head? = some c ∧ isAsciiDigit c = true

/-- Digits that are taken from the front of a text end where it ended before. -/
theorem takeWhile_append_rest (cs : List Char) {rest : List Char} (h : ¬ StartsWithDigit rest) :
    (cs ++ rest).takeWhile isAsciiDigit = cs.takeWhile isAsciiDigit := by
  induction cs with
  | nil =>
    -- where the digits of the first part end, nothing more is taken from the second
    cases rest with
    | nil => rfl
    | cons c rest => exact List.takeWhile_cons_of_neg fun hc => h ⟨c, rfl, hc⟩
  | cons c cs ih =>
    rw [List.cons_append, List.takeWhile_cons, List.takeWhile_cons, ih]

theorem dropWhile_append_rest (cs : List Char) {rest : List Char} (h : ¬ StartsWithDigit rest) :
    (cs ++ rest).dropWhile isAsciiDigit = cs.dropWhile isAsciiDigit ++ rest := by
  induction cs with
  | nil =>
    cases rest with
    | nil => rfl
    | cons c rest => exact List.dropWhile_cons_of_neg fun hc => h ⟨c, rfl, hc⟩
  | cons c cs ih =>
    rw [List.cons_append, List.dropWhile_cons, List.dropWhile_cons, ih]
    split <;> rfl

theorem takeWhile_digits {ds rest : List Char} (hds : ∀ c ∈ ds, isAsciiDigit c = true)
    (hrest : ¬ StartsWithDigit rest) : (ds ++ rest).takeWhile isAsciiDigit = ds := by
  have hall : (ds ++ []).takeWhile isAsciiDigit = ds ++ [].takeWhile isAsciiDigit :=
    List.takeWhile_append_of_pos hds
  rw [List.append_nil, List.takeWhile_nil, List.append_nil] at hall
  rw [takeWhile_append_rest ds hrest, hall]

theorem dropWhile_digits {ds : List Char} (hds : ∀ c ∈ ds, isAsciiDigit c = true) :
    ds.dropWhile isAsciiDigit = [] := by
  have hall : (ds ++ []).dropWhile isAsciiDigit = [].dropWhile isAsciiDigit :=
    List.dropWhile_append_of_pos hds
  rwa [List.append_nil] at hall

end SourceAtlas.Text
