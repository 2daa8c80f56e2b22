import SourceAtlas.Json.Print
import SourceAtlas.Json.Read
import SourceAtlas.Proofs.Json.Values
import SourceAtlas.Proofs.Text.Digits

/-!
# JSON text: what is written is read again

Both forms of a text are the same up to blanks, so they are taken together as layouts: what stands
before an item, and what stands after a colon. The reader finds in a text of any layout the value
that it was written for, and it does so exactly if the value nests within the limit
(`readValue_chars`). So the limit is the only thing that can go wrong with a text that was written,
as long as its numbers are kept (`read?_compact`, `read?_pretty`).

A number is kept if its own text is read as it. All integers of 64 bits are (`isKept_int`). Of the
floating point numbers some are and some are not, since the reader rounds more than once; that can
be decided for each. What follows a number in a longer text makes no difference
(`readUnsigned_append`).

In the other direction, what is read has numbers that 64 bits hold (`fits_of_read?`).
-/

namespace SourceAtlas.Json

/-! ## Strings -/

/-- A hexadecimal digit that is written is read as its value. -/
theorem hexDigit?_hexChar {n : Nat} (h : n < 16) : Text.hexDigit? (hexChar n) = some n := by
  have hall : ∀ m < 16, Text.hexDigit? (hexChar m) = some m := by decide
  exact hall n h

/-- The escape of a control character has the code of the character. -/
theorem hex4?_control {n : Nat} (h : n < 0x20) :
    hex4? '0' '0' (hexChar (n / 16)) (hexChar (n % 16)) = some n := by
  have hhigh := hexDigit?_hexChar (n := n / 16) (by omega)
  have hlow := hexDigit?_hexChar (n := n % 16) (by omega)
  have hzero : Text.hexDigit? '0' = some 0 := by decide
  unfold hex4?
  rw [hzero, hhigh, hlow]
  show some (((0 * 16 + 0) * 16 + n / 16) * 16 + n % 16) = some n
  congr 1
  omega

/-- An escape that is no surrogate stands for itself, whatever follows. -/
theorem readStringBody_unicode {a b c d : Char} {n : Nat} (hn : hex4? a b c d = some n)
    (hhigh : isHighSurrogate n = false) (hlow : isLowSurrogate n = false) (read rest : List Char) :
    readStringBody read ('\\' :: 'u' :: a :: b :: c :: d :: rest)
      = readStringBody (Char.ofNat n :: read) rest := by
  rw [readStringBody.eq_def]
  split
  -- the cases are those of the reader: only the two that start with `\u` apply
  next heq => simp at heq
  next heq =>
    simp only [List.cons.injEq, true_and] at heq
    obtain ⟨rfl, rfl, rfl, rfl, rfl⟩ := heq
    simp [hn, hhigh, hlow]
  next heq =>
    simp only [List.cons.injEq, true_and] at heq
    obtain ⟨rfl, rfl, rfl, rfl, rfl⟩ := heq
    simp [hn, hhigh, hlow]
  next hnot heq =>
    simp only [List.cons.injEq, true_and] at heq
    exact absurd heq.2.symm (hnot a b c d rest heq.1.symm)
  next hnot heq =>
    simp only [List.cons.injEq] at heq
    exact absurd heq.2.symm (hnot 'u' _ heq.1.symm)
  next heq => cases heq

/-- An escape of one letter stands for its character. -/
theorem readStringBody_short {e c : Char} (he : shortEscape? e = some c) (read rest : List Char) :
    readStringBody read ('\\' :: e :: rest) = readStringBody (c :: read) rest := by
  have hu : e ≠ 'u' := by
    rintro rfl
    cases he
  rw [readStringBody.eq_def]
  split
  -- no letter of an escape is `u`, so the cases with four digits are out
  next heq => simp at heq
  next heq =>
    simp only [List.cons.injEq, true_and] at heq
    exact absurd heq.1 hu
  next heq =>
    simp only [List.cons.injEq, true_and] at heq
    exact absurd heq.1 hu
  next heq =>
    simp only [List.cons.injEq, true_and] at heq
    obtain ⟨rfl, rfl⟩ := heq
    rw [he]
  next hnot heq =>
    simp only [List.cons.injEq] at heq
    exact absurd heq.2.symm (hnot e rest heq.1.symm)
  next heq => cases heq

/-- A character that needs no escape stands for itself. -/
theorem readStringBody_plain {c : Char} (hquote : c ≠ '"') (hbackslash : c ≠ '\\')
    (hcontrol : ¬ c.toNat < 0x20) (read rest : List Char) :
    readStringBody read (c :: rest) = readStringBody (c :: read) rest := by
  rw [readStringBody.eq_def]
  split
  next heq => exact absurd (List.cons.inj heq).1 hquote
  next heq => exact absurd (List.cons.inj heq).1 hbackslash
  next heq => exact absurd (List.cons.inj heq).1 hbackslash
  next heq => exact absurd (List.cons.inj heq).1 hbackslash
  next heq =>
    obtain ⟨rfl, rfl⟩ := List.cons.inj heq
    rw [if_neg (by simp [hcontrol, hbackslash])]
  next heq => cases heq

/-- A character is read from its escape, however it is escaped. -/
theorem readStringBody_escapeChar (c : Char) (read rest : List Char) :
    readStringBody read (escapeChar c ++ rest) = readStringBody (c :: read) rest := by
  unfold escapeChar
  -- seven characters have an escape of their own
  iterate 7
    split
    next h =>
      rw [eq_of_beq h]
      exact readStringBody_short rfl read rest
  split
  -- the other control characters are written with four digits
  next hcontrol =>
    have hhigh : isHighSurrogate c.toNat = false := by
      simp [isHighSurrogate]
      omega
    have hlow : isLowSurrogate c.toNat = false := by
      simp [isLowSurrogate]
      omega
    have hread := readStringBody_unicode (hex4?_control hcontrol) hhigh hlow read rest
    rw [Char.ofNat_toNat] at hread
    exact hread
  next hquote hbackslash _ _ _ _ _ hcontrol =>
    exact readStringBody_plain (by simpa using hquote) (by simpa using hbackslash) hcontrol read
      rest

/-- A string is read again, up to its closing quote. -/
theorem readStringBody_stringText (s : String) (rest : List Char) :
    readStringBody [] (s.toList.flatMap escapeChar ++ '"' :: rest) = some (s, rest) := by
  -- the characters that are read already come last first
  have hgeneral : ∀ (cs read : List Char),
      readStringBody read (cs.flatMap escapeChar ++ '"' :: rest)
        = some (String.ofList (read.reverse ++ cs), rest) := by
    intro cs
    induction cs with
    | nil =>
      intro read
      rw [List.append_nil]
      rfl
    | cons c cs ih =>
      intro read
      rw [List.flatMap_cons, List.append_assoc, readStringBody_escapeChar, ih]
      simp
  rw [hgeneral s.toList []]
  simp

/-- The text of a string with its quotes, as the reader meets it. -/
theorem stringText_append (s : String) (rest : List Char) :
    stringText s ++ rest = '"' :: (s.toList.flatMap escapeChar ++ '"' :: rest) := by
  simp [stringText]

/-! ## Numbers -/

/-- What can stand after a value so that a number ends there. -/
def EndsNumber (rest : List Char) : Prop :=
  ¬ Text.StartsWithDigit rest ∧ ∀ c, rest.head? = some c → c ≠ '.' ∧ c ≠ 'e' ∧ c ≠ 'E'

/-- More digits never make a number smaller. -/
theorem le_foldl_digits (ds : List Char) (start : Nat) :
    start ≤ ds.foldl (fun n c => n * 10 + Text.digitValue c) start := by
  induction ds generalizing start with
  | nil => exact Nat.le_refl start
  | cons c ds ih =>
    have hstep : start ≤ start * 10 + Text.digitValue c := by omega
    exact Nat.le_trans hstep (ih _)

/-- Digits are all added where 64 bits hold the number. -/
theorem addDigits_eq {ds : List Char} {start : Nat}
    (h : ds.foldl (fun n c => n * 10 + Text.digitValue c) start ≤ Text.maxUnsigned) (added : Nat) :
    addDigits start added ds
      = (ds.foldl (fun n c => n * 10 + Text.digitValue c) start, added + ds.length, []) := by
  induction ds generalizing start added with
  | nil => rfl
  | cons c ds ih =>
    -- what 64 bits hold at the end they hold at every digit before
    have hnext : start * 10 + Text.digitValue c ≤ Text.maxUnsigned :=
      Nat.le_trans (le_foldl_digits ds _) h
    unfold addDigits
    simp only [if_pos hnext]
    rw [ih h]
    simp only [List.foldl_cons, List.length_cons]
    rw [Nat.add_right_comm, Nat.add_assoc]

/-- The digits of a number are read as that number. -/
theorem readUnsigned_toDigits {n : Nat} (hn : n ≤ Text.maxUnsigned) (negative : Bool) :
    readUnsigned negative (Nat.toDigits 10 n) = (integer negative n).map (·, []) := by
  have hdigits : ∀ c ∈ Nat.toDigits 10 n, Text.isAsciiDigit c = true :=
    fun c => Text.isAsciiDigit_of_mem_toDigits
  have hend : ¬ Text.StartsWithDigit [] := by
    rintro ⟨c, hc, -⟩
    cases hc
  have htake := Text.takeWhile_digits hdigits hend
  rw [List.append_nil] at htake
  have hadd : addDigits 0 0 (Nat.toDigits 10 n) = (n, (Nat.toDigits 10 n).length, []) := by
    have hvalue := Text.natOf_toDigits n
    unfold Text.natOf at hvalue
    rw [addDigits_eq (by rw [hvalue]; exact hn), hvalue, Nat.zero_add]
  unfold readUnsigned
  simp only [htake, Text.dropWhile_digits hdigits, hadd]
  obtain ⟨first, more, hcons⟩ := List.exists_cons_of_ne_nil (Nat.toDigits_ne_nil (n := n) (b := 10))
  -- no number but zero starts with a zero
  have hzero : ¬ (first == '0' && !more.isEmpty) = true := by
    intro h
    obtain ⟨hfirst, hmore⟩ := Bool.and_eq_true_iff.mp h
    have hhead : (Nat.toDigits 10 n).head? = some '0' := by
      rw [hcons, eq_of_beq hfirst]
      rfl
    have hn0 : n = 0 := Classical.byContradiction fun hne => Text.head_toDigits_ne_zero hne hhead
    rw [hn0, Nat.toDigits_zero] at hcons
    rw [(List.cons.inj hcons).2.symm] at hmore
    cases hmore
  rw [hcons]
  simp only
  rw [if_neg hzero]
  rfl

/-! ### Numbers in a longer text -/

/-- A result without a rest, with a rest that the reader leaves alone. -/
theorem map_pair_eq {α β : Type} {o : Option α} {a : α} {rest : β} {rest' : β}
    (h : o.map (·, rest) = some (a, rest')) : o = some a ∧ rest = rest' := by
  obtain ⟨b, hb, heq⟩ := Option.map_eq_some_iff.mp h
  obtain ⟨rfl, hrest⟩ := Prod.mk.inj heq
  exact ⟨hb, hrest⟩

/-- The sign of an exponent, and what follows it. -/
def exponentSign : List Char → Bool × List Char
  | '+' :: rest => (false, rest)
  | '-' :: rest => (true, rest)
  | rest => (false, rest)

/-- The part of a number from the digits of its exponent. -/
def readPower (negative : Bool) (significand : Nat) (e : Int) (down : Bool) (cs : List Char) :
    Option (Number × List Char) :=
  let n := Text.natOf 10 (cs.takeWhile Text.isAsciiDigit)
  let rest := cs.dropWhile Text.isAsciiDigit
  if (cs.takeWhile Text.isAsciiDigit).isEmpty then none
  else if maxExponent < n then
    if significand != 0 && !down then none
    else some (.real (if negative then Binary64.zero.neg else Binary64.zero), rest)
  else (ofParts negative significand (clampExponent (if down then e - n else e + n))).map (·, rest)

/-- Without a sign the exponent counts upwards. -/
theorem exponentSign_plain {cs : List Char} (hplus : ∀ rest, cs = '+' :: rest → False)
    (hminus : ∀ rest, cs = '-' :: rest → False) : exponentSign cs = (false, cs) := by
  unfold exponentSign
  split
  · exact (hplus _ rfl).elim
  · exact (hminus _ rfl).elim
  · rfl

/-- After the mark come a sign and digits. -/
theorem readExponent_mark {c : Char} (h : (c == 'e' || c == 'E') = true) (negative : Bool)
    (significand : Nat) (e : Int) (cs : List Char) :
    readExponent negative significand e (c :: cs)
      = readPower negative significand e (exponentSign cs).1 (exponentSign cs).2 := by
  unfold readExponent
  simp only
  rw [if_pos h]
  split
  · rfl
  · rfl
  next hplus hminus =>
    rw [exponentSign_plain hplus hminus]
    rfl

/-- What follows an exponent does not change its sign. -/
theorem exponentSign_append {cs : List Char} (h : cs ≠ []) (rest : List Char) :
    exponentSign (cs ++ rest) = ((exponentSign cs).1, (exponentSign cs).2 ++ rest) := by
  cases cs with
  | nil => exact absurd rfl h
  | cons c cs =>
    by_cases hplus : c = '+'
    · subst hplus
      rfl
    · by_cases hminus : c = '-'
      · subst hminus
        rfl
      · have hplain : ∀ cs, exponentSign (c :: cs) = (false, c :: cs) := fun cs =>
          exponentSign_plain (fun _ heq => hplus (List.cons.inj heq).1)
            (fun _ heq => hminus (List.cons.inj heq).1)
        rw [List.cons_append, hplain, hplain, List.cons_append]

/-- The digits of an exponent end where the text of the number ends. -/
theorem readPower_append {negative : Bool} {significand : Nat} {e : Int} {down : Bool}
    {cs rest : List Char} {n : Number}
    (h : readPower negative significand e down cs = some (n, [])) (hrest : EndsNumber rest) :
    readPower negative significand e down (cs ++ rest) = some (n, rest) := by
  unfold readPower at h ⊢
  rw [Text.takeWhile_append_rest cs hrest.1, Text.dropWhile_append_rest cs hrest.1]
  dsimp only at h ⊢
  by_cases hdigits : (cs.takeWhile Text.isAsciiDigit).isEmpty = true
  · rw [if_pos hdigits] at h
    cases h
  · rw [if_neg hdigits] at h ⊢
    by_cases hlarge : maxExponent < Text.natOf 10 (cs.takeWhile Text.isAsciiDigit)
    · -- the exponent is too large to be computed: the number is zero, or none
      rw [if_pos hlarge] at h ⊢
      by_cases hzero : (significand != 0 && !down) = true
      · rw [if_pos hzero] at h
        cases h
      · rw [if_neg hzero] at h ⊢
        obtain ⟨rfl, hnil⟩ := Prod.mk.inj (Option.some.inj h)
        rw [hnil, List.nil_append]
    · rw [if_neg hlarge] at h ⊢
      obtain ⟨hparts, hnil⟩ := map_pair_eq h
      rw [hparts, hnil, List.nil_append, Option.map_some]

/-- The same from the mark of the exponent on, which may be missing. -/
theorem readExponent_append {negative : Bool} {significand : Nat} {e : Int} {cs rest : List Char}
    {n : Number} (h : readExponent negative significand e cs = some (n, []))
    (hrest : EndsNumber rest) :
    readExponent negative significand e (cs ++ rest) = some (n, rest) := by
  cases cs with
  | nil =>
    have hparts : ofParts negative significand e = some n := (map_pair_eq h).1
    cases rest with
    | nil => exact h
    | cons d rest =>
      -- a number without an exponent, and no mark in what follows
      obtain ⟨-, he, hE⟩ := hrest.2 d rfl
      have hmark : ¬ (d == 'e' || d == 'E') = true := by simp [he, hE]
      unfold readExponent
      simp only [List.nil_append]
      rw [if_neg hmark, hparts]
      rfl
  | cons c tail =>
    by_cases hmark : (c == 'e' || c == 'E') = true
    · rw [readExponent_mark hmark] at h
      have hne : tail ≠ [] := by
        rintro rfl
        cases h
      rw [List.cons_append, readExponent_mark hmark, exponentSign_append hne]
      exact readPower_append h hrest
    -- a character that is no mark would be left over
    · unfold readExponent at h
      simp only at h
      rw [if_neg hmark] at h
      cases (map_pair_eq h).2


/-- A number that is a whole text is read from a longer one too, if it ends there. -/
theorem readUnsigned_append {negative : Bool} {cs rest : List Char} {n : Number}
    (h : readUnsigned negative cs = some (n, [])) (hrest : EndsNumber rest) :
    readUnsigned negative (cs ++ rest) = some (n, rest) := by
  unfold readUnsigned at h ⊢
  simp only [Text.takeWhile_append_rest cs hrest.1, Text.dropWhile_append_rest cs hrest.1]
  simp only at h
  generalize cs.takeWhile Text.isAsciiDigit = digits at h
  generalize cs.dropWhile Text.isAsciiDigit = after at h
  cases digits with
  | nil => cases h
  | cons first more =>
    simp only at h ⊢
    split at h
    · cases h
    next hzero =>
      rw [if_neg hzero]
      split at h
      next tail =>
        -- a fraction
        simp only [List.cons_append, Text.takeWhile_append_rest tail hrest.1,
          Text.dropWhile_append_rest tail hrest.1]
        split at h
        · cases h
        next hfraction =>
          rw [if_neg hfraction]
          exact readExponent_append h hrest
      next c tail hpoint =>
        rw [List.cons_append]
        split at h
        next hmark =>
          split
          next heq => exact absurd (List.cons.inj heq).1 hpoint
          next heq =>
            obtain ⟨rfl, rfl⟩ := List.cons.inj heq
            rw [if_pos hmark]
            exact readExponent_append h hrest
          next heq => cases heq
        next hmark =>
          -- nothing may be left over
          split at h <;> cases (map_pair_eq h).2
      next =>
        -- digits only, so what follows decides where they end
        cases rest with
        | nil => exact h
        | cons d rest =>
          obtain ⟨hpoint, he, hE⟩ := hrest.2 d rfl
          have hmark : ¬ (d == 'e' || d == 'E') = true := by simp [he, hE]
          rw [List.nil_append]
          split
          next heq => exact absurd (List.cons.inj heq).1 hpoint
          next heq =>
            obtain ⟨rfl, rfl⟩ := List.cons.inj heq
            rw [if_neg hmark]
            split at h
            next hsurplus => rw [if_pos hsurplus, (map_pair_eq h).1, Option.map_some]
            next hsurplus => rw [if_neg hsurplus, (map_pair_eq h).1, Option.map_some]
          next heq => cases heq

/-! ### Numbers that are kept -/

/-- Reads a number with its sign. -/
def readSigned : List Char → Option (Number × List Char)
  | '-' :: rest => readUnsigned true rest
  | cs => readUnsigned false cs

/-- The text of a number is read as that number. -/
def Number.IsKept (n : Number) : Prop :=
  readSigned (numberText n).toList = some (n, [])

instance (n : Number) : Decidable n.IsKept :=
  inferInstanceAs (Decidable (_ = _))

/-- A text that starts with a digit has no sign. -/
theorem readSigned_digit {c : Char} (h : Text.isAsciiDigit c = true) (cs : List Char) :
    readSigned (c :: cs) = readUnsigned false (c :: cs) := by
  unfold readSigned
  split
  next heq =>
    rw [(List.cons.inj heq).1] at h
    cases h
  next => rfl

/-- The integers of 64 bits are kept. -/
theorem isKept_int {i : Int} (h : (Number.int i).Fits) : (Number.int i).IsKept := by
  unfold Number.Fits at h
  unfold Number.IsKept
  have hsize : i.natAbs ≤ Text.maxUnsigned := by
    unfold Text.maxSigned at h
    unfold Text.maxUnsigned at h ⊢
    omega
  by_cases hneg : i < 0
  · have htext : (numberText (.int i)).toList = '-' :: Nat.toDigits 10 i.natAbs := by
      simp [numberText, Text.ofNat, hneg]
    have hint : integer true i.natAbs = some (.int i) := by
      -- negative numbers reach one further than positive ones
      have hbound : i.natAbs ≤ Text.maxSigned + 1 := by
        unfold Text.maxSigned at h ⊢
        omega
      have hcond : (i.natAbs != 0 && decide (i.natAbs ≤ Text.maxSigned + 1)) = true := by
        simp [hbound]
        omega
      unfold integer
      rw [if_neg (by simp), if_pos hcond]
      congr 2
      omega
    rw [htext, readSigned, readUnsigned_toDigits hsize, hint, Option.map_some]
  · have htext : (numberText (.int i)).toList = Nat.toDigits 10 i.natAbs := by
      simp [numberText, Text.ofNat, hneg]
    have hint : integer false i.natAbs = some (.int i) := by
      unfold integer
      rw [if_pos (by simp)]
      congr 2
      omega
    have hread := readUnsigned_toDigits hsize false
    obtain ⟨c, cs, hcs⟩ :=
      List.exists_cons_of_ne_nil (Nat.toDigits_ne_nil (n := i.natAbs) (b := 10))
    have hdigit : Text.isAsciiDigit c = true :=
      Text.isAsciiDigit_of_mem_toDigits (n := i.natAbs) (by rw [hcs]; exact List.mem_cons_self)
    rw [hint, hcs, Option.map_some] at hread
    rw [htext, hcs, readSigned_digit hdigit, hread]

/-- The text of a number that is kept starts with a sign or a digit. -/
theorem text_of_isKept {n : Number} (h : n.IsKept) :
    ∃ c cs, (numberText n).toList = c :: cs
      ∧ (c = '-' ∧ readUnsigned true cs = some (n, [])
        ∨ Text.isAsciiDigit c = true ∧ readUnsigned false (c :: cs) = some (n, [])) := by
  unfold Number.IsKept readSigned at h
  split at h
  next cs heq => exact ⟨'-', cs, heq, Or.inl ⟨rfl, h⟩⟩
  next =>
    generalize (numberText n).toList = text at h
    cases text with
    | nil => cases h
    | cons c cs =>
      refine ⟨c, cs, rfl, Or.inr ⟨?_, h⟩⟩
      by_cases hdigit : Text.isAsciiDigit c = true
      · exact hdigit
      -- without a sign and without a digit nothing is read
      · unfold readUnsigned at h
        simp only [List.takeWhile_cons_of_neg hdigit] at h
        cases h

/-! ## Blanks -/

/-- Blanks are skipped. -/
theorem skipBlank_of_blank {blanks : List Char} (h : ∀ c ∈ blanks, isBlank c = true)
    (cs : List Char) : skipBlank (blanks ++ cs) = skipBlank cs :=
  List.dropWhile_append_of_pos h

/-- Nothing else is. -/
theorem skipBlank_of_not_blank {c : Char} (h : isBlank c = false) (cs : List Char) :
    skipBlank (c :: cs) = c :: cs := by
  unfold skipBlank
  rw [List.dropWhile_cons_of_neg (by simp [h])]

/-- A number ends where the text ends. -/
theorem endsNumber_nil : EndsNumber [] := by
  refine ⟨?_, ?_⟩
  · rintro ⟨c, hc, -⟩
    cases hc
  · intro c hc
    cases hc

/-- It ends before a character that is no digit, no point and no mark of an exponent. -/
theorem endsNumber_cons {c : Char} (h : Text.isAsciiDigit c = false)
    (hc : c ≠ '.' ∧ c ≠ 'e' ∧ c ≠ 'E') (rest : List Char) : EndsNumber (c :: rest) := by
  refine ⟨?_, ?_⟩
  · rintro ⟨d, hd, hdigit⟩
    rw [← Option.some.inj hd, h] at hdigit
    cases hdigit
  · intro d hd
    rw [← Option.some.inj hd]
    exact hc

/-- A number ends before blanks. -/
theorem endsNumber_blank {blanks : List Char} (h : ∀ c ∈ blanks, isBlank c = true)
    {rest : List Char} (hrest : EndsNumber rest) : EndsNumber (blanks ++ rest) := by
  cases blanks with
  | nil => exact hrest
  | cons c blanks =>
    -- all four blanks are such characters
    have hc : c = ' ' ∨ c = '\n' ∨ c = '\t' ∨ c = '\r' := by
      simpa [isBlank, or_assoc] using h c List.mem_cons_self
    rcases hc with rfl | rfl | rfl | rfl <;> exact endsNumber_cons (by decide) (by decide) _

/-! ## Layouts -/

/-- Where the blanks of a text stand. -/
structure Layout where
  /-- What stands before an item at a level, and before the bracket that returns to the level. -/
  gap : Nat → List Char
  /-- What stands after the colon of a member. -/
  afterColon : List Char
  gap_blank : ∀ level, ∀ c ∈ gap level, isBlank c = true
  afterColon_blank : ∀ c ∈ afterColon, isBlank c = true

namespace Layout

mutual

/-- The text of a value that stands at a level. -/
def chars (s : Layout) (level : Nat) : Json → List Char
  | .null => "null".toList
  | .bool b => (if b then "true" else "false").toList
  | .num n => (numberText n).toList
  | .str text => stringText text
  | .arr items => '[' :: s.allItems (level + 1) items
  | .obj members => '\x7b' :: s.allMembers (level + 1) members

/-- The items of an array with the closing bracket. -/
def allItems (s : Layout) (level : Nat) : List Json → List Char
  | [] => [']']
  | v :: rest => s.gap level ++ s.chars level v ++ s.moreItems level rest

/-- The items after the first one, with the closing bracket. -/
def moreItems (s : Layout) (level : Nat) : List Json → List Char
  | [] => s.gap (level - 1) ++ [']']
  | v :: rest => ',' :: s.gap level ++ s.chars level v ++ s.moreItems level rest

/-- The members of an object with the closing brace. -/
def allMembers (s : Layout) (level : Nat) : List (String × Json) → List Char
  | [] => ['\x7d']
  | (key, v) :: rest =>
    s.gap level ++ stringText key ++ ':' :: s.afterColon ++ s.chars level v
      ++ s.moreMembers level rest

/-- The members after the first one, with the closing brace. -/
def moreMembers (s : Layout) (level : Nat) : List (String × Json) → List Char
  | [] => s.gap (level - 1) ++ ['\x7d']
  | (key, v) :: rest =>
    ',' :: s.gap level ++ stringText key ++ ':' :: s.afterColon ++ s.chars level v
      ++ s.moreMembers level rest

end

/-- No blanks at all. -/
def oneLine : Layout where
  gap _ := []
  afterColon := []
  gap_blank _ _ h := by cases h
  afterColon_blank _ h := by cases h

/-- One item a line. -/
def manyLines : Layout where
  gap := newline
  afterColon := [' ']
  gap_blank level c h := by
    rcases List.mem_cons.mp h with rfl | h
    · rfl
    · rw [List.eq_of_mem_replicate h]
      rfl
  afterColon_blank c h := by
    rw [List.mem_singleton.mp h]
    rfl

/-! ### The two forms as layouts -/

/-- The items of an array on one line, the first one apart: it has no comma before it. -/
theorem compactItems_eq {v : Json} {rest : List Json} (level : Nat)
    (h : ∀ w ∈ rest, oneLine.chars level w = compactChars w) :
    compactItems (v :: rest) = compactChars v ++ oneLine.moreItems level rest := by
  induction rest generalizing v with
  | nil => simp [compactItems, moreItems, oneLine]
  | cons w rest ih =>
    have htail := ih (v := w) fun u hu => h u (List.mem_cons_of_mem w hu)
    have hstep : compactItems (v :: w :: rest)
        = compactChars v ++ ',' :: compactItems (w :: rest) := by
      simp only [compactItems]
    rw [hstep, htail, moreItems, h w List.mem_cons_self]
    simp [oneLine]

/-- The members of an object on one line, in the same way. -/
theorem compactMembers_eq {e : String × Json} {rest : List (String × Json)} (level : Nat)
    (h : ∀ d ∈ rest, oneLine.chars level d.2 = compactChars d.2) :
    compactMembers (e :: rest)
      = stringText e.1 ++ ':' :: compactChars e.2 ++ oneLine.moreMembers level rest := by
  induction rest generalizing e with
  | nil => simp [compactMembers, moreMembers, oneLine]
  | cons d rest ih =>
    have htail := ih (e := d) fun u hu => h u (List.mem_cons_of_mem d hu)
    have hstep : compactMembers (e :: d :: rest)
        = stringText e.1 ++ ':' :: compactChars e.2 ++ ',' :: compactMembers (d :: rest) := by
      simp only [compactMembers]
    rw [hstep, htail, moreMembers, h d List.mem_cons_self]
    simp [oneLine]

/-- The text on one line is a layout. -/
theorem chars_oneLine (v : Json) (level : Nat) : oneLine.chars level v = compactChars v := by
  induction v using induct generalizing level with
  | null => simp only [chars, compactChars]
  | bool b => cases b <;> simp [chars, compactChars]
  | num n => simp only [chars, compactChars]
  | str s => simp only [chars, compactChars]
  | arr items ih =>
    cases items with
    | nil => simp only [chars, allItems, compactChars, compactItems]
    | cons v rest =>
      have hrest := compactItems_eq (v := v) (level + 1)
        fun w hw => ih w (List.mem_cons_of_mem v hw) (level + 1)
      rw [chars, allItems, compactChars, hrest, ih v List.mem_cons_self]
      simp [oneLine]
  | obj members ih =>
    cases members with
    | nil => simp only [chars, allMembers, compactChars, compactMembers]
    | cons e rest =>
      have hrest := compactMembers_eq (e := e) (level + 1)
        fun d hd => ih d (List.mem_cons_of_mem e hd) (level + 1)
      rw [chars, allMembers, compactChars, hrest, ih e List.mem_cons_self]
      simp [oneLine]

/-- The items of an array, each on a line of its own. -/
theorem prettyItems_eq {v : Json} {rest : List Json} (level : Nat)
    (h : ∀ w ∈ rest, manyLines.chars level w = prettyChars level w) :
    prettyItems level (v :: rest)
      = newline level ++ prettyChars level v ++ manyLines.moreItems level rest := by
  induction rest generalizing v with
  | nil => simp [prettyItems, moreItems, manyLines]
  | cons w rest ih =>
    have htail := ih (v := w) fun u hu => h u (List.mem_cons_of_mem w hu)
    have hstep : prettyItems level (v :: w :: rest)
        = newline level ++ prettyChars level v ++ ',' :: prettyItems level (w :: rest) := by
      simp only [prettyItems]
    rw [hstep, htail, moreItems, h w List.mem_cons_self]
    simp [manyLines]

/-- The members of an object, each on a line of its own. -/
theorem prettyMembers_eq {e : String × Json} {rest : List (String × Json)} (level : Nat)
    (h : ∀ d ∈ rest, manyLines.chars level d.2 = prettyChars level d.2) :
    prettyMembers level (e :: rest)
      = newline level ++ stringText e.1 ++ ':' :: ' ' :: prettyChars level e.2
        ++ manyLines.moreMembers level rest := by
  induction rest generalizing e with
  | nil => simp [prettyMembers, moreMembers, manyLines]
  | cons d rest ih =>
    have htail := ih (e := d) fun u hu => h u (List.mem_cons_of_mem d hu)
    have hstep : prettyMembers level (e :: d :: rest)
        = newline level ++ stringText e.1 ++ ':' :: ' ' :: prettyChars level e.2
          ++ ',' :: prettyMembers level (d :: rest) := by
      simp only [prettyMembers]
    rw [hstep, htail, moreMembers, h d List.mem_cons_self]
    simp [manyLines]

/-- The text over several lines is a layout. -/
theorem chars_manyLines (v : Json) (level : Nat) :
    manyLines.chars level v = prettyChars level v := by
  induction v using induct generalizing level with
  | null => simp only [chars, prettyChars]
  | bool b => cases b <;> simp [chars, prettyChars]
  | num n => simp only [chars, prettyChars]
  | str s => simp only [chars, prettyChars]
  | arr items ih =>
    cases items with
    -- brackets with nothing between them stay on one line
    | nil => simp only [chars, allItems, prettyChars]
    | cons v rest =>
      have hrest := prettyItems_eq (v := v) (level + 1)
        fun w hw => ih w (List.mem_cons_of_mem v hw) (level + 1)
      have hopen : prettyChars level (.arr (v :: rest))
          = '[' :: prettyItems (level + 1) (v :: rest) := by
        simp only [prettyChars]
      rw [chars, allItems, hopen, hrest, ih v List.mem_cons_self]
      simp [manyLines]
  | obj members ih =>
    cases members with
    | nil => simp only [chars, allMembers, prettyChars]
    | cons e rest =>
      have hrest := prettyMembers_eq (e := e) (level + 1)
        fun d hd => ih d (List.mem_cons_of_mem e hd) (level + 1)
      have hopen : prettyChars level (.obj (e :: rest))
          = '\x7b' :: prettyMembers (level + 1) (e :: rest) := by
        simp only [prettyChars]
      rw [chars, allMembers, hopen, hrest, ih e List.mem_cons_self]
      simp [manyLines]

end Layout

/-! ## Values -/

/-- All numbers are kept, so that the text says everything about the value. -/
def IsExact (v : Json) : Prop :=
  ∀ n ∈ v.numbers, n.IsKept

/-- A value that starts with a digit is a number. -/
theorem readValue_digit {c : Char} (h : Text.isAsciiDigit c = true) (depth : Nat) (cs : List Char) :
    readValue depth (c :: cs) = (readUnsigned false (c :: cs)).map fun r => (.num r.1, r.2) := by
  have hnot : ∀ {d : Char}, Text.isAsciiDigit d = false → c ≠ d := Text.ne_of_isAsciiDigit h
  unfold readValue
  -- the other values start with a character that is no digit
  split
  next heq => exact absurd (List.cons.inj heq).1 (hnot (by decide))
  next heq => exact absurd (List.cons.inj heq).1 (hnot (by decide))
  next heq => exact absurd (List.cons.inj heq).1 (hnot (by decide))
  next heq => exact absurd (List.cons.inj heq).1 (hnot (by decide))
  next heq => exact absurd (List.cons.inj heq).1 (hnot (by decide))
  next heq => exact absurd (List.cons.inj heq).1 (hnot (by decide))
  next heq => exact absurd (List.cons.inj heq).1 (hnot (by decide))
  next => rfl

/-- A number that is kept is read again, whatever follows where it ends. -/
theorem readValue_number {n : Number} (h : n.IsKept) {rest : List Char} (hrest : EndsNumber rest)
    (depth : Nat) : readValue depth ((numberText n).toList ++ rest) = some (.num n, rest) := by
  obtain ⟨c, cs, htext, ⟨rfl, hread⟩ | ⟨hdigit, hread⟩⟩ := text_of_isKept h
  · rw [htext, List.cons_append, readValue, readUnsigned_append hread hrest]
    rfl
  · have happend := readUnsigned_append hread hrest
    rw [List.cons_append] at happend
    rw [htext, List.cons_append, readValue_digit hdigit, happend]
    rfl

/-- What a value can start with. -/
def StartsValue (c : Char) : Prop :=
  isBlank c = false ∧ c ≠ ']' ∧ c ≠ '\x7d'

instance (c : Char) : Decidable (StartsValue c) :=
  inferInstanceAs (Decidable (_ ∧ _ ∧ _))

/-- A number without a sign starts as values do. -/
theorem startsValue_of_digit {c : Char} (h : Text.isAsciiDigit c = true) : StartsValue c := by
  have hnot : ∀ {d : Char}, Text.isAsciiDigit d = false → c ≠ d := Text.ne_of_isAsciiDigit h
  refine ⟨?_, hnot (by decide), hnot (by decide)⟩
  simp only [isBlank, Bool.or_eq_false_iff, beq_eq_false_iff_ne]
  exact ⟨⟨⟨hnot (by decide), hnot (by decide)⟩, hnot (by decide)⟩, hnot (by decide)⟩

/-- The text of a number is not empty. -/
theorem exists_head_number {n : Number} (h : n.IsKept) :
    ∃ c cs, (numberText n).toList = c :: cs ∧ StartsValue c := by
  obtain ⟨c, cs, htext, ⟨rfl, -⟩ | ⟨hdigit, -⟩⟩ := text_of_isKept h
  · exact ⟨'-', cs, htext, by decide⟩
  · exact ⟨c, cs, htext, startsValue_of_digit hdigit⟩

namespace Layout

variable (s : Layout)

/-- The text of a value is not empty, and neither a blank nor a closing bracket comes first. -/
theorem exists_head_chars (level : Nat) {v : Json} (h : v.IsExact) :
    ∃ c cs, s.chars level v = c :: cs ∧ StartsValue c := by
  cases v with
  | null => exact ⟨'n', _, by rw [chars]; rfl, by decide⟩
  | bool b =>
    cases b
    · exact ⟨'f', _, by rw [chars]; rfl, by decide⟩
    · exact ⟨'t', _, by rw [chars]; rfl, by decide⟩
  | num n =>
    rw [chars]
    exact exists_head_number (h n (by simp [numbers]))
  | str text => exact ⟨'"', _, by rw [chars, stringText]; rfl, by decide⟩
  | arr items => exact ⟨'[', _, by rw [chars], by decide⟩
  | obj members => exact ⟨'\x7b', _, by rw [chars], by decide⟩

/-- So there are no blanks to skip before a value. -/
theorem skipBlank_chars (level : Nat) {v : Json} (h : v.IsExact) (rest : List Char) :
    skipBlank (s.chars level v ++ rest) = s.chars level v ++ rest := by
  obtain ⟨c, cs, hcs, hc⟩ := s.exists_head_chars level h
  rw [hcs, List.cons_append]
  exact skipBlank_of_not_blank hc.1 _

/-- The reader finds the value in its text, exactly if it nests within the limit. -/
def ReadsBack (v : Json) : Prop :=
  ∀ depth level rest, EndsNumber rest →
    readValue depth (s.chars level v ++ rest) = if v.depth ≤ depth then some (v, rest) else none

/-- After the first item there is a comma or the bracket, so a number ends there. -/
theorem endsNumber_moreItems (level : Nat) (items : List Json) (rest : List Char) :
    EndsNumber (s.moreItems level items ++ rest) := by
  cases items with
  | nil =>
    rw [moreItems, List.append_assoc]
    exact endsNumber_blank (s.gap_blank _) (endsNumber_cons (by decide) (by decide) rest)
  | cons v items =>
    rw [moreItems]
    exact endsNumber_cons (by decide) (by decide) _

/-- The same holds after the first member of an object. -/
theorem endsNumber_moreMembers (level : Nat) (members : List (String × Json)) (rest : List Char) :
    EndsNumber (s.moreMembers level members ++ rest) := by
  cases members with
  | nil =>
    rw [moreMembers, List.append_assoc]
    exact endsNumber_blank (s.gap_blank _) (endsNumber_cons (by decide) (by decide) rest)
  | cons e members =>
    rw [moreMembers]
    exact endsNumber_cons (by decide) (by decide) _

/-- The text of items is longer than their number, so the reader has fuel for all of them. -/
theorem length_moreItems (level : Nat) (items : List Json) :
    items.length < (s.moreItems level items).length := by
  induction items with
  | nil => simp [moreItems]
  | cons v items ih =>
    simp only [moreItems, List.length_cons, List.length_append]
    omega

/-- The same of members. -/
theorem length_moreMembers (level : Nat) (members : List (String × Json)) :
    members.length < (s.moreMembers level members).length := by
  induction members with
  | nil => simp [moreMembers]
  | cons e members ih =>
    simp only [moreMembers, List.length_cons, List.length_append]
    omega

/-- Two limits that both have to hold. -/
theorem ite_le_ite_le {α : Type} {a b limit : Nat} (x : Option α) :
    (if a ≤ limit then if b ≤ limit then x else none else none)
      = if max a b ≤ limit then x else none := by
  by_cases ha : a ≤ limit
  · by_cases hb : b ≤ limit
    · rw [if_pos ha, if_pos hb, if_pos (by omega)]
    · rw [if_pos ha, if_neg hb, if_neg (by omega)]
  · rw [if_neg ha, if_neg (by omega)]

section Steps

variable {s} {v : Json} (hback : s.ReadsBack v) {tail : List Char} (htail : EndsNumber tail)

include hback htail

/-- One item, with a comma after it. -/
theorem readItems_next {cs rest : List Char} (hcomma : skipBlank tail = ',' :: rest) {level : Nat}
    (hcs : skipBlank cs = s.chars level v ++ tail) (depth fuel : Nat) (read : List Json) :
    readItems (readValue depth) (fuel + 1) read cs
      = if v.depth ≤ depth then readItems (readValue depth) fuel (v :: read) rest else none := by
  have hv := hback depth level tail htail
  rw [readItems]
  by_cases hdeep : v.depth ≤ depth
  · rw [if_pos hdeep] at hv ⊢
    simp only [hcs, hv, hcomma]
  · rw [if_neg hdeep] at hv ⊢
    simp only [hcs, hv]

/-- The last item, with the bracket after it. -/
theorem readItems_last {cs rest : List Char} (hclose : skipBlank tail = ']' :: rest) {level : Nat}
    (hcs : skipBlank cs = s.chars level v ++ tail) (depth fuel : Nat) (read : List Json) :
    readItems (readValue depth) (fuel + 1) read cs
      = if v.depth ≤ depth then some ((v :: read).reverse, rest) else none := by
  have hv := hback depth level tail htail
  rw [readItems]
  by_cases hdeep : v.depth ≤ depth
  · rw [if_pos hdeep] at hv ⊢
    simp only [hcs, hv, hclose]
  · rw [if_neg hdeep] at hv ⊢
    simp only [hcs, hv]

/-- One member, with a comma after it. -/
theorem readMembers_next {cs rest : List Char} (hcomma : skipBlank tail = ',' :: rest) {level : Nat}
    {key : String} (hexact : v.IsExact)
    (hcs : skipBlank cs = stringText key ++ ':' :: (s.afterColon ++ (s.chars level v ++ tail)))
    (depth fuel : Nat) (read : List (String × Json)) :
    readMembers (readValue depth) (fuel + 1) read cs
      = if v.depth ≤ depth then readMembers (readValue depth) fuel ((key, v) :: read) rest
        else none := by
  have hv := hback depth level tail htail
  have hcolon : skipBlank (':' :: (s.afterColon ++ (s.chars level v ++ tail)))
      = ':' :: (s.afterColon ++ (s.chars level v ++ tail)) :=
    skipBlank_of_not_blank (by decide) _
  have hvalue : skipBlank (s.afterColon ++ (s.chars level v ++ tail))
      = s.chars level v ++ tail := by
    rw [skipBlank_of_blank s.afterColon_blank, s.skipBlank_chars level hexact]
  -- the key, the colon and the value, with blanks only after the colon
  rw [stringText_append] at hcs
  rw [readMembers]
  simp only [hcs, readStringBody_stringText, hcolon, hvalue]
  by_cases hdeep : v.depth ≤ depth
  · rw [if_pos hdeep] at hv ⊢
    simp only [hv, hcomma]
  · rw [if_neg hdeep] at hv ⊢
    simp only [hv]

/-- The last member, with the brace after it. -/
theorem readMembers_last {cs rest : List Char} (hclose : skipBlank tail = '\x7d' :: rest)
    {level : Nat} {key : String} (hexact : v.IsExact)
    (hcs : skipBlank cs = stringText key ++ ':' :: (s.afterColon ++ (s.chars level v ++ tail)))
    (depth fuel : Nat) (read : List (String × Json)) :
    readMembers (readValue depth) (fuel + 1) read cs
      = if v.depth ≤ depth then some (((key, v) :: read).reverse, rest) else none := by
  have hv := hback depth level tail htail
  have hcolon : skipBlank (':' :: (s.afterColon ++ (s.chars level v ++ tail)))
      = ':' :: (s.afterColon ++ (s.chars level v ++ tail)) :=
    skipBlank_of_not_blank (by decide) _
  have hvalue : skipBlank (s.afterColon ++ (s.chars level v ++ tail))
      = s.chars level v ++ tail := by
    rw [skipBlank_of_blank s.afterColon_blank, s.skipBlank_chars level hexact]
  rw [stringText_append] at hcs
  rw [readMembers]
  simp only [hcs, readStringBody_stringText, hcolon, hvalue]
  by_cases hdeep : v.depth ≤ depth
  · rw [if_pos hdeep] at hv ⊢
    simp only [hv, hclose]
  · rw [if_neg hdeep] at hv ⊢
    simp only [hv]

end Steps

/-- Items are read one after another; the first one that nests too deep ends the reading. -/
theorem readItems_moreItems {v : Json} {items : List Json}
    (hback : ∀ w ∈ v :: items, w.IsExact ∧ s.ReadsBack w) {fuel : Nat} (hfuel : items.length < fuel)
    (depth level : Nat) (read : List Json) {cs rest : List Char}
    (hcs : skipBlank cs = s.chars level v ++ (s.moreItems level items ++ rest)) :
    readItems (readValue depth) fuel read cs
      = if max v.depth (depthItems items) ≤ depth then some (read.reverse ++ v :: items, rest)
        else none := by
  induction items generalizing v fuel read cs with
  | nil =>
    obtain ⟨fuel, rfl⟩ : ∃ k, fuel = k + 1 := ⟨fuel - 1, by omega⟩
    have hclose : skipBlank (s.moreItems level [] ++ rest) = ']' :: rest := by
      rw [moreItems, List.append_assoc, skipBlank_of_blank (s.gap_blank _)]
      exact skipBlank_of_not_blank (by decide) rest
    rw [readItems_last (hback v List.mem_cons_self).2 (s.endsNumber_moreItems level [] rest)
      hclose hcs, depthItems, Nat.max_zero, List.reverse_cons]
  | cons w items ih =>
    -- the item before, then the comma, the gap and the next item
    obtain ⟨fuel, rfl⟩ : ∃ k, fuel = k + 1 := ⟨fuel - 1, by omega⟩
    have hw : w.IsExact := (hback w (List.mem_cons_of_mem v List.mem_cons_self)).1
    have hcomma : skipBlank (s.moreItems level (w :: items) ++ rest)
        = ',' :: (s.gap level ++ (s.chars level w ++ (s.moreItems level items ++ rest))) := by
      rw [moreItems]
      simp only [List.cons_append, List.append_assoc]
      exact skipBlank_of_not_blank (by decide) _
    have htail : skipBlank (s.gap level ++ (s.chars level w ++ (s.moreItems level items ++ rest)))
        = s.chars level w ++ (s.moreItems level items ++ rest) := by
      rw [skipBlank_of_blank (s.gap_blank level), s.skipBlank_chars level hw]
    rw [readItems_next (hback v List.mem_cons_self).2 (s.endsNumber_moreItems level _ rest)
      hcomma hcs, ih (fun u hu => hback u (List.mem_cons_of_mem v hu)) (by simpa using hfuel) _
      htail, depthItems]
    -- both the item and the ones after it have to nest within the limit
    rw [ite_le_ite_le]
    simp

/-- Members are read one after another, in the same way. -/
theorem readMembers_moreMembers {e : String × Json} {members : List (String × Json)}
    (hback : ∀ d ∈ e :: members, d.2.IsExact ∧ s.ReadsBack d.2) {fuel : Nat}
    (hfuel : members.length < fuel) (depth level : Nat) (read : List (String × Json))
    {cs rest : List Char}
    (hcs : skipBlank cs = stringText e.1
      ++ ':' :: (s.afterColon ++ (s.chars level e.2 ++ (s.moreMembers level members ++ rest)))) :
    readMembers (readValue depth) fuel read cs
      = if max e.2.depth (depthMembers members) ≤ depth
        then some (read.reverse ++ e :: members, rest) else none := by
  induction members generalizing e fuel read cs with
  | nil =>
    obtain ⟨fuel, rfl⟩ : ∃ k, fuel = k + 1 := ⟨fuel - 1, by omega⟩
    obtain ⟨hexact, hreads⟩ := hback e List.mem_cons_self
    have hclose : skipBlank (s.moreMembers level [] ++ rest) = '\x7d' :: rest := by
      rw [moreMembers, List.append_assoc, skipBlank_of_blank (s.gap_blank _)]
      exact skipBlank_of_not_blank (by decide) rest
    rw [readMembers_last hreads (s.endsNumber_moreMembers level [] rest) hclose hexact hcs,
      depthMembers, Nat.max_zero, List.reverse_cons]
  | cons d members ih =>
    obtain ⟨fuel, rfl⟩ : ∃ k, fuel = k + 1 := ⟨fuel - 1, by omega⟩
    obtain ⟨hexact, hreads⟩ := hback e List.mem_cons_self
    have hcomma : skipBlank (s.moreMembers level (d :: members) ++ rest)
        = ',' :: (s.gap level ++ (stringText d.1
          ++ ':' :: (s.afterColon ++ (s.chars level d.2
            ++ (s.moreMembers level members ++ rest))))) := by
      rw [moreMembers]
      simp only [List.cons_append, List.append_assoc]
      exact skipBlank_of_not_blank (by decide) _
    have htail : skipBlank (s.gap level ++ (stringText d.1
          ++ ':' :: (s.afterColon ++ (s.chars level d.2 ++ (s.moreMembers level members ++ rest)))))
        = stringText d.1
          ++ ':' :: (s.afterColon ++ (s.chars level d.2
            ++ (s.moreMembers level members ++ rest))) := by
      rw [skipBlank_of_blank (s.gap_blank level), stringText_append]
      exact skipBlank_of_not_blank (by decide) _
    rw [readMembers_next hreads (s.endsNumber_moreMembers level _ rest) hcomma hexact hcs,
      ih (fun u hu => hback u (List.mem_cons_of_mem e hu)) (by simpa using hfuel) _ htail,
      depthMembers]
    rw [ite_le_ite_le]
    simp

/-- The items of an exact array are exact. -/
theorem isExact_of_mem_arr {items : List Json} (h : (Json.arr items).IsExact) {v : Json}
    (hv : v ∈ items) : v.IsExact :=
  fun n hn => h n (mem_numbers_arr.mpr ⟨v, hv, hn⟩)

/-- The values of an exact object are exact. -/
theorem isExact_of_mem_obj {members : List (String × Json)} (h : (Json.obj members).IsExact)
    {e : String × Json} (he : e ∈ members) : e.2.IsExact :=
  fun n hn => h n (mem_numbers_obj.mpr ⟨e, he, hn⟩)

/-- An array that is not empty is read by its items. -/
theorem readValue_arr (s : Layout) {level : Nat} {v : Json} (hv : v.IsExact) {cs tail : List Char}
    (hcs : skipBlank cs = s.chars level v ++ tail) (depth : Nat) :
    readValue (depth + 1) ('[' :: cs)
      = (readItems (readValue depth) (s.chars level v ++ tail).length []
          (s.chars level v ++ tail)).map fun r => (.arr r.1, r.2) := by
  obtain ⟨c, rest, hhead, hc⟩ := s.exists_head_chars level hv
  rw [readValue, hcs, hhead, List.cons_append]
  split
  next heq => exact absurd (List.cons.inj heq).1 hc.2.1
  next => rfl

/-- An object that is not empty is read by its members. -/
theorem readValue_obj {key : String} {cs tail : List Char}
    (hcs : skipBlank cs = stringText key ++ tail) (depth : Nat) :
    readValue (depth + 1) ('\x7b' :: cs)
      = (readMembers (readValue depth) (stringText key ++ tail).length []
          (stringText key ++ tail)).map fun r => (.obj r.1, r.2) := by
  rw [readValue, hcs, stringText_append]
  split
  next heq => simp at heq
  next => rfl

/-- An array is read again if its items are. -/
theorem readsBack_arr {items : List Json} (hitems : ∀ v ∈ items, v.IsExact ∧ s.ReadsBack v) :
    s.ReadsBack (.arr items) := by
  intro depth level rest _
  cases items with
  | nil =>
    rw [chars, allItems, Json.depth, depthItems]
    cases depth with
    -- at the limit no array is read, not even an empty one
    | zero => rfl
    | succ depth =>
      rw [List.cons_append, readValue]
      simp [skipBlank_of_not_blank (show isBlank ']' = false by decide)]
  | cons v items =>
    rw [chars, allItems, Json.depth, depthItems]
    cases depth with
    | zero => rfl
    | succ depth =>
      have hv : v.IsExact := (hitems v List.mem_cons_self).1
      have hfirst : skipBlank (s.gap (level + 1)
            ++ (s.chars (level + 1) v ++ (s.moreItems (level + 1) items ++ rest)))
          = s.chars (level + 1) v ++ (s.moreItems (level + 1) items ++ rest) := by
        rw [skipBlank_of_blank (s.gap_blank _), s.skipBlank_chars _ hv]
      -- the reader takes the length of the text for fuel
      have hfuel : items.length
          < (s.chars (level + 1) v ++ (s.moreItems (level + 1) items ++ rest)).length := by
        have hmore := s.length_moreItems (level + 1) items
        simp only [List.length_append]
        omega
      simp only [List.cons_append, List.append_assoc]
      rw [s.readValue_arr hv hfirst,
        s.readItems_moreItems hitems hfuel depth (level + 1) [] (s.skipBlank_chars _ hv _)]
      by_cases hdeep : max v.depth (depthItems items) ≤ depth
      · simp [hdeep]
      · simp [hdeep]

/-- An object is read again if its members are. -/
theorem readsBack_obj {members : List (String × Json)}
    (hmembers : ∀ e ∈ members, e.2.IsExact ∧ s.ReadsBack e.2) : s.ReadsBack (.obj members) := by
  intro depth level rest _
  cases members with
  | nil =>
    rw [chars, allMembers, Json.depth, depthMembers]
    cases depth with
    | zero => rfl
    | succ depth =>
      rw [List.cons_append, readValue]
      simp [skipBlank_of_not_blank (show isBlank '\x7d' = false by decide)]
  | cons e members =>
    obtain ⟨key, v⟩ := e
    rw [chars, allMembers, Json.depth, depthMembers]
    cases depth with
    | zero => rfl
    | succ depth =>
      -- what follows the first key is of no interest until it is read
      generalize hbody : ':' :: (s.afterColon ++ (s.chars (level + 1) v
        ++ (s.moreMembers (level + 1) members ++ rest))) = body
      have hquote : skipBlank (stringText key ++ body) = stringText key ++ body := by
        rw [stringText_append]
        exact skipBlank_of_not_blank (by decide) _
      have hfirst : skipBlank (s.gap (level + 1) ++ (stringText key ++ body))
          = stringText key ++ body := by
        rw [skipBlank_of_blank (s.gap_blank _), hquote]
      have hfuel : members.length < (stringText key ++ body).length := by
        have hmore := s.length_moreMembers (level + 1) members
        rw [← hbody]
        simp only [List.length_append, List.length_cons]
        omega
      have hcs : skipBlank (stringText key ++ body)
          = stringText key ++ ':' :: (s.afterColon ++ (s.chars (level + 1) v
            ++ (s.moreMembers (level + 1) members ++ rest))) := by
        rw [hquote, hbody]
      simp only [List.cons_append, List.append_assoc]
      rw [hbody, readValue_obj hfirst,
        s.readMembers_moreMembers hmembers hfuel depth (level + 1) [] hcs]
      by_cases hdeep : max v.depth (depthMembers members) ≤ depth
      · simp [hdeep]
      · simp [hdeep]

/-- In a text of any layout the reader finds the value. -/
theorem readValue_chars {v : Json} (h : v.IsExact) : s.ReadsBack v := by
  induction v using induct with
  | null =>
    intro depth level rest _
    rw [chars, Json.depth, if_pos (Nat.zero_le depth)]
    show readValue depth ('n' :: 'u' :: 'l' :: 'l' :: rest) = _
    rw [readValue]
  | bool b =>
    intro depth level rest _
    rw [Json.depth, if_pos (Nat.zero_le depth)]
    cases b
    · rw [chars]
      show readValue depth ('f' :: 'a' :: 'l' :: 's' :: 'e' :: rest) = _
      rw [readValue]
    · rw [chars]
      show readValue depth ('t' :: 'r' :: 'u' :: 'e' :: rest) = _
      rw [readValue]
  | num n =>
    intro depth level rest hrest
    rw [chars, Json.depth, if_pos (Nat.zero_le depth)]
    exact readValue_number (h n (by simp [numbers])) hrest depth
  | str text =>
    intro depth level rest _
    rw [chars, Json.depth, if_pos (Nat.zero_le depth), stringText_append, readValue,
      readStringBody_stringText]
    rfl
  | arr items ih =>
    exact s.readsBack_arr fun v hv => ⟨isExact_of_mem_arr h hv, ih v hv (isExact_of_mem_arr h hv)⟩
  | obj members ih =>
    exact s.readsBack_obj fun e he => ⟨isExact_of_mem_obj h he, ih e he (isExact_of_mem_obj h he)⟩

end Layout

/-! ## Texts -/

/-- Nothing but the text of the value is there, so the reader ends where it should. -/
theorem readChars?_chars (s : Layout) {v : Json} (h : v.IsExact) :
    readChars? (s.chars 0 v) = if v.depth ≤ maxDepth then some v else none := by
  have hread := s.readValue_chars h maxDepth 0 [] endsNumber_nil
  have hskip := s.skipBlank_chars 0 h []
  rw [List.append_nil] at hread hskip
  unfold readChars?
  rw [hskip, hread]
  by_cases hdeep : v.depth ≤ maxDepth
  · simp [hdeep, skipBlank]
  · simp [hdeep]

/-- The text on one line is read again if the value nests within the limit. -/
theorem read?_compact {v : Json} (h : v.IsExact) :
    read? v.compact = if v.depth ≤ maxDepth then some v else none := by
  unfold read? compact
  rw [String.toList_ofList, ← Layout.chars_oneLine v 0]
  exact readChars?_chars .oneLine h

/-- The text over several lines is read again under the same condition. -/
theorem read?_pretty {v : Json} (h : v.IsExact) :
    read? v.pretty = if v.depth ≤ maxDepth then some v else none := by
  unfold read? pretty
  rw [String.toList_ofList, ← Layout.chars_manyLines v 0]
  exact readChars?_chars .manyLines h

-- a floating point number is scaled by rounded steps, and may come back as a neighbour of itself
example : (read? "10e-24").map compact = some "1e-23"
    ∧ (read? "1e-23").map compact = some "1.0000000000000001e-23" := by
  decide +kernel

/-! ## Numbers that are read -/

/-- Digits are added only as long as 64 bits hold the number. -/
theorem addDigits_le {start : Nat} (h : start ≤ Text.maxUnsigned) (added : Nat) (ds : List Char) :
    (addDigits start added ds).1 ≤ Text.maxUnsigned := by
  induction ds generalizing start added with
  | nil => exact h
  | cons c ds ih =>
    unfold addDigits
    simp only
    split
    next hnext => exact ih hnext _
    next => exact h

/--
A number that is put together from its parts is a floating point number, and all of these fit.
-/
theorem fits_of_ofParts {negative : Bool} {significand : Nat} {e : Int} {n : Number}
    (h : ofParts negative significand e = some n) : n.Fits := by
  unfold ofParts at h
  obtain ⟨x, -, h⟩ := Option.bind_eq_some_iff.mp h
  rw [← Option.some.inj h]
  trivial

theorem fits_of_map_ofParts {negative : Bool} {significand : Nat} {e : Int} {rest : List Char}
    {r : Number × List Char} (h : (ofParts negative significand e).map (·, rest) = some r) :
    r.1.Fits := by
  obtain ⟨n, hn, rfl⟩ := Option.map_eq_some_iff.mp h
  exact fits_of_ofParts hn

/-- A number with an exponent fits. -/
theorem fits_of_readExponent {negative : Bool} {significand : Nat} {e : Int} {cs : List Char}
    {r : Number × List Char} (h : readExponent negative significand e cs = some r) : r.1.Fits := by
  unfold readExponent at h
  cases cs with
  | nil => exact fits_of_map_ofParts h
  | cons c rest =>
    simp only at h
    split at h
    · -- whatever the sign is, what comes out is a floating point number
      split at h
      all_goals
        split at h
        · cases h
        · split at h
          · split at h
            · cases h
            · rw [← Option.some.inj h]
              trivial
          · exact fits_of_map_ofParts h
    · exact fits_of_map_ofParts h

/-- An integer that 64 bits hold without a sign fits, or is read as a floating point number. -/
theorem fits_of_integer {negative : Bool} {n : Nat} (hn : n ≤ Text.maxUnsigned) {k : Number}
    (h : integer negative n = some k) : k.Fits := by
  unfold integer at h
  split at h
  · rw [← Option.some.inj h]
    unfold Number.Fits Text.maxSigned Text.maxUnsigned at *
    omega
  · split at h
    next hcond =>
      rw [← Option.some.inj h]
      simp only [Bool.and_eq_true, decide_eq_true_eq] at hcond
      unfold Number.Fits Text.maxSigned Text.maxUnsigned at *
      omega
    · exact fits_of_ofParts h

/-- A number fits, whatever it is read as. -/
theorem fits_of_readUnsigned {negative : Bool} {cs : List Char} {r : Number × List Char}
    (h : readUnsigned negative cs = some r) : r.1.Fits := by
  unfold readUnsigned at h
  simp only at h
  split at h
  · cases h
  · split at h
    · cases h
    · have hsize : (addDigits 0 0 (cs.takeWhile Text.isAsciiDigit)).1 ≤ Text.maxUnsigned :=
        addDigits_le (Nat.zero_le _) 0 _
      have hint : ∀ {rest : List Char},
          ((integer negative (addDigits 0 0 (cs.takeWhile Text.isAsciiDigit)).1).map (·, rest))
            = some r → r.1.Fits := by
        intro rest h
        obtain ⟨n, hn, rfl⟩ := Option.map_eq_some_iff.mp h
        exact fits_of_integer hsize hn
      split at h
      · split at h
        · cases h
        · exact fits_of_readExponent h
      · split at h
        · exact fits_of_readExponent h
        · split at h
          · exact hint h
          · exact fits_of_map_ofParts h
      · split at h
        · exact hint h
        · exact fits_of_map_ofParts h

/-- What holds of every value that is read holds of all items. -/
theorem forall_of_readItems {P : Json → Prop} {value : ValueReader}
    (hvalue : ∀ {cs v rest}, value cs = some (v, rest) → P v) {fuel : Nat} {read : List Json}
    (hread : ∀ v ∈ read, P v) {cs : List Char} {items : List Json} {rest : List Char}
    (h : readItems value fuel read cs = some (items, rest)) : ∀ v ∈ items, P v := by
  induction fuel generalizing read cs with
  | zero => cases h
  | succ fuel ih =>
    rw [readItems] at h
    split at h
    · cases h
    next v tail hv =>
      have hread' : ∀ w ∈ v :: read, P w := by
        intro w hw
        rcases List.mem_cons.mp hw with rfl | hw
        · exact hvalue hv
        · exact hread w hw
      split at h
      · exact ih hread' h
      · obtain ⟨rfl, -⟩ := Prod.mk.inj (Option.some.inj h)
        exact fun w hw => hread' w (List.mem_reverse.mp hw)
      · cases h

/-- What holds of every value that is read holds of all members. -/
theorem forall_of_readMembers {P : Json → Prop} {value : ValueReader}
    (hvalue : ∀ {cs v rest}, value cs = some (v, rest) → P v) {fuel : Nat}
    {read : List (String × Json)} (hread : ∀ e ∈ read, P e.2) {cs : List Char}
    {members : List (String × Json)} {rest : List Char}
    (h : readMembers value fuel read cs = some (members, rest)) : ∀ e ∈ members, P e.2 := by
  induction fuel generalizing read cs with
  | zero => cases h
  | succ fuel ih =>
    rw [readMembers] at h
    split at h
    · split at h
      · cases h
      next key _ _ =>
        split at h
        · split at h
          · cases h
          next v tail hv =>
            have hread' : ∀ e ∈ (key, v) :: read, P e.2 := by
              intro e he
              rcases List.mem_cons.mp he with rfl | he
              · exact hvalue hv
              · exact hread e he
            split at h
            · exact ih hread' h
            · obtain ⟨rfl, -⟩ := Prod.mk.inj (Option.some.inj h)
              exact fun e he => hread' e (List.mem_reverse.mp he)
            · cases h
        · cases h
    · cases h

/-- Every number of a value that is read fits. -/
theorem fits_of_readValue {depth : Nat} {cs rest : List Char} {v : Json}
    (h : readValue depth cs = some (v, rest)) : ∀ n ∈ v.numbers, n.Fits := by
  induction depth using Nat.strongRecOn generalizing cs rest v with
  | _ depth ih =>
    have hnumber : ∀ {negative : Bool} {cs : List Char},
        ((readUnsigned negative cs).map fun r => (Json.num r.1, r.2)) = some (v, rest) →
        ∀ n ∈ v.numbers, n.Fits := by
      intro negative cs h n hn
      obtain ⟨r, hr, heq⟩ := Option.map_eq_some_iff.mp h
      rw [← (Prod.mk.inj heq).1, numbers, List.mem_singleton] at hn
      rw [hn]
      exact fits_of_readUnsigned hr
    have hplain : ∀ {w : Json} {r : List Char}, w.numbers = [] → some (w, r) = some (v, rest) →
        ∀ n ∈ v.numbers, n.Fits := by
      intro w r hw h n hn
      rw [← (Prod.mk.inj (Option.some.inj h)).1, hw] at hn
      cases hn
    -- one case for each way a value can start
    unfold readValue at h
    split at h
    · split at h
      · cases h
      next depth =>
        split at h
        · exact hplain (by rw [numbers, numbersOfItems]) h
        · obtain ⟨r, hr, heq⟩ := Option.map_eq_some_iff.mp h
          intro n hn
          rw [← (Prod.mk.inj heq).1, mem_numbers_arr] at hn
          obtain ⟨w, hw, hn⟩ := hn
          exact forall_of_readItems (P := fun w => ∀ n ∈ w.numbers, n.Fits)
            (ih depth (Nat.lt_succ_self depth)) (by simp) hr w hw n hn
    · split at h
      · cases h
      next depth =>
        split at h
        · exact hplain (by rw [numbers, numbersOfMembers]) h
        · obtain ⟨r, hr, heq⟩ := Option.map_eq_some_iff.mp h
          intro n hn
          rw [← (Prod.mk.inj heq).1, mem_numbers_obj] at hn
          obtain ⟨e, he, hn⟩ := hn
          exact forall_of_readMembers (P := fun w => ∀ n ∈ w.numbers, n.Fits)
            (ih depth (Nat.lt_succ_self depth)) (by simp) hr e he n hn
    · obtain ⟨r, -, heq⟩ := Option.map_eq_some_iff.mp h
      exact hplain (w := .str r.1) (by rw [numbers]) (congrArg some heq)
    · exact hnumber h
    · exact hplain (by rw [numbers]) h
    · exact hplain (by rw [numbers]) h
    · exact hplain (by rw [numbers]) h
    · exact hnumber h

/-- Every number of a value that is read from a text fits. -/
theorem fits_of_read? {text : String} {v : Json} (h : read? text = some v) :
    ∀ n ∈ v.numbers, n.Fits := by
  unfold read? readChars? at h
  split at h
  next hread =>
    split at h
    · rw [← Option.some.inj h]
      exact fits_of_readValue hread
    · cases h
  · cases h

end SourceAtlas.Json
