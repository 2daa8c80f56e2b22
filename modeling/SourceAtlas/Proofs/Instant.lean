import SourceAtlas.Instant
import SourceAtlas.Proofs.Text.Digits
import Mathlib.Data.List.TakeWhile

/-!
# Points in time: what is written is read again

A valid point in time is one that a calendar and a clock can show. Its text gives it back
(`read?_toText`), and whatever text a point in time is read from, it is a valid one
(`isValid_of_read?`): the offset moves the day to a neighbour at most, and neighbours of a day of
the calendar are days of the calendar.
-/

namespace SourceAtlas

/-! ## Days -/

namespace Day

/-- The months count from one to twelve, and the days from one to the length of the month. -/
theorem isValid_iff {d : Day} :
    d.isValid = true
      ↔ (1 ≤ d.month ∧ d.month ≤ 12) ∧ 1 ≤ d.day ∧ d.day ≤ daysIn d.year d.month := by
  simp only [isValid, Bool.and_eq_true, decide_eq_true_eq]
  omega

/-- Every month has 28 to 31 days. -/
theorem daysIn_bounds (year : Int) (month : Nat) :
    28 ≤ daysIn year month ∧ daysIn year month ≤ 31 := by
  unfold daysIn
  repeat' split
  all_goals omega

/-- The day after a day of the calendar is one. -/
theorem isValid_next {d : Day} (h : d.isValid = true) : d.next.isValid = true := by
  rw [isValid_iff] at h
  unfold next
  split
  · rw [isValid_iff]
    simp only
    omega
  · split
    · -- the first of the next month
      have hdays := daysIn_bounds d.year (d.month + 1)
      rw [isValid_iff]
      simp only
      omega
    · -- the first of the next year
      have hdays := daysIn_bounds (d.year + 1) 1
      rw [isValid_iff]
      simp only
      omega

/-- The day before a day of the calendar is one. -/
theorem isValid_previous {d : Day} (h : d.isValid = true) : d.previous.isValid = true := by
  rw [isValid_iff] at h
  unfold previous
  split
  · rw [isValid_iff]
    simp only
    omega
  · split
    · -- the last of the month before
      have hdays := daysIn_bounds d.year (d.month - 1)
      rw [isValid_iff]
      simp only
      omega
    · have hdecember : daysIn (d.year - 1) 12 = 31 := rfl
      rw [isValid_iff]
      simp only
      omega

end Day

namespace Instant

/-- A day of the calendar in a year that can be represented, at a time that a clock can show. -/
structure IsValid (t : Instant) : Prop where
  day : t.day.isValid = true
  year : isYear t.day.year = true
  hour : t.hour < 24
  minute : t.minute < 60
  second : t.second ≤ 60
  nanos : t.nanos < 1000000000

/-! ## Numbers with a width -/

/-- A number with a width is made of digits. -/
theorem isAsciiDigit_of_mem_padded {width n : Nat} {c : Char} (h : c ∈ padded width n) :
    Text.isAsciiDigit c = true := by
  unfold padded at h
  rcases List.mem_append.mp h with h | h
  · rw [List.eq_of_mem_replicate h]
    decide
  · exact Text.isAsciiDigit_of_mem_toDigits h

/-- Zeros in front do not change a number. -/
theorem natOf_padded (width n : Nat) : Text.natOf 10 (padded width n) = n := by
  have hdigits : ∀ c ∈ padded width n, Text.isAsciiDigit c = true :=
    fun c => isAsciiDigit_of_mem_padded
  unfold Text.natOf
  rw [Text.foldl_digitValue hdigits]
  unfold padded
  simp only
  rw [Nat.ofDigitChars_append, Nat.ofDigitChars_replicate_zero, Nat.mul_zero,
    Nat.ofDigitChars_ten_toDigits]

/-- A number that fits its width has that width. -/
theorem length_padded {width n : Nat} (hwidth : 0 < width) (hn : n < Nat.pow 10 width) :
    (padded width n).length = width := by
  have hle := (Nat.length_toDigits_le_iff (b := 10) (n := n) (by decide) hwidth).mpr hn
  simp only [padded, List.length_append, List.length_replicate]
  omega

/-- Even a number without a width has a digit. -/
theorem padded_ne_nil (width n : Nat) : padded width n ≠ [] := by
  intro h
  have hdigits := (List.append_eq_nil_iff.mp h).2
  exact Nat.toDigits_ne_nil hdigits

/-- Digits are no blanks. -/
theorem isWhitespace_of_digit {c : Char} (h : Text.isAsciiDigit c = true) :
    Text.isWhitespace c = false := by
  have hall : ∀ n < 58, 48 ≤ n → Text.memBoundaries Text.whitespace n = false := by decide
  obtain ⟨hlow, hhigh⟩ := Text.isAsciiDigit_iff.mp h
  exact hall c.toNat (Nat.lt_succ_of_le hhigh) hlow

/-- Blanks are all that is skipped. -/
theorem skipSpace_of_not_space {c : Char} (h : Text.isWhitespace c = false) (cs : List Char) :
    skipSpace (c :: cs) = c :: cs := by
  unfold skipSpace
  rw [List.dropWhile_cons_of_neg (by simp [h])]

/-- Nothing is skipped before a number. -/
theorem skipSpace_padded (width n : Nat) (rest : List Char) :
    skipSpace (padded width n ++ rest) = padded width n ++ rest := by
  obtain ⟨c, cs, hcs⟩ := List.exists_cons_of_ne_nil (padded_ne_nil width n)
  have hdigit : Text.isAsciiDigit c = true :=
    isAsciiDigit_of_mem_padded (n := n) (by rw [hcs]; exact List.mem_cons_self)
  rw [hcs, List.cons_append]
  exact skipSpace_of_not_space (isWhitespace_of_digit hdigit) _

/-- A number that fits its width is read with that width, whatever follows. -/
theorem readNumber_padded {width n : Nat} (hwidth : 0 < width) (hn : n < Nat.pow 10 width)
    (rest : List Char) : readNumber width (padded width n ++ rest) = some (n, rest) := by
  have hlength := length_padded hwidth hn
  have htake : (padded width n ++ rest).take width = padded width n := by
    rw [List.take_append_of_le_length (by omega), List.take_of_length_le (by omega)]
  have hdigits : (padded width n).takeWhile Text.isAsciiDigit = padded width n := by
    rw [List.takeWhile_eq_self_iff]
    exact fun c => isAsciiDigit_of_mem_padded
  unfold readNumber
  simp only [skipSpace_padded, htake, hdigits, natOf_padded, hlength]
  rw [if_neg (by simp [padded_ne_nil]), List.drop_append_of_le_length (by omega),
    List.drop_of_length_le (by omega), List.nil_append]

/-- A mark is read where it stands. -/
theorem readMark_self {mark : Char} (h : Text.isWhitespace mark = false) (rest : List Char) :
    readMark mark (mark :: rest) = some rest := by
  unfold readMark
  rw [skipSpace_of_not_space h]
  simp

/-! ## Years -/

/-- The digits of a signed year are all taken. -/
theorem takeWhile_padded (width n : Nat) (rest : List Char) :
    (padded width n ++ '-' :: rest).takeWhile Text.isAsciiDigit = padded width n := by
  refine Text.takeWhile_digits (fun c => isAsciiDigit_of_mem_padded) ?_
  rintro ⟨c, hc, hdigit⟩
  rw [← Option.some.inj hc] at hdigit
  cases hdigit

/-- What follows a number is left. -/
theorem drop_padded (width n : Nat) (rest : List Char) :
    (padded width n ++ rest).drop (padded width n).length = rest :=
  List.drop_left

/-- A year is read again up to a dash, whether it has a sign or not. -/
theorem readYear_yearChars (year : Int) (rest : List Char) :
    readYear (yearChars year ++ '-' :: rest) = some (year, '-' :: rest) := by
  unfold yearChars
  split
  next hyear =>
    -- four digits without a sign
    have hsmall : year.toNat < 10000 := by omega
    have hread : readNumber 4 (padded 4 year.toNat ++ '-' :: rest)
        = some (year.toNat, '-' :: rest) :=
      readNumber_padded (by decide) hsmall _
    obtain ⟨c, cs, hcs⟩ := List.exists_cons_of_ne_nil (padded_ne_nil 4 year.toNat)
    have hdigit : Text.isAsciiDigit c = true :=
      isAsciiDigit_of_mem_padded (n := year.toNat) (by rw [hcs]; exact List.mem_cons_self)
    have hcast : ((year.toNat : Nat) : Int) = year := by omega
    unfold readYear
    rw [skipSpace_padded]
    rw [hcs, List.cons_append] at hread ⊢
    split
    -- a digit is no sign
    next heq =>
      rw [(List.cons.inj heq).1] at hdigit
      cases hdigit
    next heq =>
      rw [(List.cons.inj heq).1] at hdigit
      cases hdigit
    next =>
      rw [hread]
      simp [hcast]
  next hyear =>
    -- a sign, and as many digits as the year has
    have hcond : ¬ (padded 4 year.natAbs).isEmpty = true := by simp [padded_ne_nil]
    unfold readYear
    by_cases hneg : year < 0
    · have hcast : -((year.natAbs : Nat) : Int) = year := by omega
      rw [if_pos hneg, List.cons_append, skipSpace_of_not_space (by decide)]
      simp only [takeWhile_padded, natOf_padded, drop_padded, if_neg hcond, Option.map_some, hcast]
    · have hcast : ((year.natAbs : Nat) : Int) = year := by omega
      rw [if_neg hneg, List.cons_append, skipSpace_of_not_space (by decide)]
      simp only [takeWhile_padded, natOf_padded, drop_padded, if_neg hcond, Option.map_some, hcast]

/-! ## Fractions -/

/-- A fraction of up to nine digits is read by the place of its digits. -/
theorem readFraction_padded {width n : Nat} (hpos : 0 < width) (hwidth : width ≤ 9)
    (hn : n < Nat.pow 10 width) :
    readFraction ('.' :: padded width n ++ ['Z']) = some (n * Nat.pow 10 (9 - width), ['Z']) := by
  have hlength := length_padded hpos hn
  have hdigits : (padded width n ++ ['Z']).takeWhile Text.isAsciiDigit = padded width n := by
    refine Text.takeWhile_digits (fun c => isAsciiDigit_of_mem_padded) ?_
    rintro ⟨c, hc, hdigit⟩
    rw [← Option.some.inj hc] at hdigit
    cases hdigit
  have htake : (padded width n).take 9 = padded width n := List.take_of_length_le (by omega)
  have hcond : ¬ (padded width n).isEmpty = true := by simp [padded_ne_nil]
  unfold readFraction
  rw [List.cons_append]
  simp only [hdigits, htake, natOf_padded, drop_padded, if_neg hcond]
  rw [hlength]

/-- A fraction of three, six or nine digits is read again, and so is none. -/
theorem readFraction_fractionChars {nanos : Nat} (h : nanos < 1000000000) :
    readFraction (fractionChars nanos ++ ['Z']) = some (nanos, ['Z']) := by
  unfold fractionChars
  split
  next hzero =>
    rw [eq_of_beq hzero]
    rfl
  · split
    next hmillis =>
      -- the digits that are left out are zeros
      have hdiv : nanos % 1000000 = 0 := eq_of_beq hmillis
      have hn : nanos / 1000000 < 1000 := by omega
      rw [readFraction_padded (by decide) (by decide) hn]
      congr 2
      show nanos / 1000000 * 1000000 = nanos
      omega
    · split
      next hmicros =>
        have hdiv : nanos % 1000 = 0 := eq_of_beq hmicros
        have hn : nanos / 1000 < 1000000 := by omega
        rw [readFraction_padded (by decide) (by decide) hn]
        congr 2
        show nanos / 1000 * 1000 = nanos
        omega
      next =>
        rw [readFraction_padded (by decide) (by decide) h]
        congr 2
        exact Nat.mul_one nanos

/-! ## The whole text -/

/-- The date is read again. -/
theorem readDay_toChars {d : Day} (h : d.isValid = true) (rest : List Char) :
    readDay (yearChars d.year ++ '-' :: (padded 2 d.month ++ '-' :: (padded 2 d.day ++ rest)))
      = some (d, rest) := by
  have hbounds := Day.isValid_iff.mp h
  have hdays := Day.daysIn_bounds d.year d.month
  have hmonth : d.month < 100 := by omega
  have hday : d.day < 100 := by omega
  have hmark : ∀ rest, readMark '-' ('-' :: rest) = some rest := readMark_self (by decide)
  unfold readDay
  -- year, dash, month, dash and day are read in turn, each up to the next
  rw [readYear_yearChars]
  dsimp only [Option.bind_eq_bind, Option.bind_some]
  rw [hmark]
  dsimp only [Option.bind_some]
  rw [readNumber_padded (by decide) hmonth]
  dsimp only [Option.bind_some]
  rw [hmark]
  dsimp only [Option.bind_some]
  rw [readNumber_padded (by decide) hday]
  rfl

/-- The time of the day is read again, up to the zone. -/
theorem readClock_toChars {t : Instant} (h : t.IsValid) :
    readClock (padded 2 t.hour ++ ':' :: (padded 2 t.minute ++ ':' :: (padded 2 t.second
        ++ (fractionChars t.nanos ++ ['Z']))))
      = some (⟨t.hour, t.minute, t.second, t.nanos⟩, ['Z']) := by
  have hhour : t.hour < 100 := Nat.lt_trans h.hour (by decide)
  have hminute : t.minute < 100 := Nat.lt_trans h.minute (by decide)
  have hsecond : t.second < 100 := Nat.lt_of_le_of_lt h.second (by decide)
  have hmark : ∀ rest, readMark ':' (':' :: rest) = some rest := readMark_self (by decide)
  unfold readClock
  rw [readNumber_padded (by decide) hhour]
  dsimp only [Option.bind_eq_bind, Option.bind_some]
  rw [hmark]
  dsimp only [Option.bind_some]
  rw [readNumber_padded (by decide) hminute]
  dsimp only [Option.bind_some]
  rw [hmark]
  dsimp only [Option.bind_some]
  rw [readNumber_padded (by decide) hsecond]
  dsimp only [Option.bind_some]
  rw [readFraction_fractionChars h.nanos]
  dsimp only [Option.bind_some]
  rw [if_pos ⟨h.hour, h.minute, h.second⟩]
  rfl

/-- In universal time a clock shows the time of the day itself. -/
theorem ofLocal?_universal {t : Instant} (h : t.IsValid) :
    ofLocal? t.day ⟨t.hour, t.minute, t.second, t.nanos⟩ 0 = some t := by
  have hhour := h.hour
  have hminute := h.minute
  -- the minutes of a day stay within the day
  have hsame : (if (t.hour : Int) * 60 + t.minute - 0 < 0 then t.day.previous
      else if 1440 ≤ (t.hour : Int) * 60 + t.minute - 0 then t.day.next else t.day) = t.day := by
    rw [if_neg (by omega), if_neg (by omega)]
  have htotal : ((t.hour : Int) * 60 + t.minute - 0) % 1440 = t.hour * 60 + t.minute := by omega
  have hhours : ((t.hour : Int) * 60 + t.minute).toNat / 60 = t.hour := by omega
  have hminutes : ((t.hour : Int) * 60 + t.minute).toNat % 60 = t.minute := by omega
  unfold ofLocal?
  simp only
  rw [hsame, if_pos (by simp [h.day, h.year]), htotal, hhours, hminutes]

/-- A valid point in time is read again from its text. -/
theorem read?_toText {t : Instant} (h : t.IsValid) : read? t.toText = some t := by
  have hchars : t.toChars = yearChars t.day.year ++ '-' :: (padded 2 t.day.month
      ++ '-' :: (padded 2 t.day.day ++ 'T' :: (padded 2 t.hour ++ ':' :: (padded 2 t.minute
        ++ ':' :: (padded 2 t.second ++ (fractionChars t.nanos ++ ['Z'])))))) := by
    simp [toChars]
  unfold read? toText
  rw [String.toList_ofList, hchars]
  unfold readChars?
  rw [readDay_toChars h.day]
  dsimp only [Option.bind_eq_bind, Option.bind_some]
  rw [if_pos (by decide), readClock_toChars h]
  exact ofLocal?_universal h

/-! ## What is read -/

/-- A number is below the power of ten that its digits allow. -/
theorem natOf_lt {ds : List Char} (h : ∀ c ∈ ds, Text.isAsciiDigit c = true) :
    Text.natOf 10 ds < Nat.pow 10 ds.length := by
  -- a start that is carried along makes the statement inductive
  have hgeneral : ∀ start, ds.foldl (fun n c => n * 10 + Text.digitValue c) start
      < (start + 1) * Nat.pow 10 ds.length := by
    induction ds with
    | nil =>
      intro start
      show start < (start + 1) * 1
      omega
    | cons c ds ih =>
      intro start
      have hdigit := h c List.mem_cons_self
      have hbounds := Text.isAsciiDigit_iff.mp hdigit
      have hvalue : Text.digitValue c ≤ 9 := by
        have hhigh : c.toNat ≤ 57 := hbounds.2
        rw [Text.digitValue_of_isAsciiDigit hdigit]
        omega
      have hrest := ih (fun d hd => h d (List.mem_cons_of_mem c hd))
        (start * 10 + Text.digitValue c)
      calc _ < (start * 10 + Text.digitValue c + 1) * Nat.pow 10 ds.length := hrest
        _ ≤ (start + 1) * 10 * Nat.pow 10 ds.length := Nat.mul_le_mul_right _ (by omega)
        _ = (start + 1) * (Nat.pow 10 ds.length * 10) := by rw [Nat.mul_assoc, Nat.mul_comm 10]
  have hzero := hgeneral 0
  rwa [Nat.zero_add, Nat.one_mul] at hzero

/-- Nine digits at most are taken, so a fraction is less than a second. -/
theorem nanos_of_readFraction {cs : List Char} {r : Nat × List Char}
    (h : readFraction cs = some r) : r.1 < 1000000000 := by
  unfold readFraction at h
  split at h
  next rest =>
    simp only at h
    split at h
    · cases h
    · rw [← Option.some.inj h]
      show Text.natOf 10 ((rest.takeWhile Text.isAsciiDigit).take 9)
        * Nat.pow 10 (9 - ((rest.takeWhile Text.isAsciiDigit).take 9).length) < 1000000000
      have hdigits : ∀ c ∈ (rest.takeWhile Text.isAsciiDigit).take 9, Text.isAsciiDigit c = true :=
        fun c hc => List.mem_takeWhile_imp (List.mem_of_mem_take hc)
      have hlength : ((rest.takeWhile Text.isAsciiDigit).take 9).length ≤ 9 :=
        List.length_take_le 9 _
      generalize (rest.takeWhile Text.isAsciiDigit).take 9 = kept at hdigits hlength
      -- the digits that are missing count as zeros
      have hsplit := Nat.pow_add 10 kept.length (9 - kept.length)
      rw [Nat.add_sub_cancel' hlength] at hsplit
      calc Text.natOf 10 kept * Nat.pow 10 (9 - kept.length)
          < Nat.pow 10 kept.length * Nat.pow 10 (9 - kept.length) :=
            Nat.mul_lt_mul_of_pos_right (natOf_lt hdigits) (Nat.pow_pos (by decide))
        _ = 1000000000 := hsplit.symm
  next =>
    rw [← Option.some.inj h]
    show 0 < 1000000000
    decide

/-- The day of a point in time is the day of the clock or a neighbour of it. -/
theorem isValid_of_ofLocal? {day : Day} {clock : Clock} {offset : Int} {t : Instant}
    (hsecond : clock.second ≤ 60) (hnanos : clock.nanos < 1000000000)
    (h : ofLocal? day clock offset = some t) : t.IsValid := by
  unfold ofLocal? at h
  simp only at h
  generalize (clock.hour : Int) * 60 + clock.minute - offset = minutes at h
  -- an offset is less than a day, so it leads no further than to a neighbour
  have hnear : day.isValid = true → (if minutes < 0 then day.previous
      else if 1440 ≤ minutes then day.next else day).isValid = true := by
    intro hday
    split
    · exact Day.isValid_previous hday
    · split
      · exact Day.isValid_next hday
      · exact hday
  generalize (if minutes < 0 then day.previous
    else if 1440 ≤ minutes then day.next else day) = day' at h hnear
  split at h
  next hvalid =>
    simp only [Bool.and_eq_true] at hvalid
    obtain ⟨⟨hday, -⟩, hyear⟩ := hvalid
    rw [← Option.some.inj h]
    refine ⟨hnear hday, hyear, ?_, ?_, hsecond, hnanos⟩
    · show (minutes % 1440).toNat / 60 < 24
      omega
    · show (minutes % 1440).toNat % 60 < 60
      omega
  · cases h

/-- A clock that was read shows a second and a fraction that are valid. -/
theorem clock_of_readClock {cs : List Char} {r : Clock × List Char} (h : readClock cs = some r) :
    r.1.second ≤ 60 ∧ r.1.nanos < 1000000000 := by
  unfold readClock at h
  obtain ⟨hour, -, h⟩ := Option.bind_eq_some_iff.mp h
  obtain ⟨_, -, h⟩ := Option.bind_eq_some_iff.mp h
  obtain ⟨minute, -, h⟩ := Option.bind_eq_some_iff.mp h
  obtain ⟨_, -, h⟩ := Option.bind_eq_some_iff.mp h
  obtain ⟨second, -, h⟩ := Option.bind_eq_some_iff.mp h
  obtain ⟨nanos, hnanos, h⟩ := Option.bind_eq_some_iff.mp h
  dsimp only at h
  split at h
  next hclock =>
    rw [← Option.some.inj h]
    exact ⟨hclock.2.2, nanos_of_readFraction hnanos⟩
  · cases h

/-- Whatever text a point in time is read from, it is a valid one. -/
theorem isValid_of_read? {text : String} {t : Instant} (h : read? text = some t) : t.IsValid := by
  unfold read? readChars? at h
  obtain ⟨day, -, h⟩ := Option.bind_eq_some_iff.mp h
  dsimp only at h
  split at h
  · cases h
  · split at h
    · obtain ⟨clock, hclock, h⟩ := Option.bind_eq_some_iff.mp h
      obtain ⟨offset, -, h⟩ := Option.bind_eq_some_iff.mp h
      obtain ⟨hsecond, hnanos⟩ := clock_of_readClock hclock
      split at h
      · exact isValid_of_ofLocal? hsecond hnanos h
      · cases h
    · cases h

end Instant

end SourceAtlas
