import Mathlib.Data.List.TakeWhile
import SourceAtlas.Proofs.ByteOrder
import SourceAtlas.Text.CharClass
import SourceAtlas.Text.Utf8

/-!
# UTF-8: characters and their bytes

A character of ASCII is its one byte; every other character starts with a byte from 192 on, and goes
on with bytes from 128 on (`encodeChar_eq`, `high_of_mem_trail`). A reader that only asks for
characters of ASCII can therefore walk over bytes as it would over characters (`test_lead`).

`decode` reads bytes as text, with a replacement character for bytes that are none. On the form of a
text it gives that text back (`decode_encode_append`), and of a text that is cut within a character
it gives the text before and one replacement (`decode_cut`).
-/

namespace SourceAtlas.Chars

@[simp] theorem byteLength_nil : byteLength [] = 0 := rfl

@[simp] theorem byteLength_cons (c : Char) (cs : List Char) :
    byteLength (c :: cs) = c.utf8Size + byteLength cs := rfl

@[simp] theorem byteLength_append (cs ds : List Char) :
    byteLength (cs ++ ds) = byteLength cs + byteLength ds :=
  total_append Char.utf8Size cs ds

/-- Reading one more character moves the position on by its size. -/
theorem byteLength_concat (cs : List Char) (c : Char) :
    byteLength (cs ++ [c]) = byteLength cs + c.utf8Size := by
  rw [byteLength_append, byteLength_cons, byteLength_nil, Nat.add_zero]

end SourceAtlas.Chars

namespace SourceAtlas.Utf8

@[simp] theorem encode_nil : encode [] = [] := rfl

theorem encode_cons (c : Char) (cs : List Char) :
    encode (c :: cs) = String.utf8EncodeChar c ++ encode cs := rfl

@[simp] theorem encode_append (cs ds : List Char) : encode (cs ++ ds) = encode cs ++ encode ds :=
  List.flatMap_append

theorem encode_singleton (c : Char) : encode [c] = String.utf8EncodeChar c := by
  rw [encode_cons, encode_nil, List.append_nil]

/-- A text has as many bytes as the sizes of its characters add up to. -/
@[simp] theorem length_encode (cs : List Char) : (encode cs).length = Chars.byteLength cs := by
  induction cs with
  | nil => rfl
  | cons c cs ih =>
    rw [encode_cons, List.length_append, ih, String.length_utf8EncodeChar, Chars.byteLength_cons]

/-- The bytes of a text are the form of its characters. -/
theorem bytes_eq_encode (s : String) : Text.bytes s = encode s.toList :=
  Text.bytes_eq_flatMap s

/-- What the conversion of a byte array to a list has still to read follows what it has read. -/
theorem toList_loop (bs : ByteArray) (i : Nat) (read : List UInt8) :
    ByteArray.toList.loop bs i read = read.reverse ++ bs.data.toList.drop i := by
  fun_induction ByteArray.toList.loop bs i read with
  | case1 i read hi ih =>
    have hlt : i < bs.data.toList.length := hi
    -- the loop reads with a default, which is not needed below the size
    have hget : bs.get! i = bs.data.toList[i] := by
      show bs.data[i]! = _
      rw [getElem!_pos bs.data i hi, Array.getElem_toList]
    rw [ih, List.reverse_cons, List.append_assoc, List.singleton_append, hget,
      ← List.drop_eq_getElem_cons hlt]
  | case2 i read hi =>
    have hsize : bs.data.toList.length ≤ i := Nat.not_lt.mp hi
    rw [List.drop_eq_nil_of_le hsize, List.append_nil]

/-- The bytes that a text is stored as, in a list. -/
theorem toList_toUTF8 (s : String) : s.toUTF8.toList = Text.bytes s :=
  toList_loop s.toUTF8 0 []

/-! ### The bytes of one character -/

/-- The byte that a character starts with. -/
def lead (c : Char) : UInt8 :=
  (String.utf8EncodeChar c).headD 0

/-- The bytes of a character after the first. -/
def trail (c : Char) : List UInt8 :=
  (String.utf8EncodeChar c).tail

/-- Every character has a first byte. -/
theorem encodeChar_eq (c : Char) : String.utf8EncodeChar c = lead c :: trail c := by
  obtain ⟨byte, rest, h⟩ := List.exists_cons_of_ne_nil (String.utf8EncodeChar_ne_nil (c := c))
  rw [lead, trail, h]
  rfl

theorem length_trail (c : Char) : (trail c).length + 1 = c.utf8Size := by
  rw [← String.length_utf8EncodeChar, encodeChar_eq, List.length_cons]

/-- A character of ASCII is one byte long. -/
theorem size_of_toNat_lt {c : Char} (h : c.toNat < 128) : c.utf8Size = 1 :=
  Char.utf8Size_eq_one_iff.mpr (UInt32.le_iff_toNat_le.mpr (Nat.le_of_lt_succ h))

/-- A character of ASCII is the byte of its number. -/
theorem encodeChar_of_ascii {c : Char} (h : c.toNat < 128) :
    String.utf8EncodeChar c = [c.toUInt8] :=
  String.utf8EncodeChar_eq_singleton (size_of_toNat_lt h)

theorem trail_of_ascii {c : Char} (h : c.toNat < 128) : trail c = [] := by
  rw [trail, encodeChar_of_ascii h, List.tail_cons]

theorem lead_of_ascii {c : Char} (h : c.toNat < 128) : lead c = c.toUInt8 := by
  rw [lead, encodeChar_of_ascii h, List.headD_cons]

/-- The character of a byte has the number of the byte. -/
theorem toNat_ofUInt8 (b : UInt8) : (Char.ofUInt8 b).toNat = b.toNat := by
  show b.toUInt32.toNat = b.toNat
  exact UInt8.toNat_toUInt32 b

/-- On ASCII, bytes and characters correspond. -/
theorem ofUInt8_toUInt8 {c : Char} (h : c.toNat < 128) : Char.ofUInt8 c.toUInt8 = c := by
  apply Char.toNat_inj.mp
  rw [toNat_ofUInt8, Char.toUInt8, UInt32.toNat_toUInt8]
  exact Nat.mod_eq_of_lt (Nat.lt_trans h (by decide))

theorem toUInt8_inj {c d : Char} (hc : c.toNat < 128) (hd : d.toNat < 128)
    (h : c.toUInt8 = d.toUInt8) : c = d := by
  rw [← ofUInt8_toUInt8 hc, h, ofUInt8_toUInt8 hd]

/-- The bytes of a character outside ASCII are those from 128 on, the first from 192 on. -/
theorem high_bytes (c : Char) :
    (128 ≤ c.toNat → 192 ≤ (lead c).toNat) ∧ ∀ b ∈ trail c, 128 ≤ b.toNat := by
  rw [lead, trail]
  unfold String.utf8EncodeChar Char.toNat
  generalize c.val.toNat = v
  dsimp only
  -- one case for each length of the form, in which the bytes are explicit in `v`
  split_ifs
  all_goals
    simp only [List.headD_cons, List.tail_cons, List.mem_cons, List.not_mem_nil, or_false,
      forall_eq_or_imp, forall_eq, UInt8.toNat_ofNat', false_implies, implies_true, and_true]
    omega

theorem high_of_mem_trail {c : Char} {b : UInt8} (h : b ∈ trail c) : 128 ≤ b.toNat :=
  (high_bytes c).2 b h

/-- No byte of a character outside ASCII looks like one of ASCII. -/
theorem high_of_mem_encodeChar {c : Char} (hc : 128 ≤ c.toNat) {b : UInt8}
    (h : b ∈ String.utf8EncodeChar c) : 128 ≤ b.toNat := by
  rw [encodeChar_eq] at h
  rcases List.mem_cons.mp h with rfl | h
  · have hlead := (high_bytes c).1 hc
    omega
  · exact high_of_mem_trail h

/-! ### Tests for characters of ASCII -/

/-- A test that no character outside ASCII passes. -/
def AsciiOnly (p : Char → Bool) : Prop :=
  ∀ c, 128 ≤ c.toNat → p c = false

/-- To be a given character of ASCII is such a test. -/
theorem asciiOnly_beq {a : Char} (ha : a.toNat < 128) : AsciiOnly (· == a) := by
  intro c hc
  rw [beq_eq_false_iff_ne]
  rintro rfl
  omega

theorem beq_high {a d : Char} (ha : a.toNat < 128) (hd : 128 ≤ d.toNat) : (d == a) = false :=
  asciiOnly_beq ha d hd

/-- Such a test has the same outcome on a character and on the byte it starts with. -/
theorem test_lead {p : Char → Bool} (hp : AsciiOnly p) (c : Char) :
    p (Char.ofUInt8 (lead c)) = p c := by
  by_cases h : c.toNat < 128
  · rw [lead_of_ascii h, ofUInt8_toUInt8 h]
  · have hlead := (high_bytes c).1 (by omega)
    rw [hp c (by omega), hp _ (by rw [toNat_ofUInt8]; omega)]

/-- A byte is a given character of ASCII exactly if the character that starts with it is. -/
theorem lead_beq {a : Char} (ha : a.toNat < 128) (c : Char) :
    (Char.ofUInt8 (lead c) == a) = (c == a) :=
  test_lead (asciiOnly_beq ha) c

/-- What passes such a test is a character of ASCII. -/
theorem ascii_of_test {p : Char → Bool} (hp : AsciiOnly p) {c : Char} (h : p c = true) :
    c.toNat < 128 := by
  by_contra hc
  rw [hp c (Nat.not_lt.mp hc)] at h
  exact Bool.false_ne_true h

/-- Characters outside ASCII have no lower case here. -/
theorem asciiLower_high {c : Char} (hc : 128 ≤ c.toNat) : Chars.asciiLower c = c := by
  have hupper : ¬ (c ≤ 'Z') := by
    rw [Char.le_def, UInt32.le_iff_toNat_le]
    exact Nat.not_le.mpr (Nat.lt_of_lt_of_le (by decide) hc)
  rw [Chars.asciiLower, decide_eq_false hupper, Bool.and_false]
  rfl

theorem asciiOnly_whitespace : AsciiOnly Text.isAsciiWhitespace := by
  intro c hc
  simp only [Text.isAsciiWhitespace, beq_high _ hc, Char.reduceToNat, Nat.reduceLT, Bool.or_self]

/-- A test stays one of ASCII if case is set aside first. -/
theorem asciiOnly_lower {p : Char → Bool} (hp : AsciiOnly p) :
    AsciiOnly fun c => p (Chars.asciiLower c) := by
  intro c hc
  show p (Chars.asciiLower c) = false
  rw [asciiLower_high hc, hp c hc]

/-- The last byte of a character tells it apart as well as the first. -/
theorem encodeChar_last (c : Char) :
    ∃ init last, String.utf8EncodeChar c = init ++ [last] ∧ (c.toNat < 128 → init = []) ∧
      ∀ p, AsciiOnly p → p (Char.ofUInt8 last) = p c := by
  by_cases hc : c.toNat < 128
  · refine ⟨[], c.toUInt8, encodeChar_of_ascii hc, fun _ => rfl, fun p _ => ?_⟩
    rw [ofUInt8_toUInt8 hc]
  · rcases List.eq_nil_or_concat (trail c) with hnil | ⟨init, last, hlast⟩
    · -- the last byte is the first one
      exact ⟨[], lead c, by rw [encodeChar_eq, hnil]; rfl, fun _ => rfl, fun p hp => test_lead hp c⟩
    · refine ⟨lead c :: init, last, ?_, fun h => absurd h hc, fun p hp => ?_⟩
      · rw [encodeChar_eq, hlast, List.concat_eq_append, List.cons_append]
      · -- the last byte goes on with the character, so neither passes the test
        have hhigh : 128 ≤ last.toNat :=
          high_of_mem_trail (by rw [hlast, List.concat_eq_append]; exact List.mem_concat_self)
        rw [hp c (Nat.not_lt.mp hc), hp _ (by rw [toNat_ofUInt8]; exact hhigh)]

/-! ### Texts of ASCII -/

/-- Some characters of ASCII. -/
def Ascii (cs : List Char) : Prop :=
  ∀ c ∈ cs, c.toNat < 128

instance (cs : List Char) : Decidable (Ascii cs) :=
  List.decidableBAll (fun c : Char => c.toNat < 128) cs

/-- In a text of ASCII, bytes and characters are counted alike. -/
theorem Ascii.byteLength_eq {cs : List Char} (h : Ascii cs) : Chars.byteLength cs = cs.length := by
  induction cs with
  | nil => rfl
  | cons c cs ih =>
    rw [Chars.byteLength_cons, size_of_toNat_lt (h c (List.mem_cons_self ..)),
      ih fun d hd => h d (List.mem_cons_of_mem _ hd), List.length_cons, Nat.add_comm]

/-- What holds of the characters of the first 128 numbers holds of ASCII. -/
theorem of_ascii {motive : Char → Prop} (h : ∀ n < 128, motive (Char.ofNat n)) {c : Char}
    (hc : c.toNat < 128) : motive c := by
  rw [← Char.ofNat_toNat c]
  exact h c.toNat hc

theorem toNat_ofNat_lt {n : Nat} (hn : n < 128) : (Char.ofNat n).toNat < 128 := by
  have hall : ∀ n < 128, (Char.ofNat n).toNat < 128 := by decide
  exact hall n hn

/-- Lower case stays within ASCII. -/
theorem asciiLower_lt {c : Char} (hc : c.toNat < 128) : (Chars.asciiLower c).toNat < 128 := by
  rw [Chars.asciiLower]
  split
  · rename_i hupper
    rw [Bool.and_eq_true, decide_eq_true_eq, decide_eq_true_eq] at hupper
    have hle : c.toNat ≤ 90 := hupper.2
    exact toNat_ofNat_lt (by omega)
  · exact hc

theorem Ascii.map_lower {cs : List Char} (h : Ascii cs) : Ascii (cs.map Chars.asciiLower) := by
  intro c hc
  obtain ⟨d, hd, rfl⟩ := List.mem_map.mp hc
  exact asciiLower_lt (h d hd)

/-! ### Bytes as characters -/

/-- The bytes of some characters, each as the character of its number. -/
def latin (cs : List Char) : List Char :=
  (encode cs).map Char.ofUInt8

/-- The bytes of a text, the first of them set apart. -/
theorem latin_cons (c : Char) (cs : List Char) :
    latin (c :: cs) = Char.ofUInt8 (lead c) :: ((trail c).map Char.ofUInt8 ++ latin cs) := by
  rw [latin, encode_cons, encodeChar_eq, List.cons_append, List.map_cons, List.map_append]
  rfl

theorem latin_cons_ascii {c : Char} (hc : c.toNat < 128) (cs : List Char) :
    latin (c :: cs) = c :: latin cs := by
  rw [latin_cons, trail_of_ascii hc, lead_of_ascii hc, ofUInt8_toUInt8 hc]
  rfl

/-- A test for characters of ASCII drops the same from the bytes as from the text. -/
theorem dropWhile_latin {p : Char → Bool} (hp : AsciiOnly p) (cs : List Char) :
    (latin cs).dropWhile p = latin (cs.dropWhile p) := by
  induction cs with
  | nil => rfl
  | cons c cs ih =>
    cases hc : p c with
    | true =>
      rw [latin_cons_ascii (ascii_of_test hp hc), List.dropWhile_cons_of_pos hc,
        List.dropWhile_cons_of_pos hc, ih]
    | false =>
      -- the byte that comes first fails the test with its character
      have hlead : ¬ p (Char.ofUInt8 (lead c)) = true := by rw [test_lead hp, hc]; simp
      rw [List.dropWhile_cons_of_neg (Bool.eq_false_iff.mp hc), latin_cons,
        List.dropWhile_cons_of_neg hlead]

/-! ### Where characters start -/

/-- A text can be cut before every character. -/
theorem isFirst_lead (c : Char) : (lead c).IsUTF8FirstByte := by
  have h := UInt8.isUTF8FirstByte_getElem_zero_utf8EncodeChar (c := c)
  simpa only [encodeChar_eq, List.getElem_cons_zero] using h

/-! ### Reading bytes as text -/

@[simp] theorem decode_nil : decode [] = [] := by rw [decode]

/-- A character is read back, whatever follows it. -/
theorem first?_encodeChar_append (c : Char) (bs : List UInt8) :
    first? (String.utf8EncodeChar c ++ bs) = some c := by
  rw [first?, List.toByteArray_append]
  exact ByteArray.utf8DecodeChar?_utf8EncodeChar_append

/-- Reading passes over a whole character at once. -/
theorem decode_encodeChar_append (c : Char) (bs : List UInt8) :
    decode (String.utf8EncodeChar c ++ bs) = c :: decode bs := by
  have hfirst := first?_encodeChar_append c bs
  rw [encodeChar_eq, List.cons_append] at hfirst ⊢
  rw [decode]
  simp only [hfirst]
  have hlength : c.utf8Size - 1 = (trail c).length := by
    have := length_trail c
    omega
  rw [hlength, List.drop_left]

/-- A text is read back, whatever follows it. -/
theorem decode_encode_append (cs : List Char) (bs : List UInt8) :
    decode (encode cs ++ bs) = cs ++ decode bs := by
  induction cs with
  | nil => rfl
  | cons c cs ih =>
    rw [encode_cons, List.append_assoc, decode_encodeChar_append, ih, List.cons_append]

@[simp] theorem decode_encode (cs : List Char) : decode (encode cs) = cs := by
  have h := decode_encode_append cs []
  rwa [List.append_nil, decode_nil, List.append_nil] at h

/-- The first bytes of a character are no character of their own. -/
theorem first?_cut {c : Char} {start rest : List UInt8}
    (h : String.utf8EncodeChar c = start ++ rest) (hrest : rest ≠ []) : first? start = none := by
  cases hd : first? start with
  | none => rfl
  | some d =>
    -- a character at the start of these bytes is the one at the start of all of them
    have hsame := ByteArray.utf8DecodeChar?_append_eq_some hd rest.toByteArray
    rw [← List.toByteArray_append, ← h] at hsame
    have hc := first?_encodeChar_append c []
    rw [List.append_nil, first?, hsame] at hc
    have hsize : 0 + d.utf8Size ≤ start.toByteArray.size :=
      ByteArray.le_size_of_utf8DecodeChar?_eq_some hd
    -- but that one is longer than what is left of it here
    have hlength := congrArg List.length h
    rw [String.length_utf8EncodeChar, List.length_append, ← Option.some.inj hc] at hlength
    have hpos := List.length_pos_iff.mpr hrest
    rw [List.size_toByteArray] at hsize
    omega

/-- The first bytes of a character, cut off from its last, are read as one replacement. -/
theorem decode_cut {c : Char} {start rest : List UInt8}
    (h : String.utf8EncodeChar c = start ++ rest) (hstart : start ≠ []) (hrest : rest ≠ []) :
    decode start = [replacement] := by
  obtain ⟨b, bs, rfl⟩ := List.exists_cons_of_ne_nil hstart
  -- no byte within a character starts one, so the replacement takes all of them
  have hbs : ∀ b ∈ bs, (!decide b.IsUTF8FirstByte) = true := by
    intro b hb
    obtain ⟨i, hi, rfl⟩ := List.mem_iff_getElem.mp hb
    have hlong : i + 1 < (String.utf8EncodeChar c).length := by
      rw [h, List.cons_append, List.length_cons, List.length_append]
      omega
    have hnot : ¬ ((String.utf8EncodeChar c)[i + 1]).IsUTF8FirstByte := by
      rw [UInt8.isUTF8FirstByte_getElem_utf8EncodeChar]
      exact Nat.succ_ne_zero i
    have heq : (String.utf8EncodeChar c)[i + 1] = bs[i] := by
      simp only [h, List.cons_append, List.getElem_cons_succ, List.getElem_append_left hi]
    rw [heq] at hnot
    simp only [hnot, decide_false, Bool.not_false]
  rw [decode]
  simp only [first?_cut h hrest]
  rw [List.dropWhile_eq_nil_iff.mpr hbs, decode_nil]

end SourceAtlas.Utf8
