import SourceAtlas.Extract.Apex.Mask
import SourceAtlas.Proofs.Buffer

/-!
# Cells and their bytes

Blanking is the same on characters and on bytes: a blanked character has as many blanks as it has
bytes, and line breaks stay (`encode_blankChar`).
-/

namespace SourceAtlas.Extract.Apex

open Buffer Utf8
open Chars (byteLength byteLength_nil byteLength_cons byteLength_append byteLength_concat)

@[simp] theorem cellChars_nil : cellChars [] = [] := rfl

@[simp] theorem cellChars_cons (cell : Cell) (cells : List Cell) :
    cellChars (cell :: cells) = cell.char :: cellChars cells := rfl

@[simp] theorem cellChars_append (cells cells' : List Cell) :
    cellChars (cells ++ cells') = cellChars cells ++ cellChars cells' :=
  List.map_append

@[simp] theorem cellChars_map_plain (cs : List Char) : cellChars (cs.map plain) = cs := by
  rw [cellChars, List.map_map]
  exact List.map_id _

@[simp] theorem cellChars_map_other (cs : List Char) : cellChars (cs.map other) = cs := by
  rw [cellChars, List.map_map]
  exact List.map_id _

theorem code_of_mem_map_other {cs : List Char} {cell : Cell} (h : cell ∈ cs.map other) :
    cell.code = false := by
  obtain ⟨c, -, rfl⟩ := List.mem_map.mp h
  rfl

/-- Cells come apart where their characters do. -/
theorem exists_cells_of_append {cells : List Cell} {cs ds : List Char}
    (h : cellChars cells = cs ++ ds) :
    ∃ part rest, cells = part ++ rest ∧ cellChars part = cs ∧ cellChars rest = ds :=
  List.map_eq_append_iff.mp h

/-! ### Blanks -/

theorem blankByte_of_high {b : UInt8} (hb : 128 ≤ b.toNat) : blankByte b = ' '.toUInt8 := by
  -- line breaks are ASCII, and this byte is not
  have hne : ∀ d : UInt8, d.toNat < 128 → ¬ b = d := by
    rintro d hd rfl
    omega
  rw [blankByte, decide_eq_false (hne _ (by decide)), decide_eq_false (hne _ (by decide))]
  rfl

/-- A blanked character has a blank for each byte. -/
theorem encode_blankChar (c : Char) :
    encode (blankChar c) = (String.utf8EncodeChar c).map blankByte := by
  rw [blankChar]
  split_ifs with hbreak
  · rw [Bool.or_eq_true, beq_iff_eq, beq_iff_eq] at hbreak
    rcases hbreak with rfl | rfl
    all_goals decide
  -- a blank is one byte, so counting characters is counting bytes
  · have hspace : ∀ n, encode (List.replicate n ' ') = List.replicate n ' '.toUInt8 := by
      intro n
      induction n with
      | zero => rfl
      | succ n ih =>
        rw [List.replicate_succ, encode_cons, ih, encodeChar_of_ascii (by decide),
          List.singleton_append, ← List.replicate_succ]
    rw [hspace, eq_comm, List.eq_replicate_iff, List.length_map, String.length_utf8EncodeChar]
    refine ⟨rfl, fun b hb => ?_⟩
    obtain ⟨byte, hbyte, rfl⟩ := List.mem_map.mp hb
    -- in an ASCII character the byte tells that it is no line break, in others it is high
    by_cases hascii : c.toNat < 128
    · rw [encodeChar_of_ascii hascii, List.mem_singleton] at hbyte
      subst hbyte
      have hne : ∀ d : Char, d.toNat < 128 → c ≠ d → ¬ c.toUInt8 = d.toUInt8 :=
        fun d hd hcd heq => hcd (toUInt8_inj hascii hd heq)
      simp only [Bool.or_eq_true, beq_iff_eq, not_or] at hbreak
      rw [blankByte, decide_eq_false (hne _ (by decide) hbreak.1),
        decide_eq_false (hne _ (by decide) hbreak.2)]
      rfl
    · exact blankByte_of_high (high_of_mem_encodeChar (Nat.not_lt.mp hascii) hbyte)

theorem encode_blank (cell : Cell) :
    encode (cellChars cell.blank) = (String.utf8EncodeChar cell.char).map blankByte := by
  rw [← encode_blankChar, Cell.blank, cellChars, List.map_map]
  exact congrArg encode (List.map_id _)

/-- Cells are blanked as their bytes are. -/
theorem encode_flatMap_blank (cells : List Cell) :
    encode (cellChars (cells.flatMap Cell.blank)) = (encode (cellChars cells)).map blankByte := by
  induction cells with
  | nil => rfl
  | cons cell cells ih =>
    rw [List.flatMap_cons, cellChars_append, encode_append, encode_blank, ih, cellChars_cons,
      encode_cons, List.map_append]

theorem byteLength_flatMap_blank (cells : List Cell) :
    byteLength (cellChars (cells.flatMap Cell.blank)) = byteLength (cellChars cells) := by
  rw [← length_encode, encode_flatMap_blank, List.length_map, length_encode]

end SourceAtlas.Extract.Apex
