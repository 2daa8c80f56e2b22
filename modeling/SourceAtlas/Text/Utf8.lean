/-!
# UTF-8

A text as its bytes, and bytes read as a text. Reading never fails: what is no character comes out
as a replacement character.
-/

namespace SourceAtlas.Utf8

/-- The UTF-8 form of some characters. -/
def encode (cs : List Char) : List UInt8 :=
  cs.flatMap String.utf8EncodeChar

/-- The character that some bytes start with. -/
def first? (bs : List UInt8) : Option Char :=
  bs.toByteArray.utf8DecodeChar? 0

/-- What stands for bytes that are no character. -/
def replacement : Char := '\uFFFD'

/--
The text of some bytes. A byte that starts no character stands, with the bytes after it that start
none either, for one replacement character.
-/
def decode (bs : List UInt8) : List Char :=
  match bs with
  | [] => []
  | b :: rest =>
    match first? (b :: rest) with
    | some c => c :: decode (rest.drop (c.utf8Size - 1))
    | none => replacement :: decode (rest.dropWhile fun b => !decide b.IsUTF8FirstByte)
termination_by bs.length
decreasing_by
  · exact Nat.lt_succ_of_le (List.length_drop ▸ Nat.sub_le ..)
  · exact Nat.lt_succ_of_le (List.dropWhile_suffix _).length_le

end SourceAtlas.Utf8
