import Mathlib.Data.Char
import Mathlib.Data.String.Basic
import Mathlib.Order.Basic

/-!
# Texts: the order of the code points is the order of the bytes

Texts are compared by their code points. Their UTF-8 forms, compared byte by byte, stand in the same
order (`lt_iff_bytes_lt`), since UTF-8 writes a larger code point with a larger first byte or, after
equal bytes, with a larger one further on (`utf8EncodeChar_append_lt`).
-/

namespace SourceAtlas.Text

/-- The UTF-8 form of a text. -/
def bytes (s : String) : List UInt8 :=
  s.toUTF8.data.toList

theorem bytes_eq_flatMap (s : String) : bytes s = s.toList.flatMap String.utf8EncodeChar := by
  have h : s.toByteArray = s.toList.utf8Encode := by
    rw [← String.toByteArray_ofList, String.ofList_toList]
  unfold bytes
  rw [String.toUTF8_eq_toByteArray, h]
  exact List.toList_data_toByteArray

/-- Numbers compare by their digits to the base 64, of which UTF-8 writes one in a byte. -/
theorem digits_lt {v w : Nat} (h : v < w) :
    v / 262144 < w / 262144 ∨ v / 262144 = w / 262144 ∧
      (v / 4096 % 64 < w / 4096 % 64 ∨ v / 4096 % 64 = w / 4096 % 64 ∧
        (v / 64 % 64 < w / 64 % 64 ∨ v / 64 % 64 = w / 64 % 64 ∧ v % 64 < w % 64)) := by
  have hv : v = 262144 * (v / 262144) + 4096 * (v / 4096 % 64) + 64 * (v / 64 % 64) + v % 64 := by
    omega
  have hw : w = 262144 * (w / 262144) + 4096 * (w / 4096 % 64) + 64 * (w / 64 % 64) + w % 64 := by
    omega
  have hdigit : ∀ n, n % 64 < 64 := fun n => Nat.mod_lt n (by decide)
  have := hdigit (v / 4096)
  have := hdigit (v / 64)
  have := hdigit v
  have := hdigit (w / 4096)
  have := hdigit (w / 64)
  have := hdigit w
  generalize v / 262144 = v₃, v / 4096 % 64 = v₂, v / 64 % 64 = v₁, v % 64 = v₀ at *
  generalize w / 262144 = w₃, w / 4096 % 64 = w₂, w / 64 % 64 = w₁, w % 64 = w₀ at *
  omega

/-- A larger character has the larger UTF-8 form, whatever follows. -/
theorem utf8EncodeChar_append_lt {c d : Char} (h : c < d) (xs ys : List UInt8) :
    String.utf8EncodeChar c ++ xs < String.utf8EncodeChar d ++ ys := by
  have hlt : c.val.toNat < d.val.toNat := h
  have hd : d.val.toNat < 1114112 := by
    rcases d.valid with hvalid | hvalid
    · omega
    · omega
  have hdigits := digits_lt hlt
  -- a byte that continues a form holds one digit; the first of four holds what is above them
  have hnext : ∀ n, (n % 64 + 128) % 256 = n % 64 + 128 := by
    intro n
    omega
  have htop : ∀ n < 1114112, (n / 262144 % 8 + 240) % 256 = n / 262144 + 240 := by
    intro n hn
    omega
  unfold String.utf8EncodeChar
  generalize c.val.toNat = v at hlt hdigits
  generalize d.val.toNat = w at hlt hdigits hd
  dsimp only
  split_ifs
  all_goals
    simp only [List.cons_append, List.nil_append, List.cons_lt_cons_iff, UInt8.lt_iff_toNat_lt,
      ← UInt8.toNat_inj, UInt8.toNat_ofNat', Nat.reducePow, hnext, htop v (hlt.trans hd), htop w hd]
    omega

/-- Lists of characters in their order have their UTF-8 forms in that order. -/
theorem flatMap_utf8EncodeChar_lt {cs ds : List Char} (h : cs < ds) :
    cs.flatMap String.utf8EncodeChar < ds.flatMap String.utf8EncodeChar := by
  induction cs generalizing ds with
  | nil =>
    cases ds with
    | nil => exact absurd h (List.lt_irrefl [])
    | cons d ds =>
      obtain ⟨byte, rest, hd⟩ := List.exists_cons_of_ne_nil (String.utf8EncodeChar_ne_nil (c := d))
      rw [List.flatMap_nil, List.flatMap_cons, hd]
      exact List.nil_lt_cons _ _
  | cons c cs ih =>
    cases ds with
    | nil => exact absurd h (List.not_lt_nil _)
    | cons d ds =>
      rw [List.flatMap_cons, List.flatMap_cons]
      rcases List.cons_lt_cons_iff.mp h with hlt | ⟨rfl, hlt⟩
      · exact utf8EncodeChar_append_lt hlt _ _
      · exact List.append_left_lt (ih hlt)

/-- **The order of the code points is the order of the bytes.** -/
theorem lt_iff_bytes_lt {s t : String} : s < t ↔ bytes s < bytes t := by
  have himp : ∀ {s t : String}, s < t → bytes s < bytes t := by
    intro s t h
    rw [bytes_eq_flatMap, bytes_eq_flatMap]
    exact flatMap_utf8EncodeChar_lt (String.lt_iff_toList_lt.mp h)
  refine ⟨himp, fun h => ?_⟩
  rcases lt_trichotomy s t with hlt | rfl | hgt
  · exact hlt
  · exact absurd h (List.lt_irrefl _)
  · exact absurd (himp hgt) (List.lt_asymm h)

end SourceAtlas.Text
