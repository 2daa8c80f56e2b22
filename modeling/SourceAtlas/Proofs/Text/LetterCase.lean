import SourceAtlas.Proofs.Utf8
import SourceAtlas.Text.Basic

/-!
# Texts: the case of ASCII letters

Names are compared in two ways where a language folds case: by their lowercase forms over all of
Unicode, and up to the case of ASCII letters only. The second way is the finer one:

* **`apply_asciiLower`**: what is the same for each ASCII letter in both cases does not see the
  case of ASCII letters at all;
* **`lower_asciiLower`**: the lowercase form is such a thing, the final sigma included, since
  whether a letter has case does not depend on its case;
* so texts that are equal up to the case of ASCII letters have one lowercase form.
-/

namespace SourceAtlas

namespace Chars

variable {α : Type}

/-- What is the same for each ASCII character in both cases is the same for every character. -/
theorem apply_asciiLower {f : Char → α}
    (h : ∀ n < 128, f (asciiLower (Char.ofNat n)) = f (Char.ofNat n)) (c : Char) :
    f (asciiLower c) = f c := by
  by_cases hc : c.toNat < 128
  · exact Utf8.of_ascii (motive := fun c => f (asciiLower c) = f c) h hc
  · rw [Utf8.asciiLower_high (Nat.not_lt.mp hc)]

/-- A dot is no letter. -/
theorem asciiLower_beq_dot (c : Char) : (asciiLower c == '.') = (c == '.') :=
  apply_asciiLower (f := (· == '.')) (by decide +kernel) c

/-- The last dot stays where it is. -/
theorem splitLast?_map_asciiLower (cs : List Char) :
    splitLast? (· == '.') (cs.map asciiLower) =
      (splitLast? (· == '.') cs).map (Prod.map (List.map asciiLower) (List.map asciiLower)) := by
  induction cs with
  | nil => rfl
  | cons c cs ih =>
    rw [List.map_cons, splitLast?, splitLast?, ih, asciiLower_beq_dot]
    -- a dot further on, or this character
    cases splitLast? (· == '.') cs with
    | none =>
      dsimp only [Option.map_none]
      split <;> rfl
    | some parts => rfl

end Chars

namespace Text

open Chars (apply_asciiLower asciiLower_beq_dot)

/-! ## The lowercase form -/

/-- Whether a sigma ends a word does not depend on the case of the letters around it. -/
theorem isFinalSigma_map_asciiLower (before after : List Char) :
    isFinalSigma (before.map Chars.asciiLower) (after.map Chars.asciiLower) =
      isFinalSigma before after := by
  have hignorable : isCaseIgnorable ∘ Chars.asciiLower = isCaseIgnorable :=
    funext (apply_asciiLower (by decide +kernel))
  have hcased : isCased ∘ Chars.asciiLower = isCased :=
    funext (apply_asciiLower (by decide +kernel))
  unfold isFinalSigma
  simp only [List.dropWhile_map, hignorable, List.head?_map, Option.map_map, hcased]

/-- The lowercase form of a text read in small ASCII letters. The induction carries the characters
passed, which are read in small letters too. -/
theorem lowerFrom_map_asciiLower (before cs : List Char) :
    lowerFrom (before.map Chars.asciiLower) (cs.map Chars.asciiLower) = lowerFrom before cs := by
  induction cs generalizing before with
  | nil => rfl
  | cons c cs ih =>
    have hsigma : ((Chars.asciiLower c).toNat == 0x3A3) = (c.toNat == 0x3A3) :=
      apply_asciiLower (f := fun c => c.toNat == 0x3A3) (by decide +kernel) c
    have hlower : lowerChar (Chars.asciiLower c) = lowerChar c :=
      apply_asciiLower (by decide +kernel) c
    have hrest := ih (c :: before)
    rw [List.map_cons] at hrest
    rw [List.map_cons, lowerFrom, lowerFrom, hsigma, hlower, isFinalSigma_map_asciiLower, hrest]

theorem toList_asciiLower (s : String) : (asciiLower s).toList = s.toList.map Chars.asciiLower := by
  unfold asciiLower onChars
  rw [String.toList_ofList]

theorem asciiLower_ofList (cs : List Char) :
    asciiLower (String.ofList cs) = String.ofList (cs.map Chars.asciiLower) := by
  unfold asciiLower onChars
  rw [String.toList_ofList]

/-- The lowercase form does not depend on the case of ASCII letters. -/
theorem lower_asciiLower (s : String) : lower (asciiLower s) = lower s := by
  have h := lowerFrom_map_asciiLower [] s.toList
  rw [List.map_nil] at h
  unfold lower onChars
  rw [toList_asciiLower, h]

/-! ## Texts read in small ASCII letters -/

theorem isEmpty_asciiLower (s : String) : (asciiLower s).isEmpty = s.isEmpty := by
  rw [Bool.eq_iff_iff, String.isEmpty_iff, String.isEmpty_iff, ← String.toList_eq_nil_iff,
    ← String.toList_eq_nil_iff, toList_asciiLower, List.map_eq_nil_iff]

theorem asciiLower_append (s t : String) : asciiLower (s ++ t) = asciiLower s ++ asciiLower t := by
  rw [← String.toList_inj, String.toList_append, toList_asciiLower, toList_asciiLower,
    toList_asciiLower, String.toList_append, List.map_append]

/-- Dots stay in a text that is read in small letters. -/
theorem containsChar_asciiLower_dot (s : String) :
    containsChar (asciiLower s) '.' = containsChar s '.' := by
  unfold containsChar
  rw [toList_asciiLower]
  induction s.toList with
  | nil => rfl
  | cons c cs ih =>
    rw [List.map_cons, List.contains_cons, List.contains_cons, ih, Bool.beq_comm,
      asciiLower_beq_dot, Bool.beq_comm]

/-- The parts between dots are read in small letters each. -/
theorem splitOn_asciiLower_dot (s : String) :
    splitOn '.' (asciiLower s) = (splitOn '.' s).map asciiLower := by
  -- the same for characters, where parts can be taken one by one
  have hchars : ∀ cs : List Char,
      (cs.map Chars.asciiLower).splitOn '.' = (cs.splitOn '.').map (List.map Chars.asciiLower) := by
    intro cs
    induction cs with
    | nil => rfl
    | cons c cs ih =>
      rw [List.map_cons, List.splitOn_cons_eq_if_modifyHead, List.splitOn_cons_eq_if_modifyHead,
        asciiLower_beq_dot, ih]
      split
      · rfl
      · cases cs.splitOn '.' <;> rfl
  unfold splitOn
  rw [toList_asciiLower, hchars, List.map_map, List.map_map]
  exact List.map_congr_left fun part _ => (asciiLower_ofList part).symm

/-! ## Texts with the same letters -/

/-- Whether texts are equal up to the case of ASCII letters. -/
def SameLetters (s t : String) : Prop :=
  asciiLower s = asciiLower t

instance (s t : String) : Decidable (SameLetters s t) :=
  inferInstanceAs (Decidable (asciiLower s = asciiLower t))

/-- Texts are compared up to the case of ASCII letters. -/
theorem eqIgnoreAsciiCase_iff {s t : String} :
    eqIgnoreAsciiCase s t = true ↔ SameLetters s t := by
  unfold eqIgnoreAsciiCase Chars.eqIgnoreAsciiCase SameLetters
  rw [beq_iff_eq, ← String.toList_inj, toList_asciiLower, toList_asciiLower]

namespace SameLetters

variable {s t : String} (h : SameLetters s t)

include h

/-- What can be told from a text in small letters is the same for both texts. -/
theorem apply_eq {α : Type} {f : String → α} (hf : ∀ s, f (asciiLower s) = f s) : f s = f t := by
  rw [← hf s, ← hf t, show asciiLower s = asciiLower t from h]

/-- They have one lowercase form. -/
theorem lower_eq : lower s = lower t :=
  h.apply_eq lower_asciiLower

theorem containsChar_dot : containsChar s '.' = containsChar t '.' :=
  h.apply_eq (f := (containsChar · '.')) containsChar_asciiLower_dot

theorem eqIgnoreAsciiCase_eq (u : String) : eqIgnoreAsciiCase u s = eqIgnoreAsciiCase u t := by
  rw [Bool.eq_iff_iff, eqIgnoreAsciiCase_iff, eqIgnoreAsciiCase_iff, SameLetters, SameLetters,
    show asciiLower s = asciiLower t from h]

/-- What is put before both texts does not matter. -/
theorem append_left (u : String) : SameLetters (u ++ s) (u ++ t) := by
  rw [SameLetters, asciiLower_append, asciiLower_append, show asciiLower s = asciiLower t from h]

end SameLetters

end Text

end SourceAtlas
