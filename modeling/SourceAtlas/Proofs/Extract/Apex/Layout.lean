import SourceAtlas.Proofs.Extract.Apex.Accessors

/-!
# Masking keeps the layout

The edits of the buffer come out without a fault and leave what the cells hold, step by step: the
marks of the cells stay those of the spans (`Grounded`), and so a position that one step finds is
good for the next. Each step keeps the number of bytes.
-/

namespace SourceAtlas.Extract.Apex

open Buffer Utf8 InPlace
open Chars (byteLength byteLength_cons byteLength_append)

/-- The steps up to the sharing modifiers leave in the buffer what they leave in the cells. -/
theorem exists_maskedWords (cs : List Char) :
    ∃ spans bytes words, codeSpans (encode cs) = .ok (bytes, spans) ∧
      spans.foldlM (maskSpan (encode cs)) bytes = .ok (encode words) ∧
      blankAll (encode words)
          ((matchesFrom sharing none 0 0 words).filter fun range => inSpans spans range.1)
        = .ok (encode (cellChars (maskedWords cs))) ∧
      Grounded (encode cs) spans 0 (maskedWords cs) ∧
      byteLength (cellChars (maskedWords cs)) = byteLength cs := by
  obtain ⟨spans, hscan, hcovers⟩ := codeSpans_spec cs
  have hcontent : At (encode cs) [] cs := rfl
  have hscanned : At (encode (cellChars (codeCells cs))) (front [])
      (cellChars (codeCells cs)) := rfl
  -- what the scan marks as code is what its spans cover
  have hmarks : Grounded (encode cs) ([] ++ spans) 0 (codeCells cs) :=
    hcovers.grounded hcontent rfl (fun _ h => nomatch h)
  have hwords := maskKeywords_reworded (codeCells cs)
  have hsharing := blankSharing_blanked none 0 (maskKeywords (codeCells cs))
  -- the sharing modifiers are looked for in the text that the keywords left
  have hkeywords : At (encode (cellChars (maskKeywords (codeCells cs)))) []
      (cellChars (maskKeywords (codeCells cs))) := rfl
  refine ⟨spans, _, cellChars (maskKeywords (codeCells cs)), hscan, ?_,
    blankAll_sharing none hkeywords (hmarks.reworded hwords),
    (hmarks.reworded hwords).blanked hsharing, ?_⟩
  · rw [foldlM_maskSpan hcovers hscanned hcontent rfl rfl, maskKeywords_eq]
    rfl
  · rw [maskedWords, hsharing.byteLength_eq, byteLength_reworded hwords, hcovers.byteLength_eq]

/-- The header of a trigger is a range of the text, and its line can be counted. -/
theorem triggerHeader?_spec {text : String} {spans : List Span} {cells : List Cell}
    (hmarks : Grounded (Text.bytes text) spans 0 cells) {h : TriggerHeader}
    (hheader : triggerHeader? cells = some h) :
    (h.start < h.stop ∧ h.stop ≤ byteLength (cellChars cells)) ∧
      lineOf (Text.bytes text) h.start = .ok ((SourceText.ofString text).lineAt h.start) ∧
      blank (encode (cellChars cells)) h.start h.stop
        = .ok (encode (cellChars (blankRange h.start h.stop 0 cells))) := by
  rw [triggerHeader?_eq hmarks, Option.filter_eq_some_iff] at hheader
  obtain ⟨hfirst, hspans⟩ := hheader
  -- a header starts with a letter, so with a cell whose mark the spans agree on
  obtain ⟨before, cell, part, rest, rfl, hstart, hstop, hletter⟩ := firstHeader?_eq_some hfirst
  rw [Nat.zero_add] at hstart
  have hpos := cell.char.utf8Size_pos
  have hsize : byteLength (cellChars (before ++ (cell :: part ++ rest)))
      = h.stop + byteLength (cellChars rest) := by
    rw [cellChars_append, cellChars_append, byteLength_append, byteLength_append, hstop, hstart,
      Nat.add_assoc]
  refine ⟨⟨?_, by omega⟩, ?_, ?_⟩
  · rw [hstop, cellChars_cons, byteLength_cons]
    omega
  · have hcell := (grounded_append.mp hmarks).2.1
    rw [Nat.zero_add, ← hstart] at hcell
    -- the header is code, so the text can be cut where it starts
    obtain ⟨hcode, hcut⟩ := hcell.marked (not_mem_unmarked (by decide) hletter)
    obtain ⟨written, after, hwritten, hlength⟩ := hcut (hcode ▸ hspans)
    rw [← hlength]
    exact lineOf_eq hwritten
  · rw [cellChars_append, encode_append]
    exact blank_eq_blankRange rfl hstart hstop

/-- Masking keeps the number of bytes. -/
theorem byteLength_maskChars (cs : List Char) : byteLength (maskChars cs).1 = byteLength cs := by
  obtain ⟨_, _, _, -, -, -, -, hsize⟩ := exists_maskedWords cs
  rw [maskChars]
  dsimp only
  rw [byteLength_maskAccessors]
  -- with or without a trigger, cells are blanked byte for byte
  cases triggerHeader? (maskedWords cs) with
  | none => exact hsize
  | some h => exact (blankRange_blanked ..).byteLength_eq.trans hsize

/-- A text masked in place is the text masked cell by cell. -/
theorem maskText_eq (text : String) :
    maskText (Text.bytes text)
      = .ok ((maskChars text.toList).1, (maskChars text.toList).2.map
          fun h => (h, (SourceText.ofString text).lineAt h.start)) := by
  obtain ⟨spans, bytes, masked, hscan, hwords, hsharing, hmarks, -⟩ :=
    exists_maskedWords text.toList
  rw [← bytes_eq_encode] at hscan hwords hmarks
  rw [maskText, hscan, Edit.ok_bind]
  dsimp only
  -- each step ends in the UTF-8 form of a text, so the next one can read it
  rw [hwords, Edit.ok_bind, text_encode, Edit.ok_bind, hsharing, Edit.ok_bind, text_encode,
    Edit.ok_bind, ← triggerHeader?_eq hmarks, maskChars]
  dsimp only
  cases hheader : triggerHeader? (maskedWords text.toList) with
  | none =>
    dsimp only
    rw [editAccessors_eq hmarks, Edit.ok_bind, text_encode]
    rfl
  | some h =>
    obtain ⟨-, hline, hrange⟩ := triggerHeader?_spec hmarks hheader
    have hblanked := hmarks.blanked (blankRange_blanked h.start h.stop 0 _)
    dsimp only
    rw [hline, Edit.ok_bind, hrange, Edit.ok_bind, editAccessors_eq hblanked, Edit.ok_bind,
      text_encode]
    rfl

theorem header_maskChars {text : String} {h : TriggerHeader}
    (hheader : (maskChars text.toList).2 = some h) :
    h.start < h.stop ∧ h.stop ≤ byteLength text.toList := by
  obtain ⟨spans, _, _, -, -, -, hmarks, hsize⟩ := exists_maskedWords text.toList
  rw [← bytes_eq_encode] at hmarks
  rw [← hsize]
  exact (triggerHeader?_spec hmarks hheader).1

theorem byteLength_toList (text : String) : byteLength text.toList = text.utf8ByteSize := by
  rw [← length_encode, ← bytes_eq_encode]
  rfl

/--
Every text can be masked in place: no access is out of range, no copy of the wrong length, no cut
within a character, and after each step the buffer is the UTF-8 form of a text. The masked text has
as many bytes as the text as written, and the header of a trigger is a range of them.
-/
theorem maskText_keeps_layout (text : String) :
    maskText (Text.bytes text)
        = .ok ((mask text).1.toList,
            (mask text).2.map fun h => (h, (SourceText.ofString text).lineAt h.start)) ∧
      (mask text).1.utf8ByteSize = text.utf8ByteSize ∧
      ∀ h ∈ (mask text).2, h.start < h.stop ∧ h.stop ≤ text.utf8ByteSize := by
  refine ⟨?_, ?_, fun h hheader => ?_⟩
  · rw [maskText_eq, mask, String.toList_ofList]
  · rw [mask, ← byteLength_toList, String.toList_ofList, byteLength_maskChars, byteLength_toList]
  · rw [← byteLength_toList]
    exact header_maskChars hheader

/-- A header after a comment, with letters of more than one byte in both. -/
theorem maskText_keeps_layout_trigger :
    (mask "/*é*/ trigger Tä on Account (before insert) { x = [SELECT Id]; }").2
        = some ⟨"Tä", "Account", 7, 45⟩ ∧ 7 < 45 ∧ 45 ≤ 66 := by
  have hheader : (mask "/*é*/ trigger Tä on Account (before insert) { x = [SELECT Id]; }").2
      = some ⟨"Tä", "Account", 7, 45⟩ := by
    decide +kernel
  exact ⟨hheader, (maskText_keeps_layout _).2.2 _ hheader⟩

end SourceAtlas.Extract.Apex
