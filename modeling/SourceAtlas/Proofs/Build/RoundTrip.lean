import SourceAtlas.Proofs.Build.ImportLists
import SourceAtlas.Proofs.Extract.Plain
import SourceAtlas.Proofs.Model.ReadDocuments

/-!
# Builds: documents are read again

A document is written as text and read again from there. Two kinds of documents come to be written:
those that were read from a text before, and those that a build has made. Both can be stored
(`Document.wasRead_of_read?`, `isStorable_process`), so both are read again.

A document that was built still has what resolution needed, and is read again without it. Its only
free-form values are those of the configuration files that the builder was given, since extraction
adds nothing to what it finds.
-/

namespace SourceAtlas

namespace Builder

section

variable {b : Builder} {name : String} {r : Repository} {s : Selection}

/-- Nothing was added to the nodes of a document that was just built. -/
theorem enrichment_of_mem_process {e : Enrichment}
    (he : e ∈ (b.process name r s).document.enrichments) : e = {} := by
  obtain ⟨f, hf, he⟩ := List.mem_flatMap.mp he
  obtain ⟨l, text, x, -, -, -, hx, hrecord⟩ := mem_files_process_iff.mp hf
  -- what a record carries was extracted, and that is plain
  have hplain := extract_isPlain hx
  rw [hrecord] at he
  rcases List.mem_cons.mp he with rfl | he
  · rfl
  rcases List.mem_append.mp he with he | he
  · obtain ⟨c, hc, rfl⟩ := List.mem_map.mp he
    exact hplain.classes c hc
  · -- resolution changes the calls of a function only
    obtain ⟨k, hk, rfl⟩ := List.mem_map.mp he
    obtain ⟨k', hk', rfl⟩ := List.mem_map.mp hk
    exact hplain.functions k' hk'

theorem isStorable_process (hnow : b.now.IsValid)
    (hconfig : ∀ f ∈ b.configFiles, f.metadata.IsStorable)
    (hcounts : (b.process name r s).document.CountsFit) :
    (b.process name r s).document.IsStorable where
  counts := hcounts
  time := hnow
  enrichments := by
    intro e he m hm
    rw [enrichment_of_mem_process he] at hm
    cases hm
  configFiles := hconfig

end

end Builder

/-- **Documents are read again from their texts.** Take a document that was read from a text of
either form, and whose free-form values hold no numbers but integers of 64 bits and floating point
numbers that are read from their own texts. Every text that is written of it and that nests within
the limit of the reader is read again: one with all data as the same document, one with the files
only as a document with the same files. It makes no difference whether the text is on one line or on
many.

The same holds of every document that is built, from sources or from a directory, up to what only
resolution needs and no text keeps. The counts of such a document have to fit the widths that they
are stored in, as they do in any that was read. -/
theorem documents_read_again :
    (∀ (now : Instant) (text : String) (d : Document), now.IsValid →
      Document.read? now text = some d → d.NumbersKept → d.ReadsAs d)
    ∧ (∀ (b : Builder) name sources skeleton out, b.now.IsValid →
      (∀ f ∈ b.configFiles, f.metadata.IsStorable) →
      b.ofSources name sources skeleton = .ok out →
      out.document.CountsFit → out.document.NumbersKept →
      out.document.ReadsAs out.document.stored)
    ∧ ∀ (b : Builder) root name d out, b.now.IsValid →
      (∀ f ∈ b.configFiles, f.metadata.IsStorable) → b.run root name (some d) = .ok out →
      out.document.CountsFit → out.document.NumbersKept →
      out.document.ReadsAs out.document.stored := by
  refine ⟨?_, ?_, ?_⟩
  · intro now text d hnow hread hkept
    obtain ⟨hstorable, hstored⟩ := Document.wasRead_of_read? hnow hread
    have h := Document.readsAs_stored hstorable hkept
    rwa [hstored] at h
  · intro b name sources skeleton out hnow hconfig hout hcounts hkept
    obtain ⟨-, -, -, rfl⟩ := Builder.ofSources_eq_ok_iff.mp hout
    exact Document.readsAs_stored (Builder.isStorable_process hnow hconfig hcounts) hkept
  · intro b root name d out hnow hconfig hout hcounts hkept
    obtain ⟨-, found, -, -, -, rfl⟩ := Builder.run_eq_ok_iff.mp hout
    exact Document.readsAs_stored (Builder.isStorable_process hnow hconfig hcounts) hkept

/-- A text with its members in another order, the project as a list, a time with an offset, and a
free-form value. -/
def sampleText : String :=
  "\x7b\"files\": [\x7b\"metadata\": \x7b\"b\": [1, -2, 100.0], \"a\": null\x7d, \"lines\": 7, "
    ++ "\"language\": \"go\", \"path\": \"a.go\"\x7d], \"projectMetaData\": [\"sample\", "
    ++ "\"2024-02-29T23:30:00-01:00\", 1, 0, 0, 7, 0, 0]\x7d"

/-- A builder for `import a,b,b,os`, with one configuration file. -/
def configuredBuilder : Builder :=
  { config := { Config.default with scan.excludeDirs := [], scan.excludePatterns := [] }
    grammar := Builder.importsTree
    configFiles := [{
      path := "tool.json", kind := "tool", metadata := .obj [("level", .num (.int 3))] }]
    now := .epoch }

/-- A document that was read, one built from sources and one built from a directory. -/
theorem documents_read_again_sample :
    let sources := [("a.py", "import a,b,b,os"), ("b.py", "")]
    let disk := Disk.empty.write "a.py" (.ofText "import a,b,b,os") |>.write "b.py" (.ofText "")
    (∃ d, Document.read? .epoch sampleText = some d ∧ d.NumbersKept ∧ d.freeForm.length = 1
      ∧ ∀ now, Document.read? now (d.toText ⟨false, true⟩) = some d)
    ∧ (∃ out, configuredBuilder.ofSources "sample" sources [] = .ok out ∧ out.document.CountsFit
      ∧ out.document.NumbersKept ∧ out.document.freeForm.length = 1
      ∧ ∀ now, Document.read? now (out.document.toText ⟨false, false⟩) = some out.document.stored)
    ∧ ∃ out, configuredBuilder.run "sample" none (some disk) = .ok out ∧ out.document.CountsFit
      ∧ out.document.NumbersKept ∧ out.document.freeForm.length = 1
      ∧ ∀ now, ∃ d, Document.read? now (out.document.toText ⟨true, false⟩) = some d
        ∧ d.files = out.document.stored.files := by
  intro sources disk
  have hepoch : Instant.epoch.IsValid := by
    constructor <;> decide
  have hconfig : ∀ f ∈ configuredBuilder.configFiles, f.metadata.IsStorable := by
    intro f hf
    rw [List.mem_singleton.mp hf]
    refine ⟨rfl, fun n hn => ?_⟩
    rw [List.mem_singleton.mp hn]
    exact ⟨by decide, by decide⟩
  refine ⟨?_, ?_, ?_⟩
  -- the conditions are evaluated once, for whatever the text is read as
  · have hsample : ((Document.read? .epoch sampleText).any fun d => decide (d.NumbersKept
        ∧ d.freeForm.length = 1 ∧ (d.written ⟨false, true⟩).depth ≤ Json.maxDepth)) = true := by
      decide +kernel
    cases hd : Document.read? .epoch sampleText with
    | none =>
      rw [hd] at hsample
      cases hsample
    | some d =>
      rw [hd] at hsample
      obtain ⟨hkept, hlength, hdepth⟩ := of_decide_eq_true hsample
      have hreads := documents_read_again.1 .epoch sampleText d hepoch hd hkept
      refine ⟨d, rfl, hkept, hlength, fun now => ?_⟩
      obtain ⟨d', hread, heq⟩ := hreads.read ⟨false, true⟩ now hdepth
      exact hread.trans (congrArg some heq)
  · have hbuild : ((configuredBuilder.ofSources "sample" sources []).toOption.any fun out =>
        decide (out.document.CountsFit ∧ out.document.NumbersKept
          ∧ out.document.freeForm.length = 1
          ∧ (out.document.written ⟨false, false⟩).depth ≤ Json.maxDepth)) = true := by
      decide +kernel
    cases hout : configuredBuilder.ofSources "sample" sources [] with
    | error e =>
      rw [hout] at hbuild
      cases hbuild
    | ok out =>
      rw [hout] at hbuild
      obtain ⟨hcounts, hkept, hlength, hdepth⟩ := of_decide_eq_true hbuild
      refine ⟨out, rfl, hcounts, hkept, hlength, fun now => ?_⟩
      obtain ⟨d', hread, heq⟩ := (documents_read_again.2.1 configuredBuilder "sample" sources [] out
        hepoch hconfig hout hcounts hkept).read ⟨false, false⟩ now hdepth
      exact hread.trans (congrArg some heq)
  · have hbuild : ((configuredBuilder.run "sample" none (some disk)).toOption.any fun out =>
        decide (out.document.CountsFit ∧ out.document.NumbersKept
          ∧ out.document.freeForm.length = 1
          ∧ (out.document.written ⟨true, false⟩).depth ≤ Json.maxDepth)) = true := by
      decide +kernel
    cases hout : configuredBuilder.run "sample" none (some disk) with
    | error e =>
      rw [hout] at hbuild
      cases hbuild
    | ok out =>
      rw [hout] at hbuild
      obtain ⟨hcounts, hkept, hlength, hdepth⟩ := of_decide_eq_true hbuild
      exact ⟨out, rfl, hcounts, hkept, hlength, fun now =>
        (documents_read_again.2.2 configuredBuilder "sample" none disk out hepoch hconfig hout
          hcounts hkept).read ⟨true, false⟩ now hdepth⟩

/-- **A document with a large integer can be read again as another.** The number has no fraction,
but 64 bits do not hold it. It is kept as a floating point number, and its text is read as a
neighbour. -/
theorem documents_read_again_largeInteger :
    let text := "[\x7b\"path\":\"a.py\",\"language\":\"python\",\"lines\":1,"
      ++ "\"metadata\":\x7b\"n\":18446744073709637632\x7d\x7d]"
    ∃ d d', Document.read? .epoch text = some d
      ∧ (∀ v ∈ d.freeForm, ∀ n ∈ v.numbers, n.isWhole = true)
      ∧ Document.read? .epoch (d.toText ⟨true, false⟩) = some d' ∧ d'.files ≠ d.files := by
  intro text
  -- a document has no decidable equality, so the numbers in it stand for it
  let view (d : Document) := (d.enrichments.filterMap (·.metadata)).flatMap Json.numbers
  have hviews : ((Document.read? .epoch text).any fun d =>
      (Document.read? .epoch (d.toText ⟨true, false⟩)).any fun d' => decide
        ((∀ v ∈ d.freeForm, ∀ n ∈ v.numbers, n.isWhole = true) ∧ view d' ≠ view d)) = true := by
    decide +kernel
  cases hd : Document.read? .epoch text with
  | none =>
    rw [hd] at hviews
    cases hviews
  | some d =>
    rw [hd, Option.any_some] at hviews
    cases hd' : Document.read? .epoch (d.toText ⟨true, false⟩) with
    | none =>
      rw [hd'] at hviews
      cases hviews
    | some d' =>
      rw [hd'] at hviews
      obtain ⟨hwhole, hne⟩ := of_decide_eq_true hviews
      refine ⟨d, d', rfl, hwhole, hd', fun hfiles => hne ?_⟩
      show ((d'.files.flatMap (·.enrichments)).filterMap (·.metadata)).flatMap Json.numbers = _
      rw [hfiles]
      rfl

end SourceAtlas
