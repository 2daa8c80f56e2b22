import SourceAtlas.ChangeFilter
import SourceAtlas.Proofs.Dict
import SourceAtlas.Proofs.RepoPath

/-!
# Changed files: what a filter knows

A filter is made from the paths and hashes that an earlier run left. The paths are brought to normal
form and the hashes to small letters, so the question whether a file has changed is one about the
list itself (`isChanged_ofHashes`): does it hold the hash of the file, up to the form of the path
and the case of the digits? This takes two facts:

* **`asciiLower_contentHash`**: a hash is written in small letters, so it is compared as it stands;
* **no two paths of the list have one normal form**, so no entry hides another.

A run writes down its paths in normal form, but the normal form of a normal form can be another
path. So a filter made from the hashes of a run knows all of them only if their paths are their own
normal forms (`ofHashes_entries_unchanged_iff`).
-/

namespace SourceAtlas

/-! ## Hashes are written in small letters -/

theorem Sha256.asciiLower_of_mem_hexByte {c : Char} {byte : UInt8} (h : c ∈ hexByte byte) :
    Chars.asciiLower c = c := by
  have hdigit : ∀ n < 16, Chars.asciiLower (Char.ofNat (if n < 10 then 48 + n else 87 + n)) =
      Char.ofNat (if n < 10 then 48 + n else 87 + n) := by
    decide
  have hbyte : byte.toNat < 256 := byte.toNat_lt
  unfold hexByte at h
  simp only [List.mem_cons, List.not_mem_nil, or_false] at h
  rcases h with rfl | rfl
  · exact hdigit _ (by omega)
  · exact hdigit _ (by omega)

theorem asciiLower_contentHash (text : String) :
    Text.asciiLower (contentHash text) = contentHash text := by
  unfold Text.asciiLower Text.onChars contentHash Sha256.hexDigest
  have hsmall : ∀ c ∈ (Sha256.digest text.toUTF8.toList).flatMap Sha256.hexByte,
      Chars.asciiLower c = c := by
    intro c hc
    obtain ⟨byte, -, hbyte⟩ := List.mem_flatMap.mp hc
    exact Sha256.asciiLower_of_mem_hexByte hbyte
  rw [String.toList_ofList, Traversal.map_eq_self hsmall]

namespace ChangeFilter

/-! ## What a list of hashes holds -/

/-- Whether a list of paths and hashes holds the hash of a path, up to the form of the path and the
case of the digits. -/
def holds (prior : List (String × String)) (path hash : String) : Bool :=
  prior.any fun e => RepoPath.normal e.1 == path && Text.asciiLower e.2 == Text.asciiLower hash

theorem holds_eq_true_iff {prior : List (String × String)} {path hash : String} :
    holds prior path hash = true ↔
      ∃ e ∈ prior, RepoPath.normal e.1 = path ∧ Text.asciiLower e.2 = Text.asciiLower hash := by
  unfold holds
  simp only [List.any_eq_true, Bool.and_eq_true, beq_iff_eq]

/-- What a filter finds under a path stems from an entry whose path has that normal form. -/
theorem exists_mem_of_isChanged_eq_false {prior : List (String × String)} {path hash : String}
    (h : (ofHashes prior).isChanged path hash = false) :
    ∃ e ∈ prior, RepoPath.normal e.1 = path ∧ Text.asciiLower e.2 = hash := by
  unfold isChanged at h
  rw [bne_eq_false_iff_eq] at h
  obtain ⟨e, he, heq⟩ := List.mem_map.mp (Dict.mem_of_find?_ofList h)
  cases heq
  exact ⟨e, he, rfl, rfl⟩

/-- **A file has changed if the earlier run left another hash or none.** -/
theorem isChanged_ofHashes {prior : List (String × String)}
    (hprior : (prior.map fun e => RepoPath.normal e.1).Nodup) (path text : String) :
    (ofHashes prior).isChanged path (contentHash text) = !holds prior path (contentHash text) := by
  have hkeys : ((prior.map fun e => (RepoPath.normal e.1, Text.asciiLower e.2)).map
      Prod.fst).Nodup := by
    rwa [List.map_map]
  have hfalse : (ofHashes prior).isChanged path (contentHash text) = false ↔
      holds prior path (contentHash text) = true := by
    rw [holds_eq_true_iff, asciiLower_contentHash]
    constructor
    · exact exists_mem_of_isChanged_eq_false
    · rintro ⟨e, he, hpath, hhash⟩
      unfold isChanged
      rw [bne_eq_false_iff_eq]
      refine (Dict.find?_ofList_eq_some_iff hkeys).mpr (List.mem_map.mpr ⟨e, he, ?_⟩)
      rw [hpath, hhash]
  cases hholds : holds prior path (contentHash text) with
  | true => exact hfalse.mpr hholds
  | false =>
    rw [Bool.not_false, ← Bool.not_eq_false, hfalse, hholds]
    exact Bool.false_ne_true

/-- A filter made from a dictionary of hashes knows every entry of it exactly if the paths are their
own normal forms. -/
theorem ofHashes_entries_unchanged_iff {d : Dict String}
    (hlower : ∀ e ∈ d.entries, Text.asciiLower e.2 = e.2)
    (hslash : ∀ path ∈ d.keys, '\\' ∉ path.toList) :
    (∀ e ∈ d.entries, (ofHashes d.entries).isChanged e.1 e.2 = false) ↔
      ∀ path ∈ d.keys, RepoPath.normal path = path := by
  constructor
  · -- every key is the normal form of a key, so the normal form permutes the keys
    intro hunchanged
    have hsub : d.keys.toFinset ⊆ d.keys.toFinset.image RepoPath.normal := by
      intro path hpath
      obtain ⟨e, he, rfl⟩ := List.mem_map.mp (List.mem_toFinset.mp hpath)
      obtain ⟨e', he', hnormal, -⟩ := exists_mem_of_isChanged_eq_false (hunchanged e he)
      exact Finset.mem_image.mpr
        ⟨e'.1, List.mem_toFinset.mpr (List.mem_map_of_mem he'), hnormal⟩
    intro path hpath
    exact RepoPath.normal_eq_self_of_subset_image
      (fun p hp => hslash p (List.mem_toFinset.mp hp)) hsub path (List.mem_toFinset.mpr hpath)
  · -- then making the filter changes no entry
    intro hnormal
    have hsame : d.entries.map (fun e => (RepoPath.normal e.1, Text.asciiLower e.2)) =
        d.entries := by
      refine Traversal.map_eq_self fun e he => ?_
      rw [hnormal e.1 (List.mem_map_of_mem he), hlower e he]
    rintro ⟨path, hash⟩ he
    unfold isChanged ofHashes
    rw [bne_eq_false_iff_eq]
    show (Dict.ofList (d.entries.map fun e => (RepoPath.normal e.1, Text.asciiLower e.2))).find?
      path = some hash
    rw [hsame]
    exact (Dict.find?_ofList_eq_some_iff d.keys_nodup).mpr he

end ChangeFilter

end SourceAtlas
