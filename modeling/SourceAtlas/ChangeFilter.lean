import SourceAtlas.Dict
import SourceAtlas.Digest.Sha256
import SourceAtlas.Json.Read
import SourceAtlas.RepoPath

/-!
# Changed files

The hashes of an earlier run tell which files have changed since. A file that the earlier run did
not know counts as changed.
-/

namespace SourceAtlas

/-- The hash of a text: its SHA-256 digest in hexadecimal digits. -/
def contentHash (text : String) : String :=
  Sha256.hexDigest text.toUTF8.toList

/-- The hashes of an earlier run by path, in small letters. -/
structure ChangeFilter where
  prior : Dict String
  deriving DecidableEq

namespace ChangeFilter

/-- The filter for the paths and hashes of an earlier run. -/
def ofHashes (hashes : List (String × String)) : ChangeFilter :=
  ⟨Dict.ofList (hashes.map fun (path, hash) => (RepoPath.normal path, Text.asciiLower hash))⟩

/-- The filter that lets everything pass. -/
def none : ChangeFilter :=
  ofHashes []

/-- The pairs of an object whose values are all texts. -/
def hashesOf? : Json → Option (List (String × String))
  | .obj members => members.mapM fun (path, value) => value.asString?.map (path, ·)
  | _ => Option.none

/-- Reads an object from paths to hashes; of a repeated path the last hash counts. -/
def ofJson? (text : String) : Option ChangeFilter := do
  let hashes ← hashesOf? (← Json.read? text)
  return ofHashes (Dict.ofList hashes).entries

/-- Whether the filter knows any file. -/
def isActive (f : ChangeFilter) : Bool :=
  !f.prior.entries.isEmpty

/-- Whether a file with this hash has changed. -/
def isChanged (f : ChangeFilter) (path hash : String) : Bool :=
  f.prior.find? path != some hash

/-- The paths that have changed, given how to read a file; one that cannot be read is kept. -/
def changed (f : ChangeFilter) (read? : String → Option String) (paths : List String) :
    List String :=
  if f.isActive then
    paths.filter fun path =>
      match read? path with
      | some text => f.isChanged path (contentHash text)
      | Option.none => true
  else paths

end ChangeFilter

end SourceAtlas
