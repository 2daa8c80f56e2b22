import SourceAtlas.Dict
import SourceAtlas.RepoPath

/-!
# Files under a directory

A directory tree as a value: the files below a root with their contents. Directories exist because
there are files in them.
-/

namespace SourceAtlas

/-- What a file holds: its size in bytes, and its text if the bytes are one. -/
structure FileContent where
  size : Nat
  text : Option String
  deriving DecidableEq, Repr

def FileContent.ofText (text : String) : FileContent :=
  { size := text.utf8ByteSize, text := some text }

def FileContent.ofBytes (bytes : ByteArray) : FileContent :=
  { size := bytes.size, text := String.fromUTF8? bytes }

/-- The files below a root, by their paths from there. -/
structure Disk where
  files : Dict FileContent
  deriving DecidableEq

namespace Disk

def empty : Disk :=
  ⟨Dict.empty⟩

/-- The path without empty parts and parts that stay where they are. -/
def plainPath (path : String) : String :=
  Text.join "/" ((RepoPath.components path).filter (· != "."))

/-- Writes a file, in place of what was there. -/
def write (d : Disk) (path : String) (content : FileContent) : Disk :=
  ⟨d.files.insert (plainPath path) content⟩

def delete (d : Disk) (path : String) : Disk :=
  ⟨d.files.filter fun p _ => p != plainPath path⟩

/-- The text of a file. A path that ends in a slash names no file. -/
def read? (d : Disk) (path : String) : Option String :=
  if Text.endsWith path "/" then none
  else (d.files.find? (plainPath path)).bind (·.text)

end Disk

end SourceAtlas
