import Desugar.Text.Basic

/-!
# Files of a working directory

The files of a working directory and of the directories in it, without the rest of the
machine. A path is followed part by part; empty parts and single dots stay where they
are, double dots go back, and every part but the last has to be a directory. A path
that leaves the working directory leads nowhere here, and neither does one that is too
long or has a name that is.
-/

namespace Desugar

/-- A file: the parts of its path from the working directory, and its bytes. -/
structure File where
  parts : List Text
  content : ByteArray

/-- The files of a working directory. A directory exists if a file lies in it. -/
abbrev Files := List File

namespace Files

/-- Number of bytes that the longest name of a file has. -/
def maxNameBytes : Nat := 255

/-- Number of bytes that the longest path has. -/
def maxPathBytes : Nat := 4095

/-- The parts of a path. -/
def pathParts (path : Text) : List Text :=
  path.splitOn '/'

/-- The files with the given paths and contents. -/
def ofEntries (entries : List (Text × ByteArray)) : Files :=
  entries.map fun entry =>
    ⟨(pathParts entry.1).filter fun part => part != [] && part != ['.'], entry.2⟩

/-- Whether the parts lead to a directory. -/
def hasDirectory (files : Files) (parts : List Text) : Bool :=
  parts.isEmpty || files.any fun file => parts.isPrefixOf file.parts && parts != file.parts

/-- Follow the parts of a path from a directory. -/
def follow? (files : Files) : (directory parts : List Text) → Option (List Text)
  | directory, [] => some directory
  | directory, part :: parts =>
      if part = [] || part = ['.'] then follow? files directory parts
      else if part = ['.', '.'] then
        if directory.isEmpty then none else follow? files directory.dropLast parts
      else if maxNameBytes < Text.byteLength part then none
      else if parts.isEmpty then some (directory ++ [part])
      else if files.hasDirectory (directory ++ [part]) then
        follow? files (directory ++ [part]) parts
      else none

/-- Where a path leads, in the parts from the working directory. -/
def locate? (files : Files) (path : Text) : Option (List Text) :=
  if path.head? = some '/' || maxPathBytes < Text.byteLength path then none
  else files.follow? [] (pathParts path)

/-- The bytes of the file that a path leads to. -/
def read? (files : Files) (path : Text) : Option ByteArray :=
  (files.locate? path).bind fun parts =>
    (files.find? fun file => file.parts == parts).map File.content

/-- The files with one of them replaced, or added. -/
def put (files : Files) (file : File) : Files :=
  if files.any fun other => other.parts == file.parts then
    files.map fun other => if other.parts == file.parts then file else other
  else files ++ [file]

/-- The files after bytes are stored where a path leads to. A directory cannot be
written to. -/
def store? (files : Files) (path : Text) (content : ByteArray) : Option Files :=
  (files.locate? path).bind fun parts =>
    if files.hasDirectory parts then none else some (files.put ⟨parts, content⟩)

end Files

end Desugar
