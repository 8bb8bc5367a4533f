import Highlighter.Log
import Highlighter.Path

/-!
# Directories

A directory as a value: the files and directories below it by their names. Reading a path
walks through the directories on its way, as the file system does, and fails where it
would fail.
-/

namespace Highlighter

/-- What a name stands for. -/
inductive Directory.Entry where
  | file (bytes : ByteArray)
  | directory

/-- The files below a directory, each under the names that lead to it. A name on the way to
another entry is a directory, whether it is listed or not. -/
structure Directory where
  entries : List (List (List Char) × Directory.Entry)

namespace Directory

/-- The directory of the given entries, whose names are separated by slashes. -/
def ofEntries (entries : List (String × Entry)) : Directory :=
  ⟨entries.map fun entry => ((Path.cut '/' entry.1.toList).filter (!·.isEmpty), entry.2)⟩

/-- What a sequence of names leads to. The empty sequence leads to the directory itself. -/
def find? (directory : Directory) (names : List (List Char)) : Option Entry :=
  if names.isEmpty then some .directory
  else
    match directory.entries.lookup names with
    | some entry => some entry
    | none =>
      if directory.entries.any fun entry => names.isPrefixOf entry.1 then some .directory
      else none

/-- The longest name that an entry can have, in bytes. -/
def longestName : Nat := 255

/-- The longest path, in bytes. -/
def longestPath : Nat := 4095

/-- Walk along the parts of a path. `names` leads to where the walk is, with the last name
first. Nothing is known about what lies above the directory. -/
def walk (directory : Directory) : (names : List (List Char)) → List (List Char) →
    Except ReadFailure Entry
  | names, [] =>
    match directory.find? names.reverse with
    | some entry => .ok entry
    | none => .error .notFound
  | names, part :: rest =>
    match directory.find? names.reverse with
    | none => .error .notFound
    | some (.file _) => .error .notDirectory
    | some .directory =>
      if part = [] ∨ part = ['.'] then walk directory names rest
      else if part = ['.', '.'] then
        if names.isEmpty ∧ rest.any (!·.isEmpty) then .error .notFound
        else walk directory names.tail rest
      else if longestName < (String.ofList part).utf8ByteSize then .error .nameTooLong
      else walk directory (part :: names) rest

/-- Read the text at a path. -/
def read (directory : Directory) (path : String) : Except ReadFailure String :=
  if path.isEmpty then .error .notFound
  else if path.toList.contains '\x00' then .error .invalidName
  else if longestPath < path.utf8ByteSize then .error .nameTooLong
  else if path.toList.head? = some '/' then
    if path.toList.all (· = '/') then .error .isDirectory else .error .notFound
  else
    match directory.walk [] (Path.cut '/' path.toList) with
    | .error failure => .error failure
    | .ok .directory => .error .isDirectory
    | .ok (.file bytes) =>
      match String.fromUTF8? bytes with
      | some text => .ok text
      | none => .error .invalidText

end Directory

end Highlighter
