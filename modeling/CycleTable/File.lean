import CycleTable.Text

/-!
# Files

Paths, the files of a tree by their location, and why a file could not be read or created.
-/

namespace CycleTable

inductive FileFault
  | notFound
  | notDirectory
  | isDirectory
  | nameTooLong
  | nulInName
  /-- The file was to be read as text. -/
  | notText
  /-- Any other refusal by the operating system. -/
  | refused (code : Nat) (reason : String)
  deriving DecidableEq, Repr

namespace FileFault

def numbered (reason : String) (code : Nat) : String :=
  reason ++ " (os error " ++ toString code ++ ")"

def message : FileFault → String
  | .notFound => numbered "No such file or directory" 2
  | .notDirectory => numbered "Not a directory" 20
  | .isDirectory => numbered "Is a directory" 21
  | .nameTooLong => numbered "File name too long" 36
  | .nulInName => "file name contained an unexpected NUL byte"
  | .notText => "stream did not contain valid UTF-8"
  | .refused code reason => numbered reason code

end FileFault

end CycleTable

/-!
## Paths

A path is a text whose parts are separated by slashes. Empty parts and single dots stand for
the place that the path has reached.
-/

namespace CycleTable.Path

def parts (path : String) : List String :=
  (path.toList.splitOn '/').map String.ofList

def isAbsolute (path : String) : Bool :=
  path.toList.head? == some '/'

def isStay (part : String) : Bool :=
  part == "" || part == "."

def fileName? (path : String) : Option String :=
  ((parts path).filter fun part => !isStay part).getLast?

/--
The text behind the last dot of a file's name. A dot in first place opens no extension, and
neither do the two dots of the parent.
-/
def extension? (path : String) : Option String :=
  match fileName? path with
  | none => none
  | some name =>
      let pieces := name.toList.splitOn '.'
      if name == ".." || pieces.dropLast.flatten.isEmpty && pieces.length ≤ 2 then none
      else pieces.getLast?.map String.ofList

/-- The path has an extension, in either case of its letters. -/
def hasExtension (extension path : String) : Bool :=
  (extension? path).any fun found =>
    found.toList.map Char.toLower == extension.toList.map Char.toLower

end CycleTable.Path

/-!
## File trees

Files by their location, and the place where paths start that do not start at the root. The
root is its own parent.
-/

namespace CycleTable

/-- The names on the way down from the root. -/
abbrev Location := List String

structure FileTree where
  files : List (Location × Bytes)
  /-- Directories that are there even if they hold no file. -/
  directories : List Location := []
  workingDirectory : Location := []
  deriving DecidableEq, Repr

namespace FileTree

/-- The longest name of a file, in bytes. -/
def maxName : Nat := 255

/-- Paths are shorter than this, in bytes. -/
def maxPath : Nat := 4096

def file? (tree : FileTree) (location : Location) : Option Bytes :=
  tree.files.lookup location

/-- A directory is one that is named as such, or that something lies in. -/
def isDirectory (tree : FileTree) (location : Location) : Bool :=
  (tree.workingDirectory :: tree.directories).any location.isPrefixOf ||
    tree.files.any fun file => location.isPrefixOf file.1 && location != file.1

def start (tree : FileTree) (path : String) : Location :=
  if Path.isAbsolute path then [] else tree.workingDirectory

/-- Go one part further, whether or not anything is there. -/
def step (place : Location) (part : String) : Except FileFault Location :=
  if Path.isStay part then .ok place
  else if part = ".." then .ok place.dropLast
  else if maxName < part.utf8ByteSize then .error .nameTooLong
  else .ok (place ++ [part])

/-- Go one part further, to a directory. -/
def enter (tree : FileTree) (place : Location) (part : String) :
    Except FileFault Location := do
  let next ← step place part
  if tree.isDirectory next then return next
  else if (tree.file? next).isSome then .error .notDirectory
  else .error .notFound

def enterAll (tree : FileTree) (place : Location) (parts : List String) :
    Except FileFault Location :=
  parts.foldlM tree.enter place

/-- What every path has to satisfy, whatever it leads to. -/
def wellFormed (path : String) : Except FileFault (List String) :=
  if path.toList.contains '\x00' then .error .nulInName
  else if path.isEmpty then .error .notFound
  else if maxPath ≤ path.utf8ByteSize then .error .nameTooLong
  else .ok (Path.parts path)

def read (tree : FileTree) (path : String) : Except FileFault Bytes := do
  let parts ← wellFormed path
  let place ← tree.enterAll (tree.start path) parts.dropLast
  let location ← step place (parts.getLast?.getD "")
  match tree.file? location with
  | some contents => return contents
  | none => .error (if tree.isDirectory location then .isDirectory else .notFound)

/-- The place of a file that is to be created. A path that ends in a slash names a
directory, even where there is none, and even if its name is too long. -/
def placeFor (tree : FileTree) (path : String) : Except FileFault Location := do
  let parts ← wellFormed path
  let named := (parts.reverse.dropWhile String.isEmpty).reverse
  let place ← tree.enterAll (tree.start path) named.dropLast
  if named.length < parts.length then .error .isDirectory
  else do
    let location ← step place (named.getLast?.getD "")
    if tree.isDirectory location then .error .isDirectory else return location

/-- Put a file in place of whatever is at its location. -/
def put (tree : FileTree) (location : Location) (contents : Bytes) : FileTree :=
  { tree with
    files := (location, contents) :: tree.files.filter fun file => file.1 != location }

theorem file?_put (tree : FileTree) (location other : Location) (contents : Bytes) :
    (tree.put location contents).file? other =
      if other = location then some contents else tree.file? other := by
  obtain ⟨files, directories, workingDirectory⟩ := tree
  by_cases hother : other = location
  · subst hother
    simp [put, file?]
  · have hbeq : (other == location) = false := beq_eq_false_iff_ne.mpr hother
    simp only [put, file?, List.lookup_cons, hbeq, hother, if_false]
    induction files with
    | nil => rfl
    | cons file rest ih =>
        obtain ⟨place, old⟩ := file
        by_cases hplace : place = location
        · subst hplace
          rw [List.filter_cons_of_neg (by simp), ih, List.lookup_cons, hbeq]
        · rw [List.filter_cons_of_pos (by simpa using hplace), List.lookup_cons,
            List.lookup_cons, ih]

def write (tree : FileTree) (path : String) (contents : Bytes) :
    Except FileFault FileTree := do
  let location ← tree.placeFor path
  return tree.put location contents

end FileTree

end CycleTable
