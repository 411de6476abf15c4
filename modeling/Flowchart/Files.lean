import Flowchart.Text.Blank
import Flowchart.Text.Lines
import Flowchart.Text.Quoted
import Flowchart.Text.Utf8

/-!
# Paths and files

`absolutePath` resolves a path by its text alone: empty and `.` parts go, `..` takes the part before
it away. A path that does not start at the root starts at the working directory, which may be gone.

What reading, making or writing a file comes to is said by a `Files` value. Each of the three may fail
by itself: a file that is there may be closed to its reader, and one that was made may have no room for
its text. The faults that the library tells apart are in `FileFault`; a `Failure` is anything else that
goes wrong outside, in the words in which it is told.

A `FileTree` is a tree of directories and files, as far as it is known. There a path is walked part by
part, so that `..` leads out of a directory only where there is one.
-/

namespace Flowchart

/-- Something that went wrong outside, in the words in which it is told. -/
structure Failure where
  reason : String
  deriving DecidableEq, Repr

/-! ### Paths -/

/-- The pieces of a text between slashes; `part` is the piece under way, reversed. -/
def splitSlashesFrom : (part : List Char) → List Char → List (List Char)
  | part, [] => [part.reverse]
  | part, c :: cs =>
    if c = '/' then part.reverse :: splitSlashesFrom [] cs else splitSlashesFrom (c :: part) cs

/-- The parts of a path that lead somewhere else. -/
def pathParts (cs : List Char) : List (List Char) :=
  (splitSlashesFrom [] cs).filter fun part => !part.isEmpty && part != ['.']

/-- The slashes that an absolute path starts with: two if there are exactly two, else one. -/
def rootOf : List Char → List Char
  | '/' :: '/' :: '/' :: _ => ['/']
  | '/' :: '/' :: _ => ['/', '/']
  | '/' :: _ => ['/']
  | _ => []

/-- Adds a part to a path, whose parts are given last first. Above the root there is nothing; a path
without a root may lead above its start. -/
def addPart (rooted : Bool) (parts : List (List Char)) (part : List Char) : List (List Char) :=
  if part = ['.', '.'] then
    match parts with
    | [] => if rooted then [] else [part]
    | last :: before => if last = ['.', '.'] then part :: parts else before
  else part :: parts

/-- A path in its shortest form. -/
def normalPath (cs : List Char) : List Char :=
  let root := rootOf cs
  let parts := ((pathParts cs).foldl (addPart (!root.isEmpty)) []).reverse
  let path := root ++ ['/'].intercalate parts
  if path.isEmpty then ['.'] else path

/-- A path seen from the working directory, if there is one. A path from the root needs none. -/
def absolutePath (directory : Except Failure String) (path : String) : Except Failure String :=
  let cs := path.toList
  if cs.head? = some '/' then .ok (String.ofList (normalPath cs))
  else directory.map fun d => String.ofList (normalPath (d.toList ++ '/' :: cs))

/-! ### Files -/

/-- Why a file cannot be read or made. -/
inductive FileFault where
  | missing
  | directory
  | notDirectory
  /-- A part of the path or the whole of it is too long. -/
  | nameTooLong
  /-- The path holds a character that paths cannot hold. -/
  | badPath
  /-- The system has another reason, by its number and in its words. -/
  | refused (number : Nat) (reason : String)
  deriving DecidableEq, Repr

/-- The wording of a fault. -/
def FileFault.message (path : String) : FileFault → String
  | .missing => "[Errno 2] No such file or directory: " ++ quoted path
  | .directory => "[Errno 21] Is a directory: " ++ quoted path
  | .notDirectory => "[Errno 20] Not a directory: " ++ quoted path
  | .nameTooLong => "[Errno 36] File name too long: " ++ quoted path
  | .badPath => "embedded null byte"
  | .refused number reason =>
    "[Errno " ++ toString number ++ "] " ++ reason ++ ": " ++ quoted path

/-- What reading files, making them and writing into them comes to. -/
structure Files where
  read : (path : String) → Except FileFault (List UInt8)
  /-- Where the file is that is made: a path from the root. -/
  create : (path : String) → Except FileFault String
  /-- Why a text cannot be written into a file that was made, if it cannot. -/
  write : (path text : String) → Option Failure := fun _ _ => none

/-- The text of a file, its line ends as line feeds. -/
def textOf (bytes : List UInt8) : Except Text.Utf8.Fault String :=
  (Text.Utf8.decode bytes).map fun cs => String.ofList (Text.universal cs)

/-! ### Trees of files -/

/-- A place in a tree of files: the names on the way from the root. -/
abbrev Place := List (List Char)

/-- The directories on the way to a place. -/
def Place.above (place : Place) : List Place := (List.range place.length).map place.take

/-- The path of a place. -/
def Place.path (place : Place) : String := String.ofList ('/' :: ['/'].intercalate place)

/-- Directories and files, as far as they are known, and the directory that paths start from. -/
structure FileTree where
  directories : List Place
  files : List (Place × List UInt8)
  start : Place

/-- The names of the directories that are always in the root. -/
def rootNames : List String :=
  ["bin", "boot", "dev", "etc", "home", "lib", "media", "mnt", "opt", "proc", "root", "run", "sbin",
    "srv", "sys", "tmp", "usr", "var"]

/-- The place of the file that is always empty. -/
def nullDevice : Place := ["dev".toList, "null".toList]

/-- The longest name and the longest path, in bytes. -/
def maxNameBytes : Nat := 255
def maxPathBytes : Nat := 4095

/-- How many bytes a text takes. -/
def byteCount (cs : List Char) : Nat := (Text.Utf8.encode cs).length

namespace FileTree

/-- The tree that holds some files, given by name and bytes, in the directory of a path. -/
def ofList (directory : String) (files : List (String × List UInt8)) : FileTree :=
  let start : Place := pathParts directory.toList
  let files := files.map fun (name, bytes) => (start ++ pathParts name.toList, bytes)
  { directories := rootNames.map (fun name => [name.toList]) ++
      (start :: start.above) ++ files.flatMap fun f => Place.above f.1
    files := (nullDevice, []) :: files
    start := start }

variable (t : FileTree)

/-- The bytes of a file, if it is known. -/
def bytes? (place : Place) : Option (List UInt8) := (t.files.find? fun f => f.1 == place).map (·.2)

/-- Where the parts of a path lead from a directory. All but the last lead through directories, and
the last to one too if `toDirectory`; else it need not be there. -/
def walk (toDirectory : Bool) : Place → (parts : List (List Char)) → Except FileFault Place
  | place, [] => .ok place
  | place, part :: parts =>
    let next := place ++ [part]
    if part = ['.', '.'] then walk toDirectory place.dropLast parts
    else if maxNameBytes < byteCount part then .error .nameTooLong
    else if t.directories.contains next then walk toDirectory next parts
    else if parts.isEmpty && !toDirectory then .ok next
    else .error (if (t.bytes? next).isSome then .notDirectory else .missing)

/-- Whether a path ends in a way that only a directory's may. -/
def endsAsDirectory (path : List Char) : Bool :=
  (splitSlashesFrom [] path).getLast?.any fun part => part.isEmpty || part = ['.']

/-- Where a path leads. -/
def follow (path : List Char) : Except FileFault Place :=
  if path.contains '\x00' then .error .badPath
  else if path.isEmpty then .error .missing
  else if maxPathBytes < byteCount path then .error .nameTooLong
  else
    t.walk (endsAsDirectory path) (if path.head? = some '/' then [] else t.start) (pathParts path)

/-- The bytes of the file that a path leads to. -/
def read (path : String) : Except FileFault (List UInt8) := do
  let place ← t.follow path.toList
  if t.directories.contains place then throw .directory
  else
    match t.bytes? place with
    | some bytes => return bytes
    | none => throw .missing

/-- The place of the file that is made under a path. A path with a slash at its end is a directory's,
even if there is none. -/
def create (path : String) : Except FileFault Place := do
  let cs := path.toList
  let bare := Text.dropEndWhile (· == '/') cs
  let place ← t.follow (if bare.isEmpty then cs else bare)
  if t.directories.contains place || bare != cs then throw .directory
  else return place

/-- What reading files of the tree and making files in it comes to. -/
def toFiles : Files where
  read := t.read
  create path := (t.create path).map Place.path

end FileTree

end Flowchart
