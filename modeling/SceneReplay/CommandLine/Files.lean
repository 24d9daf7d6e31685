import SceneReplay.Text.Literal
import SceneReplay.Text.Pieces

/-!
# Files and paths

A run sees some files and directories, each at a *location*: the names that lead to it
from the root (`SceneReplay.CommandLine.Location`). A path names a location by steps
that are taken one after the other, from the root or from the directory that the program
runs in (`SceneReplay.CommandLine.Files.follow`). Every step but the last must reach a
directory; the last may reach a directory, a file, or a place where a file could be.
-/

namespace SceneReplay.CommandLine

/-! ### Paths -/

/-- The steps of a path: its pieces without those that lead nowhere. -/
def pathSteps (path : String) : List String :=
  (Text.pieces '/' path.toList).map String.ofList |>.filter fun p => p != "" && p != "."

/-- What a path starts with when it leads from the root. Two slashes are kept apart from
one; more count as one. -/
def pathRoot (path : String) : String :=
  if path.startsWith "///" then "/"
  else if path.startsWith "//" then "//"
  else if path.startsWith "/" then "/"
  else ""

/-- A path in its simplest form. -/
def cleanPath (path : String) : String :=
  let root := pathRoot path
  let steps := pathSteps path
  if root.isEmpty && steps.isEmpty then "." else root ++ String.intercalate "/" steps

/-- The last step of a path. -/
def fileName (path : String) : String := (pathSteps path).getLastD ""

/-! ### What a run sees -/

/-- The names that lead from the root to a file or directory. -/
abbrev Location := List String

/-- The files and directories that a run sees. -/
structure Files where
  /-- The directory that the program runs in. -/
  home : Location
  /-- Files and their bytes. -/
  contents : List (Location × List UInt8)
  /-- Directories, besides those on the way to one of these, to a file, or to where the
  program runs. -/
  directories : List Location

/-- What a path leads to. -/
inductive Place where
  /-- A file. -/
  | file (location : Location) (bytes : List UInt8)
  /-- A directory. -/
  | directory
  /-- A location in a directory where nothing is yet. -/
  | vacant (location : Location)
deriving DecidableEq

/-- Why a path cannot be used. -/
inductive PathFault where
  /-- It leads through something that is not there. -/
  | missing
  /-- It leads through a file. -/
  | notADirectory
  /-- It leads to a directory, where a file is wanted. -/
  | isADirectory
  /-- It is too long, or one of its names is. -/
  | tooLong
deriving DecidableEq, Repr

/-- The wording of a fault of a path. -/
def PathFault.message (path : String) : PathFault → String
  | .missing => "[Errno 2] No such file or directory: " ++ Text.literal path
  | .notADirectory => "[Errno 20] Not a directory: " ++ Text.literal path
  | .isADirectory => "[Errno 21] Is a directory: " ++ Text.literal path
  | .tooLong => "[Errno 36] File name too long: " ++ Text.literal path

/-- The greatest number of bytes in one name. -/
def nameLimit : Nat := 255

/-- The number of bytes that no path reaches. -/
def pathLimit : Nat := 4096

namespace Files

/-- Whether there is a directory at a location. -/
def isDirectory (files : Files) (l : Location) : Bool :=
  l.isPrefixOf files.home || files.directories.any l.isPrefixOf ||
    files.contents.any fun f => l.isPrefixOf f.1 && l != f.1

/-- The bytes of the file at a location. -/
def bytesAt? (files : Files) (l : Location) : Option (List UInt8) :=
  files.contents.lookup l

/-- Takes steps one after the other, starting in the directory `here`. -/
def walk (files : Files) (here : Location) : List String → Except PathFault Place
  | [] => .ok .directory
  | step :: steps =>
    if step = ".." then walk files here.dropLast steps
    else if nameLimit < step.utf8ByteSize then .error .tooLong
    else
      let next := here ++ [step]
      if files.isDirectory next then walk files next steps
      else
        match files.bytesAt? next, steps with
        | some bytes, [] => .ok (.file next bytes)
        | some _, _ :: _ => .error .notADirectory
        | none, [] => .ok (.vacant next)
        | none, _ :: _ => .error .missing

/-- The locations that a path passes, wherever there is something or not. -/
def passed (here : Location) : List String → List Location
  | [] => []
  | step :: steps =>
    let next := if step = ".." then here.dropLast else here ++ [step]
    next :: passed next steps

/-- Where the steps of a path start. -/
def start (home : Location) (path : String) : Location :=
  if (pathRoot path).isEmpty then home else []

/-- What a path leads to. -/
def follow (files : Files) (path : String) : Except PathFault Place :=
  if pathLimit ≤ (cleanPath path).utf8ByteSize then .error .tooLong
  else walk files (start files.home path) (pathSteps path)

/-- Where a file can be written under the given path, or why it cannot. -/
def target (files : Files) (path : String) : Except PathFault Location :=
  match files.follow path with
  | .ok (.file l _) => .ok l
  | .ok (.vacant l) => .ok l
  | .ok .directory => .error .isADirectory
  | .error f => .error f

/-- A location as a path from the directory that the program runs in, if it lies in
it. -/
def relative? (files : Files) (l : Location) : Option String :=
  if files.home.isPrefixOf l then some (String.intercalate "/" (l.drop files.home.length))
  else none

end Files

end SceneReplay.CommandLine
