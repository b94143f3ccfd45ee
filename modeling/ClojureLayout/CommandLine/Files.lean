import ClojureLayout.CommandLine.Path
import ClojureLayout.Decimal.Integer
import ClojureLayout.Text.Quoted

/-!
# Reading files

The program reads files through `FileReader`, whose only operation gives the bytes of a file.
`Directory` is a directory held in memory, with the files below it; the directories that lead to
them exist, and so do those around it, of whose files nothing is known.
-/

namespace ClojureLayout.CommandLine

/-- Why a file cannot be read. -/
inductive FileFault where
  | notFound (path : Path)
  | notDirectory (path : Path)
  | isDirectory (path : Path)
  | nameTooLong (path : Path)
  /-- Any other fault of the file system, by its number. -/
  | other (number : Nat) (wording : String) (path : Path)
  /-- The path holds the character that ends a path. -/
  | nulInPath
deriving DecidableEq

namespace FileFault

/-- A fault of the file system with its number. -/
def numbered (number : Nat) (wording : String) (path : Path) : String :=
  "[Errno " ++ Decimal.ofNat number ++ "] " ++ wording ++ ": " ++ Text.quoted path.text

def message : FileFault → String
  | notFound path => numbered 2 "No such file or directory" path
  | notDirectory path => numbered 20 "Not a directory" path
  | isDirectory path => numbered 21 "Is a directory" path
  | nameTooLong path => numbered 36 "File name too long" path
  | other number wording path => numbered number wording path
  | nulInPath => "embedded null byte"

/-- The number of the fault that links lead to each other. -/
def linkLoop : Nat := 40

/-- There is no file at the path, as opposed to one that cannot be looked up or read. Reading the
    path tells it, so the path is not asked about before it is read. -/
def isAbsence : FileFault → Bool
  | notFound _ | notDirectory _ | isDirectory _ | nulInPath => true
  | nameTooLong _ => false
  | other number _ _ => number == linkLoop

end FileFault

/-- How files are read in `m`. Only regular files are meant: what is at a path, but is neither a file
    nor a directory, is none of the outcomes. -/
structure FileReader (m : Type → Type) where
  read : Path → m (Except FileFault (List UInt8))

/-- A directory in memory: its files, each with the names that lead to it. -/
structure Directory where
  files : List (List String × List UInt8)

/-- Where a walk along a path has come to. -/
inductive Spot where
  /-- Above the directory, or at the root of all paths. -/
  | outside
  | inside (names : List String)
deriving DecidableEq

namespace Directory

/-- The longest name a directory can hold, in bytes. -/
def longestName : Nat := 255

/-- The longest path that can be looked up, in bytes. -/
def longestPath : Nat := 4095

/-- The content of a file. -/
def content? (d : Directory) (names : List String) : Option (List UInt8) := d.files.lookup names

/-- There is a directory of that name. -/
def hasDirectory (d : Directory) (names : List String) : Bool :=
  names.isEmpty || d.files.any fun f => names.isPrefixOf f.1 && decide (names.length < f.1.length)

/-- Follows the names of `path` from a spot. A name is looked up in a directory only. -/
def walk (d : Directory) (path : Path) : List String → Spot → Except FileFault Spot
  | [], spot => .ok spot
  | name :: rest, spot =>
    match spot with
    | .outside =>
      if name = ".." then walk d path rest .outside
      else if longestName < name.utf8ByteSize then .error (.nameTooLong path)
      else .error (.notFound path)
    | .inside names =>
      if d.hasDirectory names then
        if name = ".." then
          walk d path rest (if names.isEmpty then .outside else .inside names.dropLast)
        else if longestName < name.utf8ByteSize then .error (.nameTooLong path)
        else
          let names := names ++ [name]
          if (d.content? names).isSome || d.hasDirectory names then walk d path rest (.inside names)
          else .error (.notFound path)
      else .error (.notDirectory path)

/-- The bytes of the file at a path. -/
def read (d : Directory) (path : Path) : Except FileFault (List UInt8) :=
  if path.text.toList.contains '\x00' then .error .nulInPath
  else if longestPath < path.text.utf8ByteSize then .error (.nameTooLong path)
  else do
    match ← d.walk path path.names (if path.root = "" then .inside [] else .outside) with
    | .outside => .error (.isDirectory path)
    | .inside names =>
      match d.content? names with
      | some bytes => .ok bytes
      | none => .error (.isDirectory path)

/-- Reads the files of the directory. -/
def reader (d : Directory) : FileReader Id := { read := d.read }

end Directory

end ClojureLayout.CommandLine
