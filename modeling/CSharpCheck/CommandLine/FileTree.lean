import CSharpCheck.Text.Quoted

/-!
# Files

What a file name means, the failures of reading a file, and a tree of files in which names are
looked up the way an operating system does. The tree hangs in a directory for temporary files, and
around it lie the directories that every system has.
-/

namespace CSharpCheck

/-- Why a file cannot be read. -/
inductive ReadFailure where
  | notFound
  | accessDenied
  | notADirectory
  | isADirectory
  | nameTooLong
  | nulInName
  /-- Any other failure, with the number and the text of the operating system. -/
  | other (number : Nat) (text : String)
  deriving DecidableEq, Repr

namespace ReadFailure

/-- The number of the failure and its text; a name with NUL never gets to the operating
system. -/
def systemText? : ReadFailure → Option (Nat × String)
  | .notFound => some (2, "No such file or directory")
  | .accessDenied => some (13, "Permission denied")
  | .notADirectory => some (20, "Not a directory")
  | .isADirectory => some (21, "Is a directory")
  | .nameTooLong => some (36, "File name too long")
  | .nulInName => none
  | .other number text => some (number, text)

/-- Whether the failure is a mistake that users make with file names. -/
def isExpected : ReadFailure → Bool
  | .notFound | .accessDenied | .isADirectory => true
  | _ => false

/-- The text that describes the failure to read the file of a name. -/
def message (f : ReadFailure) (name : String) : String :=
  (if f.isExpected then "Error: " else "Internal error: ") ++
    match f.systemText? with
    | some (number, text) =>
      "[Errno " ++ toString number ++ "] " ++ text ++ ": " ++
        String.ofList (quoted name.toList)
    | none => "embedded null byte"

end ReadFailure

/-- The meaning of a file name: where it starts and the names on the way. Empty names and single
dots do not count, except that two slashes at the beginning are kept. -/
structure FilePath where
  /-- The number of slashes at the beginning that count. -/
  rootSlashes : Nat
  names : List String
  deriving DecidableEq, Repr

namespace FilePath

/-- The path that a text spells. -/
def ofText (text : String) : FilePath where
  rootSlashes :=
    match (text.toList.takeWhile (· = '/')).length with
    | 0 => 0
    | 2 => 2
    | _ => 1
  names := (text.splitOn "/").filter fun name ↦ name ≠ "" && name ≠ "."

/-- The shortest text that spells the path. -/
def text (p : FilePath) : String :=
  let text := String.ofList (List.replicate p.rootSlashes '/') ++ "/".intercalate p.names
  if text = "" then "." else text

end FilePath

/-- Files and directories of one directory and those inside it, each under its path. The directory
has no name of its own, so no path from outside leads into it. -/
structure FileTree where
  files : List (List String × List UInt8)
  directories : List (List String)
  deriving DecidableEq, Repr

namespace FileTree

/-- The greatest number of bytes in one name of a path. -/
def maxNameBytes : Nat := 255

/-- The greatest number of bytes in the text of a path. -/
def maxPathBytes : Nat := 4095

/-- A place to which a path leads. -/
inductive Place where
  /-- A place in the tree, with the path from its top. -/
  | inside (path : List String)
  /-- A place of the system, with the path from its root. -/
  | outside (path : List String)
  deriving DecidableEq, Repr

namespace Place

/-- The place above. Nothing lies above the root. -/
def parent : Place → Place
  | .inside [] => .outside ["tmp"]
  | .inside path => .inside path.dropLast
  | .outside path => .outside path.dropLast

/-- The place with the name below. -/
def child (place : Place) (name : String) : Place :=
  match place with
  | .inside path => .inside (path ++ [name])
  | .outside path => .outside (path ++ [name])

end Place

/-- The directories of every system that lie at its root. -/
def systemDirectories : List String :=
  ["bin", "boot", "dev", "etc", "home", "lib", "media", "mnt", "opt", "proc", "root", "run", "sbin",
   "srv", "sys", "tmp", "usr", "var"]

/-- Whether there is a directory at the place. Whatever has something below it is one. -/
def isDirectory (t : FileTree) : Place → Bool
  | .inside path =>
    path.isEmpty || t.directories.any (path.isPrefixOf ·) ||
      t.files.any fun (file, _) ↦ path.isPrefixOf file && file != path
  | .outside [] => true
  | .outside [name] => systemDirectories.contains name
  | .outside _ => false

/-- The content of the file at the place. The only file of the system is the null device, which
is empty. -/
def content? (t : FileTree) : Place → Option (List UInt8)
  | .inside path => t.files.lookup path
  | .outside path => if path = ["dev", "null"] then some [] else none

/-- The place to which a name leads from a place. -/
def step (t : FileTree) (place : Place) (name : String) : Except ReadFailure Place :=
  if !t.isDirectory place then
    .error (if (t.content? place).isSome then .notADirectory else .notFound)
  else if maxNameBytes < name.utf8ByteSize then .error .nameTooLong
  else .ok (if name = ".." then place.parent else place.child name)

/-- The content of the file at the place, which no directory has. -/
def contentAt (t : FileTree) (place : Place) : Except ReadFailure (List UInt8) :=
  if t.isDirectory place then .error .isADirectory
  else
    match t.content? place with
    | some content => .ok content
    | none => .error .notFound

/-- The content of the file of a name. -/
def read (t : FileTree) (name : String) : Except ReadFailure (List UInt8) :=
  let path := FilePath.ofText name
  if name.contains '\x00' then .error .nulInName
  else if maxPathBytes < path.text.utf8ByteSize then .error .nameTooLong
  else do
    let start := if path.rootSlashes = 0 then Place.inside [] else .outside []
    t.contentAt (← path.names.foldlM t.step start)

end FileTree

end CSharpCheck
