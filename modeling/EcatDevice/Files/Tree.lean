import EcatDevice.Files.Storage

/-! # File trees

A file system in memory: directories and files by their paths from the root, and a working
directory. Paths are walked part by part, so that every directory on the way has to exist.
-/

namespace EcatDevice

/-- Directories and files by the parts of their paths from the root. -/
structure FileTree where
  directories : List (List String)
  files : List (List String × Content)
  /-- Where relative paths start. -/
  working : List String

namespace FileTree

def file? (tree : FileTree) (place : List String) : Option Content :=
  tree.files.lookup place

/-- Whether there is a directory at a place; the root is always one. -/
def isDirectory (tree : FileTree) (place : List String) : Bool :=
  place.isEmpty || tree.directories.contains place

/-- Longest name of a file or directory, in bytes. -/
def maxName : Nat := 255

def maxPath : Nat := 4095

/-- Walks from a directory along the parts of a path to a directory. -/
def walk (tree : FileTree) (place : List String) : List String → Except FileFault (List String)
  | [] => .ok place
  | part :: rest =>
    if part = "" ∨ part = "." then walk tree place rest
    else if part = ".." then walk tree place.dropLast rest
    else if maxName < part.utf8ByteSize then .error .nameTooLong
    else if tree.isDirectory (place ++ [part]) then walk tree (place ++ [part]) rest
    else if (tree.file? (place ++ [part])).isSome then .error .notDirectory
    else .error .notFound

inductive Target where
  /-- a directory that needs no name, such as the root or a parent -/
  | directory
  /-- a name in a directory; `slash` tells whether the path goes on with a slash -/
  | entry (parent : List String) (name : String) (slash : Bool)

/-- Finds what a path names. Every directory in front of the last name has to exist. -/
def locate (tree : FileTree) (path : String) : Except FileFault Target :=
  let parts := (path.toList.splitOn '/').map String.ofList
  let named := (parts.reverse.dropWhile (· == "")).reverse
  let start := if path.startsWith "/" then [] else tree.working
  if path.toList.contains '\x00' then .error .nulInName
  else if path = "" then .error .notFound
  else if maxPath < path.utf8ByteSize then .error .nameTooLong
  else
    match named.getLast? with
    | none => .ok .directory
    | some name => do
      let parent ← tree.walk start named.dropLast
      if name = "." ∨ name = ".." then return .directory
      return .entry parent name (named.length < parts.length)

/-- The place of a file: a short enough name that no directory has. -/
def filePlace (tree : FileTree) (parent : List String) (name : String) :
    Except FileFault (List String) :=
  if maxName < name.utf8ByteSize then .error .nameTooLong
  else if tree.isDirectory (parent ++ [name]) then .error .isDirectory
  else .ok (parent ++ [name])

/-- The text of the file at a path. A file has nothing behind a slash. -/
def read (tree : FileTree) (path : String) : Except FileFault String := do
  match ← tree.locate path with
  | .directory => throw .isDirectory
  | .entry parent name slash =>
    let place ← tree.filePlace parent name
    match tree.file? place with
    | none => throw .notFound
    | some content =>
      if slash then throw .notDirectory
      match content with
      | .text text => return text
      | .bytes _ => throw (.other "stream did not contain valid UTF-8")

/-- The tree with the file at a path replaced. A path that ends in a slash asks for a directory,
whatever is there. -/
def write (tree : FileTree) (path : String) (content : Content) : Except FileFault FileTree := do
  match ← tree.locate path with
  | .directory => throw .isDirectory
  | .entry parent name slash =>
    if slash then throw .isDirectory
    let place ← tree.filePlace parent name
    return { tree with
      files := tree.files.filter (fun entry => entry.1 != place) ++ [(place, content)] }

def storage : Storage (StateM FileTree) where
  read path := return (← get).read path
  write path content := do
    match (← get).write path content with
    | .ok tree => set tree; return .ok ()
    | .error fault => return .error fault

end FileTree

end EcatDevice
