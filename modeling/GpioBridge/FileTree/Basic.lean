import GpioBridge.FileTree.Path

namespace GpioBridge

inductive FileFault where
  | missing
  | busy
  | taken
  | notDirectory
  | isDirectory
  | nameTooLong
  -- A path ends for the operating system where it has the character zero.
  | cutShort
  deriving DecidableEq, Repr

def FileFault.message : FileFault → String
  | missing => "No such file or directory (os error 2)"
  | busy => "Device or resource busy (os error 16)"
  | taken => "File exists (os error 17)"
  | notDirectory => "Not a directory (os error 20)"
  | isDirectory => "Is a directory (os error 21)"
  | nameTooLong => "File name too long (os error 36)"
  | cutShort => "file name contained an unexpected NUL byte"

-- Where something stands in a tree: the names on the way from the root.
abbrev Location := List String

structure FileTree where
  directories : List Location := []
  files : List (Location × String) := []
  here : Location := []
  deriving DecidableEq, Repr, Inhabited

namespace FileTree

inductive Entry where
  | directory
  | file (contents : String)
  | nothing
  deriving DecidableEq, Repr

-- Where a path ends: a name in a directory, and whether a slash follows it.
structure Target where
  directory : Location
  name : String
  slash : Bool
  deriving DecidableEq, Repr

def Target.location (target : Target) : Location := target.directory ++ [target.name]

def maxPath : Nat := 4095
def maxName : Nat := 255

def contents? (tree : FileTree) (location : Location) : Option String := tree.files.lookup location

def isDirectory (tree : FileTree) (location : Location) : Bool :=
  location.isEmpty || tree.directories.contains location

-- What a name leads to in a directory. Above the root is the root.
def find (tree : FileTree) (directory : Location) (name : String) : Except FileFault Entry :=
  let location := directory ++ [name]
  if FilePath.isDots name then .ok .directory
  else if maxName < name.utf8ByteSize then .error .nameTooLong
  else if tree.isDirectory location then .ok .directory
  else .ok ((tree.contents? location).elim .nothing .file)

def enter (tree : FileTree) (directory : Location) (name : String) : Except FileFault Location := do
  match ← tree.find directory name with
  | .directory =>
    if name = "." then return directory
    if name = ".." then return directory.dropLast
    return directory ++ [name]
  | .file _ => throw .notDirectory
  | .nothing => throw .missing

def checkPath (path : String) : Except FileFault Unit := do
  if path.contains '\x00' then throw .cutShort
  if maxPath < path.utf8ByteSize then throw .nameTooLong
  if path = "" then throw .missing

-- Follows a path up to its last name. The root has the name that every directory has. Each name but
-- the last has to lead to a directory, also where the next one leads back out of it.
def follow (tree : FileTree) (path : String) : Except FileFault Target := do
  let names := FilePath.names path
  let start := if FilePath.isAbsolute path then [] else tree.here
  let directory ← names.dropLast.foldlM tree.enter start
  return ⟨directory, names.getLast?.getD ".", FilePath.endsInSlash path⟩

def locate (tree : FileTree) (path : String) : Except FileFault Target := do
  checkPath path
  tree.follow path

def look (tree : FileTree) (target : Target) : Except FileFault Entry :=
  tree.find target.directory target.name

def erase (tree : FileTree) (location : Location) : FileTree :=
  { tree with files := tree.files.filter (·.1 != location) }

def put (tree : FileTree) (location : Location) (contents : String) : FileTree :=
  { tree with files := (tree.erase location).files ++ [(location, contents)] }

def read (path : String) (tree : FileTree) : Except FileFault String := do
  let target ← tree.locate path
  match ← tree.look target with
  | .directory => throw .isDirectory
  | .nothing => throw .missing
  | .file contents => if target.slash then throw .notDirectory else return contents

def write (path contents : String) (tree : FileTree) : Except FileFault FileTree := do
  let target ← tree.locate path
  if target.slash then throw .isDirectory
  match ← tree.look target with
  | .directory => throw .isDirectory
  | _ => return tree.put target.location contents

def rename (source goal : String) (tree : FileTree) : Except FileFault FileTree := do
  checkPath source
  checkPath goal
  let origin ← tree.follow source
  let target ← tree.follow goal
  if FilePath.isDots origin.name || FilePath.isDots target.name then throw .busy
  match ← tree.look origin with
  | .nothing => throw .missing
  | .directory => throw .isDirectory
  | .file contents =>
    let there ← tree.look target
    if origin.slash || target.slash then throw .notDirectory
    if there = .directory then throw .isDirectory
    return (tree.erase origin.location).put target.location contents

def remove (path : String) (tree : FileTree) : Except FileFault FileTree := do
  let target ← tree.locate path
  match ← tree.look target with
  | .directory => throw .isDirectory
  | .nothing => throw .missing
  | .file _ => if target.slash then throw .notDirectory else return tree.erase target.location

def makeDirectory (path : String) (tree : FileTree) : Except FileFault FileTree := do
  let target ← tree.locate path
  match ← tree.look target with
  | .nothing => return { tree with directories := tree.directories ++ [target.location] }
  | _ => throw .taken

-- Does something with a tree; what is refused leaves it as it was.
def attempt (change : FileTree → Except FileFault FileTree) (tree : FileTree) :
    Except FileFault Unit × FileTree :=
  match change tree with
  | .ok tree => (.ok (), tree)
  | .error fault => (.error fault, tree)

def namesIn (location : Location) (tree : FileTree) : List String :=
  let inside := (tree.directories ++ tree.files.map (·.1)).filter fun l =>
    !l.isEmpty && l.dropLast == location
  (inside.filterMap List.getLast?).mergeSort fun a b => a ≤ b

-- Adds a file with the directories on the way to it, from the working directory on.
def plant (path contents : String) (tree : FileTree) : FileTree :=
  let names := FilePath.names path
  let start := if FilePath.isAbsolute path then [] else tree.here
  let enter := fun ((tree, directory) : FileTree × Location) name =>
    if name = "." then (tree, directory)
    else if name = ".." then (tree, directory.dropLast)
    else
      let directory := directory ++ [name]
      ({ tree with directories := tree.directories ++ [directory] }, directory)
  let (tree, directory) := names.dropLast.foldl enter (tree, start)
  tree.put (directory ++ names.getLast?.toList) contents

end FileTree

end GpioBridge
