import SourceMerge.FileSystem

/-! Changing a file system: entries are written, with the directories above them, and removed. -/
namespace SourceMerge
namespace Directory

/-- Replaces the entry of a name, or adds one at the end. -/
def put (name : Name) (node : Node) : Directory → Directory
  | [] => [(name, node)]
  | (other, old) :: rest =>
    if other = name then (name, node) :: rest else (other, old) :: put name node rest

/-- Writes an entry below a directory. What stands in the way of a directory gives way to it. -/
def insert (node : Node) : List Name → Directory → Directory
  | [], d => d
  | [name], d => d.put name node
  | name :: names, d =>
    match d.child? name with
    | some (.directory inner) => d.put name (.directory (insert node names inner))
    | _ => d.put name (.directory (insert node names []))

/-- Removes the entry that names lead to, and all below it. -/
def erase : List Name → Directory → Directory
  | [], d => d
  | [name], d => d.filter (·.1 ≠ name)
  | name :: names, d =>
    match d.child? name with
    | some (.directory inner) => d.put name (.directory (erase names inner))
    | _ => d

end Directory

namespace FileSystem

/-- A file system that holds nothing but an empty working directory of some name. -/
def blank (name : Name) : FileSystem := ⟨[(name, .directory [])], [name]⟩

/-- Writes an entry at the end of some names. -/
def insertAt (fs : FileSystem) (location : List Name) (node : Node) : FileSystem :=
  { fs with top := fs.top.insert node location }

/-- Goes along steps and creates every directory that is missing on the way. Gives the file system
then, and where the steps end. -/
def openWay (fs : FileSystem) (here : List Name) : List Path.Step → FileSystem × List Name
  | [] => (fs, here)
  | step :: rest =>
    match fs.walk .target maxLinks here [step], step with
    | .ok location, _ => openWay fs location rest
    | .error _, .entry name =>
      openWay (fs.insertAt (here ++ [name]) (.directory [])) (here ++ [name]) rest
    | .error _, _ => openWay fs here rest

/-- Creates a directory with the directories above it; one that exists keeps its entries. -/
def makeDirectory (fs : FileSystem) (path : Path) : FileSystem :=
  (fs.openWay (fs.startOf path) path.steps).1

/-- Creates the directory in which a path names an entry. Gives the file system then, where the
directory is, and the name in it. -/
def openParent (fs : FileSystem) (path : Path) : FileSystem × List Name × Option Name :=
  let (fs, directory) := fs.openWay (fs.startOf path) path.steps.dropLast
  match path.steps.getLast? with
  | some (.entry name) => (fs, directory, some name)
  | _ => (fs, directory, none)

/-- Writes a file. Where a link leads to nothing yet, the file is created there. -/
def writeFile (fs : FileSystem) (path : Path) (content : Bytes) : FileSystem :=
  match fs.openParent path with
  | (fs, directory, some name) =>
    match fs.walk .site maxLinks directory [.entry name] with
    | .ok location => fs.insertAt location (.file (.ok content))
    | .error _ => fs
  | (fs, _, none) => fs

def writeText (fs : FileSystem) (path : Path) (text : Text) : FileSystem :=
  fs.writeFile path (Utf8.encode text)

/-- Makes a link, in the place of any other entry of that path. -/
def makeLink (fs : FileSystem) (path : Path) (target : Path) : FileSystem :=
  match fs.openParent path with
  | (fs, directory, some name) => fs.insertAt (directory ++ [name]) (.link target)
  | (fs, _, none) => fs

/-- The file system in which a path leads to a directory with some entries, and which holds
nothing else but the directories on the way. -/
def ofDirectory (path : Path) (entries : Directory) : FileSystem :=
  match openWay ⟨[], []⟩ [] path.steps with
  | (_, []) => ⟨entries, []⟩
  | (fs, location) => fs.insertAt location (.directory entries)

/-- Removes a file, a link, or a directory with all its entries. -/
def remove (fs : FileSystem) (path : Path) : FileSystem :=
  match fs.locate .entry path with
  | .ok location => { fs with top := fs.top.erase location }
  | .error _ => fs

end FileSystem
end SourceMerge
