import SourceMerge.Path

/-! A file system as a tree of files, directories and symbolic links with a working directory, and
the resolution of a path in it. Absolute paths start at the top, which is its own parent, and all
others at the working directory. -/
namespace SourceMerge

/-- The errors of the system. Those that the program can be seen to meet have names. -/
inductive OsError
  | notFound
  | permissionDenied
  | notDirectory
  | isDirectory
  | brokenPipe
  | tooManyLinks
  | other (number : Nat) (description : Text)
  deriving DecidableEq, Repr

namespace OsError

def number : OsError → Nat
  | .notFound => 2
  | .permissionDenied => 13
  | .notDirectory => 20
  | .isDirectory => 21
  | .brokenPipe => 32
  | .tooManyLinks => 40
  | .other number _ => number

def description : OsError → Text
  | .notFound => "No such file or directory".toList
  | .permissionDenied => "Permission denied".toList
  | .notDirectory => "Not a directory".toList
  | .isDirectory => "Is a directory".toList
  | .brokenPipe => "Broken pipe".toList
  | .tooManyLinks => "Too many levels of symbolic links".toList
  | .other _ description => description

def message (e : OsError) : Text :=
  e.description ++ " (os error ".toList ++ e.number.repr.toList ++ [')']

end OsError

/-- What comes of reading the file at a path. -/
abbrev Reader := Path → Except OsError Bytes

/-- An entry of a file system. A file is read as its bytes, or reading it is refused with an error.
Directories refuse nothing. -/
inductive Node
  | file (content : Except OsError Bytes)
  | directory (entries : List (Name × Node))
  | link (target : Path)

abbrev Directory := List (Name × Node)

def Directory.child? (d : Directory) (name : Name) : Option Node := d.lookup name

/-- The entry at the end of a list of names, each one below the one before. -/
def Node.at? : Node → List Name → Option Node
  | node, [] => some node
  | .directory d, name :: names => (Directory.child? d name).bind (·.at? names)
  | _, _ :: _ => none

/-- What a path is followed for: the entry it names, be it a link, what that entry leads to, or
the place of a file that may not exist yet. -/
inductive Goal
  | entry
  | target
  | site
  deriving DecidableEq, Repr

structure FileSystem where
  top : Directory
  working : List Name

namespace FileSystem

/-- The number of links that one resolution may follow. -/
def maxLinks : Nat := 40

def node? (fs : FileSystem) (location : List Name) : Option Node :=
  (Node.directory fs.top).at? location

/-- Follows steps from a directory and gives the names that lead to where they end. A link on the
way is always followed. Only the last name may lead nowhere, and only if a site is looked for. -/
def walk (fs : FileSystem) (goal : Goal) :
    (links : Nat) → (here : List Name) → List Path.Step → Except OsError (List Name)
  | _, here, [] => .ok here
  | links, here, .stay :: rest => walk fs goal links here rest
  | links, here, .parent :: rest => walk fs goal links here.dropLast rest
  | links, here, .entry name :: rest =>
    match fs.node? (here ++ [name]) with
    | none => if rest.isEmpty && goal == .site then .ok (here ++ [name]) else .error .notFound
    | some (.directory _) => walk fs goal links (here ++ [name]) rest
    | some (.file _) => if rest.isEmpty then .ok (here ++ [name]) else .error .notDirectory
    | some (.link target) =>
      if rest.isEmpty && goal == .entry then .ok (here ++ [name])
      else match links with
        | 0 => .error .tooManyLinks
        | links + 1 =>
          walk fs goal links (if target.isAbsolute then [] else here) (target.steps ++ rest)
termination_by links _ steps => (links, steps.length)

/-- The directory where a path starts. -/
def startOf (fs : FileSystem) (path : Path) : List Name :=
  if path.isAbsolute then [] else fs.working

/-- Where a path leads; the empty path leads nowhere. -/
def locate (fs : FileSystem) (goal : Goal) (path : Path) : Except OsError (List Name) :=
  if path.bytes.isEmpty then .error .notFound
  else fs.walk goal maxLinks (fs.startOf path) path.steps

/-- What a path leads to. -/
def find (fs : FileSystem) (goal : Goal) (path : Path) : Except OsError Node := do
  let location ← fs.locate goal path
  (fs.node? location).elim (.error .notFound) .ok

/-- The bytes of the file at a path, if they can be read. -/
def read (fs : FileSystem) : Reader
  | path => do
    match ← fs.find .target path with
    | .file content => content
    | .directory _ => .error .isDirectory
    | .link _ => .error .tooManyLinks

def isDirectory (fs : FileSystem) (path : Path) : Bool :=
  match fs.find .target path with
  | .ok (.directory _) => true
  | _ => false

def isFile (fs : FileSystem) (path : Path) : Bool :=
  match fs.find .target path with
  | .ok (.file _) => true
  | _ => false

end FileSystem
end SourceMerge
