import SourceMerge.Clipboard.Program

/-! The directories in which programs are looked for. They lie side by side in one directory, each
under its number; if there are none, the working directory is searched. Whether a command exists and
whether it can be started are two questions: the first asks for a file, the second passes over files
that may not be run. -/
namespace SourceMerge

/-- An entry of a directory of programs. -/
inductive Tool
  | program (conduct : Program)
  | lockedFile
  | directory
  deriving DecidableEq, Repr

def Tool.node : Tool → Node
  | .program _ => .file (.ok [])
  | .lockedFile => .file (.ok [])
  | .directory => .directory []

/-- The directories in their order, and beside them what those files of the working directory do
that may be run. -/
structure SearchPath where
  directories : List (List (Text × Tool))
  here : List (Text × Program)

namespace SearchPath

/-- The directory that holds the others. -/
def home : Path := .ofText "bin".toList

def directoryName (n : Nat) : Name := Utf8.encode n.repr.toList

def toolEntries (tools : List (Text × Tool)) : Directory :=
  tools.map fun (name, tool) => (Utf8.encode name, tool.node)

/-- The directories as a file system. -/
def fileSystem (s : SearchPath) : FileSystem where
  top := [(home.bytes, .directory (s.directories.zipIdx.map fun (tools, n) =>
    (directoryName n, .directory (toolEntries tools))))]
  working := []

/-- Whether a command leads to a file from one of the directories. -/
def hasCommand (s : SearchPath) (fs : FileSystem) (command : Text) : Bool :=
  if s.directories.isEmpty then fs.isFile (.ofText command)
  else (List.range s.directories.length).any fun n =>
    s.fileSystem.isFile ((home.child (directoryName n)).join (.ofText command))

/-- Looks for a program of a name that may be run. When there is none, files that may not be run
and directories of that name count as a refusal. -/
def startFrom (name : Text) (refused : Bool) :
    List (List (Text × Tool)) → Except OsError Program
  | [] => .error (if refused then .permissionDenied else .notFound)
  | tools :: rest =>
    match tools.lookup name with
    | some (.program conduct) => .ok conduct
    | some _ => startFrom name true rest
    | none => startFrom name refused rest

/-- Looks for a program of a name in the working directory. What may not be run is refused. -/
def startInWorking (s : SearchPath) (fs : FileSystem) (name : Text) : Except OsError Program := do
  match ← fs.find .target (.ofText name), s.here.lookup name with
  | .file _, some conduct => .ok conduct
  | _, _ => .error .permissionDenied

def start (s : SearchPath) (fs : FileSystem) (name : Text) : Except OsError Program :=
  if s.directories.isEmpty then s.startInWorking fs name else startFrom name false s.directories

end SearchPath
end SourceMerge
