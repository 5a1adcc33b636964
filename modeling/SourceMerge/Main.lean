import SourceMerge.CommandLine
import SourceMerge.FileSystem.Edit

/-! The program. It loads the directory that the options name, runs the command line on it and
prints what the run leaves. It starts no other program, so that no clipboard is ever found. -/
namespace SourceMerge
namespace Main

/-- Stands in for a link that leads to nothing: no file has the name that it leads to. -/
def danglingLink : Node := .link ⟨[Path.slash, 0]⟩

mutual

partial def loadNode (entry : IO.FS.DirEntry) : IO Node := do
  let isLink := (← entry.path.symlinkMetadata).type matches .symlink
  try
    if ← entry.path.isDir then
      if isLink then return .link (.ofText ['.'])
      else return .directory (← loadEntries entry)
    else return .file (.ok (← IO.FS.readBinFile entry.path).toList)
  catch _ => return if isLink then danglingLink else .file (.error .permissionDenied)

partial def loadEntries (directory : IO.FS.DirEntry) : IO Directory := do
  let mut entries := []
  for entry in ← directory.path.readDir do
    entries := (Utf8.encode entry.fileName.toList, ← loadNode entry) :: entries
  return entries

end

/-- The file system as far as a run with the options looks at it. -/
def loadTarget (options : Options) : IO FileSystem := do
  let target : IO.FS.DirEntry := ⟨← IO.currentDir, String.ofList options.directory⟩
  if options.directory.isEmpty || !(← target.path.isDir) then return ⟨[], []⟩
  return .ofDirectory (.ofText options.directory) (← loadEntries target)

def surroundings : IO Surroundings :=
  return ⟨(← IO.getEnv "TMUX").isSome, (← IO.getEnv "WSL_DISTRO_NAME").isSome, ⟨[[]], []⟩⟩

/-- A console on which everything is taken. -/
def console : Console := ⟨.endless, none⟩

/-- A report as it is shown. The lines of the log have no time. -/
def shown : CommandLine.Report → Text
  | .event event => event.line ++ ['\n']
  | .message text => text

def runProgram (arguments : List Text) : IO UInt32 := do
  let fs ← match Options.ofArguments arguments with
    | .ok options => loadTarget options
    | .error _ => pure ⟨[], []⟩
  let outcome := CommandLine.run fs (← surroundings) console arguments
  (← IO.getStdout).write ⟨outcome.stdout.toArray⟩
  (← IO.getStderr).putStr (String.ofList (outcome.stderr.flatMap shown))
  return (outcome.code.getD 1).toUInt32

end Main
end SourceMerge

def main (arguments : List String) : IO UInt32 :=
  SourceMerge.Main.runProgram (arguments.map String.toList)
