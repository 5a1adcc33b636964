import SourceMerge.Console
import SourceMerge.Settings

/-! A run of the program: the merged text goes to standard output, and after that to the clipboard
if the options ask for it. What becomes of the copy is only reported, on standard error. -/
namespace SourceMerge
namespace CommandLine

/-- What a run writes to standard error: an event of its log, or a message, which ends in a
newline. -/
inductive Report
  | event (event : Event)
  | message (text : Text)
  deriving DecidableEq

def Report.message? : Report → Option Text
  | .event _ => none
  | .message text => some text

/-- What a run leaves: its exit code, the bytes on standard output, its own reports on standard
error, the mechanism whose clipboard program was started, and what that program received. There is
no exit code if the run does not come to an end, or is aborted. -/
structure Outcome where
  code : Option Nat
  stdout : Bytes
  stderr : List Report
  started : Option Mechanism
  received : Option Receipt
  deriving DecidableEq

def Outcome.messages (o : Outcome) : List Text := o.stderr.filterMap Report.message?

def programName : Text := "codemerge".toList

def versionText : Text := programName ++ " 0.1.0\n".toList

def helpText : Text := Text.unlines
  ["Merge the source files of a Go or C# project into one file".toList,
   [],
   "Usage: ".toList ++ programName ++ " [OPTIONS]".toList,
   [],
   "Options:".toList,
   "  -d, --dir <DIR>            Directory to scan for source files [default: .]".toList,
   "  -l, --lang <LANG>          Source language of the project (go, csharp) [default: go]".toList,
   "  -c, --clipboard            Copy output to system clipboard".toList,
   "  -v, --verbose...           Increase log verbosity (-v info, -vv debug, -vvv trace)".toList,
   "      --generate <GENERATE>  Generate shell completions [possible values: ".toList ++
     List.intercalate [',', ' '] (Shell.all.map Shell.name) ++ [']'],
   "  -h, --help                 Print help (see more with '--help')".toList,
   "  -V, --version              Print version".toList,
   []]

/-- The words that a shell can complete after the program's name. -/
def completionWords : List Text :=
  Options.longNames.map fun entry => "--".toList ++ entry.1

/-- A script that teaches a shell the long options. -/
def completionScript (shell : Shell) : Text :=
  let words := List.intercalate [' '] completionWords
  let script := match shell with
    | .bash => "complete -W \"".toList ++ words ++ "\" ".toList ++ programName
    | .zsh => "compdef '_arguments ".toList ++ words ++ "' ".toList ++ programName
    | .fish => "complete -c ".toList ++ programName ++ " -a \"".toList ++ words ++ ['"']
    | .elvish =>
      "set edit:completion:arg-completer[".toList ++ programName ++ "] = \x7b|@_| put ".toList ++
        words ++ " \x7d".toList
    | .powershell =>
      "Register-ArgumentCompleter -Native -CommandName ".toList ++ programName ++
        " -ScriptBlock \x7b -split '".toList ++ words ++ "' \x7d".toList
  script ++ ['\n']

def UsageError.message : UsageError → Text
  | .invalidValue => "error: invalid or missing value for an option\n".toList
  | .unknownArgument => "error: unexpected argument\n".toList
  | .repeated => "error: an option cannot be used multiple times\n".toList
  | .unwantedValue => "error: unexpected value for an option\n".toList

def failureReport (e : MergeFailure) : Report :=
  .message ("Error merging files: ".toList ++ e.message ++ ['\n'])

/-- What is reported of an attempt to copy. -/
def deliveryReport : Except CopyFailure Unit → Report
  | .ok () => .message "Merged output copied to clipboard.\n".toList
  | .error e => .message ("Warning: ".toList ++ (MergeFailure.copy e).message ++ ['\n'])

/-- The events of a log that are shown at a verbosity. -/
def logged (console : Console) (verbosity : Nat) (events : List Event) : List Report :=
  (events.filter (console.shows verbosity)).map .event

/-- What is told before the output. Without a directory to scan it is nothing. -/
def eventsBefore (fs : FileSystem) (settings : Settings) : List Event :=
  if fs.isDirectory settings.target then fs.events settings.target settings.language else []

/-- The end of a run whose text has been put out whole, with a copy if it is wanted. -/
def finish (fs : FileSystem) (surroundings : Surroundings) (console : Console)
    (settings : Settings) (text : Text) (told : List Report) : Outcome :=
  let stdout := Utf8.encode text
  if settings.clipboard then
    let delivery := surroundings.copy fs text
    let copying := (surroundings.installed fs).head?.toList.map Event.copying
    let reports := logged console settings.verbosity copying ++
      delivery.result.toList.map deliveryReport
    ⟨delivery.result.map fun _ => 0, stdout, told ++ reports, delivery.started, delivery.received⟩
  else ⟨some 0, stdout, told, none, none⟩

/-- Merges a project and puts the text out. -/
def runProject (fs : FileSystem) (surroundings : Surroundings) (console : Console)
    (settings : Settings) : Outcome :=
  let told := logged console settings.verbosity (eventsBefore fs settings)
  match fs.mergedProject settings with
  | .error e => ⟨some 1, [], told ++ [failureReport e], none, none⟩
  | .ok text =>
    match console.output.put (Utf8.encode text) with
    | (taken, .error cause) =>
      ⟨some 1, taken, told ++ [failureReport (.transfer cause)], none, none⟩
    | (_, .ok ()) => finish fs surroundings console settings text told

/-- Completions that cannot be written abort the run. -/
def runOptions (fs : FileSystem) (surroundings : Surroundings) (console : Console) (o : Options) :
    Outcome :=
  match o.completions with
  | some shell =>
    let (taken, result) := console.output.put (Utf8.encode (completionScript shell))
    ⟨result.toOption.map fun _ => 0, taken, [], none, none⟩
  | none =>
    match Settings.ofOptions o with
    | .ok settings => runProject fs surroundings console settings
    | .error e => ⟨some 1, [], [failureReport e], none, none⟩

/-- A run with the arguments that follow the program's name. Help that cannot be written counts as
shown. -/
def run (fs : FileSystem) (surroundings : Surroundings) (console : Console)
    (arguments : List Text) : Outcome :=
  let shown (text : Text) : Outcome :=
    ⟨some 0, (console.output.put (Utf8.encode text)).1, [], none, none⟩
  match Options.ofArguments arguments with
  | .ok options => runOptions fs surroundings console options
  | .error .help => shown helpText
  | .error .version => shown versionText
  | .error (.usage e) => ⟨some 2, [], [.message (UsageError.message e)], none, none⟩

end CommandLine
end SourceMerge
