import SourceMerge.Text.Basic

/-! The options of the command line. They are read from left to right: a value is taken over when
the next option begins or the arguments end, so that an argument that means nothing is reported
before a value that is missing or wrong. -/
namespace SourceMerge

/-- The shells that completions can be printed for. -/
inductive Shell
  | bash
  | elvish
  | fish
  | powershell
  | zsh
  deriving DecidableEq, Repr

namespace Shell

def name : Shell → Text
  | .bash => "bash".toList
  | .elvish => "elvish".toList
  | .fish => "fish".toList
  | .powershell => "powershell".toList
  | .zsh => "zsh".toList

def all : List Shell := [.bash, .elvish, .fish, .powershell, .zsh]

def ofName? (name : Text) : Option Shell := all.find? fun shell => shell.name = name

end Shell

structure Options where
  directory : Text
  language : Text
  clipboard : Bool
  verbosity : Nat
  completions : Option Shell
  deriving DecidableEq, Repr

/-- What is wrong with the arguments. -/
inductive UsageError
  | invalidValue
  | unknownArgument
  | repeated
  | unwantedValue
  deriving DecidableEq, Repr

/-- Why no options come out of the arguments. -/
inductive Interruption
  | help
  | version
  | usage (error : UsageError)
  deriving DecidableEq, Repr

namespace Options

/-- The options that stand alone. -/
inductive Flag
  | clipboard
  | verbose
  | help
  | version
  deriving DecidableEq, Repr

/-- The options that take a value. -/
inductive Setting
  | directory
  | language
  | completions
  deriving DecidableEq, Repr

inductive Key
  | flag (f : Flag)
  | setting (s : Setting)
  deriving DecidableEq, Repr

def longNames : List (Text × Key) :=
  [("dir".toList, .setting .directory), ("lang".toList, .setting .language),
   ("clipboard".toList, .flag .clipboard), ("clip".toList, .flag .clipboard),
   ("verbose".toList, .flag .verbose), ("generate".toList, .setting .completions),
   ("help".toList, .flag .help), ("version".toList, .flag .version)]

def letters : List (Char × Key) :=
  [('d', .setting .directory), ('l', .setting .language), ('c', .flag .clipboard),
   ('v', .flag .verbose), ('h', .flag .help), ('V', .flag .version)]

/-- An argument by its look: two dashes that end the options, a long name perhaps with a value,
letters after one dash, or anything else. -/
inductive Argument
  | terminator
  | long (name : Text) (value : Option Text)
  | cluster (letters : Text)
  | plain (text : Text)
  deriving DecidableEq, Repr

def Argument.ofText : Text → Argument
  | ['-', '-'] => .terminator
  | '-' :: '-' :: t =>
    .long (t.takeWhile (· != '=')) (Text.after? ['='] (t.dropWhile (· != '=')))
  | ['-'] => .plain ['-']
  | '-' :: t => .cluster t
  | t => .plain t

/-- What has been read so far. The setting that was named last waits for its value, or for the
next option if its value has been read. -/
structure Reading where
  directory : Option Text
  language : Option Text
  completions : Option Shell
  clipboard : Bool
  verbosity : Nat
  waiting : Option (Setting × Option Text)
  deriving DecidableEq, Repr

/-- The largest verbosity that is told apart. -/
def maxVerbosity : Nat := 255

namespace Reading

def start : Reading := ⟨none, none, none, false, 0, none⟩

/-- Takes over the value of a setting, which may be given only once. -/
def assign (r : Reading) (setting : Setting) (value : Text) : Except UsageError Reading :=
  match setting with
  | .directory =>
    if r.directory.isSome then .error .repeated else .ok { r with directory := some value }
  | .language =>
    if r.language.isSome then .error .repeated else .ok { r with language := some value }
  | .completions =>
    if r.completions.isSome then .error .repeated
    else match Shell.ofName? value with
      | some shell => .ok { r with completions := some shell }
      | none => .error .invalidValue

/-- Takes over the value of the setting that was named last. -/
def settle (r : Reading) : Except UsageError Reading :=
  match r.waiting with
  | none => .ok r
  | some (_, none) => .error .invalidValue
  | some (setting, some value) => ({ r with waiting := none } : Reading).assign setting value

/-- Reads a setting, whose value is attached to it or comes next. -/
def readSetting (r : Reading) (setting : Setting) (attached : Option Text) :
    Except UsageError Reading := do
  let r ← r.settle
  match attached with
  | some value => r.assign setting value
  | none => return { r with waiting := some (setting, none) }

def readFlag (r : Reading) (flag : Flag) : Except Interruption Reading := do
  let r ← r.settle.mapError .usage
  match flag with
  | .clipboard =>
    if r.clipboard then .error (.usage .repeated) else .ok { r with clipboard := true }
  | .verbose => .ok { r with verbosity := min (r.verbosity + 1) maxVerbosity }
  | .help => .error .help
  | .version => .error .version

/-- Reads the letters after one dash. All that follows the letter of a setting is its value, less
an equals sign in front. -/
def readCluster (r : Reading) : Text → Except Interruption Reading
  | [] => .ok r
  | c :: rest =>
    match letters.lookup c with
    | none => .error (.usage .unknownArgument)
    | some (.flag flag) => do
      let r ← r.readFlag flag
      r.readCluster rest
    | some (.setting setting) =>
      let attached := if rest.isEmpty then none else some ((Text.after? ['='] rest).getD rest)
      (r.readSetting setting attached).mapError .usage

def readLong (r : Reading) (name : Text) (value : Option Text) : Except Interruption Reading :=
  match longNames.lookup name, value with
  | none, _ => .error (.usage .unknownArgument)
  | some (.flag flag), none => r.readFlag flag
  | some (.flag _), some _ => .error (.usage .unwantedValue)
  | some (.setting setting), value => (r.readSetting setting value).mapError .usage

/-- Anything that is no option must be the value that a setting waits for. -/
def readPlain (r : Reading) (text : Text) : Except Interruption Reading :=
  match r.waiting with
  | some (setting, none) => .ok { r with waiting := some (setting, some text) }
  | _ => .error (.usage .unknownArgument)

/-- Reads all arguments. Nothing may follow the two dashes that end the options. -/
def read (r : Reading) : List Text → Except Interruption Reading
  | [] => r.settle.mapError .usage
  | argument :: rest =>
    match Argument.ofText argument with
    | .terminator =>
      if rest.isEmpty then r.settle.mapError .usage else .error (.usage .unknownArgument)
    | .long name value => do
      let r ← r.readLong name value
      r.read rest
    | .cluster letters => do
      let r ← r.readCluster letters
      r.read rest
    | .plain text => do
      let r ← r.readPlain text
      r.read rest

/-- The options that have been read, and the usual ones for the others. -/
def options (r : Reading) : Options where
  directory := r.directory.getD ['.']
  language := r.language.getD "go".toList
  clipboard := r.clipboard
  verbosity := r.verbosity
  completions := r.completions

end Reading

/-- The options that the arguments after the program's name ask for. -/
def ofArguments (arguments : List Text) : Except Interruption Options :=
  (Reading.start.read arguments).map Reading.options

end Options
end SourceMerge
