import SourceMerge.Clipboard
import SourceMerge.Project

/-! The log of a run. What a scan passes over, where declarations and a namespace come from, and
what is done with the text are events. They are told beside the merge, which does not depend on
them. -/
namespace SourceMerge

/-- The levels of the log. The first one always shows. -/
inductive Level
  | warn
  | info
  | debug
  | trace
  deriving DecidableEq, Repr

namespace Level

def name : Level → Text
  | .warn => "WARN".toList
  | .info => "INFO".toList
  | .debug => "DEBUG".toList
  | .trace => "TRACE".toList

def depth : Level → Nat
  | .warn => 0
  | .info => 1
  | .debug => 2
  | .trace => 3

/-- The deepest level that a verbosity asks for. -/
def ofVerbosity : Nat → Level
  | 0 => .warn
  | 1 => .info
  | 2 => .debug
  | _ => .trace

theorem depth_ofVerbosity (v : Nat) : (ofVerbosity v).depth = min v 3 := by
  match v with
  | 0 | 1 | 2 => rfl
  | n + 3 => exact (Nat.min_eq_right (Nat.le_add_left 3 n)).symm

end Level

inductive Event
  | unnamed (path : Path)
  | excluded (path : Path)
  | collected (root : Path) (language : Language) (files : Nat)
  | ofEntryPoint (namesp : Text)
  | ofFirst (namesp : Text)
  | noNamespace
  | declaration (language : Language) (text : Text)
  | merged (language : Language) (summary : Summary)
  | copying (mechanism : Mechanism)
  deriving DecidableEq

namespace Event

def level : Event → Level
  | .merged .. => .info
  | .declaration .. => .trace
  | _ => .debug

def message : Event → Text
  | .unnamed _ => "skipping non-UTF-8 file name".toList
  | .excluded _ => "excluded source file".toList
  | .collected .. => "collected source files".toList
  | .ofEntryPoint _ => "namespace chosen from entry point file".toList
  | .ofFirst _ => "namespace chosen from first declaration".toList
  | .noNamespace => "no namespace declared".toList
  | .declaration .. => "collected declaration".toList
  | .merged .. => "merged project".toList
  | .copying _ => "copying output to clipboard".toList

/-- The names and values that are told with the message. -/
def fields : Event → List (Text × Text)
  | .unnamed path => [("path".toList, path.display)]
  | .excluded path => [("path".toList, path.display)]
  | .collected root language files =>
    [("root".toList, root.display), ("language".toList, language.name),
      ("files".toList, files.repr.toList)]
  | .ofEntryPoint namesp => [("namespace".toList, namesp)]
  | .ofFirst namesp => [("namespace".toList, namesp)]
  | .noNamespace => []
  | .declaration .go path => [("import".toList, path)]
  | .declaration .csharp clause => [("using".toList, clause)]
  | .merged language summary =>
    [("language".toList, language.name), ("files".toList, summary.files.repr.toList),
      ("declarations".toList, summary.declarations.repr.toList),
      ("namespace".toList, summary.enclosing.getD "<none>".toList)]
  | .copying mechanism => [("command".toList, mechanism.name)]

/-- The event as one line, without the time. -/
def line (event : Event) : Text :=
  event.level.name ++ [' '] ++ event.message ++
    event.fields.flatMap fun (name, value) => [' '] ++ name ++ ['='] ++ value

/-- The declaration that an event is about. -/
def declaration? : Event → Option Text
  | .declaration _ text => some text
  | _ => none

end Event

/-- What a scan tells of a leaf: that its name is not UTF-8, or that it is left out although it has
the extension of sources. -/
def Leaf.event? (language : Language) (leaf : Leaf) : Option Event :=
  match Utf8.decode? leaf.name with
  | none => some (.unnamed leaf.path)
  | some name =>
    let ending := '.' :: language.extension
    if Role.ofName language name = .ignored ∧ Text.endsIn ending name = true ∧ name ≠ ending then
      some (.excluded leaf.path)
    else none

/-- What is told of the choice of a namespace. -/
def Namespace.choice (sources : List Source) : Event :=
  match ofEntryPoint? sources, first? sources with
  | some n, _ => .ofEntryPoint n.name
  | none, some n => .ofFirst n.name
  | none, none => .noNamespace

namespace Document

/-- What is told while files with packages are merged: each import when it is first seen. -/
def packagedEvents (sources : List Source) : List Event :=
  (Declarations.empty.added ((sources.flatMap Source.items).flatMap Item.importPaths)).map
      (.declaration .go) ++
    [.merged .go (ofPackaged sources).summary]

/-- What is told while files with namespaces are merged. The namespace is chosen after the file for
global usings has been looked through and before the others are. -/
def namespacedEvents (globals : Option Source) (sources : List Source) : List Event :=
  let seeds := globals.toList.flatMap Source.globalUsings
  let told (clauses : List Text) := (clauses.map Text.trim).map (Event.declaration .csharp)
  told (Declarations.empty.added seeds) ++ [Namespace.choice sources] ++
    told ((Declarations.ofList seeds).added (sources.flatMap Source.usings)) ++
    [.merged .csharp (ofNamespaced globals sources).summary]

end Document

/-- What is told while the files of a collection are merged. The files are read before that, and if
one of them cannot be read nothing is told. -/
def Reader.eventsOf (read : Reader) (language : Language) (files : Collection) : List Event :=
  let told : Except MergeFailure (List Event) := match language with
    | .go => do
      let sources ← read.sources files.sources
      return Document.packagedEvents sources
    | .csharp => do
      let globals ← files.globalUsings.mapM read.source
      let sources ← read.sources files.sources
      return Document.namespacedEvents globals sources
  told.toOption.getD []

/-- What is told while the files at or below a root are collected and merged. -/
def FileSystem.events (fs : FileSystem) (root : Path) (language : Language) : List Event :=
  let files := fs.collection root language
  (fs.leaves root).filterMap (Leaf.event? language) ++
    [.collected root language files.sources.length] ++ fs.read.eventsOf language files

end SourceMerge
