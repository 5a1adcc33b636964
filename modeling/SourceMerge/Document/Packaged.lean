import SourceMerge.Declaration.Import
import SourceMerge.Declaration.Package
import SourceMerge.Document
import SourceMerge.Source

/-! Merging files with packages: the imports are gathered, package clauses and import
declarations are dropped, and the first package clause names the package of the document. -/
namespace SourceMerge

/-- What a line, or a run of lines that makes up an import block, is to a file. -/
inductive Item
  | clause (name : Text)
  | imports (paths : List Text)
  | code (line : Text)
  deriving DecidableEq

namespace Item

/-- The item that a line makes up by itself, if it does not open an import block. -/
def ofLine (line : Text) : Item :=
  match Import.single? line with
  | some path => .imports [path]
  | none => .code line

/-- The items of a file. An import block reaches up to the line that closes it, or to the end. -/
def ofLines : List Text → List Item
  | [] => []
  | line :: rest =>
    match Package.name? line with
    | some name => .clause name :: ofLines rest
    | none =>
      if Import.opensBlock line then
        .imports ((rest.takeWhile (!Import.closesBlock ·)).filterMap Import.entryPath?) ::
          ofLines ((rest.dropWhile (!Import.closesBlock ·)).drop 1)
      else ofLine line :: ofLines rest
termination_by lines => lines.length
decreasing_by
  · simp
  · have : (rest.dropWhile (!Import.closesBlock ·)).length ≤ rest.length :=
      (List.dropWhile_sublist _).length_le
    simp only [List.length_drop, List.length_cons]
    omega
  · simp

def clause? : Item → Option Text
  | .clause name => some name
  | _ => none

def importPaths : Item → List Text
  | .imports paths => paths
  | _ => []

def codeLine? : Item → Option Text
  | .code line => some line
  | _ => none

end Item

namespace Source

def items (source : Source) : List Item := Item.ofLines source.lines

/-- What is left of a file when its package clauses and imports are taken away. -/
def stripped (source : Source) : Body := ⟨source.path, source.items.filterMap Item.codeLine?⟩

end Source

/-- The name in the first package clause of some files. -/
def Package.first? (sources : List Source) : Option Text :=
  (sources.flatMap Source.items).findSome? Item.clause?

/-- Merges files with packages. -/
def Document.ofPackaged (sources : List Source) : Document where
  language := .go
  declarations := .ofList ((sources.flatMap Source.items).flatMap Item.importPaths)
  enclosure := .inPackage ((Package.first? sources).getD Package.defaultName)
  bodies := sources.map Source.stripped

end SourceMerge
