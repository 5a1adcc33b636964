import SourceMerge.FileSystem.Leaves
import SourceMerge.Language
import SourceMerge.Text.Order

/-! Collecting the files of a project. Their names decide: tests, generated files and earlier
merges are left out, and the file for global usings is set apart. -/
namespace SourceMerge

/-- What a file is to a merge. -/
inductive Role
  | source
  | globalUsings
  | ignored
  deriving DecidableEq, Repr

namespace Role

def isPackagedSource (name : Text) : Bool :=
  Text.endsIn ".go".toList name && !Text.endsIn "_test.go".toList name &&
    !Text.beginsWith "_merged".toList name

def isNamespacedSource (name : Text) : Bool :=
  Text.endsIn ".cs".toList name && !Text.endsIn "merged.cs".toList name &&
    !Text.includes "test".toList name.lower && !Text.endsIn ".Designer.cs".toList name &&
    !Text.endsIn ".g.cs".toList name

/-- The role of a file with some name. Two words are looked for in any case of letters; no letter
past ASCII has a lower case that is one letter of them. -/
def ofName (language : Language) (name : Text) : Role :=
  match language with
  | .go => if isPackagedSource name then .source else .ignored
  | .csharp =>
    if !isNamespacedSource name then .ignored
    else if name.lower = "globalusings.cs".toList then .globalUsings
    else .source

end Role

/-- A name that is not UTF-8 excludes its file. -/
def Leaf.role (language : Language) (leaf : Leaf) : Role :=
  (Utf8.decode? leaf.name).elim .ignored (Role.ofName language)

/-- The files of a project: its sources in the order of their paths as shown, and the file for
global usings. -/
structure Collection where
  sources : List Path
  globalUsings : Option Path
  deriving DecidableEq

namespace Collection

def ofLeaves (language : Language) (leaves : List Leaf) : Collection where
  sources := Text.sortOn Path.display
    ((leaves.filter fun leaf => leaf.role language = .source).map Leaf.path)
  globalUsings := ((leaves.filter fun leaf => leaf.role language = .globalUsings).map
    Leaf.path).getLast?

end Collection

def FileSystem.collection (fs : FileSystem) (root : Path) (language : Language) : Collection :=
  .ofLeaves language (fs.leaves root)

end SourceMerge
