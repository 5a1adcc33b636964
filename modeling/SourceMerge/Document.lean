import SourceMerge.Declarations
import SourceMerge.Declaration.Namespace
import SourceMerge.Language
import SourceMerge.Path

/-! A merged document: the declarations of all files, what the files are wrapped in, and the
lines that are left of each file. -/
namespace SourceMerge

/-- What the bodies of a document stand in: nothing, one namespace, or one package. -/
inductive Enclosure
  | bare
  | inNamespace (namesp : Namespace)
  | inPackage (name : Text)
  deriving DecidableEq

structure Body where
  path : Path
  lines : List Text
  deriving DecidableEq

structure Document where
  language : Language
  declarations : Declarations
  enclosure : Enclosure
  bodies : List Body

/-- The numbers that sum a document up, and the name it is wrapped in. -/
structure Summary where
  files : Nat
  declarations : Nat
  enclosing : Option Text
  deriving DecidableEq

namespace Enclosure

def name? : Enclosure → Option Text
  | .bare => none
  | .inNamespace n => some n.name
  | .inPackage name => some name

end Enclosure

def Document.summary (d : Document) : Summary :=
  ⟨d.bodies.length, d.declarations.size, d.enclosure.name?⟩

end SourceMerge
