import SourceMerge.Document
import SourceMerge.Text.Indent
import SourceMerge.Text.Lines
import SourceMerge.Text.Order

/-! The text of a document. Declarations come sorted in one block, a marker line with its path
stands before each body, and bodies in a block namespace are indented by one level. -/
namespace SourceMerge

/-- The comment line that names the file a body came from. -/
def Path.marker (p : Path) : Text := "// --- ".toList ++ p.display ++ " ---".toList

def Body.render (b : Body) : List Text := b.path.marker :: b.lines

namespace Document

def usingLine (clause : Text) : Text := "using ".toList ++ clause ++ [';']

def importLine (path : Text) : Text := "\t\"".toList ++ path ++ ['"']

/-- The lines that declare a set in a language, without the blank line after them. -/
def declarationLines : Language → List Text → List Text
  | .csharp, clauses => Text.sort (clauses.map usingLine)
  | .go, paths => "import (".toList :: (Text.sort paths).map importLine ++ [[')']]

/-- The declaration block and the blank line after it; an empty set has neither. -/
def declarationBlock (d : Document) : List Text :=
  if d.declarations.isEmpty then []
  else declarationLines d.language d.declarations.items ++ [[]]

def bodyLines (d : Document) : List Text := d.bodies.flatMap Body.render

def lines (d : Document) : List Text :=
  match d.enclosure with
  | .bare => d.declarationBlock ++ d.bodyLines
  | .inPackage name =>
    ["package ".toList ++ name, []] ++ d.declarationBlock ++ d.bodyLines
  | .inNamespace ⟨name, .wholeFile⟩ =>
    d.declarationBlock ++ ["namespace ".toList ++ name ++ [';'], []] ++ d.bodyLines
  | .inNamespace ⟨name, .block⟩ =>
    d.declarationBlock ++ ["namespace ".toList ++ name, ['{']] ++
      d.bodyLines.map Text.indentLine ++ [['}']]

def render (d : Document) : Text := Text.unlines d.lines

end Document
end SourceMerge
