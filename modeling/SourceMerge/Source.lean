import SourceMerge.Text.Lines
import SourceMerge.Path

/-! A source file: its path and its content without a leading byte-order mark. -/
namespace SourceMerge

def byteOrderMark : Char := '\uFEFF'

structure Source where
  path : Path
  content : Text

namespace Source

/-- Takes the content of a file, from which one leading byte-order mark is dropped. -/
def ofContent (path : Path) (content : Text) : Source :=
  ⟨path, if content.head? = some byteOrderMark then content.tail else content⟩

def lines (source : Source) : List Text := source.content.lines

end Source
end SourceMerge
