import SourceMerge.Text.Basic

/-! Lines: a text is cut at every newline, and a carriage return at the end of a line is not part
of it. A newline at the very end leaves an empty last line. -/
namespace SourceMerge.Text

/-- Drops one carriage return from the end of a line. -/
def dropReturn (line : Text) : Text :=
  if line.getLast? = some '\r' then line.dropLast else line

def lines (t : Text) : List Text := (t.splitOn '\n').map dropReturn

/-- The lines with newlines between them and none after the last. -/
def unlines (ls : List Text) : Text := List.intercalate ['\n'] ls

@[simp] theorem unlines_nil : unlines [] = [] := rfl

@[simp] theorem unlines_singleton (l : Text) : unlines [l] = l := by
  simp [unlines, List.intercalate]

theorem dropReturn_of_ne {line : Text} (h : line.getLast? ≠ some '\r') :
    dropReturn line = line := if_neg h

theorem dropReturn_append (line : Text) : dropReturn (line ++ ['\r']) = line := by
  simp [dropReturn]

end SourceMerge.Text
