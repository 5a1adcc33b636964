import SourceMerge.Text.Basic

/-! Indentation: the spaces and tabs a line starts with, and one level of it, which is four
spaces when written and four spaces or one tab when read. -/
namespace SourceMerge.Text

/-- One level of indentation as it is written. -/
def indentStep : Text := "    ".toList

def isIndent (c : Char) : Bool := c == ' ' || c == '\t'

def leadingIndent (line : Text) : Text := line.takeWhile isIndent

/-- Removes `base` and one level after it, from a line that begins with both. -/
def outdent (base line : Text) : Text :=
  let inner := do
    let rest ← after? base line
    after? indentStep rest <|> after? ['\t'] rest
  inner.getD line

/-- Adds one level in front of a line that is not empty. -/
def indentLine (line : Text) : Text := if line.isEmpty then line else indentStep ++ line

theorem outdent_append_step (base line : Text) :
    outdent base (base ++ indentStep ++ line) = line := by
  simp [outdent, after?_append]

end SourceMerge.Text
