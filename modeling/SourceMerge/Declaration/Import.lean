import SourceMerge.Text.Basic

/-! Import declarations: one quoted path after the keyword, or a block of entries between
parentheses with one entry a line. Of an entry only the first word counts, without the quotes
around it. -/
namespace SourceMerge
namespace Import

/-- The path of a single import that a text begins with. -/
def single? (t : Text) : Option Text := do
  let rest ← Text.afterKeyword? "import".toList t.trimStart
  let rest ← Text.after? ['"'] rest
  let path := rest.takeWhile (· != '"')
  if path.isEmpty || path.length = rest.length then none else some path

/-- Whether nothing but blanks and at most one line comment is left. -/
def isLineEnd (t : Text) : Bool :=
  let rest := t.trimStart
  rest.isEmpty || (Text.beginsWith "//".toList rest && !rest.contains '\n')

/-- Whether a text opens an import block. -/
def opensBlock (t : Text) : Bool :=
  let rest := do
    let rest ← Text.after? "import".toList t.trimStart
    Text.after? ['('] rest.trimStart
  rest.any isLineEnd

/-- Whether a line inside a block closes it. -/
def closesBlock (line : Text) : Bool := Text.beginsWith [')'] line.trimStart

def trimQuotes (t : Text) : Text :=
  ((t.dropWhile (· == '"')).reverse.dropWhile (· == '"')).reverse

/-- The entry on a line of a block; blank lines and comment lines have none. -/
def entryPath? (line : Text) : Option Text :=
  let entry := line.trim
  if Text.beginsWith "//".toList entry then none
  else
    let path := trimQuotes entry.firstWord
    if path.isEmpty then none else some path

end Import
end SourceMerge
