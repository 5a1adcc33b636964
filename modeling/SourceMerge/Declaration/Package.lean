import SourceMerge.Text.Word

/-! Package clauses: the keyword and a name made of word characters. -/
namespace SourceMerge
namespace Package

/-- The name in the package clause that a text begins with. -/
def name? (t : Text) : Option Text := do
  let rest ← Text.afterKeyword? "package".toList t.trimStart
  let name := rest.takeWhile Text.isWord
  if name.isEmpty then none else some name

/-- The package of files that declare none. -/
def defaultName : Text := "main".toList

end Package
end SourceMerge
