import SourceMerge.Text.Basic

/-! Namespace declarations: the keyword and a name that runs up to a blank, an opening brace or a
semicolon. A declaration that is all of its line and ends in a semicolon covers the whole file;
any other opens a block. -/
namespace SourceMerge

/-- How far a namespace reaches. -/
inductive Extent
  | wholeFile
  | block
  deriving DecidableEq, Repr

structure Namespace where
  name : Text
  extent : Extent
  deriving DecidableEq, Repr

namespace Namespace

def isNamePart (c : Char) : Bool := !Text.isBlank c && c != '{' && c != ';'

/-- The name a text declares as a namespace, and what follows the name. -/
def declared? (t : Text) : Option (Text × Text) := do
  let rest ← Text.afterKeyword? "namespace".toList t.trimStart
  let name := rest.takeWhile isNamePart
  if name.isEmpty then none else some (name, rest.dropWhile isNamePart)

def name? (t : Text) : Option Text := (declared? t).map Prod.fst

/-- Whether a text is one semicolon and blanks. -/
def isTerminator (t : Text) : Bool := t.trim == [';']

/-- The name of a namespace declared for the whole file. -/
def wholeFileName? (t : Text) : Option Text := do
  let (name, rest) ← declared? t
  if isTerminator rest then some name else none

/-- The namespace a line declares. -/
def ofLine? (line : Text) : Option Namespace := do
  let (name, rest) ← declared? line
  some ⟨name, if isTerminator rest then .wholeFile else .block⟩

theorem ofLine?_isSome (line : Text) : (ofLine? line).isSome = (name? line).isSome := by
  simp only [ofLine?, name?, Option.isSome_map]
  cases declared? line <;> rfl

end Namespace
end SourceMerge
