import SourceMerge.Text.Word

/-! Using declarations: the keyword, a clause that names what is used, and a semicolon. A clause
is a name, perhaps after the word static, and perhaps with an alias target after an equals sign.
Using statements, which bind a variable or open a parenthesis, have no such clause. -/
namespace SourceMerge
namespace Using

def isNameStart (c : Char) : Bool := c.isAlpha || c == '_' || c == '@'

def isNamePart (c : Char) : Bool := Text.isWord c || c == '.' || c == ':' || c == '@'

inductive Form
  | name
  | aliased
  deriving DecidableEq

/-- Reads a region that begins with a name: nothing but blanks may follow it, or an equals sign
and at least one character. -/
def namedForm? : Text → Option Form
  | [] => none
  | c :: t =>
    if isNameStart c then
      match Text.trimStart (t.dropWhile isNamePart) with
      | [] => some .name
      | '=' :: target => if target.isEmpty then none else some .aliased
      | _ => none
    else none

/-- The word static counts as a modifier if a name follows it, and as the name itself if not. -/
def form? (region : Text) : Option Form :=
  ((Text.afterKeyword? "static".toList region).bind namedForm?) <|> namedForm? region

/-- The clause in front of the first semicolon. A plain clause ends with its name; an alias
reaches up to the semicolon. -/
def clause? (t : Text) : Option Text :=
  let region := t.takeWhile (· != ';')
  if region.length = t.length then none
  else match form? region with
    | some .name => some (Text.trimEnd region)
    | some .aliased => some region
    | none => none

/-- The clause of a using declaration that a text begins with. -/
def local? (t : Text) : Option Text :=
  (Text.afterKeyword? "using".toList t.trimStart).bind clause?

/-- The clause of a global using declaration that a text begins with. -/
def global? (t : Text) : Option Text := do
  let rest ← Text.afterKeyword? "global".toList t.trimStart
  (Text.afterKeyword? "using".toList rest).bind clause?

/-- The clause of a using declaration of either kind. -/
def any? (t : Text) : Option Text := local? t <|> global? t

end Using
end SourceMerge
