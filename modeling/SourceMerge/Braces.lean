import SourceMerge.Text.Utf8

/-! The braces of one line of code. Literals and comments hide what they hold: a regular literal
ends at its own quote and a backslash in it hides the next character, a verbatim literal opens
with an at sign and a quote and doubles a quote to hold one, a block comment ends at its closer,
and each of them ends at the end of the line at the latest. -/
namespace SourceMerge
namespace Braces

/-- What follows a block comment whose opener has been read. -/
def afterBlockComment : Text → Text
  | [] => []
  | '*' :: '/' :: t => t
  | _ :: t => afterBlockComment t

/-- What follows a verbatim literal whose opener has been read. -/
def afterVerbatim : Text → Text
  | [] => []
  | '"' :: '"' :: t => afterVerbatim t
  | '"' :: t => t
  | _ :: t => afterVerbatim t

/-- What follows a regular literal whose opening `quote` has been read. -/
def afterLiteral (quote : Char) : Text → Text
  | [] => []
  | [_] => []
  | c :: d :: t =>
    if c = quote then d :: t
    else if c = '\\' then afterLiteral quote t
    else afterLiteral quote (d :: t)

theorem length_afterBlockComment_le (t : Text) : (afterBlockComment t).length ≤ t.length := by
  fun_induction afterBlockComment t <;> simp_all <;> omega

theorem length_afterVerbatim_le (t : Text) : (afterVerbatim t).length ≤ t.length := by
  fun_induction afterVerbatim t <;> simp_all <;> omega

theorem length_afterLiteral_le (quote : Char) (t : Text) :
    (afterLiteral quote t).length ≤ t.length := by
  fun_induction afterLiteral quote t <;> simp_all <;> omega

end Braces

/-- The braces of a line outside literals and comments, and the line comment that ends its code,
from the two slashes on. -/
structure Braces where
  opens : Nat
  closes : Nat
  comment : Text
  deriving DecidableEq, Repr

namespace Braces

/-- Reads a line from a place in its code, with the braces counted before that place. -/
def countFrom (opens closes : Nat) : Text → Braces
  | [] => ⟨opens, closes, []⟩
  | '/' :: '/' :: t => ⟨opens, closes, '/' :: '/' :: t⟩
  | '/' :: '*' :: t => countFrom opens closes (afterBlockComment t)
  | '@' :: '"' :: t => countFrom opens closes (afterVerbatim t)
  | '"' :: t => countFrom opens closes (afterLiteral '"' t)
  | '\x27' :: t => countFrom opens closes (afterLiteral '\x27' t)
  | '{' :: t => countFrom (opens + 1) closes t
  | '}' :: t => countFrom opens (closes + 1) t
  | _ :: t => countFrom opens closes t
termination_by t => t.length
decreasing_by
  · have := length_afterBlockComment_le t; simp; omega
  · have := length_afterVerbatim_le t; simp; omega
  · have := length_afterLiteral_le '"' t; simp; omega
  · have := length_afterLiteral_le '\x27' t; simp; omega
  all_goals simp

def ofLine (line : Text) : Braces := countFrom 0 0 line

/-- The change in nesting depth that a line makes. -/
def delta (b : Braces) : Int := b.opens - b.closes

end Braces

/-- The part of a line before its line comment. -/
def Text.beforeComment (line : Text) : Text :=
  line.take (line.length - (Braces.ofLine line).comment.length)

/-- The code of a line: what stands before its line comment, without the blanks around it. -/
def Text.code (line : Text) : Text := (beforeComment line).trim

end SourceMerge
