import SourceMerge.Declarations

/-! Declarations as they are stored: the members in the order in which they were first seen, and
beside them an index that is asked whether a text is a member. -/
namespace SourceMerge.Declarations

/-- The index is a set. It is read and written by `List.contains` and `List.insert` alone, so that
the order in it does not count. -/
structure Indexed where
  ordered : List Text
  index : List Text
  deriving Repr

namespace Indexed

def empty : Indexed := ⟨[], []⟩

/-- Adds a declaration, unless it is blank or present. The answer is whether it was new. -/
def insert (s : Indexed) (declaration : Text) : Indexed × Bool :=
  let d := declaration.trim
  if d.isEmpty || s.index.contains d then (s, false)
  else (⟨s.ordered ++ [d], s.index.insert d⟩, true)

def contains (s : Indexed) (declaration : Text) : Bool := s.index.contains declaration.trim

def size (s : Indexed) : Nat := s.ordered.length

def isEmpty (s : Indexed) : Bool := s.ordered.isEmpty

end Indexed

/-- What can be asked of stored declarations. -/
inductive Call
  | insert (declaration : Text)
  | contains (declaration : Text)
  deriving DecidableEq, Repr

namespace Indexed

/-- What is stored after a call, and the answer to it. -/
def call (s : Indexed) : Call → Indexed × Bool
  | .insert declaration => s.insert declaration
  | .contains declaration => (s, s.contains declaration)

/-- What is stored after some calls. -/
def after (s : Indexed) : List Call → Indexed
  | [] => s
  | c :: calls => (s.call c).1.after calls

theorem after_append (s : Indexed) (calls more : List Call) :
    s.after (calls ++ more) = (s.after calls).after more := by
  induction calls generalizing s with
  | nil => rfl
  | cons c calls ih => exact ih (s.call c).1

end Indexed
end SourceMerge.Declarations
