import SourceMerge.Text.Utf8

/-! The braces of a line in its bytes. An index moves over the bytes, past literals and block comments,
up to the line comment. All characters with a meaning here are ASCII, so that each of them is one
byte, and a byte that no other character has a part in. -/
namespace SourceMerge

/-- The braces of a line outside literals and comments, and the number of bytes in front of its line
comment, or of all bytes if it has none. -/
structure ByteScan where
  opens : Nat
  closes : Nat
  codeEnd : Nat
  deriving DecidableEq, Repr

namespace ByteScan

/-- Whether an ASCII character stands at an index, which may lie behind the last byte. -/
def isAt (bytes : Array UInt8) (i : Nat) (c : Char) : Bool := bytes[i]? == some c.toNat.toUInt8

/-- The index of the star that closes a block comment, or the number of bytes. -/
def blockCommentEnd (bytes : Array UInt8) (i : Nat) : Nat :=
  if i < bytes.size ∧ ¬ (isAt bytes i '*' ∧ isAt bytes (i + 1) '/') then
    blockCommentEnd bytes (i + 1)
  else i
termination_by bytes.size - i

/-- The index of the quote that closes a verbatim literal, or a number past the last index. -/
def verbatimEnd (bytes : Array UInt8) (i : Nat) : Nat :=
  if i < bytes.size then
    if isAt bytes i '"' then
      if isAt bytes (i + 1) '"' then verbatimEnd bytes (i + 2) else i
    else verbatimEnd bytes (i + 1)
  else i
termination_by bytes.size - i

/-- The index of the quote that closes a regular literal, or a number past the last index. A
backslash takes the byte behind it along, be it a whole character or not. -/
def literalEnd (quote : Char) (bytes : Array UInt8) (i : Nat) : Nat :=
  if i < bytes.size ∧ ¬ isAt bytes i quote then
    literalEnd quote bytes (if isAt bytes i '\\' then i + 2 else i + 1)
  else i
termination_by bytes.size - i
decreasing_by split <;> omega

theorem le_blockCommentEnd (bytes : Array UInt8) (i : Nat) : i ≤ blockCommentEnd bytes i := by
  fun_induction blockCommentEnd bytes i <;> omega

theorem le_verbatimEnd (bytes : Array UInt8) (i : Nat) : i ≤ verbatimEnd bytes i := by
  fun_induction verbatimEnd bytes i <;> omega

theorem le_literalEnd (quote : Char) (bytes : Array UInt8) (i : Nat) :
    i ≤ literalEnd quote bytes i := by
  fun_induction literalEnd quote bytes i with
  | case1 i _ ih => exact Nat.le_trans (by split <;> omega) ih
  | case2 i => exact Nat.le_refl i

/-- Reads on from an index in the code, with the braces counted before it. -/
def scanFrom (bytes : Array UInt8) (opens closes i : Nat) : ByteScan :=
  if i < bytes.size then
    if isAt bytes i '/' ∧ isAt bytes (i + 1) '/' then ⟨opens, closes, i⟩
    else if isAt bytes i '/' ∧ isAt bytes (i + 1) '*' then
      scanFrom bytes opens closes (blockCommentEnd bytes (i + 2) + 2)
    else if isAt bytes i '@' ∧ isAt bytes (i + 1) '"' then
      scanFrom bytes opens closes (verbatimEnd bytes (i + 2) + 1)
    else if isAt bytes i '"' then
      scanFrom bytes opens closes (literalEnd '"' bytes (i + 1) + 1)
    else if isAt bytes i '\x27' then
      scanFrom bytes opens closes (literalEnd '\x27' bytes (i + 1) + 1)
    else if isAt bytes i '{' then scanFrom bytes (opens + 1) closes (i + 1)
    else if isAt bytes i '}' then scanFrom bytes opens (closes + 1) (i + 1)
    else scanFrom bytes opens closes (i + 1)
  else ⟨opens, closes, bytes.size⟩
termination_by bytes.size - i
decreasing_by
  · have := le_blockCommentEnd bytes (i + 2); omega
  · have := le_verbatimEnd bytes (i + 2); omega
  · have := le_literalEnd '"' bytes (i + 1); omega
  · have := le_literalEnd '\x27' bytes (i + 1); omega
  all_goals omega

def ofBytes (bytes : Bytes) : ByteScan := scanFrom bytes.toArray 0 0 0

def ofLine (line : Text) : ByteScan := ofBytes (Utf8.encode line)

/-- The change in nesting depth that a line makes. -/
def delta (s : ByteScan) : Int := s.opens - s.closes

end ByteScan
end SourceMerge
