import SourceMerge.Text.Utf8

/-! File paths. A path is a sequence of bytes cut into names by slashes; it is shown as text with
replacement characters for what is not UTF-8. -/
namespace SourceMerge

abbrev Name := Bytes

structure Path where
  bytes : Bytes
  deriving DecidableEq, Repr

namespace Path

def slash : UInt8 := 0x2F

def ofText (t : Text) : Path := ⟨Utf8.encode t⟩

def display (p : Path) : Text := Utf8.decodeLossy p.bytes

/-- The path of an entry of the directory at `p`. -/
def child (p : Path) (name : Name) : Path :=
  if p.bytes.isEmpty || p.bytes.getLast? == some slash then ⟨p.bytes ++ name⟩
  else ⟨p.bytes ++ slash :: name⟩

/-- What stands after the last slash. -/
def lastName (p : Path) : Name := (p.bytes.reverse.takeWhile (· != slash)).reverse

def isAbsolute (p : Path) : Bool := p.bytes.head? == some slash

/-- A path taken from another one; an absolute path stands for itself. -/
def join (p q : Path) : Path := if q.isAbsolute then q else p.child q.bytes

/-- One step along a path: stay in a directory, go to its parent, or go to a named entry. -/
inductive Step
  | stay
  | parent
  | entry (name : Name)
  deriving DecidableEq, Repr

def Step.ofName (name : Name) : Step :=
  if name = Utf8.encode ['.'] then .stay
  else if name = Utf8.encode ['.', '.'] then .parent
  else .entry name

/-- The steps of a path. A slash at the end asks for a directory and so adds a step. -/
def steps (p : Path) : List Step :=
  let names := (p.bytes.splitOn slash).filter (!·.isEmpty)
  names.map Step.ofName ++ if p.bytes.getLast? == some slash then [.stay] else []

end Path
end SourceMerge
