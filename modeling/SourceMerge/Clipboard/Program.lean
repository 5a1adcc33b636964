import SourceMerge.Clipboard.Status
import SourceMerge.FileSystem

/-! Programs that are given a text on their standard input. The text goes through a pipe, which
takes some bytes beyond those that are read: the writer learns that a program has stopped reading
only when they are used up. -/
namespace SourceMerge

/-- What a program does with its input. It reads the whole of it, or it stops after `size` bytes
with room for `room` bytes more in the pipe, whose end it lets go of then, at the latest when it
ends. If it holds on to that end without reading, it waits for the writer to close the other one. -/
inductive Intake
  | whole
  | part (size room : Nat) (held : Bool)
  deriving DecidableEq, Repr

namespace Intake

def isHeld : Intake → Bool
  | .whole => false
  | .part _ _ held => held

/-- Whether an input can be written to its end. -/
def takes : Intake → Bytes → Bool
  | .whole, _ => true
  | .part size room _, input => input.length ≤ size + room

/-- What is read of an input. -/
def read? : Intake → Bytes → Option Bytes
  | .whole, input => some input
  | .part 0 _ _, _ => none
  | .part size _ _, input => some (input.take size)

theorem isPrefix_of_read? {i : Intake} {input bytes : Bytes} (h : i.read? input = some bytes) :
    bytes <+: input := by
  match i, h with
  | .whole, h => exact Option.some.inj h ▸ List.prefix_rfl
  | .part (size + 1) room held, h => exact Option.some.inj h ▸ List.take_prefix _ _

end Intake

/-- What a program does when it is run: what it does with its input, and how it ends, if it does. -/
structure Program where
  intake : Intake
  status : Option Status
  deriving DecidableEq, Repr

namespace Program

/-- What comes of writing an input to the program and waiting for its end: a broken pipe or its
status, or nothing ever. -/
def run? (p : Program) (input : Bytes) : Option (Except OsError Status) :=
  if p.intake.takes input then p.status.map .ok
  else if p.intake.isHeld then none
  else some (.error .brokenPipe)

/-- Whether the program ends, and before that lets go of a pipe from which it does not read. -/
def ends (p : Program) : Bool := p.status.isSome && !p.intake.isHeld

theorem run?_isSome {p : Program} (h : p.ends = true) (input : Bytes) :
    (p.run? input).isSome = true := by
  rw [ends, Bool.and_eq_true, Bool.not_eq_true'] at h
  rw [run?, h.2]
  split
  · rw [Option.isSome_map]
    exact h.1
  · rfl

end Program
end SourceMerge
