import SourceMerge.Log

/-! Where a run writes to. Standard output may refuse bytes; standard error takes everything. -/
namespace SourceMerge

/-- What becomes of standard output: all of it is taken, or no more than `room` bytes, after which
the write ends with an error. -/
inductive Sink
  | endless
  | full (room : Nat) (cause : Cause)
  deriving DecidableEq

namespace Sink

/-- Whether bytes can be written to their end. -/
def takes : Sink → Bytes → Bool
  | .endless, _ => true
  | .full room _, bytes => bytes.length ≤ room

/-- Writes bytes: those that were taken, and whether that is all of them. -/
def put : Sink → Bytes → Bytes × Except Cause Unit
  | .endless, bytes => (bytes, .ok ())
  | .full room cause, bytes =>
    if bytes.length ≤ room then (bytes, .ok ()) else (bytes.take room, .error cause)

theorem put_of_takes {s : Sink} {bytes : Bytes} (h : s.takes bytes = true) :
    s.put bytes = (bytes, .ok ()) := by
  cases s with
  | endless => rfl
  | full room cause => exact if_pos (of_decide_eq_true h)

/-- A write that is refused leaves a part of the bytes, cut off before their end. -/
theorem put_of_not_takes {s : Sink} {bytes : Bytes} (h : s.takes bytes = false) :
    ∃ taken cause, s.put bytes = (taken, .error cause) ∧ taken <+: bytes ∧
      taken.length < bytes.length := by
  cases s with
  | endless => contradiction
  | full room cause =>
    have hroom : ¬ bytes.length ≤ room := of_decide_eq_false h
    refine ⟨bytes.take room, cause, if_neg hroom, List.take_prefix room bytes, ?_⟩
    rw [List.length_take]
    omega

end Sink

/-- Standard output, and what the environment says of the log: without a filter of its own the
verbosity decides. -/
structure Console where
  output : Sink
  filter? : Option (Event → Bool)

/-- Whether an event is shown at a verbosity. -/
def Console.shows (c : Console) (verbosity : Nat) (event : Event) : Bool :=
  match c.filter? with
  | some passes => passes event
  | none => event.level.depth ≤ (Level.ofVerbosity verbosity).depth

end SourceMerge
