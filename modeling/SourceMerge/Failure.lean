import SourceMerge.Clipboard.Status
import SourceMerge.FileSystem

/-! What can go wrong in a merge and on the way to the clipboard, and the words for it. -/
namespace SourceMerge

/-- Why reading or writing failed: for a reason of the system, or for one given in words. -/
inductive Cause
  | os (error : OsError)
  | other (reason : Text)
  deriving DecidableEq

def Cause.message : Cause → Text
  | .os error => error.message
  | .other reason => reason

/-- Why a program did not do its work. -/
inductive CommandFailure
  | notStarted (program : Text) (error : OsError)
  | ended (program : Text) (status : Status)
  | other (reason : Text)
  deriving DecidableEq

def CommandFailure.message : CommandFailure → Text
  | .notStarted program error =>
    "failed to spawn ".toList ++ program ++ ": ".toList ++ error.message
  | .ended program status => program ++ " exited with status: ".toList ++ status.message
  | .other reason => reason

/-- Why a text did not reach the clipboard. -/
inductive CopyFailure
  | command (failure : CommandFailure)
  | noMechanism
  | transfer (cause : Cause)
  deriving DecidableEq

def CopyFailure.message : CopyFailure → Text
  | .command failure => "Command failed: ".toList ++ failure.message
  | .noMechanism => "No suitable clipboard mechanism found".toList
  | .transfer cause => "IO error: ".toList ++ cause.message

/-- Why there is no merged text, or why it did not get where it should. -/
inductive MergeFailure
  | unreadable (path : Path) (cause : Cause)
  | unknownLanguage (name : Text)
  | missing (what : Text)
  | transfer (cause : Cause)
  | copy (failure : CopyFailure)
  deriving DecidableEq

namespace MergeFailure

def message : MergeFailure → Text
  | .unreadable path cause =>
    "error reading ".toList ++ path.display ++ ": ".toList ++ cause.message
  | .unknownLanguage name =>
    "Unsupported language: ".toList ++ name ++ " (supported: go, csharp)".toList
  | .missing what => "Path not found: ".toList ++ what
  | .transfer cause => "IO error: ".toList ++ cause.message
  | .copy failure => "Clipboard error: ".toList ++ failure.message

/-- The failure of a project directory that is missing or is something else. -/
def noDirectory (path : Path) : MergeFailure :=
  .missing ("Target directory not found: ".toList ++ path.display)

end MergeFailure
end SourceMerge
