import SourceMerge.Clipboard.SearchPath
import SourceMerge.Failure

/-! The clipboard. Several programs can take a text to it; which of them are tried depends on the
surroundings, and the first one that is installed gets the text on its standard input. -/
namespace SourceMerge

/-- The ways to a clipboard, each one by a program. -/
inductive Mechanism
  | tmux
  | xclip
  | xsel
  | wayland
  | macOS
  | windows
  | termux
  deriving DecidableEq, Repr

namespace Mechanism

def name : Mechanism → Text
  | .tmux => "Tmux".toList
  | .xclip => "Xclip".toList
  | .xsel => "Xsel".toList
  | .wayland => "Wayland".toList
  | .macOS => "MacOS".toList
  | .windows => "Windows".toList
  | .termux => "Termux".toList

def program : Mechanism → Text
  | .tmux => "tmux".toList
  | .xclip => "xclip".toList
  | .xsel => "xsel".toList
  | .wayland => "wl-copy".toList
  | .macOS => "pbcopy".toList
  | .windows => "clip.exe".toList
  | .termux => "termux-clipboard-set".toList

/-- The arguments with which the program takes the text from its standard input. -/
def arguments : Mechanism → List Text
  | .tmux => ["load-buffer".toList, "-w".toList, "-".toList]
  | .xclip => ["-selection".toList, "clipboard".toList, "-in".toList]
  | .xsel => ["-b".toList, "-i".toList]
  | .wayland => []
  | .macOS => []
  | .windows => []
  | .termux => []

end Mechanism

/-- The surroundings that a choice of mechanism depends on. -/
structure Surroundings where
  insideTmux : Bool
  insideWsl : Bool
  searchPath : SearchPath

namespace Surroundings

/-- The mechanisms that suit the surroundings, in order of preference. -/
def candidates (s : Surroundings) : List Mechanism :=
  (if s.insideTmux then [.tmux] else []) ++
    if s.insideWsl then [.windows] else [.wayland, .xsel, .xclip]

/-- The candidates whose programs are installed. -/
def installed (s : Surroundings) (fs : FileSystem) : List Mechanism :=
  s.candidates.filter fun m => s.searchPath.hasCommand fs m.program

end Surroundings

/-- What a program read from its standard input. -/
structure Receipt where
  mechanism : Mechanism
  input : Bytes
  deriving DecidableEq

/-- The end of an attempt to copy, if it ends, the mechanism whose program was started for it, and
what that program received. -/
structure Delivery where
  result : Option (Except CopyFailure Unit)
  started : Option Mechanism
  received : Option Receipt

/-- What is reported of a program that was given a text: a text that could not be written to its
end, or an end without success. -/
def Mechanism.verdict (m : Mechanism) : Except OsError Status → Except CopyFailure Unit
  | .error e => .error (.transfer (.os e))
  | .ok status => if status.isSuccess then .ok () else .error (.command (.ended m.program status))

/-- Gives a text to the program of a mechanism and waits for the program to end. -/
def Mechanism.deliver (searchPath : SearchPath) (fs : FileSystem) (m : Mechanism) (text : Text) :
    Delivery :=
  match searchPath.start fs m.program with
  | .error e => ⟨some (.error (.command (.notStarted m.program e))), none, none⟩
  | .ok conduct =>
    let input := Utf8.encode text
    ⟨(conduct.run? input).map m.verdict, some m, (conduct.intake.read? input).map (⟨m, ·⟩)⟩

/-- Copies a text by the first mechanism that is installed. -/
def Surroundings.copy (s : Surroundings) (fs : FileSystem) (text : Text) : Delivery :=
  match (s.installed fs).head? with
  | none => ⟨some (.error .noMechanism), none, none⟩
  | some m => m.deliver s.searchPath fs text

end SourceMerge
