import SourceMerge.Text.Basic

/-! How a program ended, and the words for it. -/
namespace SourceMerge

inductive Status
  | exited (code : Nat)
  | killed (signal : Nat)
  deriving DecidableEq, Repr

namespace Status

/-- The names of the signals from 1 on. -/
def signalNames : List String :=
  ["SIGHUP", "SIGINT", "SIGQUIT", "SIGILL", "SIGTRAP", "SIGABRT", "SIGBUS", "SIGFPE", "SIGKILL",
   "SIGUSR1", "SIGSEGV", "SIGUSR2", "SIGPIPE", "SIGALRM", "SIGTERM", "SIGSTKFLT", "SIGCHLD",
   "SIGCONT", "SIGSTOP", "SIGTSTP", "SIGTTIN", "SIGTTOU", "SIGURG", "SIGXCPU", "SIGXFSZ",
   "SIGVTALRM", "SIGPROF", "SIGWINCH", "SIGIO", "SIGPWR", "SIGSYS"]

def signalName? (signal : Nat) : Option String :=
  if signal = 0 then none else signalNames[signal - 1]?

/-- A program that exits by itself; its code is one byte. -/
def ofExit (code : Nat) : Status := .exited (code % 256)

def isSuccess (s : Status) : Bool := s = .exited 0

def message : Status → Text
  | .exited code => "exit status: ".toList ++ code.repr.toList
  | .killed signal =>
    "signal: ".toList ++ signal.repr.toList ++
      ((signalName? signal).map fun name => " (".toList ++ name.toList ++ [')']).getD []

end Status
end SourceMerge
