import SourceMerge.Options
import SourceMerge.Project

/-! The settings of a run, made from the options before any file is looked at. -/
namespace SourceMerge

structure Settings where
  target : Path
  language : Language
  clipboard : Bool
  verbosity : Nat
  deriving DecidableEq

namespace Settings

/-- Blanks around the name of the language do not count, except in the error. -/
def ofOptions (o : Options) : Except MergeFailure Settings :=
  match Language.ofName? o.language.trim with
  | some language => .ok ⟨.ofText o.directory, language, o.clipboard, o.verbosity⟩
  | none => .error (.unknownLanguage o.language)

end Settings

namespace FileSystem

/-- Checks that the target of a run is a directory. -/
def checkTarget (fs : FileSystem) (s : Settings) : Except MergeFailure Unit :=
  if fs.isDirectory s.target then .ok () else .error (.noDirectory s.target)

/-- The merged text of the project that the settings name. -/
def mergedProject (fs : FileSystem) (s : Settings) : Except MergeFailure Text := do
  fs.checkTarget s
  fs.mergedText s.target s.language

end FileSystem
end SourceMerge
