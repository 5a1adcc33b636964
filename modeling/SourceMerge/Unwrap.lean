import SourceMerge.Braces
import SourceMerge.Declaration.Namespace
import SourceMerge.Declaration.Using
import SourceMerge.Text.Indent

/-! Taking the lines of a file out of their namespaces. Using declarations and namespace lines are
dropped, a block namespace loses the braces that stand alone on its first and last line, and
what stands inside it loses one level of indentation, so that wrapping it again restores it. -/
namespace SourceMerge
namespace Unwrap

/-- Where the next line stands: in no block namespace, before the brace that opens one, or in one at
a nesting depth, which is 1 at its own level. -/
inductive Place
  | fileLevel
  | beforeBrace
  | inBlock (depth : Nat)
  deriving DecidableEq, Repr

/-- The place at some depth of a block; a block that is closed has been left. -/
def Place.atDepth (opened closed : Nat) : Place :=
  if closed < opened then .inBlock (opened - closed) else .fileLevel

/-- The place, and the indentation of the latest namespace line that opened a block. -/
structure State where
  place : Place
  indent : Text
  deriving DecidableEq, Repr

def State.start : State := ⟨.fileLevel, []⟩

def State.enter (line : Text) : State :=
  let braces := Braces.ofLine line
  ⟨if braces.opens = 0 then .beforeBrace else .atDepth braces.opens braces.closes,
    line.leadingIndent⟩

/-- Reads a line that declares nothing: the state after it, and what is kept of the line. -/
def State.content (s : State) (line : Text) : State × Option Text :=
  match s.place with
  | .fileLevel => (s, some line)
  | .beforeBrace =>
    if line.code = ['{'] then ({ s with place := .inBlock 1 }, none)
    else (s, some (Text.outdent s.indent line))
  | .inBlock depth =>
    if depth = 1 ∧ line.code = ['}'] then ({ s with place := .fileLevel }, none)
    else
      let braces := Braces.ofLine line
      ({ s with place := .atDepth (depth + braces.opens) braces.closes },
        some (Text.outdent s.indent line))

/-- Reads the next line: the state after it, and what is kept of the line. -/
def State.next (s : State) (line : Text) : State × Option Text :=
  if (Using.any? line).isSome then (s, none)
  else match Namespace.ofLine? line with
    | some ⟨_, .wholeFile⟩ => (s, none)
    | some ⟨_, .block⟩ => (.enter line, none)
    | none => s.content line

/-- The state after some lines. -/
def State.after (s : State) : List Text → State
  | [] => s
  | line :: rest => (s.next line).1.after rest

/-- What is kept of some lines. -/
def State.kept (s : State) : List Text → List Text
  | [] => []
  | line :: rest => (s.next line).2.toList ++ (s.next line).1.kept rest

end Unwrap

/-- The lines of a file out of their namespaces. -/
def Text.unwrapLines (lines : List Text) : List Text := Unwrap.State.start.kept lines

namespace Unwrap.State

theorem kept_append (s : State) (xs ys : List Text) :
    s.kept (xs ++ ys) = s.kept xs ++ (s.after xs).kept ys := by
  induction xs generalizing s with
  | nil => rfl
  | cons line rest ih => simp [kept, after, ih]

theorem after_append (s : State) (xs ys : List Text) :
    s.after (xs ++ ys) = (s.after xs).after ys := by
  induction xs generalizing s with
  | nil => rfl
  | cons line rest ih => simp [after, ih]

end Unwrap.State
end SourceMerge
