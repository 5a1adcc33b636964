import SourceMerge.Text.Word

/-! The signature of a program's entry point: a static method Main, perhaps asynchronous, whose
type is void, int, Task or Task of int. It may stand anywhere in a file and run over several
lines, but its first word must not be the tail of a longer one. -/
namespace SourceMerge
namespace EntryPoint

/-- What follows the type argument of a task, blanks before and in it included. -/
def afterIntArgument? (t : Text) : Option Text := do
  let t ← Text.after? ['<'] t.trimStart
  let t ← Text.after? "int".toList t.trimStart
  Text.after? ['>'] t.trimStart

/-- What follows a type that an entry point may have. -/
def afterType? (t : Text) : Option Text :=
  Text.after? "void".toList t <|> Text.after? "int".toList t <|>
    (Text.after? "Task".toList t).map fun rest => (afterIntArgument? rest).getD rest

/-- Whether a text begins with the signature. -/
def isSignature (t : Text) : Bool :=
  let opening := do
    let t ← Text.afterKeyword? "static".toList t
    let t := (Text.afterKeyword? "async".toList t).getD t
    let t ← (afterType? t).bind Text.afterBlanks?
    let t ← Text.after? "Main".toList t
    Text.after? ['('] t.trimStart
  opening.isSome

/-- Whether the signature stands in a text that comes after the character `previous`, if any. -/
def occursAfter (previous : Option Char) : Text → Bool
  | [] => false
  | c :: t => (isSignature (c :: t) && !previous.any Text.isWord) || occursAfter (some c) t

def occursIn (t : Text) : Bool := occursAfter none t

end EntryPoint
end SourceMerge
