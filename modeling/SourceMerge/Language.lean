import SourceMerge.Text.Basic

/-! The source languages a project can be written in, and the names they are chosen by. -/
namespace SourceMerge

inductive Language
  | go
  | csharp
  deriving DecidableEq, Repr

namespace Language

/-- The canonical name comes first. -/
def names : Language → List Text
  | .go => ["go".toList, "golang".toList]
  | .csharp => ["csharp".toList, "cs".toList, "c#".toList]

def name : Language → Text
  | .go => "go".toList
  | .csharp => "csharp".toList

/-- The extension of source files, without the dot. -/
def extension : Language → Text
  | .go => "go".toList
  | .csharp => "cs".toList

def all : List Language := [.go, .csharp]

/-- The language of a given name, in any mixture of cases. -/
def ofName? (name : Text) : Option Language :=
  all.find? fun language => language.names.contains name.lower

theorem ofName?_name (language : Language) : ofName? language.name = some language := by
  cases language <;> decide

/-- No name belongs to two languages. -/
theorem eq_of_mem_names {name : Text} {a b : Language} (ha : name ∈ a.names)
    (hb : name ∈ b.names) : a = b := by
  have h : ∀ n ∈ a.names, n ∈ b.names → a = b := by cases a <;> cases b <;> decide
  exact h name ha hb

theorem ofName?_eq_some_iff {name : Text} {language : Language} :
    ofName? name = some language ↔ name.lower ∈ language.names := by
  constructor
  · intro h
    simpa using List.find?_some h
  · intro h
    cases hfound : ofName? name with
    | none =>
      have hall := List.find?_eq_none.mp hfound language (by cases language <;> decide)
      simp [h] at hall
    | some other =>
      have hother : name.lower ∈ other.names := by simpa using List.find?_some hfound
      rw [eq_of_mem_names hother h]

theorem ofName?_eq_none_iff {name : Text} :
    ofName? name = none ↔ ∀ language : Language, name.lower ∉ language.names := by
  simp only [← ofName?_eq_some_iff]
  cases ofName? name <;> simp

end Language
end SourceMerge
