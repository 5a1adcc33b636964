import SourceMerge.Declaration.EntryPoint
import SourceMerge.Document
import SourceMerge.Source
import SourceMerge.Unwrap

/-! Merging files with namespaces: their using declarations are gathered, their lines are taken
out of their namespaces, and one namespace is chosen for all of them. The file that holds the
program's entry point has the first say in it. -/
namespace SourceMerge
namespace Source

/-- The first namespace a file declares. -/
def namespace? (source : Source) : Option Namespace := source.lines.findSome? Namespace.ofLine?

def holdsEntryPoint (source : Source) : Bool := EntryPoint.occursIn source.content

/-- The clauses of the using declarations of a file, of either kind. -/
def usings (source : Source) : List Text := source.lines.filterMap Using.any?

def globalUsings (source : Source) : List Text := source.lines.filterMap Using.global?

/-- What is left of a file when its declarations and namespaces are taken away. -/
def unwrapped (source : Source) : Body := ⟨source.path, Text.unwrapLines source.lines⟩

end Source

namespace Namespace

/-- The namespace of the first file that declares one and holds the entry point. -/
def ofEntryPoint? (sources : List Source) : Option Namespace :=
  (sources.filter Source.holdsEntryPoint).findSome? Source.namespace?

/-- The namespace of the first file that declares one. -/
def first? (sources : List Source) : Option Namespace := sources.findSome? Source.namespace?

/-- The one namespace for some files. -/
def chosen? (sources : List Source) : Option Namespace := ofEntryPoint? sources <|> first? sources

end Namespace

/-- Merges files with namespaces. The declarations of the file for global usings, if there is
one, come before all others. -/
def Document.ofNamespaced (globals : Option Source) (sources : List Source) : Document where
  language := .csharp
  declarations := .ofList
    (globals.toList.flatMap Source.globalUsings ++ sources.flatMap Source.usings)
  enclosure := (Namespace.chosen? sources).elim .bare .inNamespace
  bodies := sources.map Source.unwrapped

end SourceMerge
