import SourceMerge.Collection
import SourceMerge.Document.Render
import SourceMerge.Failure
import SourceMerge.Document.Namespaced
import SourceMerge.Document.Packaged

/-! Merging a project: its files are collected, read in order, merged and written as one text.
The first file that cannot be read ends the merge. -/
namespace SourceMerge
namespace Reader

/-- Reads one source file. Bytes that are not UTF-8 are read as replacement characters. A path with
a zero byte is refused before the system is asked. -/
def source (read : Reader) (path : Path) : Except MergeFailure Source :=
  if path.bytes.contains 0 then
    .error (.unreadable path (.other "file name contained an unexpected NUL byte".toList))
  else match read path with
    | .ok bytes => .ok (.ofContent path (Utf8.decodeLossy bytes))
    | .error error => .error (.unreadable path (.os error))

def sources (read : Reader) (paths : List Path) : Except MergeFailure (List Source) :=
  paths.mapM read.source

/-- Merges the files of a collection. Only a merge with namespaces reads the file for global
usings, and reads it first. -/
def documentOf (read : Reader) (language : Language) (files : Collection) :
    Except MergeFailure Document :=
  match language with
  | .go => do
    let sources ← read.sources files.sources
    return Document.ofPackaged sources
  | .csharp => do
    let globals ← files.globalUsings.mapM read.source
    let sources ← read.sources files.sources
    return Document.ofNamespaced globals sources

end Reader

namespace FileSystem

/-- The document of all files at or below a root. -/
def document (fs : FileSystem) (root : Path) (language : Language) :
    Except MergeFailure Document :=
  fs.read.documentOf language (fs.collection root language)

/-- The text of all files at or below a root, merged. -/
def mergedText (fs : FileSystem) (root : Path) (language : Language) : Except MergeFailure Text :=
  (fs.document root language).map Document.render

end FileSystem
end SourceMerge
