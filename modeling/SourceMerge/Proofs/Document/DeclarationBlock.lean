import Mathlib.Data.List.Nodup
import SourceMerge.Proofs.Document.Hoisting
import SourceMerge.Proofs.Document.PackagedLayout
import SourceMerge.Proofs.Document.Readings
import SourceMerge.Proofs.Text.Order

/-! The lines of a merged document that declare something. They depend only on which declarations the
files have, and not on their order, on how often they stand there or on what kind they are. -/
namespace SourceMerge
open Text

namespace Document

/-- A merged document and what is gathered for it from the files, as it is met in them. -/
inductive Gathers : Document → List Text → Prop
  | packaged (sources : List Source) :
      Gathers (ofPackaged sources) (sources.flatMap fun source => source.record.paths)
  | namespaced (globals : Option Source) (sources : List Source) :
      Gathers (ofNamespaced globals sources) (captured globals sources)

/-- The lines of the text that declare something: the first ones, or those below the package clause, a
blank line and the opener of a block. -/
def declaringLines (d : Document) : List Text :=
  match d.language with
  | .csharp => d.render.lines.take d.summary.declarations
  | .go => (d.render.lines.drop 3).take d.summary.declarations

theorem declaringLines_ofNamespaced (globals : Option Source) (sources : List Source) :
    (ofNamespaced globals sources).declaringLines =
      sort ((ofNamespaced globals sources).declarations.items.map usingLine) := by
  have hlength := length_declarationLines (ofNamespaced globals sources).declarations.items
  have hline : ∀ line ∈ sort ((ofNamespaced globals sources).declarations.items.map usingLine),
      IsLine line := by
    intro line hline
    obtain ⟨item, hitem, rfl⟩ := List.mem_map.mp (mem_sort.mp hline)
    exact isLine_usingLine hitem
  show (unlines (ofNamespaced globals sources).lines).lines.take _ = _
  rw [lines_ofNamespaced, declarationBlock]
  split
  · rename_i hempty
    have hitems := List.isEmpty_iff.mp hempty
    rw [summary, Declarations.size, hitems]
    exact sort_nil.symm
  · rw [List.append_assoc]
    exact (congrArg _ (lines_unlines_append hline (by simp))).trans (List.take_left' hlength)

theorem declaringLines_ofPackaged (sources : List Source) :
    (ofPackaged sources).declaringLines =
      (sort (ofPackaged sources).declarations.items).map importLine := by
  have hlength : ((sort (ofPackaged sources).declarations.items).map importLine).length =
      (ofPackaged sources).declarations.items.length := by
    rw [List.length_map, sort, (sortOn_perm id _).length_eq]
  have hline : ∀ line ∈ Package.clauseLine (Package.name sources) :: [] :: "import (".toList ::
      (sort (ofPackaged sources).declarations.items).map importLine, IsLine line := by
    intro line hline
    rcases List.mem_cons.mp hline with rfl | hline
    · exact (isName_package sources).isLine_clauseLine
    rcases List.mem_cons.mp hline with rfl | hline
    · exact ⟨by decide, by decide⟩
    rcases List.mem_cons.mp hline with rfl | hline
    · exact ⟨by decide, by decide⟩
    · obtain ⟨path, hpath, rfl⟩ := List.mem_map.mp hline
      exact isLine_importLine (mem_sort.mp hpath)
  show ((unlines (ofPackaged sources).lines).lines.drop 3).take _ = _
  rw [lines_ofPackaged, declarationBlock]
  split
  · rename_i hempty
    have hitems := List.isEmpty_iff.mp hempty
    rw [summary, Declarations.size, hitems, sort_nil]
    rfl
  · have hlanguage : (ofPackaged sources).language = .go := rfl
    have hblock : Package.clauseLine (Package.name sources) :: [] ::
        (declarationLines .go (ofPackaged sources).declarations.items ++ [[]] ++
          (ofPackaged sources).bodyLines) =
        (Package.clauseLine (Package.name sources) :: [] :: "import (".toList ::
          (sort (ofPackaged sources).declarations.items).map importLine) ++
            [')'] :: [] :: (ofPackaged sources).bodyLines := by simp [declarationLines]
    rw [hlanguage, hblock, lines_unlines_append hline (List.cons_ne_nil _ _)]
    exact List.take_left' hlength

namespace Gathers
variable {d e : Document} {ds es : List Text}

theorem mem_items (h : Gathers d ds) {t : Text} :
    t ∈ d.declarations.items ↔ t ≠ [] ∧ t ∈ ds.map trim := by
  cases h with
  | packaged sources =>
    rw [items_ofPackaged, firstSeen, List.mem_eraseDups, List.mem_filter]
    simp [and_comm]
  | namespaced globals sources =>
    rw [mem_items_ofNamespaced, List.mem_map]
    simp [eq_comm]

/-- There is one line for each clause, and the whole lines are in the order of their bytes. -/
theorem usingLines (h : Gathers d ds) (hlanguage : d.language = .csharp) :
    (∀ line, line ∈ d.declaringLines ↔ ∃ t, (t ≠ [] ∧ t ∈ ds.map trim) ∧ line = usingLine t) ∧
      d.declaringLines.Pairwise fun a b => Utf8.encode a < Utf8.encode b := by
  have hmem := fun t => h.mem_items (t := t)
  cases h with
  | packaged => contradiction
  | namespaced globals sources =>
    rw [declaringLines_ofNamespaced]
    refine ⟨fun line => ?_, sort_strict ((Declarations.nodup _).map usingLine_injective)⟩
    rw [mem_sort, List.mem_map]
    simp only [hmem, eq_comm]

/-- There is one line for each path, and the paths are in the order of their bytes. -/
theorem importLines (h : Gathers d ds) (hlanguage : d.language = .go) :
    ∃ paths : List Text, d.declaringLines = paths.map importLine ∧
      (∀ path, path ∈ paths ↔ path ≠ [] ∧ path ∈ ds.map trim) ∧
        paths.Pairwise fun a b => Utf8.encode a < Utf8.encode b := by
  have hmem := fun t => h.mem_items (t := t)
  cases h with
  | namespaced => contradiction
  | packaged sources =>
    refine ⟨_, declaringLines_ofPackaged sources, fun path => ?_, sort_strict (Declarations.nodup _)⟩
    rw [mem_sort, hmem]

theorem declaringLines_eq (hd : Gathers d ds) (he : Gathers e es)
    (hlanguage : d.language = e.language)
    (hperm : d.declarations.items.Perm e.declarations.items) :
    d.declaringLines = e.declaringLines := by
  cases hd with
  | packaged sources =>
    cases he with
    | packaged files =>
      rw [declaringLines_ofPackaged, declaringLines_ofPackaged, sort_eq_of_perm hperm]
    | namespaced => contradiction
  | namespaced globals sources =>
    cases he with
    | packaged => contradiction
    | namespaced others files =>
      rw [declaringLines_ofNamespaced, declaringLines_ofNamespaced,
        sort_eq_of_perm (hperm.map usingLine)]

end Gathers

/-- Two merges that gather the same, apart from blanks, order and repetitions, declare it on the same
lines. There is one line for each declaration, and the lines for using declarations and the paths of
imports are strictly increasing by their bytes. -/
theorem declaringLines_determined {d e : Document} {ds es : List Text} (hd : Gathers d ds)
    (he : Gathers e es) (hlanguage : d.language = e.language)
    (hsame : ∀ t, t ≠ [] → (t ∈ ds.map trim ↔ t ∈ es.map trim)) :
    d.declaringLines = e.declaringLines ∧
      (d.language = .csharp →
        (∀ line, line ∈ d.declaringLines ↔ ∃ t, (t ≠ [] ∧ t ∈ ds.map trim) ∧ line = usingLine t) ∧
          d.declaringLines.Pairwise fun a b => Utf8.encode a < Utf8.encode b) ∧
      (d.language = .go → ∃ paths : List Text, d.declaringLines = paths.map importLine ∧
        (∀ path, path ∈ paths ↔ path ≠ [] ∧ path ∈ ds.map trim) ∧
          paths.Pairwise fun a b => Utf8.encode a < Utf8.encode b) := by
  have hperm : d.declarations.items.Perm e.declarations.items := by
    rw [List.perm_ext_iff_of_nodup d.declarations.nodup e.declarations.nodup]
    intro t
    rw [hd.mem_items, he.mem_items]
    exact and_congr_right (hsame t)
  exact ⟨hd.declaringLines_eq he hlanguage hperm, hd.usingLines, hd.importLines⟩

/-- The merge of two files that repeat a using declaration. -/
def repeated : Document :=
  ofNamespaced none [⟨.ofText ['a'], "using System;\nusing System.Linq;".toList⟩,
    ⟨.ofText ['b'], "using  System ;\nclass B;".toList⟩]

/-- The merge of a file below global using declarations in another order. -/
def seeded : Document :=
  ofNamespaced (some ⟨.ofText ['g'], "global using System.Linq;".toList⟩)
    [⟨.ofText ['c'], "global using System;".toList⟩]

/-- As a whole line a longer name can come before a shorter one. -/
theorem declaringLines_determined_repeated :
    repeated.declaringLines = seeded.declaringLines ∧
      repeated.declaringLines = ["using System.Linq;".toList, "using System;".toList] := by
  have hrepeated : Gathers repeated ["System".toList, "System.Linq".toList, "System".toList] :=
    .namespaced none _
  have hseeded : Gathers seeded ["System.Linq".toList, "System".toList] := .namespaced _ _
  have hsame : ∀ t, t ≠ [] →
      (t ∈ ["System".toList, "System.Linq".toList, "System".toList].map trim ↔
        t ∈ ["System.Linq".toList, "System".toList].map trim) := by
    intro t _
    have hrepeats : ["System".toList, "System.Linq".toList, "System".toList].map trim =
        ["System".toList, "System.Linq".toList, "System".toList] := by decide
    have hseeds : ["System.Linq".toList, "System".toList].map trim =
        ["System.Linq".toList, "System".toList] := by decide
    rw [hrepeats, hseeds]
    simp only [List.mem_cons, List.not_mem_nil, or_false]
    rw [or_comm, or_assoc, or_self]
  obtain ⟨hlines, _, _⟩ := declaringLines_determined hrepeated hseeded rfl hsame
  have hitems : seeded.declarations.items = ["System.Linq".toList, "System".toList] := by
    decide +kernel
  refine ⟨hlines, hlines.trans ((declaringLines_ofNamespaced _ _).trans ?_)⟩
  rw [← seeded, hitems, sort_eq_self (by decide +kernel)]
  rfl

end Document
end SourceMerge
