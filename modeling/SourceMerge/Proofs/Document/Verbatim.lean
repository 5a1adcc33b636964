import SourceMerge.Proofs.Document.ChosenNamespace
import SourceMerge.Proofs.Unwrap.Run

/-! Files that open no block namespace. A run over their lines stays at file level, where a line is
either a declaration and dropped or kept as it stands, lone braces and indentation included. -/
namespace SourceMerge
open Text

/-- Whether a line is neither a using declaration nor a namespace line. -/
def Text.declaresNothing (line : Text) : Bool :=
  (Using.local? line).isNone && (Using.global? line).isNone && (Namespace.name? line).isNone

theorem Text.declaresNothing_iff {line : Text} :
    line.declaresNothing = true ↔ Using.any? line = none ∧ Namespace.ofLine? line = none := by
  rw [Using.any?_eq_none_iff, ← Option.not_isSome_iff_eq_none (o := Namespace.ofLine? line),
    Namespace.ofLine?_isSome]
  simp [declaresNothing]

namespace Unwrap.State
variable {w : Text}

/-- At file level only the line of a block namespace changes the state. -/
theorem next_fileLevel {line : Text} (h : ∀ name, Namespace.ofLine? line ≠ some ⟨name, .block⟩) :
    next ⟨.fileLevel, w⟩ line =
      (⟨.fileLevel, w⟩, if line.declaresNothing then some line else none) := by
  cases hu : Using.any? line with
  | some clause =>
    have hdeclares : ¬ line.declaresNothing = true := by simp [declaresNothing_iff, hu]
    rw [next_of_using hu, if_neg hdeclares]
  | none =>
    cases hn : Namespace.ofLine? line with
    | none =>
      rw [next_of_content hu hn, if_pos (declaresNothing_iff.mpr ⟨hu, hn⟩)]
      rfl
    | some n =>
      have hdeclares : ¬ line.declaresNothing = true := by simp [declaresNothing_iff, hn]
      obtain ⟨name, extent⟩ := n
      cases extent with
      | wholeFile => rw [next_of_wholeFile hn, if_neg hdeclares]
      | block => exact absurd hn (h name)

theorem run_withoutBlocks {lines : List Text}
    (h : ∀ line ∈ lines, ∀ name, Namespace.ofLine? line ≠ some ⟨name, .block⟩) :
    kept ⟨.fileLevel, w⟩ lines = lines.filter declaresNothing ∧
      after ⟨.fileLevel, w⟩ lines = ⟨.fileLevel, w⟩ := by
  induction lines with
  | nil => exact ⟨rfl, rfl⟩
  | cons line rest ih =>
    obtain ⟨hkept, hafter⟩ := ih fun l hl => h l (List.mem_cons_of_mem line hl)
    have hnext := next_fileLevel (w := w) (h line List.mem_cons_self)
    refine ⟨?_, by rw [after, hnext, hafter]⟩
    rw [kept, hnext, hkept, List.filter_cons]
    split <;> rfl

end Unwrap.State

namespace Document
open Unwrap

theorem unwrapped_withoutBlocks {source : Source}
    (h : ∀ line ∈ source.lines, ∀ name, Namespace.ofLine? line ≠ some ⟨name, .block⟩) :
    source.unwrapped = ⟨source.path, source.lines.filter declaresNothing⟩ :=
  congrArg (Body.mk source.path) (State.run_withoutBlocks h).1

/-- Without a namespace the lines that declare nothing are all but the using declarations. -/
theorem unwrapped_withoutNamespace {source : Source}
    (h : ∀ line ∈ source.lines, Namespace.name? line = none) :
    source.unwrapped = ⟨source.path, source.lines.filter fun line =>
      (Using.local? line).isNone && (Using.global? line).isNone⟩ := by
  have hblocks : ∀ line ∈ source.lines, ∀ name,
      Namespace.ofLine? line ≠ some ⟨name, .block⟩ := by
    intro line hline name hn
    have hsome := Namespace.ofLine?_isSome line
    rw [hn, h line hline] at hsome
    contradiction
  rw [unwrapped_withoutBlocks hblocks]
  refine congrArg (Body.mk source.path) (List.filter_congr fun line hline => ?_)
  simp [declaresNothing, h line hline]

theorem enclosure_eq_bare_iff {globals : Option Source} {sources : List Source} :
    (ofNamespaced globals sources).enclosure = .bare ↔ Namespace.chosen? sources = none := by
  rw [enclosure_ofNamespaced]
  cases Namespace.chosen? sources <;> simp

/-- A file that opens no block namespace loses its using declarations and namespace lines and nothing
else, and every other line stays as it is. In a document without a namespace the bodies are the
files without their using declarations. -/
theorem ofNamespaced_verbatim :
    (∀ source : Source,
        (∀ line ∈ source.lines, ∀ name, Namespace.ofLine? line ≠ some ⟨name, .block⟩) →
        source.unwrapped.lines = source.lines.filter fun line =>
          (Using.local? line).isNone && (Using.global? line).isNone &&
            (Namespace.name? line).isNone) ∧
      ∀ globals sources, (ofNamespaced globals sources).enclosure = .bare →
        (ofNamespaced globals sources).bodies = sources.map fun source =>
          ⟨source.path, source.lines.filter fun line =>
            (Using.local? line).isNone && (Using.global? line).isNone⟩ := by
  refine ⟨fun source h => congrArg Body.lines (unwrapped_withoutBlocks h), ?_⟩
  intro globals sources hbare
  have hnames := Namespace.chosen?_eq_none_iff.mp (enclosure_eq_bare_iff.mp hbare)
  exact List.map_congr_left fun source hsource => unwrapped_withoutNamespace (hnames source hsource)

/-- A file for one namespace, with loose braces and an indented line. -/
def looseBraces : Source := ⟨.ofText ['f'], "using A;\nnamespace X;\n\x7b\n    \x7d\n  int i;".toList⟩

def looseBracesBare : Source := ⟨.ofText ['f'], "global using A;\n\x7b\n    \x7d".toList⟩

theorem ofNamespaced_verbatim_looseBraces :
    looseBraces.unwrapped.lines = [['{'], "    \x7d".toList, "  int i;".toList] ∧
      (ofNamespaced none [looseBracesBare]).bodies =
        [⟨.ofText ['f'], [['{'], "    \x7d".toList]⟩] := by
  have hfile : ∀ line ∈ looseBraces.lines,
      (Namespace.ofLine? line).all (·.extent == .wholeFile) = true := by decide
  have hblocks : ∀ line ∈ looseBraces.lines, ∀ name,
      Namespace.ofLine? line ≠ some ⟨name, .block⟩ := by
    intro line hline name hn
    have hextent := hfile line hline
    rw [hn] at hextent
    contradiction
  have hbare : (ofNamespaced none [looseBracesBare]).enclosure = .bare := by decide +kernel
  refine ⟨(ofNamespaced_verbatim.1 looseBraces hblocks).trans ?_,
    (ofNamespaced_verbatim.2 none [looseBracesBare] hbare).trans ?_⟩
  · decide +kernel
  · decide +kernel

end Document
end SourceMerge
