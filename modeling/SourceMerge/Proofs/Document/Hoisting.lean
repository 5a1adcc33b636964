import SourceMerge.Proofs.Document.Layout
import SourceMerge.Proofs.Document.Marker
import SourceMerge.Proofs.Unwrap.Run

/-! What a merged document with namespaces declares and where. All using declarations stand in the
declaration block, there is one namespace line if any file had one, and below it nothing is declared,
whatever indentation was taken from a line or put in front of it. -/
namespace SourceMerge
namespace Namespace

theorem chosen?_isSome_iff {sources : List Source} :
    (chosen? sources).isSome ↔ ∃ source ∈ sources, ∃ line ∈ source.lines, (ofLine? line).isSome := by
  constructor
  · intro h
    obtain ⟨n, hn⟩ := Option.isSome_iff_exists.mp h
    obtain ⟨source, hsource, line, hline, hread⟩ := exists_of_chosen? hn
    exact ⟨source, hsource, line, hline, by rw [hread]; rfl⟩
  · rintro ⟨source, hsource, line, hline, hread⟩
    rw [chosen?, Option.orElse_eq_orElse, Option.orElse_eq_or, Option.isSome_or, Bool.or_eq_true]
    right
    rw [first?, List.findSome?_isSome_iff]
    exact ⟨source, hsource, List.findSome?_isSome_iff.mpr ⟨line, hline, hread⟩⟩

end Namespace

namespace Document
open Text Unwrap

/-- What is left of a file declares nothing. -/
theorem of_mem_unwrapped {source : Source} {l : Text} (h : l ∈ source.unwrapped.lines) :
    Using.any? l = none ∧ Namespace.ofLine? l = none ∧ '\n' ∉ l := by
  obtain ⟨line, hline, hu, hn, a, ha, rfl⟩ :=
    State.exists_of_mem_kept (s := .start) allBlank_nil h
  have htrim := trimStart_append ha l
  refine ⟨?_, ?_, ?_⟩
  · rw [← hu, Using.any?_congr htrim]
  · rw [← hn, Namespace.ofLine?_congr htrim]
  · intro hmem
    exact newline_not_mem_of_mem_lines hline (List.mem_append_right a hmem)

section Merge
variable {globals : Option Source} {sources : List Source} {l : Text}

theorem declares_of_mem_bodyLines (h : l ∈ (ofNamespaced globals sources).bodyLines) :
    Using.any? l = none ∧ Namespace.ofLine? l = none := by
  obtain ⟨body, hbody, h⟩ := List.mem_flatMap.mp h
  obtain ⟨source, _, rfl⟩ := List.mem_map.mp hbody
  rcases List.mem_cons.mp h with rfl | h
  · exact ⟨any?_marker _, ofLine?_marker _⟩
  · exact ⟨(of_mem_unwrapped h).1, (of_mem_unwrapped h).2.1⟩

theorem declares_of_mem_indented
    (h : l ∈ (ofNamespaced globals sources).bodyLines.map indentLine) :
    Using.any? l = none ∧ Namespace.ofLine? l = none := by
  obtain ⟨inner, hinner, rfl⟩ := List.mem_map.mp h
  have htrim := trimStart_indentLine inner
  rw [Using.any?_congr htrim, Namespace.ofLine?_congr htrim]
  exact declares_of_mem_bodyLines hinner

theorem declares_of_mem_belowHeader {extent : Extent}
    (h : l ∈ (ofNamespaced globals sources).belowHeader extent) :
    Using.any? l = none ∧ Namespace.ofLine? l = none := by
  rcases mem_belowHeader h with rfl | rfl | rfl | h | ⟨inner, hinner, rfl⟩
  · exact ⟨by decide, by decide⟩
  · exact ⟨by decide, by decide⟩
  · exact ⟨by decide, by decide⟩
  · exact declares_of_mem_bodyLines h
  · exact declares_of_mem_indented (List.mem_map_of_mem hinner)

theorem length_declarationLines (items : List Text) :
    (declarationLines .csharp items).length = items.length := by
  rw [declarationLines, sort, (sortOn_perm id _).length_eq, List.length_map]

variable (globals sources)

/-- The lines below the declarations declare the namespace that was chosen and nothing else. -/
theorem declares_belowDeclarations :
    (∀ l ∈ (ofNamespaced globals sources).belowDeclarations, Using.any? l = none) ∧
      (ofNamespaced globals sources).belowDeclarations.filterMap Namespace.ofLine? =
        (Namespace.chosen? sources).toList := by
  rw [belowDeclarations, enclosure_ofNamespaced]
  cases hchosen : Namespace.chosen? sources with
  | none =>
    refine ⟨fun l hl => (declares_of_mem_bodyLines hl).1, ?_⟩
    exact List.filterMap_eq_nil_iff.mpr fun l hl => (declares_of_mem_bodyLines hl).2
  | some n =>
    obtain ⟨_, _, line, _, hline⟩ := Namespace.exists_of_chosen? hchosen
    have hread := Namespace.ofLine?_headerLine hline
    refine ⟨?_, ?_⟩
    · intro l hl
      rcases List.mem_cons.mp hl with rfl | hl
      · exact Using.any?_eq_none_of_ofLine? hread
      · exact (declares_of_mem_belowHeader hl).1
    · have hbelow : ((ofNamespaced globals sources).belowHeader n.extent).filterMap
          Namespace.ofLine? = [] :=
        List.filterMap_eq_nil_iff.mpr fun l hl => (declares_of_mem_belowHeader hl).2
      rw [Option.elim_some, List.filterMap_cons_some hread, hbelow]
      rfl

theorem namespaces_lines :
    (ofNamespaced globals sources).lines.filterMap Namespace.ofLine? =
      (Namespace.chosen? sources).toList := by
  have hblock : (ofNamespaced globals sources).declarationBlock.filterMap Namespace.ofLine? = [] :=
    List.filterMap_eq_nil_iff.mpr fun l hl => (of_mem_declarationBlock hl).1
  rw [lines_ofNamespaced, List.filterMap_append, hblock, List.nil_append]
  exact (declares_belowDeclarations globals sources).2

/-- Behind as many lines as there are declarations comes their blank line, then no declaration. -/
theorem drop_lines :
    (ofNamespaced globals sources).lines.drop (ofNamespaced globals sources).summary.declarations =
      (if (ofNamespaced globals sources).declarations.isEmpty then [] else [[]]) ++
        (ofNamespaced globals sources).belowDeclarations := by
  rw [lines_ofNamespaced, declarationBlock]
  split
  · rename_i hempty
    have hitems := List.isEmpty_iff.mp hempty
    simp [summary, Declarations.size, hitems]
  · have hlength := length_declarationLines (ofNamespaced globals sources).declarations.items
    rw [List.append_assoc]
    exact List.drop_left' hlength

theorem local?_of_mem_drop_lines {l : Text} (h : l ∈ (ofNamespaced globals sources).lines.drop
    (ofNamespaced globals sources).summary.declarations) : Using.local? l = none := by
  rw [drop_lines] at h
  rcases List.mem_append.mp h with h | h
  · split at h
    · contradiction
    · rw [List.mem_singleton.mp h]
      decide
  · have hany := (declares_belowDeclarations globals sources).1 l h
    exact (Using.any?_eq_none_iff.mp hany).1

theorem global?_of_mem_lines {l : Text} (h : l ∈ (ofNamespaced globals sources).lines) :
    Using.global? l = none := by
  rw [lines_ofNamespaced] at h
  rcases List.mem_append.mp h with h | h
  · cases hglobal : Using.global? l with
    | none => rfl
    | some clause =>
      have hhead := Using.head?_of_global? hglobal
      rcases mem_declarationBlock h with rfl | ⟨item, _, rfl⟩
      · contradiction
      · rw [head?_trimStart_usingLine] at hhead
        contradiction
  · have hany := (declares_belowDeclarations globals sources).1 l h
    exact (Using.any?_eq_none_iff.mp hany).2

/-- Merging leaves no declaration behind: the document declares one namespace if any file does and
none otherwise, it has no global using declaration, and its using declarations all stand among its
first lines, of which there are as many as declarations. -/
theorem ofNamespaced_hoisted :
    (ofNamespaced globals sources).lines.countP (fun line => (Namespace.name? line).isSome) =
        (if ∃ source ∈ sources, ∃ line ∈ source.lines, (Namespace.name? line).isSome then 1 else 0) ∧
      (∀ line ∈ (ofNamespaced globals sources).lines, Using.global? line = none) ∧
      (∀ (i : Nat) (line : Text), (ofNamespaced globals sources).lines[i]? = some line →
        (Using.local? line).isSome → i < (ofNamespaced globals sources).summary.declarations) ∧
      ∀ body ∈ (ofNamespaced globals sources).bodies, ∀ line ∈ body.lines,
        Using.local? line = none := by
  refine ⟨?_, fun line hline => global?_of_mem_lines globals sources hline, ?_, ?_⟩
  · simp only [← Namespace.ofLine?_isSome, ← Namespace.chosen?_isSome_iff]
    rw [← List.length_filterMap_eq_countP, namespaces_lines]
    cases Namespace.chosen? sources <;> rfl
  · intro i line hline hlocal
    by_contra hi
    have hmem : line ∈ (ofNamespaced globals sources).lines.drop
        (ofNamespaced globals sources).summary.declarations := by
      apply List.mem_of_getElem? (i := i - (ofNamespaced globals sources).summary.declarations)
      rw [List.getElem?_drop, Nat.add_sub_cancel' (Nat.le_of_not_lt hi), hline]
    rw [local?_of_mem_drop_lines globals sources hmem] at hlocal
    contradiction
  · intro body hbody line hline
    obtain ⟨source, _, rfl⟩ := List.mem_map.mp hbody
    exact (Using.any?_eq_none_iff.mp (of_mem_unwrapped hline).1).1

end Merge
end Document
end SourceMerge
