import SourceMerge.Proofs.Document.Hoisting
import SourceMerge.Proofs.Document.PackagedLayout

/-! Telling merged documents by their text. The lines of a text are those of the document, its
declarations end where the line for its namespace or the first marker stands, and each body ends at
the next marker, if the bodies have no lines that look like markers. -/
namespace SourceMerge
namespace Document
open Text

/-- A document that merging files gives. -/
inductive IsMerged : Document → Prop
  | packaged (sources : List Source) : IsMerged (ofPackaged sources)
  | namespaced (globals : Option Source) (sources : List Source) :
      IsMerged (ofNamespaced globals sources)

/-- Whether a line can stand in a declaration block: it begins like no namespace line and no marker. -/
def standsAbove (line : Text) : Bool := line.head? != some 'n' && line.head? != some '/'

variable {d e : Document} {l : Text}

theorem newline_not_mem_bodyLines (hplain : ∀ body ∈ d.bodies, body.IsPlain)
    (hlines : ∀ body ∈ d.bodies, ∀ l ∈ body.lines, '\n' ∉ l) (h : l ∈ d.bodyLines) : '\n' ∉ l := by
  obtain ⟨body, hbody, h⟩ := List.mem_flatMap.mp h
  rcases List.mem_cons.mp h with rfl | h
  · exact (hplain body hbody).isLine_marker.newline
  · exact hlines body hbody l h

theorem head?_of_mem_head?_bodyLines (h : l ∈ d.bodyLines.head?) : l.head? = some '/' := by
  obtain ⟨p, rfl⟩ := Body.exists_of_mem_head? h
  rfl

theorem standsAbove_head?_bodyLines (h : l ∈ d.bodyLines.head?) : standsAbove l = false := by
  rw [standsAbove, head?_of_mem_head?_bodyLines h]
  rfl

theorem belowHeader_inj {extent : Extent}
    (h : d.belowHeader extent = e.belowHeader extent) : d.bodyLines = e.bodyLines := by
  cases extent with
  | wholeFile => exact (List.cons.inj h).2
  | block =>
    have hindented := (List.cons.inj (List.append_cancel_right h)).2
    exact List.map_injective_iff.mpr indentLine_injective hindented

theorem bodyLines_ne_headerLine (d : Document) (n : Namespace) (rest : List Text) :
    d.bodyLines ≠ n.headerLine :: rest := by
  intro h
  have hhead := head?_of_mem_head?_bodyLines (d := d) (l := n.headerLine) (by rw [h]; rfl)
  rw [Namespace.head?_headerLine] at hhead
  exact absurd hhead (by decide)

section Namespaced
variable {globals : Option Source} {sources : List Source}

theorem newline_not_mem_of_mem_ofNamespaced
    (hplain : ∀ body ∈ (ofNamespaced globals sources).bodies, body.IsPlain)
    (h : l ∈ (ofNamespaced globals sources).lines) : '\n' ∉ l := by
  have hbody : ∀ l ∈ (ofNamespaced globals sources).bodyLines, '\n' ∉ l := by
    intro l hl
    refine newline_not_mem_bodyLines hplain (fun body hbody line hline => ?_) hl
    obtain ⟨source, _, rfl⟩ := List.mem_map.mp hbody
    exact (of_mem_unwrapped hline).2.2
  rw [lines_ofNamespaced] at h
  rcases List.mem_append.mp h with h | h
  · exact (of_mem_declarationBlock h).2.1.newline
  rw [belowDeclarations, enclosure_ofNamespaced] at h
  cases hchosen : Namespace.chosen? sources with
  | none =>
    rw [hchosen] at h
    exact hbody l h
  | some n =>
    rw [hchosen] at h
    rcases List.mem_cons.mp h with rfl | h
    · obtain ⟨_, _, _, _, hread⟩ := Namespace.exists_of_chosen? hchosen
      exact (isLine_headerLine hread).newline
    · rcases mem_belowHeader h with rfl | rfl | rfl | h | ⟨inner, hinner, rfl⟩
      · decide
      · decide
      · decide
      · exact hbody l h
      · exact newline_not_mem_indentLine (hbody inner hinner)

theorem head?_declarationBlock (h : l ∈ (ofNamespaced globals sources).declarationBlock.head?) :
    l.head? = some 'u' := by
  unfold declarationBlock at h
  split at h
  · contradiction
  · rename_i hsome
    have hne : declarationLines .csharp (ofNamespaced globals sources).declarations.items ≠ [] := by
      intro hnil
      have hlength := congrArg List.length hnil
      rw [length_declarationLines] at hlength
      exact hsome (List.isEmpty_iff_length_eq_zero.mpr hlength)
    have hfirst : l ∈ (declarationLines .csharp
        (ofNamespaced globals sources).declarations.items).head? := by
      rwa [← List.head?_append_of_ne_nil _ hne]
    obtain ⟨_, _, rfl⟩ := List.mem_map.mp (mem_sort.mp (List.mem_of_head? hfirst))
    rfl

theorem head?_belowDeclarations (h : l ∈ (ofNamespaced globals sources).belowDeclarations.head?) :
    l.head? = some 'n' ∨ l.head? = some '/' := by
  rw [belowDeclarations, enclosure_ofNamespaced] at h
  cases hchosen : Namespace.chosen? sources with
  | none =>
    rw [hchosen] at h
    exact Or.inr (head?_of_mem_head?_bodyLines h)
  | some n =>
    rw [hchosen] at h
    obtain rfl := Option.some.inj h
    exact Or.inl (Namespace.head?_headerLine n)

/-- What follows the declarations shows the namespace and where the bodies begin. -/
theorem belowDeclarations_inj {others : Option Source} {files : List Source}
    (h : (ofNamespaced globals sources).belowDeclarations =
      (ofNamespaced others files).belowDeclarations) :
    (ofNamespaced globals sources).enclosure = (ofNamespaced others files).enclosure ∧
      (ofNamespaced globals sources).bodyLines = (ofNamespaced others files).bodyLines := by
  simp only [belowDeclarations, enclosure_ofNamespaced] at h ⊢
  cases hchosen : Namespace.chosen? sources with
  | none =>
    rw [hchosen] at h
    cases hother : Namespace.chosen? files with
    | none =>
      rw [hother] at h
      exact ⟨rfl, h⟩
    | some m =>
      rw [hother] at h
      exact absurd h (bodyLines_ne_headerLine _ m _)
  | some n =>
    rw [hchosen] at h
    cases hother : Namespace.chosen? files with
    | none =>
      rw [hother] at h
      exact absurd h.symm (bodyLines_ne_headerLine _ n _)
    | some m =>
      rw [hother] at h
      obtain ⟨hheader, hbelow⟩ := List.cons.inj h
      obtain ⟨_, _, _, _, hn⟩ := Namespace.exists_of_chosen? hchosen
      obtain ⟨_, _, _, _, hm⟩ := Namespace.exists_of_chosen? hother
      have hread := Namespace.ofLine?_headerLine hn
      rw [hheader, Namespace.ofLine?_headerLine hm] at hread
      obtain rfl := Option.some.inj hread
      exact ⟨rfl, belowHeader_inj hbelow⟩

/-- The first line of a document tells which language it is in. -/
theorem head?_lines_ofNamespaced (h : l ∈ (ofNamespaced globals sources).lines.head?) :
    l ≠ [] ∧ l.head? ≠ some 'p' := by
  have hhead : l.head? = some 'u' ∨ l.head? = some 'n' ∨ l.head? = some '/' := by
    rw [lines_ofNamespaced, List.head?_append] at h
    cases hfirst : (ofNamespaced globals sources).declarationBlock.head? with
    | some first =>
      rw [hfirst] at h
      obtain rfl := Option.some.inj h
      exact Or.inl (head?_declarationBlock hfirst)
    | none =>
      rw [hfirst] at h
      exact Or.inr (head?_belowDeclarations h)
  refine ⟨?_, ?_⟩
  · rintro rfl
    simp at hhead
  · intro hp
    rw [hp] at hhead
    exact absurd hhead (by decide)

theorem standsAbove_declarationBlock
    (h : l ∈ (ofNamespaced globals sources).declarationBlock) : standsAbove l = true := by
  rcases mem_declarationBlock h with rfl | ⟨item, _, rfl⟩ <;> rfl

theorem standsAbove_head?_belowDeclarations
    (h : l ∈ (ofNamespaced globals sources).belowDeclarations.head?) : standsAbove l = false := by
  rcases head?_belowDeclarations h with hhead | hhead <;> rw [standsAbove, hhead] <;> rfl

/-- The lines of a document with namespaces determine it. -/
theorem ofNamespaced_of_lines_eq {others : Option Source} {files : List Source}
    (hd : ∀ body ∈ (ofNamespaced globals sources).bodies, body.IsPlain)
    (he : ∀ body ∈ (ofNamespaced others files).bodies, body.IsPlain)
    (h : (ofNamespaced globals sources).lines = (ofNamespaced others files).lines) :
    (ofNamespaced globals sources).enclosure = (ofNamespaced others files).enclosure ∧
      (∀ item, item ∈ (ofNamespaced globals sources).declarations.items ↔
        item ∈ (ofNamespaced others files).declarations.items) ∧
      (ofNamespaced globals sources).bodies = (ofNamespaced others files).bodies := by
  rw [lines_ofNamespaced, lines_ofNamespaced] at h
  obtain ⟨hblock, hbelow⟩ := run_append_inj (fun _ => standsAbove_declarationBlock)
    (fun _ => standsAbove_head?_belowDeclarations) (fun _ => standsAbove_declarationBlock)
    (fun _ => standsAbove_head?_belowDeclarations) h
  obtain ⟨henclosure, hbodies⟩ := belowDeclarations_inj hbelow
  refine ⟨henclosure, fun item => ?_, Body.eq_of_flatMap_render_eq hd he hbodies⟩
  rw [← usingLine_mem_declarationBlock, hblock, usingLine_mem_declarationBlock]

end Namespaced

section Packaged
variable {sources : List Source}

theorem newline_not_mem_of_mem_ofPackaged
    (hplain : ∀ body ∈ (ofPackaged sources).bodies, body.IsPlain)
    (h : l ∈ (ofPackaged sources).lines) : '\n' ∉ l := by
  rcases isLine_or_mem_bodyLines h with h | h
  · exact h.newline
  · refine newline_not_mem_bodyLines hplain (fun body hbody line hline => ?_) h
    obtain ⟨source, _, rfl⟩ := List.mem_map.mp hbody
    exact newline_not_mem_of_mem_lines (Source.of_mem_stripped hline).1

theorem standsAbove_importBlock (h : l ∈ (ofPackaged sources).declarationBlock) :
    standsAbove l = true := by
  rcases mem_importBlock h with rfl | rfl | rfl | ⟨item, _, rfl⟩ <;> rfl

/-- The lines of a document with a package determine it. -/
theorem ofPackaged_of_lines_eq {files : List Source}
    (hd : ∀ body ∈ (ofPackaged sources).bodies, body.IsPlain)
    (he : ∀ body ∈ (ofPackaged files).bodies, body.IsPlain)
    (h : (ofPackaged sources).lines = (ofPackaged files).lines) :
    (ofPackaged sources).enclosure = (ofPackaged files).enclosure ∧
      (∀ item, item ∈ (ofPackaged sources).declarations.items ↔
        item ∈ (ofPackaged files).declarations.items) ∧
      (ofPackaged sources).bodies = (ofPackaged files).bodies := by
  rw [lines_ofPackaged, lines_ofPackaged] at h
  obtain ⟨hclause, htail⟩ := List.cons.inj h
  have hname : Package.name sources = Package.name files := List.append_cancel_left hclause
  obtain ⟨hblock, hbodies⟩ := run_append_inj (fun _ => standsAbove_importBlock)
    (fun _ => standsAbove_head?_bodyLines) (fun _ => standsAbove_importBlock)
    (fun _ => standsAbove_head?_bodyLines) (List.cons.inj htail).2
  refine ⟨congrArg Enclosure.inPackage hname, fun item => ?_,
    Body.eq_of_flatMap_render_eq hd he hbodies⟩
  rw [← importLine_mem_declarationBlock, hblock, importLine_mem_declarationBlock]

end Packaged

namespace IsMerged

theorem newline_not_mem (h : IsMerged d) (hplain : ∀ body ∈ d.bodies, body.IsPlain) :
    ∀ l ∈ d.lines, '\n' ∉ l := by
  cases h with
  | packaged sources => exact fun _ => newline_not_mem_of_mem_ofPackaged hplain
  | namespaced globals sources => exact fun _ => newline_not_mem_of_mem_ofNamespaced hplain

theorem head?_lines_ne (h : IsMerged d) : d.lines.head? ≠ some [] := by
  cases h with
  | packaged sources =>
    intro hnil
    exact absurd (Option.some.inj hnil) (List.cons_ne_nil _ _)
  | namespaced globals sources =>
    intro hnil
    exact (head?_lines_ofNamespaced hnil).1 rfl

theorem lines_ofPackaged_ne {sources files : List Source} {globals : Option Source} :
    (ofPackaged sources).lines ≠ (ofNamespaced globals files).lines := by
  intro h
  have hhead : Package.clauseLine (Package.name sources) ∈
      (ofNamespaced globals files).lines.head? := by
    rw [← h]
    rfl
  exact (head?_lines_ofNamespaced hhead).2 rfl

end IsMerged

/-- The text of a merged document determines the document up to the order of its declarations. -/
theorem determined_by_render (hd : IsMerged d) (he : IsMerged e)
    (hplain : ∀ body ∈ d.bodies ++ e.bodies, body.IsPlain) (h : d.render = e.render) :
    d.language = e.language ∧ d.enclosure = e.enclosure ∧
      (∀ item, item ∈ d.declarations.items ↔ item ∈ e.declarations.items) ∧
      d.bodies = e.bodies := by
  have hdplain : ∀ body ∈ d.bodies, body.IsPlain := fun body hbody =>
    hplain body (List.mem_append_left _ hbody)
  have heplain : ∀ body ∈ e.bodies, body.IsPlain := fun body hbody =>
    hplain body (List.mem_append_right _ hbody)
  have hlines : d.lines = e.lines :=
    unlines_inj (hd.newline_not_mem hdplain) (he.newline_not_mem heplain) hd.head?_lines_ne
      he.head?_lines_ne h
  cases hd with
  | packaged sources =>
    cases he with
    | packaged files => exact ⟨rfl, ofPackaged_of_lines_eq hdplain heplain hlines⟩
    | namespaced globals files => exact absurd hlines IsMerged.lines_ofPackaged_ne
  | namespaced globals sources =>
    cases he with
    | packaged files => exact absurd hlines.symm IsMerged.lines_ofPackaged_ne
    | namespaced others files => exact ⟨rfl, ofNamespaced_of_lines_eq hdplain heplain hlines⟩

/-- The order in which declarations were seen does not show in the text. -/
theorem render_eq_of_perm (hlanguage : d.language = e.language)
    (henclosure : d.enclosure = e.enclosure)
    (hitems : d.declarations.items.Perm e.declarations.items) (hbodies : d.bodies = e.bodies) :
    d.render = e.render := by
  have hdeclarations : declarationLines d.language d.declarations.items =
      declarationLines e.language e.declarations.items := by
    rw [hlanguage]
    cases e.language with
    | csharp => exact sort_eq_of_perm (hitems.map usingLine)
    | go => rw [declarationLines, declarationLines, sort_eq_of_perm hitems]
  have hempty : d.declarations.isEmpty = e.declarations.isEmpty := hitems.isEmpty_eq
  have hblock : d.declarationBlock = e.declarationBlock := by
    rw [declarationBlock, declarationBlock, hempty, hdeclarations]
  have hbodyLines : d.bodyLines = e.bodyLines := by rw [bodyLines, bodyLines, hbodies]
  rw [render, render, lines, lines, henclosure, hblock, hbodyLines]

/-- A document whose using declarations all come from its one file. -/
def ofLocals : Document :=
  ofNamespaced none [⟨.ofText ['a'], "using A;\nusing B;\nnamespace N;\n\tint x;\n".toList⟩]

/-- A document with the same text, for which one using declaration is global. -/
def ofGlobals : Document :=
  ofNamespaced (some ⟨.ofText ['g'], "global using B;".toList⟩)
    [⟨.ofText ['a'], "namespace N;\n\tint x;\nusing A;\n".toList⟩]

theorem render_ofLocals : ofLocals.render = ofGlobals.render := by
  have hitems : ofLocals.declarations.items.Perm ofGlobals.declarations.items := by decide +kernel
  have hbodies : ofLocals.bodies = ofGlobals.bodies := by decide +kernel
  exact render_eq_of_perm rfl (by decide +kernel) hitems hbodies

theorem determined_by_render_ofLocals :
    IsMerged ofLocals ∧ IsMerged ofGlobals ∧
      (∀ body ∈ ofLocals.bodies ++ ofGlobals.bodies, body.IsPlain) ∧
      ofLocals.render = ofGlobals.render ∧
      (∀ item, item ∈ ofLocals.declarations.items ↔ item ∈ ofGlobals.declarations.items) ∧
      ofLocals.bodies = ofGlobals.bodies := by
  have hplain : ∀ body ∈ ofLocals.bodies ++ ofGlobals.bodies, body.IsPlain := by
    have hpath : ∀ body ∈ ofLocals.bodies ++ ofGlobals.bodies, body.path = .ofText ['a'] := by
      decide +kernel
    have hlines : ∀ body ∈ ofLocals.bodies ++ ofGlobals.bodies, ∀ line ∈ body.lines,
        line.looksMarked = false := by decide +kernel
    exact fun body hbody => ⟨⟨['a'], hpath body hbody, by decide⟩, hlines body hbody⟩
  obtain ⟨_, _, hitems, hbodies⟩ := determined_by_render (.namespaced _ _) (.namespaced _ _) hplain
    render_ofLocals
  exact ⟨.namespaced _ _, .namespaced _ _, hplain, render_ofLocals, hitems, hbodies⟩

end Document
end SourceMerge
