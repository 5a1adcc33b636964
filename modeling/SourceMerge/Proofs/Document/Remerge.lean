import SourceMerge.Proofs.Document.Hoisting
import SourceMerge.Proofs.Unwrap.BlockNamespace

/-! Merging a merged document again. Its declaration block, its namespace line and its bodies are told
apart as they were when it was written, so that nothing of it is lost and nothing but blank lines
comes in. -/
namespace SourceMerge
namespace Document
open Braces Text Unwrap

/-- The blank lines that stand in front of the first body. -/
def blankLines (d : Document) : List Text :=
  (if d.declarations.isEmpty then [] else [[]]) ++
    match d.enclosure with
    | .inNamespace ⟨_, .wholeFile⟩ => [[]]
    | _ => []

/-- Files whose merged document can be merged again: their paths and bodies are read back line by line,
their aliases have targets, and their braces leave a block open that stands around them. -/
structure Remergeable (globals : Option Source) (sources : List Source) : Prop where
  nonempty : sources ≠ []
  path : ∀ source ∈ sources, '\n' ∉ source.path.display
  last : ∀ source ∈ sources, ∀ line ∈ source.unwrapped.lines, line.getLast? ≠ some '\r'
  clause : ∀ clause ∈ captured globals sources, ¬ Using.IsBlankAlias clause
  balanced : ∀ name, (ofNamespaced globals sources).enclosure = .inNamespace ⟨name, .block⟩ →
    Balanced ((ofNamespaced globals sources).bodies.flatMap Body.lines)

section Merge
variable {globals : Option Source} {sources : List Source} (h : Remergeable globals sources)
include h

theorem of_mem_bodyLines {l : Text} (hl : l ∈ (ofNamespaced globals sources).bodyLines) :
    Using.any? l = none ∧ Namespace.ofLine? l = none ∧ IsLine l := by
  obtain ⟨hu, hn⟩ := declares_of_mem_bodyLines hl
  refine ⟨hu, hn, ?_⟩
  obtain ⟨body, hbody, hl⟩ := List.mem_flatMap.mp hl
  obtain ⟨source, hsource, rfl⟩ := List.mem_map.mp hbody
  rcases List.mem_cons.mp hl with rfl | hl
  · exact isLine_marker (h.path source hsource)
  · exact ⟨(of_mem_unwrapped hl).2.2, h.last source hsource l hl⟩

theorem any?_item {item : Text} (hitem : item ∈ (ofNamespaced globals sources).declarations.items) :
    Using.any? (usingLine item) = some item ∧ IsLine (usingLine item) := by
  obtain ⟨_, _, _, _, clause, hclause, hany, rfl, _⟩ := exists_of_mem_items hitem
  exact ⟨Using.any?_usingLine hany (h.clause clause hclause), isLine_usingLine hitem⟩

/-- Nothing but blank lines is left of the declaration block when it is read. -/
theorem withoutUsings_declarationBlock :
    withoutUsings (ofNamespaced globals sources).declarationBlock =
      if (ofNamespaced globals sources).declarations.isEmpty then [] else [[]] := by
  unfold declarationBlock
  split
  · rfl
  · have hdeclarations : withoutUsings (declarationLines (ofNamespaced globals sources).language
        (ofNamespaced globals sources).declarations.items) = [] := by
      rw [withoutUsings, List.filter_eq_nil_iff]
      intro line hline
      have hline := mem_sort.mp hline
      obtain ⟨item, hitem, rfl⟩ := List.mem_map.mp hline
      simp [(any?_item h hitem).1]
    rw [withoutUsings_append, hdeclarations]
    rfl

theorem usings_declarationBlock (item : Text) :
    item ∈ (ofNamespaced globals sources).declarationBlock.filterMap Using.any? ↔
      item ∈ (ofNamespaced globals sources).declarations.items := by
  rw [List.mem_filterMap]
  constructor
  · rintro ⟨line, hline, hany⟩
    rcases mem_declarationBlock hline with rfl | ⟨other, hother, rfl⟩
    · contradiction
    · rw [(any?_item h hother).1] at hany
      exact Option.some.inj hany ▸ hother
  · intro hitem
    exact ⟨usingLine item, usingLine_mem_declarationBlock.mpr hitem, (any?_item h hitem).1⟩

theorem head?_bodyLines :
    ∃ p : Path, (ofNamespaced globals sources).bodyLines.head? = some p.marker := by
  have hne := h.nonempty
  cases sources with
  | nil => contradiction
  | cons source rest => exact ⟨source.path, rfl⟩

theorem of_mem_belowHeader {extent : Extent} {l : Text}
    (hl : l ∈ (ofNamespaced globals sources).belowHeader extent) :
    Using.any? l = none ∧ IsLine l := by
  refine ⟨(declares_of_mem_belowHeader hl).1, ?_⟩
  have hbody := fun l hl => (of_mem_bodyLines h (l := l) hl).2.2
  rcases mem_belowHeader hl with rfl | rfl | rfl | hl | ⟨inner, hinner, rfl⟩
  · exact ⟨by decide, by decide⟩
  · exact ⟨by decide, by decide⟩
  · exact ⟨by decide, by decide⟩
  · exact hbody l hl
  · exact (hbody inner hinner).indentLine

/-- After the declaration block no line is a using declaration, and the first namespace is the one
that was chosen. -/
theorem exists_lines :
    ∃ core, (ofNamespaced globals sources).lines =
        (ofNamespaced globals sources).declarationBlock ++ core ∧ core ≠ [] ∧
      (∀ l ∈ core, Using.any? l = none ∧ IsLine l) ∧
      (∀ l ∈ core.head?, l.head? ≠ some byteOrderMark) ∧
      core.findSome? Namespace.ofLine? = Namespace.chosen? sources := by
  have hbody := fun l hl => of_mem_bodyLines h (l := l) hl
  have henclosure := enclosure_ofNamespaced globals sources
  cases hchosen : Namespace.chosen? sources with
  | none =>
    rw [hchosen] at henclosure
    obtain ⟨p, hp⟩ := head?_bodyLines h
    refine ⟨_, lines_of_bare henclosure, ?_, ?_, ?_, ?_⟩
    · intro hnil
      rw [hnil] at hp
      contradiction
    · intro l hl
      exact ⟨(hbody l hl).1, (hbody l hl).2.2⟩
    · intro l hl
      rw [hp] at hl
      obtain rfl := Option.some.inj hl
      intro hmark
      exact absurd (Option.some.inj hmark) (by decide)
    · rw [List.findSome?_eq_none_iff]
      intro l hl
      exact (hbody l hl).2.1
  | some n =>
    rw [hchosen] at henclosure
    obtain ⟨_, _, line, _, hline⟩ := Namespace.exists_of_chosen? hchosen
    have hread := Namespace.ofLine?_headerLine hline
    refine ⟨_, lines_of_inNamespace henclosure, by simp, ?_, ?_, by simp [hread]⟩
    · intro l hl
      rcases List.mem_cons.mp hl with rfl | hl
      · exact ⟨Using.any?_eq_none_of_ofLine? hread, isLine_headerLine hline⟩
      · exact of_mem_belowHeader h hl
    · intro l hl
      obtain rfl := Option.some.inj hl
      intro hmark
      rw [Namespace.head?_headerLine] at hmark
      exact absurd (Option.some.inj hmark) (by decide)

theorem lines_render (q : Path) :
    (Source.ofContent q (ofNamespaced globals sources).render).lines =
      (ofNamespaced globals sources).lines := by
  obtain ⟨core, hlines, hne, hcore, hfirst, _⟩ := exists_lines h
  -- A mark at the front of the text would stand at the front of its first line.
  have hmark : (ofNamespaced globals sources).render.head? ≠ some byteOrderMark := by
    intro hmark
    rw [render, hlines] at hmark
    obtain ⟨l, hl, hhead⟩ := head?_unlines hmark (by decide)
    rw [List.head?_append] at hl
    cases hblock : (ofNamespaced globals sources).declarationBlock with
    | nil =>
      rw [hblock] at hl
      exact hfirst l hl hhead
    | cons first rest =>
      rw [hblock] at hl
      obtain rfl := Option.some.inj hl
      have hmem : first ∈ (ofNamespaced globals sources).declarationBlock := by
        rw [hblock]
        exact List.mem_cons_self
      exact (of_mem_declarationBlock hmem).2.2 hhead
  rw [Source.lines, Source.ofContent, if_neg hmark, render, hlines]
  apply lines_unlines
  · simp [hne]
  · intro l hl
    rcases List.mem_append.mp hl with hl | hl
    · exact (of_mem_declarationBlock hl).2.1
    · exact (hcore l hl).2

/-- In a block namespace the document is a file with one block namespace. -/
def blockFile {line name : Text} (hline : Namespace.ofLine? line = some ⟨name, .block⟩)
    (hname : (ofNamespaced globals sources).enclosure = .inNamespace ⟨name, .block⟩) : BlockFile where
  before := (ofNamespaced globals sources).declarationBlock
  header := Namespace.headerLine ⟨name, .block⟩
  gap := []
  opener := ['{']
  body := (ofNamespaced globals sources).bodyLines.map indentLine
  closer := ['}']
  rest := []
  name := name
  header_eq := Namespace.ofLine?_headerLine hline
  opens_header := by
    apply opens_eq_zero
    intro hmem
    rcases List.mem_append.mp hmem with hmem | hmem
    · exact absurd hmem (by decide)
    · exact absurd (Namespace.isNamePart_of_mem_name hline hmem) (by decide)
  ofLine?_others := by
    simp only [List.append_nil, List.mem_append, List.mem_map]
    rintro l (hl | ⟨inner, hinner, rfl⟩)
    · exact (of_mem_declarationBlock hl).1
    · rw [← (of_mem_bodyLines h hinner).2.1]
      exact Namespace.ofLine?_congr (trimStart_indentLine inner)
  code_gap := by simp
  code_opener := by decide +kernel
  code_closer := by decide +kernel
  balanced_body := by
    rw [withoutUsings_eq_self]
    · apply (balanced_map fun line => by rw [ofLine_indentLine]).mpr
      exact balanced_bodyLines.mpr (h.balanced name hname)
    · exact fun l hl => (declares_of_mem_indented hl).1

theorem unwrapLines_lines :
    unwrapLines (ofNamespaced globals sources).lines =
      (ofNamespaced globals sources).blankLines ++ (ofNamespaced globals sources).bodyLines := by
  have hblock := withoutUsings_declarationBlock h
  have hbody := withoutUsings_eq_self fun l hl => (of_mem_bodyLines h (l := l) hl).1
  have henclosure := enclosure_ofNamespaced globals sources
  have hstart : ∀ l ∈ (ofNamespaced globals sources).declarationBlock,
      Namespace.ofLine? l = none := fun l hl => (of_mem_declarationBlock hl).1
  have hrest : ∀ l ∈ (ofNamespaced globals sources).bodyLines, Namespace.ofLine? l = none :=
    fun l hl => (of_mem_bodyLines h hl).2.1
  obtain ⟨hkept, hafter⟩ := State.run_fileLevel (w := []) hstart
  cases hchosen : Namespace.chosen? sources with
  | none =>
    rw [hchosen] at henclosure
    obtain ⟨hbodies, _⟩ := State.run_fileLevel (w := []) hrest
    rw [unwrapLines, State.start, lines_of_bare henclosure, State.kept_append, hkept, hafter,
      hbodies, hblock, hbody, blankLines, henclosure]
    simp
  | some n =>
    rw [hchosen] at henclosure
    obtain ⟨_, _, line, _, hline⟩ := Namespace.exists_of_chosen? hchosen
    obtain ⟨name, extent⟩ := n
    cases extent with
    | wholeFile =>
      have hnext := State.next_of_wholeFile (Namespace.ofLine?_headerLine hline) ⟨.fileLevel, []⟩
      have hlast : ∀ l ∈ [] :: (ofNamespaced globals sources).bodyLines,
          Namespace.ofLine? l = none := by simpa using ⟨by decide, hrest⟩
      obtain ⟨hbodies, _⟩ := State.run_fileLevel (w := []) hlast
      have hempty : Using.any? [] = none := by decide
      rw [withoutUsings_cons_of_none hempty, hbody] at hbodies
      rw [unwrapLines, State.start, lines_of_inNamespace henclosure, State.kept_append, hkept, hafter,
        State.kept, hnext, belowHeader, hbodies, hblock, blankLines, henclosure]
      simp
    | block =>
      have hlines : (ofNamespaced globals sources).lines = (blockFile h hline henclosure).lines := by
        rw [lines_of_inNamespace henclosure]
        simp [BlockFile.lines, blockFile, belowHeader]
      have hindent : (blockFile h hline henclosure).indent = [] := rfl
      have hinner : withoutUsings ((ofNamespaced globals sources).bodyLines.map indentLine) =
          (ofNamespaced globals sources).bodyLines.map indentLine :=
        withoutUsings_eq_self fun l hl => (declares_of_mem_indented hl).1
      have hcancel : outdent [] ∘ indentLine = id := funext outdent_indentLine
      rw [hlines, BlockFile.unwrapLines_lines, hindent, blankLines, henclosure]
      simp only [blockFile, List.nil_append, hblock, hinner, List.map_map, hcancel, List.map_id]
      simp [withoutUsings]

/-- Merging a merged document again loses nothing: the namespace and the declarations stay, and the
bodies with their markers become the one body, below the blank lines that the document has there. -/
theorem ofNamespaced_render (q : Path) {d again : Document} (hd : d = ofNamespaced globals sources)
    (hagain : again = ofNamespaced none [Source.ofContent q d.render]) :
    again.enclosure = d.enclosure ∧
      (∀ item, item ∈ again.declarations.items ↔ item ∈ d.declarations.items) ∧
      again.bodies =
        [⟨q, d.blankLines ++ d.bodies.flatMap fun body => body.path.marker :: body.lines⟩] := by
  subst hd hagain
  have hlines := lines_render h q
  obtain ⟨core, hcore, _, hplain, _, hfind⟩ := exists_lines h
  refine ⟨?_, ?_, ?_⟩
  · have hstart : (ofNamespaced globals sources).declarationBlock.findSome? Namespace.ofLine? =
        none := by
      rw [List.findSome?_eq_none_iff]
      exact fun l hl => (of_mem_declarationBlock hl).1
    have hchosen : Namespace.chosen?
        [Source.ofContent q (ofNamespaced globals sources).render] = Namespace.chosen? sources := by
      rw [Namespace.chosen?_singleton, Source.namespace?, hlines, hcore, List.findSome?_append,
        hstart, Option.none_or, hfind]
    rw [enclosure_ofNamespaced, hchosen, enclosure_ofNamespaced]
  · intro item
    have hrest : core.filterMap Using.any? = [] := by
      rw [List.filterMap_eq_nil_iff]
      exact fun l hl => (hplain l hl).1
    have hcaptured : captured none [Source.ofContent q (ofNamespaced globals sources).render] =
        (ofNamespaced globals sources).declarationBlock.filterMap Using.any? := by
      simp [captured, Source.usings, hlines, hcore, hrest]
    rw [mem_items_ofNamespaced, hcaptured]
    constructor
    · rintro ⟨_, clause, hclause, rfl⟩
      have hitem := (usings_declarationBlock h clause).mp hclause
      rwa [((ofNamespaced globals sources).declarations.trimmed clause hitem).1]
    · intro hitem
      obtain ⟨htrim, hne⟩ := (ofNamespaced globals sources).declarations.trimmed item hitem
      exact ⟨hne, item, (usings_declarationBlock h item).mpr hitem, htrim.symm⟩
  · have hbody := unwrapLines_lines h
    rw [← hlines] at hbody
    show [Source.unwrapped _] = _
    rw [Source.unwrapped, hbody]
    rfl

end Merge

/-- A file with an alias and a block namespace, and one with a namespace for the whole file. -/
def aliased : List Source :=
  [⟨.ofText ['a'], "using X = Y ;\nnamespace A\n\x7b\n    class C\n    \x7b\n\n    \x7d\n\x7d".toList⟩,
    ⟨.ofText ['b'], "namespace B;\nint x; // \x7b".toList⟩]

theorem remergeable_aliased : Remergeable none aliased where
  nonempty := by decide
  path := by decide +kernel
  last := by decide +kernel
  clause := by decide +kernel
  balanced := by
    intro _ _
    decide +kernel

theorem ofNamespaced_render_aliased :
    Remergeable none aliased ∧
      (ofNamespaced none [.ofContent (.ofText ['m']) (ofNamespaced none aliased).render]).bodies =
        [⟨.ofText ['m'], [[], "// --- a ---".toList, "class C".toList, ['{'], [], ['}'],
          "// --- b ---".toList, "int x; // \x7b".toList]⟩] := by
  refine ⟨remergeable_aliased, ?_⟩
  rw [(ofNamespaced_render remergeable_aliased (.ofText ['m']) rfl rfl).2.2]
  decide +kernel

end Document
end SourceMerge
