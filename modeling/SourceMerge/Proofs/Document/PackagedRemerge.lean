import SourceMerge.Proofs.Declaration.FirstSeen
import SourceMerge.Proofs.Document.PackagedLayout

/-! Merging a merged document with a package again. Its package clause is read as the package and
its block of imports as the declarations, and all its other lines are code. -/
namespace SourceMerge
open Text

namespace Item
open Document


theorem ofLines_of_code {lines : List Text} (h : ∀ line ∈ lines, LineKind.Of line .code) :
    ofLines lines = lines.map .code := by
  induction lines with
  | nil => simp [ofLines]
  | cons line rest ih =>
    have hrest := ih fun other hother => h other (List.mem_cons_of_mem line hother)
    rw [ofLines_cons_of_code (h line List.mem_cons_self), hrest, List.map_cons]

theorem importPaths_map_code (lines : List Text) :
    (lines.map Item.code).flatMap importPaths = [] := by
  rw [List.flatMap_map, List.flatMap_eq_nil_iff]
  exact fun _ _ => rfl

theorem codeLine?_map_code (lines : List Text) :
    (lines.map Item.code).filterMap codeLine? = lines := by
  rw [List.filterMap_map]
  exact List.filterMap_some

/-- A printed import block is read up to the line that closes it, and every entry is read back. -/
theorem ofLines_declarationLines {paths : List Text} (rest : List Text)
    (h : ∀ path ∈ paths, Import.entryPath? (importLine path) = some path) :
    ofLines (declarationLines .go paths ++ rest) = .imports (sort paths) :: ofLines rest := by
  have hkind : LineKind.ofLine "import (".toList = .opener := by decide +kernel
  have hentries : ∀ line ∈ (sort paths).map importLine, (!Import.closesBlock line) = true := by
    intro line hline
    obtain ⟨path, _, rfl⟩ := List.mem_map.mp hline
    rw [Import.closesBlock_importLine]
    rfl
  have hcloser : ∀ line ∈ ([')'] :: rest).head?, (!Import.closesBlock line) = false := by
    intro line hline
    obtain rfl := Option.some.inj hline
    decide
  have hread : ((sort paths).map importLine).filterMap Import.entryPath? = sort paths := by
    rw [List.filterMap_map]
    refine Eq.trans (List.filterMap_congr ?_) List.filterMap_some
    exact fun path hpath => h path (mem_sort.mp hpath)
  have hlines : declarationLines .go paths ++ rest =
      "import (".toList :: ((sort paths).map importLine ++ [')'] :: rest) := by
    simp [declarationLines]
  rw [hlines, ofLines_cons, hkind]
  simp only [takeWhile_run hentries hcloser, dropWhile_run hentries hcloser, hread,
    List.drop_succ_cons, List.drop_zero]

end Item

/-- A sorted set of declarations is seen in the order in which it was sorted. -/
theorem Declarations.firstSeen_sort (s : Declarations) : firstSeen (sort s.items) = sort s.items :=
  firstSeen_eq_self ((sortOn_perm id _).nodup_iff.mpr s.nodup) fun t ht =>
    s.trimmed t (mem_sort.mp ht)

namespace Document

/-- What the declaration block of a document with a package is read as. -/
def importItems (d : Document) : List Item :=
  if d.declarations.isEmpty then [] else [.imports (sort d.declarations.items), .code []]

theorem importPaths_importItems (d : Document) :
    d.importItems.flatMap Item.importPaths = sort d.declarations.items := by
  unfold importItems
  split
  · rename_i hempty
    rw [List.isEmpty_iff.mp hempty]
    exact sort_nil.symm
  · simp [Item.importPaths]

theorem codeLine?_importItems (d : Document) :
    d.importItems.filterMap Item.codeLine? = if d.declarations.isEmpty then [] else [[]] := by
  unfold importItems
  split <;> rfl

/-- Files with packages whose merged document can be merged again: their paths and bodies are read
back line by line, and no blank stands in an import path. -/
structure PackageRemergeable (sources : List Source) : Prop where
  path : ∀ source ∈ sources, '\n' ∉ source.path.display
  last : ∀ source ∈ sources, ∀ line ∈ source.stripped.lines, line.getLast? ≠ some '\r'
  word : ∀ item ∈ (ofPackaged sources).declarations.items, ∀ c ∈ item, isBlank c = false

section Merge
variable {sources : List Source} (h : PackageRemergeable sources)
include h

theorem entryPath?_of_mem_items {item : Text}
    (hitem : item ∈ (ofPackaged sources).declarations.items) :
    Import.entryPath? (importLine item) = some item := by
  have hne := ((ofPackaged sources).declarations.trimmed item hitem).2
  have hword := h.word item hitem
  obtain ⟨_, _, _, _, path, hdeclares, rfl⟩ := exists_of_mem_imports hitem
  exact Import.entryPath?_importLine hword hdeclares.unquoted_trim hne

theorem isLine_of_mem_bodyLines {line : Text} (hline : line ∈ (ofPackaged sources).bodyLines) :
    IsLine line := by
  obtain ⟨body, hbody, hline⟩ := List.mem_flatMap.mp hline
  obtain ⟨source, hsource, rfl⟩ := List.mem_map.mp hbody
  rcases List.mem_cons.mp hline with rfl | hline
  · exact isLine_marker (h.path source hsource)
  · have hmem := (Source.of_mem_stripped hline).1
    exact ⟨newline_not_mem_of_mem_lines hmem, h.last source hsource line hline⟩

theorem isLine_of_mem_lines {line : Text} (hline : line ∈ (ofPackaged sources).lines) :
    IsLine line := by
  rcases isLine_or_mem_bodyLines hline with hline | hline
  · exact hline
  · exact isLine_of_mem_bodyLines h hline

theorem lines_render_ofPackaged (q : Path) :
    (Source.ofContent q (ofPackaged sources).render).lines = (ofPackaged sources).lines := by
  -- The text begins with the keyword of the package clause and so with no mark.
  have hmark : (ofPackaged sources).render.head? ≠ some byteOrderMark := by
    intro hmark
    obtain ⟨line, hline, hhead⟩ := head?_unlines hmark (by decide)
    obtain rfl := Option.some.inj hline
    exact absurd (Option.some.inj hhead) (by decide)
  rw [Source.lines, Source.ofContent, if_neg hmark, render]
  exact lines_unlines (by simp [lines_ofPackaged]) fun line hline => isLine_of_mem_lines h hline

theorem ofLines_declarationBlock (rest : List Text) :
    Item.ofLines ((ofPackaged sources).declarationBlock ++ rest) =
      (ofPackaged sources).importItems ++ Item.ofLines rest := by
  unfold declarationBlock importItems
  split
  · rfl
  · rw [List.append_assoc, List.singleton_append]
    refine (Item.ofLines_declarationLines _ fun path => entryPath?_of_mem_items h).trans ?_
    rw [Item.ofLines_cons_of_code (LineKind.of_iff.mpr (by decide))]
    rfl

/-- The items of a merged document are its package, its declarations and its lines of code. -/
theorem ofLines_lines :
    Item.ofLines (ofPackaged sources).lines =
      .clause (Package.name sources) :: .code [] ::
        ((ofPackaged sources).importItems ++ (ofPackaged sources).bodyLines.map .code) := by
  have hclause : LineKind.ofLine (Package.clauseLine (Package.name sources)) =
      .clause (Package.name sources) :=
    LineKind.of_iff.mp (.clause (isName_package sources).name?_clauseLine)
  rw [lines_ofPackaged, Item.ofLines_cons, hclause,
    ← Item.ofLines_of_code fun _ => of_code_of_mem_bodyLines, ← ofLines_declarationBlock h]
  exact congrArg _ (Item.ofLines_cons_of_code (LineKind.of_iff.mpr (by decide)) _)

/-- Merging a merged document again loses nothing: the package and the declarations stay, and the
bodies with their markers become the one body, below the blank lines that the document has there. -/
theorem ofPackaged_render (q : Path) {d again : Document} (hd : d = ofPackaged sources)
    (hagain : again = ofPackaged [Source.ofContent q d.render]) :
    again.enclosure = d.enclosure ∧ again.declarations.items = sort d.declarations.items ∧
      again.bodies = [⟨q, [] :: (if d.declarations.isEmpty then [] else [[]]) ++
        d.bodies.flatMap fun body => body.path.marker :: body.lines⟩] := by
  subst hd hagain
  have hitems : (Source.ofContent q (ofPackaged sources).render).items = _ :=
    (congrArg Item.ofLines (lines_render_ofPackaged h q)).trans (ofLines_lines h)
  refine ⟨?_, ?_, ?_⟩
  · have hfirst : Package.first? [Source.ofContent q (ofPackaged sources).render] =
        some (Package.name sources) := by
      rw [Package.first?, List.flatMap_singleton, hitems]
      rfl
    show Enclosure.inPackage (Package.name _) = _
    rw [Package.name, hfirst]
    rfl
  · show (Declarations.ofList _).items = _
    rw [Declarations.items_ofList, List.flatMap_singleton, hitems, List.flatMap_cons,
      List.flatMap_cons, List.flatMap_append, importPaths_importItems, Item.importPaths_map_code,
      List.append_nil]
    exact Declarations.firstSeen_sort _
  · show [Source.stripped _] = _
    have hblank : Item.codeLine? (.code []) = some [] := rfl
    rw [Source.stripped, hitems, List.filterMap_cons_none rfl, List.filterMap_cons_some hblank,
      List.filterMap_append, codeLine?_importItems, Item.codeLine?_map_code]
    rfl

end Merge

/-- A file with a single import and an import block, and one with code below a package clause. -/
def quoted : List Source :=
  [⟨.ofText ['a'],
      "package p\n\nimport \"z\"\nimport (\n\tf \"fmt\"\n\n\t\"a\"b\"\n\t`c`;\n)\nvar x".toList⟩,
    ⟨.ofText ['b'], "package q\n\treturn".toList⟩]

theorem packageRemergeable_quoted : PackageRemergeable quoted where
  path := by decide +kernel
  last := by decide +kernel
  word := by
    have hword : (ofPackaged quoted).declarations.items.all (·.all (!isBlank ·)) = true := by
      decide +kernel
    simpa using hword

theorem ofPackaged_render_quoted :
    PackageRemergeable quoted ∧
      (ofPackaged [.ofContent (.ofText ['m']) (ofPackaged quoted).render]).enclosure =
        .inPackage ['p'] ∧
      (ofPackaged [.ofContent (.ofText ['m']) (ofPackaged quoted).render]).declarations.items =
        ["`c`;".toList, "a\"b".toList, ['f'], ['z']] ∧
      (ofPackaged [.ofContent (.ofText ['m']) (ofPackaged quoted).render]).bodies =
        [⟨.ofText ['m'], [[], [], "// --- a ---".toList, [], "var x".toList,
          "// --- b ---".toList, "\treturn".toList]⟩] := by
  obtain ⟨henclosure, hitems, hbodies⟩ :=
    ofPackaged_render packageRemergeable_quoted (.ofText ['m']) rfl rfl
  refine ⟨packageRemergeable_quoted, ?_, ?_, ?_⟩
  · rw [henclosure]
    decide +kernel
  · have hread : (ofPackaged quoted).declarations.items.Perm
        ["`c`;".toList, "a\"b".toList, ['f'], ['z']] := by decide +kernel
    rw [hitems, sort_eq_of_perm hread, sort_eq_self]
    decide +kernel
  · rw [hbodies]
    decide +kernel

end Document
end SourceMerge
