import SourceMerge.Proofs.Declaration.ImportPath
import SourceMerge.Proofs.Document.Marker
import SourceMerge.Proofs.Text.Order

/-! The lines of a merged document with a package: the package clause, which is read back as the
name of the package, a block with one entry for each import path, and the bodies, in which every
line is code. -/
namespace SourceMerge
open Text

namespace Package

/-- The line that a document declares its package with. -/
def clauseLine (name : Text) : Text := "package ".toList ++ name

/-- A name as it stands in a package clause. -/
structure IsName (name : Text) : Prop where
  nonempty : name ≠ []
  head : ∀ c ∈ name.head?, isBlank c = false
  word : ∀ c ∈ name, isWord c = true

theorem isName_of_name? {line name : Text} (h : name? line = some name) : IsName name := by
  obtain ⟨rest, hkeyword, hne, hword, _⟩ := name?_eq_some_iff.mp h
  obtain ⟨_, _, _, _, hhead⟩ := afterKeyword?_eq_some_iff.mp hkeyword
  refine ⟨hne, ?_, hword⟩
  cases name with
  | nil => contradiction
  | cons c name => exact hhead

theorem isName_defaultName : IsName defaultName where
  nonempty := by decide
  head := by
    intro c hc
    obtain rfl := Option.some.inj hc
    decide
  word := List.all_eq_true.mp (by decide)

theorem IsName.name?_clauseLine {name : Text} (h : IsName name) :
    name? (clauseLine name) = some name := by
  refine name?_eq_some_iff.mpr ⟨[], ?_, h.nonempty, h.word, by simp⟩
  have htrim : trimStart (clauseLine name) = "package".toList ++ ([' '] ++ name) :=
    trimStart_cons (by decide) _
  rw [htrim, List.append_nil]
  exact afterKeyword?_eq_some_iff.mpr ⟨[' '], by simp, by simp [AllBlank, isBlank], rfl, h.head⟩

theorem IsName.isLine_clauseLine {name : Text} (h : IsName name) : IsLine (clauseLine name) := by
  refine .append (by decide) ⟨?_, ?_⟩ h.nonempty
  · intro hmem
    exact absurd (h.word _ hmem) (by decide)
  · intro hlast
    exact absurd (h.word _ (List.mem_of_getLast? hlast)) (by decide)

/-- The name of the package of some files. -/
def name (sources : List Source) : Text := (first? sources).getD defaultName

end Package

namespace Item

/-- Where the items of some lines come from. -/
inductive From (lines : List Text) : Item → Prop
  | clause {line name} : line ∈ lines → Package.name? line = some name → From lines (.clause name)
  | imports {paths} : (∀ path ∈ paths, ∃ line ∈ lines, Import.Declares line path) →
      From lines (.imports paths)
  | code {line} : line ∈ lines → LineKind.Of line .code → From lines (.code line)

theorem From.mono {lines more : List Text} {item : Item} (h : From lines item)
    (hsub : lines ⊆ more) : From more item := by
  cases h with
  | clause hline hname => exact .clause (hsub hline) hname
  | imports hpaths =>
    refine .imports fun path hpath => ?_
    obtain ⟨line, hline, hdeclares⟩ := hpaths path hpath
    exact ⟨line, hsub hline, hdeclares⟩
  | code hline hcode => exact .code (hsub hline) hcode

theorem from_of_mem_ofLines {lines : List Text} {item : Item} (h : item ∈ ofLines lines) :
    From lines item := by
  fun_induction ofLines lines with
  | case1 => contradiction
  | case2 line rest name hname ih =>
    rcases List.mem_cons.mp h with rfl | h
    · exact .clause List.mem_cons_self hname
    · exact (ih h).mono (List.subset_cons_self line rest)
  | case3 line rest hname hopen ih =>
    rcases List.mem_cons.mp h with rfl | h
    · refine .imports fun path hpath => ?_
      obtain ⟨entry, hentry, hread⟩ := List.mem_filterMap.mp hpath
      have hmem := (List.takeWhile_sublist _).subset hentry
      exact ⟨entry, List.mem_cons_of_mem line hmem, Or.inr hread⟩
    · apply (ih h).mono
      intro l hl
      exact List.mem_cons_of_mem line
        ((List.dropWhile_sublist _).subset ((List.drop_sublist 1 _).subset hl))
  | case4 line rest hname hopen ih =>
    rcases List.mem_cons.mp h with rfl | h
    · cases hsingle : Import.single? line with
      | some path =>
        rw [ofLine, hsingle]
        refine .imports fun path hpath => ⟨line, List.mem_cons_self, ?_⟩
        rw [List.mem_singleton.mp hpath]
        exact Or.inl hsingle
      | none =>
        rw [ofLine, hsingle]
        exact .code List.mem_cons_self (.code hname (by simpa using hopen) hsingle)
    · exact (ih h).mono (List.subset_cons_self line rest)

end Item

/-- What is left of a file is code, and stood in the file. -/
theorem Source.of_mem_stripped {source : Source} {line : Text} (h : line ∈ source.stripped.lines) :
    line ∈ source.lines ∧ LineKind.Of line .code := by
  obtain ⟨item, hitem, hcode⟩ := List.mem_filterMap.mp h
  cases Item.from_of_mem_ofLines hitem with
  | clause => contradiction
  | imports => contradiction
  | code hline hof =>
    obtain rfl := Option.some.inj hcode
    exact ⟨hline, hof⟩

namespace Document

section Merge
variable {sources : List Source}

theorem isName_package (sources : List Source) : Package.IsName (Package.name sources) := by
  rw [Package.name]
  cases hfirst : Package.first? sources with
  | none => exact Package.isName_defaultName
  | some name =>
    obtain ⟨item, hitem, hclause⟩ := List.exists_of_findSome?_eq_some hfirst
    obtain ⟨source, _, hitem⟩ := List.mem_flatMap.mp hitem
    cases Item.from_of_mem_ofLines hitem with
    | clause _ hname =>
      obtain rfl := Option.some.inj hclause
      exact Package.isName_of_name? hname
    | imports => contradiction
    | code => contradiction

/-- A declaration of a merged document is a path that a line of a file declares. -/
theorem exists_of_mem_imports {item : Text} (h : item ∈ (ofPackaged sources).declarations.items) :
    ∃ source ∈ sources, ∃ line ∈ source.lines, ∃ path, Import.Declares line path ∧
      item = path.trim := by
  have hmem := Declarations.mem_insertAll.mp h
  simp only [Declarations.empty, List.not_mem_nil, false_or] at hmem
  obtain ⟨path, hpath, rfl⟩ := List.mem_map.mp hmem.2
  obtain ⟨origin, horigin, hpath⟩ := List.mem_flatMap.mp hpath
  obtain ⟨source, hsource, horigin⟩ := List.mem_flatMap.mp horigin
  cases Item.from_of_mem_ofLines horigin with
  | clause => contradiction
  | imports hpaths =>
    obtain ⟨line, hline, hdeclares⟩ := hpaths path hpath
    exact ⟨source, hsource, line, hline, path, hdeclares, rfl⟩
  | code => contradiction

theorem isLine_importLine {item : Text} (h : item ∈ (ofPackaged sources).declarations.items) :
    IsLine (importLine item) := by
  obtain ⟨_, _, line, hline, path, hdeclares, rfl⟩ := exists_of_mem_imports h
  have hnewline : '\n' ∉ path.trim := fun hc =>
    newline_not_mem_of_mem_lines hline (hdeclares.mem (mem_of_mem_trim hc))
  exact .enclose (by decide) hnewline ⟨by decide, by decide⟩ (by simp)

theorem of_code_of_mem_bodyLines {line : Text} (h : line ∈ (ofPackaged sources).bodyLines) :
    LineKind.Of line .code := by
  obtain ⟨body, hbody, h⟩ := List.mem_flatMap.mp h
  obtain ⟨source, _, rfl⟩ := List.mem_map.mp hbody
  rcases List.mem_cons.mp h with rfl | h
  · exact of_code_marker _
  · exact (Source.of_mem_stripped h).2

theorem lines_ofPackaged (sources : List Source) :
    (ofPackaged sources).lines = Package.clauseLine (Package.name sources) :: [] ::
      ((ofPackaged sources).declarationBlock ++ (ofPackaged sources).bodyLines) := rfl

theorem mem_importBlock {line : Text} (h : line ∈ (ofPackaged sources).declarationBlock) :
    line = "import (".toList ∨ line = [')'] ∨ line = [] ∨
      ∃ item ∈ (ofPackaged sources).declarations.items, line = importLine item := by
  unfold declarationBlock at h
  split at h
  · contradiction
  · rcases List.mem_append.mp h with h | h
    · rcases List.mem_append.mp h with h | h
      · rcases List.mem_cons.mp h with rfl | h
        · exact Or.inl rfl
        · obtain ⟨item, hitem, rfl⟩ := List.mem_map.mp h
          exact Or.inr (Or.inr (Or.inr ⟨item, mem_sort.mp hitem, rfl⟩))
      · exact Or.inr (Or.inl (List.mem_singleton.mp h))
    · exact Or.inr (Or.inr (Or.inl (List.mem_singleton.mp h)))

/-- All that stands outside of the bodies is cut into lines as it is. -/
theorem isLine_or_mem_bodyLines {line : Text} (h : line ∈ (ofPackaged sources).lines) :
    IsLine line ∨ line ∈ (ofPackaged sources).bodyLines := by
  rw [lines_ofPackaged] at h
  rcases List.mem_cons.mp h with rfl | h
  · exact Or.inl (isName_package sources).isLine_clauseLine
  rcases List.mem_cons.mp h with rfl | h
  · exact Or.inl ⟨by decide, by decide⟩
  rcases List.mem_append.mp h with h | h
  · left
    rcases mem_importBlock h with rfl | rfl | rfl | ⟨item, hitem, rfl⟩
    · exact ⟨by decide, by decide⟩
    · exact ⟨by decide, by decide⟩
    · exact ⟨by decide, by decide⟩
    · exact isLine_importLine hitem
  · exact Or.inr h

theorem importLine_injective : Function.Injective importLine := by
  intro path other h
  exact List.append_cancel_left (List.append_cancel_right h)

theorem importLine_mem_declarationBlock {item : Text} :
    importLine item ∈ (ofPackaged sources).declarationBlock ↔
      item ∈ (ofPackaged sources).declarations.items := by
  constructor
  · intro h
    have hhead : (importLine item).head? = some '\t' := rfl
    rcases mem_importBlock h with hopen | hclose | hnil | ⟨other, hother, hsame⟩
    · rw [hopen] at hhead
      exact absurd hhead (by decide)
    · rw [hclose] at hhead
      exact absurd hhead (by decide)
    · contradiction
    · rwa [importLine_injective hsame]
  · intro h
    have hsome : (ofPackaged sources).declarations.isEmpty = false :=
      List.isEmpty_eq_false_iff.mpr (List.ne_nil_of_mem h)
    rw [declarationBlock, hsome]
    apply List.mem_append_left
    apply List.mem_append_left
    apply List.mem_cons_of_mem
    exact List.mem_map_of_mem (mem_sort.mpr h)

end Merge
end Document
end SourceMerge
