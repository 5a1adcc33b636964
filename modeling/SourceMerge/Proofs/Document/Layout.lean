import SourceMerge.Document.Namespaced
import SourceMerge.Document.Render
import SourceMerge.Proofs.Braces.Balance
import SourceMerge.Proofs.Declaration.UsingClause
import SourceMerge.Proofs.Text.Lines
import SourceMerge.Proofs.Text.Order

/-! The lines of a merged document: which lines its declaration block is made of, and the line it
declares its namespace with, which is read back as that namespace. -/
namespace SourceMerge

namespace Namespace
open Text

/-- The line that a document declares its namespace with. -/
def headerLine : Namespace → Text
  | ⟨name, .wholeFile⟩ => "namespace ".toList ++ name ++ [';']
  | ⟨name, .block⟩ => "namespace ".toList ++ name

theorem declared?_eq_some_iff {t name rest : Text} :
    declared? t = some (name, rest) ↔
      afterKeyword? "namespace".toList t.trimStart = some (name ++ rest) ∧ name ≠ [] ∧
        (∀ c ∈ name, isNamePart c = true) ∧ ∀ c ∈ rest.head?, isNamePart c = false := by
  constructor
  · intro h
    obtain ⟨u, hu, h⟩ := Option.bind_eq_some_iff.mp h
    simp only at h
    split at h
    · contradiction
    · rename_i hempty
      obtain ⟨rfl, rfl⟩ := Prod.mk.inj (Option.some.inj h)
      refine ⟨?_, ?_, ?_, ?_⟩
      · rw [List.takeWhile_append_dropWhile, hu]
      · simpa using hempty
      · intro c hc
        exact List.mem_takeWhile_imp hc
      · exact not_of_mem_head?_dropWhile u
  · rintro ⟨hkeyword, hne, hname, hrest⟩
    rw [declared?, hkeyword]
    simp only [Option.bind_eq_bind, Option.bind_some, takeWhile_run hname hrest,
      dropWhile_run hname hrest]
    rw [if_neg (by simpa using hne)]

theorem ofLine?_of_declared? {line name rest : Text} (h : declared? line = some (name, rest)) :
    ofLine? line = some ⟨name, if isTerminator rest then .wholeFile else .block⟩ := by
  rw [ofLine?, h]
  rfl

theorem exists_declared? {line : Text} {n : Namespace} (h : ofLine? line = some n) :
    ∃ rest, declared? line = some (n.name, rest) := by
  obtain ⟨⟨name, rest⟩, hdeclared, h⟩ := Option.bind_eq_some_iff.mp h
  obtain rfl := Option.some.inj h
  exact ⟨rest, hdeclared⟩

theorem isNamePart_of_mem_name {line : Text} {n : Namespace} (h : ofLine? line = some n) {c : Char}
    (hc : c ∈ n.name) : isNamePart c = true := by
  obtain ⟨rest, hdeclared⟩ := exists_declared? h
  exact (declared?_eq_some_iff.mp hdeclared).2.2.1 c hc

theorem name_ne_nil {line : Text} {n : Namespace} (h : ofLine? line = some n) : n.name ≠ [] := by
  obtain ⟨rest, hdeclared⟩ := exists_declared? h
  exact (declared?_eq_some_iff.mp hdeclared).2.1

/-- The line that declares a namespace declares that namespace. -/
theorem ofLine?_headerLine {line : Text} {n : Namespace} (h : ofLine? line = some n) :
    ofLine? n.headerLine = some n := by
  have hne := name_ne_nil h
  have hname := fun c hc => isNamePart_of_mem_name h (c := c) hc
  have hread : ∀ rest : Text, (∀ c ∈ rest.head?, isNamePart c = false) →
      declared? ("namespace ".toList ++ n.name ++ rest) = some (n.name, rest) := by
    intro rest hrest
    refine declared?_eq_some_iff.mpr ⟨?_, hne, hname, hrest⟩
    have htrim : trimStart ("namespace ".toList ++ n.name ++ rest) =
        "namespace".toList ++ ([' '] ++ (n.name ++ rest)) := by
      rw [List.append_assoc, trimStart_eq_self]
      · rfl
      · intro c hc
        cases hc
        decide
    rw [htrim]
    refine afterKeyword?_eq_some_iff.mpr ⟨[' '], by simp, by simp [AllBlank, isBlank], rfl, ?_⟩
    cases hn : n.name with
    | nil => contradiction
    | cons c name =>
      intro d hd
      cases hd
      have hc := hname c (by rw [hn]; exact List.mem_cons_self)
      simp only [isNamePart, Bool.and_eq_true, Bool.not_eq_true'] at hc
      exact hc.1.1
  obtain ⟨name, extent⟩ := n
  cases extent with
  | wholeFile =>
    have hdeclared := ofLine?_of_declared? (hread [';'] (by intro c hc; cases hc; decide))
    rwa [if_pos (by decide)] at hdeclared
  | block =>
    have hdeclared := ofLine?_of_declared? (hread [] (by simp))
    rwa [if_neg (by decide), List.append_nil] at hdeclared

theorem head?_headerLine (n : Namespace) : n.headerLine.head? = some 'n' := by
  obtain ⟨name, extent⟩ := n
  cases extent <;> rfl

theorem exists_of_chosen? {sources : List Source} {n : Namespace} (h : chosen? sources = some n) :
    ∃ source ∈ sources, ∃ line ∈ source.lines, ofLine? line = some n := by
  have hfirst : ∀ ss : List Source, ss.findSome? Source.namespace? = some n →
      ∃ source ∈ ss, ∃ line ∈ source.lines, ofLine? line = some n := by
    intro ss h
    obtain ⟨source, hsource, h⟩ := List.exists_of_findSome?_eq_some h
    obtain ⟨line, hline, h⟩ := List.exists_of_findSome?_eq_some h
    exact ⟨source, hsource, line, hline, h⟩
  rw [chosen?, Option.orElse_eq_orElse, Option.orElse_eq_or, Option.or_eq_some_iff] at h
  rcases h with h | ⟨_, h⟩
  · obtain ⟨source, hsource, hline⟩ := hfirst _ h
    exact ⟨source, (List.mem_filter.mp hsource).1, hline⟩
  · exact hfirst _ h

theorem chosen?_singleton (source : Source) : chosen? [source] = source.namespace? := by
  by_cases h : source.holdsEntryPoint = true
  · cases hn : source.namespace? <;> simp [chosen?, ofEntryPoint?, first?, h, hn]
  · cases hn : source.namespace? <;> simp [chosen?, ofEntryPoint?, first?, h, hn]

end Namespace

namespace Document
open Text

/-- The clauses that a merge gathers, in the order in which it meets them. -/
def captured (globals : Option Source) (sources : List Source) : List Text :=
  globals.toList.flatMap Source.globalUsings ++ sources.flatMap Source.usings

theorem exists_of_mem_captured {globals : Option Source} {sources : List Source} {clause : Text}
    (h : clause ∈ captured globals sources) :
    ∃ source ∈ globals.toList ++ sources, ∃ line ∈ source.lines,
      Using.any? line = some clause := by
  rcases List.mem_append.mp h with h | h
  · obtain ⟨source, hsource, h⟩ := List.mem_flatMap.mp h
    obtain ⟨line, hline, h⟩ := List.mem_filterMap.mp h
    exact ⟨source, List.mem_append_left sources hsource, line, hline, Using.any?_of_global? h⟩
  · obtain ⟨source, hsource, h⟩ := List.mem_flatMap.mp h
    obtain ⟨line, hline, h⟩ := List.mem_filterMap.mp h
    exact ⟨source, List.mem_append_right _ hsource, line, hline, h⟩

theorem mem_items_ofNamespaced {globals : Option Source} {sources : List Source} {item : Text} :
    item ∈ (ofNamespaced globals sources).declarations.items ↔
      item ≠ [] ∧ ∃ clause ∈ captured globals sources, item = clause.trim := by
  have hmem : item ∈ (Declarations.empty.insertAll (captured globals sources)).items ↔ _ :=
    Declarations.mem_insertAll
  rw [List.mem_map] at hmem
  simp only [Declarations.empty, List.not_mem_nil, false_or] at hmem
  rw [show (ofNamespaced globals sources).declarations.items =
    (Declarations.empty.insertAll (captured globals sources)).items from rfl]
  constructor
  · intro h
    obtain ⟨hne, clause, hclause, rfl⟩ := hmem.mp h
    exact ⟨hne, clause, hclause, rfl⟩
  · rintro ⟨hne, clause, hclause, rfl⟩
    exact hmem.mpr ⟨hne, clause, hclause, rfl⟩

/-- A declaration is made of characters of a line that declares it. -/
theorem exists_of_mem_items {globals : Option Source} {sources : List Source} {item : Text}
    (h : item ∈ (ofNamespaced globals sources).declarations.items) :
    ∃ source ∈ globals.toList ++ sources, ∃ line ∈ source.lines, ∃ clause ∈ captured globals sources,
      Using.any? line = some clause ∧ item = clause.trim ∧ ∀ c ∈ item, c ∈ line := by
  obtain ⟨_, clause, hclause, rfl⟩ := mem_items_ofNamespaced.mp h
  obtain ⟨source, hsource, line, hline, hany⟩ := exists_of_mem_captured hclause
  refine ⟨source, hsource, line, hline, clause, hclause, hany, rfl, ?_⟩
  intro c hc
  exact Using.mem_of_mem_clause hany (mem_of_mem_trim hc)

theorem isLine_usingLine {globals : Option Source} {sources : List Source} {item : Text}
    (h : item ∈ (ofNamespaced globals sources).declarations.items) : IsLine (usingLine item) := by
  obtain ⟨_, _, _, hline, _, _, _, _, hmem⟩ := exists_of_mem_items h
  have hnewline : '\n' ∉ item := fun hc => newline_not_mem_of_mem_lines hline (hmem _ hc)
  exact .enclose (by decide) hnewline ⟨by decide, by decide⟩ (by simp)

theorem head?_trimStart_usingLine (clause : Text) :
    (usingLine clause).trimStart.head? = some 'u' := by
  have h : usingLine clause = 'u' :: ("sing ".toList ++ clause ++ [';']) := rfl
  rw [h, trimStart_cons (by decide)]
  rfl

theorem mem_of_mem_usingLine {clause : Text} {c : Char} (h : c ∈ usingLine clause)
    (hword : c ∉ "using ".toList) (hend : c ≠ ';') : c ∈ clause := by
  rcases List.mem_append.mp h with h | h
  · rcases List.mem_append.mp h with h | h
    · contradiction
    · exact h
  · exact absurd (List.mem_singleton.mp h) hend

theorem mem_declarationBlock {globals : Option Source} {sources : List Source} {line : Text}
    (h : line ∈ (ofNamespaced globals sources).declarationBlock) :
    line = [] ∨
      ∃ item ∈ (ofNamespaced globals sources).declarations.items, line = usingLine item := by
  unfold declarationBlock at h
  split at h
  · contradiction
  · rcases List.mem_append.mp h with h | h
    · right
      have h := mem_sort.mp h
      obtain ⟨item, hitem, rfl⟩ := List.mem_map.mp h
      exact ⟨item, hitem, rfl⟩
    · left
      exact List.mem_singleton.mp h

theorem usingLine_injective : Function.Injective usingLine := by
  intro clause other h
  exact List.append_cancel_left (List.append_cancel_right h)

theorem usingLine_mem_declarationBlock {globals : Option Source} {sources : List Source}
    {item : Text} : usingLine item ∈ (ofNamespaced globals sources).declarationBlock ↔
      item ∈ (ofNamespaced globals sources).declarations.items := by
  constructor
  · intro h
    rcases mem_declarationBlock h with hnil | ⟨other, hother, hsame⟩
    · contradiction
    · rwa [usingLine_injective hsame]
  · intro h
    have hsome : (ofNamespaced globals sources).declarations.isEmpty = false :=
      List.isEmpty_eq_false_iff.mpr (List.ne_nil_of_mem h)
    rw [declarationBlock, hsome]
    apply List.mem_append_left
    exact mem_sort.mpr (List.mem_map_of_mem h)

theorem of_mem_declarationBlock {globals : Option Source} {sources : List Source} {l : Text}
    (hl : l ∈ (ofNamespaced globals sources).declarationBlock) :
    Namespace.ofLine? l = none ∧ IsLine l ∧ l.head? ≠ some byteOrderMark := by
  rcases mem_declarationBlock hl with rfl | ⟨item, hitem, rfl⟩
  · exact ⟨by decide, ⟨by decide, by decide⟩, by decide⟩
  · refine ⟨?_, isLine_usingLine hitem, ?_⟩
    · apply Namespace.ofLine?_eq_none_of_head?
      rw [head?_trimStart_usingLine]
      decide
    · intro hhead
      exact absurd (Option.some.inj hhead) (by decide)

theorem delta_marker (p : Path) : (Braces.ofLine p.marker).delta = 0 := by
  have h : p.marker = '/' :: '/' :: (" --- ".toList ++ p.display ++ " ---".toList) := rfl
  rw [h, Braces.ofLine_lineComment]
  rfl

section Markers
open Braces

theorem depth_render (bodies : List Body) :
    depth (bodies.flatMap Body.render) = depth (bodies.flatMap Body.lines) := by
  induction bodies with
  | nil => rfl
  | cons body rest ih =>
    rw [List.flatMap_cons, List.flatMap_cons, depth_append, depth_append, ih, Body.render,
      depth_cons, delta_marker, Int.zero_add]

theorem covers_render (bodies : List Body) (n : Int) :
    Covers n (bodies.flatMap Body.render) ↔ Covers n (bodies.flatMap Body.lines) := by
  induction bodies generalizing n with
  | nil => rfl
  | cons body rest ih =>
    rw [List.flatMap_cons, List.flatMap_cons, Body.render, List.cons_append,
      covers_cons_of_delta (delta_marker body.path), covers_append, covers_append, ih]

/-- The markers between the bodies have no braces. -/
theorem balanced_bodyLines {d : Document} :
    Balanced d.bodyLines ↔ Balanced (d.bodies.flatMap Body.lines) := by
  constructor
  · intro h
    exact ⟨(covers_render d.bodies 0).mp h.covers, (depth_render d.bodies).symm.trans h.depth_eq⟩
  · intro h
    exact ⟨(covers_render d.bodies 0).mpr h.covers, (depth_render d.bodies).trans h.depth_eq⟩

end Markers

theorem enclosure_ofNamespaced (globals : Option Source) (sources : List Source) :
    (ofNamespaced globals sources).enclosure =
      (Namespace.chosen? sources).elim .bare .inNamespace := rfl

theorem isLine_headerLine {line : Text} {n : Namespace} (h : Namespace.ofLine? line = some n) :
    IsLine n.headerLine := by
  have hne := Namespace.name_ne_nil h
  have hname : ∀ c ∈ n.name, isBlank c = false := by
    intro c hc
    have hpart := Namespace.isNamePart_of_mem_name h hc
    simp only [Namespace.isNamePart, Bool.and_eq_true, Bool.not_eq_true'] at hpart
    exact hpart.1.1
  have hnewline : '\n' ∉ n.name := fun hc => absurd (hname _ hc) (by decide)
  have hreturn : n.name.getLast? ≠ some '\r' := fun hc =>
    absurd (hname _ (List.mem_of_getLast? hc)) (by decide)
  obtain ⟨name, extent⟩ := n
  cases extent with
  | wholeFile => exact .enclose (by decide) hnewline ⟨by decide, by decide⟩ (by simp)
  | block => exact .append (by decide) ⟨hnewline, hreturn⟩ hne

theorem lines_of_bare {d : Document} (h : d.enclosure = .bare) :
    d.lines = d.declarationBlock ++ d.bodyLines := by
  rw [lines, h]

/-- What follows the line for the namespace. -/
def belowHeader (d : Document) : Extent → List Text
  | .wholeFile => [] :: d.bodyLines
  | .block => ['{'] :: d.bodyLines.map indentLine ++ [['}']]

theorem lines_of_inNamespace {d : Document} {n : Namespace} (h : d.enclosure = .inNamespace n) :
    d.lines = d.declarationBlock ++ n.headerLine :: d.belowHeader n.extent := by
  obtain ⟨name, extent⟩ := n
  cases extent with
  | wholeFile =>
    rw [lines, h]
    exact List.append_assoc _ _ _
  | block =>
    rw [lines, h]
    exact (List.append_assoc _ _ _).trans (List.append_assoc _ _ _)

theorem mem_belowHeader {d : Document} {extent : Extent} {l : Text}
    (h : l ∈ d.belowHeader extent) :
    l = [] ∨ l = ['{'] ∨ l = ['}'] ∨ l ∈ d.bodyLines ∨
      ∃ inner ∈ d.bodyLines, l = indentLine inner := by
  cases extent with
  | wholeFile =>
    rcases List.mem_cons.mp h with rfl | h
    · exact Or.inl rfl
    · exact Or.inr (Or.inr (Or.inr (Or.inl h)))
  | block =>
    rcases List.mem_append.mp h with h | h
    · rcases List.mem_cons.mp h with rfl | h
      · exact Or.inr (Or.inl rfl)
      · obtain ⟨inner, hinner, rfl⟩ := List.mem_map.mp h
        exact Or.inr (Or.inr (Or.inr (Or.inr ⟨inner, hinner, rfl⟩)))
    · exact Or.inr (Or.inr (Or.inl (List.mem_singleton.mp h)))

/-- What follows the declaration block when files are merged with namespaces. -/
def belowDeclarations (d : Document) : List Text :=
  match d.enclosure with
  | .inNamespace n => n.headerLine :: d.belowHeader n.extent
  | _ => d.bodyLines

theorem lines_ofNamespaced (globals : Option Source) (sources : List Source) :
    (ofNamespaced globals sources).lines = (ofNamespaced globals sources).declarationBlock ++
      (ofNamespaced globals sources).belowDeclarations := by
  have henclosure := enclosure_ofNamespaced globals sources
  cases hchosen : Namespace.chosen? sources with
  | none =>
    rw [hchosen] at henclosure
    rw [lines_of_bare henclosure, belowDeclarations, henclosure]
    rfl
  | some n =>
    rw [hchosen] at henclosure
    rw [lines_of_inNamespace henclosure, belowDeclarations, henclosure]
    rfl

end Document
end SourceMerge
