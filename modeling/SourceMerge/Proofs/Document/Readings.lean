import SourceMerge.Proofs.Document.Congruence
import SourceMerge.Proofs.Document.LineMachine

/-! What the machine reads of lines that are put together. It forgets what it has read, and so the
record of a file falls apart into what is read before some line, in it and behind it. A file that is
replaced by another one with the same package clauses and code changes a merged document only through
its import paths. -/
namespace SourceMerge
open Text

namespace Record

/-- What is read first, and what is read then. -/
def append (r s : Record) : Record := ⟨r.clauses ++ s.clauses, r.paths ++ s.paths, r.code ++ s.code⟩

instance : Append Record := ⟨append⟩

variable (r s t : Record)

@[simp] theorem clauses_append : (r ++ s).clauses = r.clauses ++ s.clauses := rfl

@[simp] theorem paths_append : (r ++ s).paths = r.paths ++ s.paths := rfl

@[simp] theorem code_append : (r ++ s).code = r.code ++ s.code := rfl

theorem append_assoc : r ++ s ++ t = r ++ (s ++ t) := by ext1 <;> simp

theorem append_blank : r ++ blank = r := by ext1 <;> simp [blank]

theorem blank_append : blank ++ r = r := by ext1 <;> simp [blank]

/-- What is read of some imports. -/
def ofPaths (paths : List Text) : Record := ⟨[], paths, []⟩

end Record

namespace Mode
open Record

/-- What the machine does with a line does not depend on what it has read. -/
theorem next_eq (mode : Mode) (r : Record) (line : Text) :
    mode.next r line = ((mode.next .blank line).1, r ++ (mode.next .blank line).2) := by
  cases mode with
  | outside =>
    cases hkind : LineKind.ofLine line <;> simp [next, hkind, Record.ext_iff, blank]
  | inBlock =>
    cases hclose : Import.closesBlock line <;> simp [next, hclose, Record.ext_iff, blank]

theorem read_eq (mode : Mode) (r : Record) (lines : List Text) :
    mode.read r lines = r ++ mode.read .blank lines := by
  induction lines generalizing mode r with
  | nil => exact (append_blank r).symm
  | cons line rest ih =>
    rw [read, read, next_eq, ih, ih _ (mode.next .blank line).2, append_assoc]

theorem read_append (mode : Mode) (lines rest : List Text) :
    mode.read .blank (lines ++ rest) =
      mode.read .blank lines ++ (mode.after lines).read .blank rest := by
  induction lines generalizing mode with
  | nil => exact (blank_append _).symm
  | cons line lines ih =>
    rw [List.cons_append, read, read, after, read_eq, read_eq _ _ lines, ih, append_assoc]

/-- In a block lines that do not close it add their entries and nothing else. -/
theorem read_entries {lines : List Text} (h : ∀ line ∈ lines, Import.closesBlock line = false)
    (rest : List Text) :
    inBlock.read .blank (lines ++ rest) =
      ofPaths (lines.filterMap Import.entryPath?) ++ inBlock.read .blank rest := by
  induction lines with
  | nil => exact (blank_append _).symm
  | cons line lines ih =>
    have hlines := ih fun l hl => h l (List.mem_cons_of_mem line hl)
    simp only [List.cons_append, read, next, h line List.mem_cons_self, Bool.false_eq_true, if_false]
    rw [read_eq, hlines, ← append_assoc]
    cases hentry : Import.entryPath? line <;> simp [Record.ext_iff, ofPaths, blank, hentry]

end Mode

theorem Declarations.eq_of_items {s t : Declarations} (h : s.items = t.items) : s = t := by
  cases s; cases t; simp_all

namespace Document

theorem ext_items {d e : Document} (hlanguage : d.language = e.language)
    (hitems : d.declarations.items = e.declarations.items) (henclosure : d.enclosure = e.enclosure)
    (hbodies : d.bodies = e.bodies) : d = e := by
  have hdeclarations := Declarations.eq_of_items hitems
  cases d; cases e; simp_all

variable {source source' : Source} (front back : List Source)

theorem items_ofPackaged (sources : List Source) :
    (ofPackaged sources).declarations.items =
      firstSeen (sources.flatMap fun source => source.record.paths) := by
  simp only [Source.record_eq]
  rw [← List.flatMap_assoc]
  exact Declarations.items_ofList _

/-- A file may be replaced by one with the same package clauses and code; the declarations then
depend on its import paths. -/
theorem ofPackaged_replaced (hpath : source'.path = source.path)
    (hclauses : source'.record.clauses = source.record.clauses)
    (hcode : source'.record.code = source.record.code) :
    (ofPackaged (front ++ source' :: back)).enclosure =
        (ofPackaged (front ++ source :: back)).enclosure ∧
      (ofPackaged (front ++ source' :: back)).bodies =
        (ofPackaged (front ++ source :: back)).bodies ∧
      (ofPackaged (front ++ source' :: back) = ofPackaged (front ++ source :: back) ↔
        (ofPackaged (front ++ source' :: back)).declarations.items =
          (ofPackaged (front ++ source :: back)).declarations.items) := by
  rw [Source.record_eq, Source.record_eq] at hclauses hcode
  have hbody : source'.stripped = source.stripped := by
    rw [Source.stripped, Source.stripped, hpath]
    exact congrArg _ hcode
  have hfirst : Package.first? (front ++ source' :: back) =
      Package.first? (front ++ source :: back) := by
    simp only [Package.first?, ← List.head?_filterMap, List.flatMap_append, List.flatMap_cons,
      List.filterMap_append]
    rw [show source'.items.filterMap Item.clause? = source.items.filterMap Item.clause? from
      hclauses]
  have henclosure : (ofPackaged (front ++ source' :: back)).enclosure =
      (ofPackaged (front ++ source :: back)).enclosure := by
    simp only [ofPackaged, hfirst]
  have hbodies : (ofPackaged (front ++ source' :: back)).bodies =
      (ofPackaged (front ++ source :: back)).bodies := by
    simp only [ofPackaged, List.map_append, List.map_cons, hbody]
  exact ⟨henclosure, hbodies, fun h => by rw [h],
    fun hitems => ext_items rfl hitems henclosure hbodies⟩

end Document
end SourceMerge
