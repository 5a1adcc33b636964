import SourceMerge.Proofs.Declaration.BlockEntry
import SourceMerge.Proofs.Declaration.FirstSeen

/-! Files with packages are read by a machine with two modes, one line after the other. The kind of a
line says what to do with it outside of import blocks, and in a block every line is an entry up to
the line that closes the block. Merging gives what the machine reads. -/
namespace SourceMerge

/-- What the machine has read of a file: the names in its package clauses, its import paths as they
are written, and its lines of code. -/
@[ext] structure Record where
  clauses : List Text
  paths : List Text
  code : List Text
  deriving DecidableEq

def Record.blank : Record := ⟨[], [], []⟩

inductive Mode
  | outside
  | inBlock
  deriving DecidableEq

namespace Mode

/-- Reads the next line. -/
def next : Mode → Record → Text → Mode × Record
  | .outside, r, line =>
    match LineKind.ofLine line with
    | .clause name => (.outside, { r with clauses := r.clauses ++ [name] })
    | .opener => (.inBlock, r)
    | .single path => (.outside, { r with paths := r.paths ++ [path] })
    | .code => (.outside, { r with code := r.code ++ [line] })
  | .inBlock, r, line =>
    if Import.closesBlock line then (.outside, r)
    else (.inBlock, { r with paths := r.paths ++ (Option.toList <| Import.entryPath? line) })

/-- Reads lines to their end. -/
def read (mode : Mode) (r : Record) : List Text → Record
  | [] => r
  | line :: rest => (mode.next r line).1.read (mode.next r line).2 rest

end Mode

/-- What the machine reads in a file. -/
def Source.record (source : Source) : Record := Mode.outside.read .blank source.lines

namespace Record

def add (r : Record) : Item → Record
  | .clause name => { r with clauses := r.clauses ++ [name] }
  | .imports paths => { r with paths := r.paths ++ paths }
  | .code line => { r with code := r.code ++ [line] }

theorem foldl_add (r : Record) (items : List Item) :
    items.foldl add r = ⟨r.clauses ++ items.filterMap Item.clause?,
      r.paths ++ items.flatMap Item.importPaths, r.code ++ items.filterMap Item.codeLine?⟩ := by
  induction items generalizing r with
  | nil => simp
  | cons item rest ih =>
    rw [List.foldl_cons, ih]
    cases item <;> simp [add, List.filterMap_cons, Item.clause?, Item.importPaths, Item.codeLine?]

end Record

namespace Mode

/-- In a block the machine takes the entries up to the line that closes it, then reads on. -/
theorem read_inBlock (r : Record) (lines : List Text) :
    inBlock.read r lines =
      outside.read
        (r.add (.imports ((lines.takeWhile (!Import.closesBlock ·)).filterMap Import.entryPath?)))
        ((lines.dropWhile (!Import.closesBlock ·)).drop 1) := by
  induction lines generalizing r with
  | nil => simp [read, Record.add]
  | cons line rest ih =>
    cases hclose : Import.closesBlock line with
    | true => simp [read, next, hclose, Record.add]
    | false =>
      cases hentry : Import.entryPath? line <;> simp [read, next, hclose, hentry, ih, Record.add]

/-- Outside of blocks the machine reads what the items of the lines say. -/
theorem read_outside (r : Record) (lines : List Text) :
    outside.read r lines = (Item.ofLines lines).foldl Record.add r := by
  fun_induction Item.ofLines lines generalizing r with
  | case1 => rfl
  | case2 line rest name hname ih =>
    have hkind : LineKind.ofLine line = .clause name := LineKind.of_iff.mp (.clause hname)
    rw [read, next, hkind]
    exact ih _
  | case3 line rest hname hopen ih =>
    have hkind : LineKind.ofLine line = .opener := LineKind.of_iff.mp (.opener hopen)
    rw [read, next, hkind]
    simp only [read_inBlock, ih, List.foldl_cons]
  | case4 line rest hname hopen ih =>
    cases hsingle : Import.single? line with
    | some path =>
      have hkind : LineKind.ofLine line = .single path := LineKind.of_iff.mp (.single hsingle)
      rw [read, next, hkind, Item.ofLine, hsingle]
      exact ih _
    | none =>
      have hkind : LineKind.ofLine line = .code :=
        LineKind.of_iff.mp (.code hname (by simpa using hopen) hsingle)
      rw [read, next, hkind, Item.ofLine, hsingle]
      exact ih _

end Mode

/-- The mode in which the machine is after some lines. -/
def Mode.after (mode : Mode) : List Text → Mode
  | [] => mode
  | line :: rest => (mode.next .blank line).1.after rest

/-- A block that has been left was closed by the first line that can close it. -/
theorem Mode.exists_of_after_inBlock {lines : List Text} (h : inBlock.after lines = .outside) :
    ∃ entries closer rest, lines = entries ++ closer :: rest ∧
      (∀ line ∈ entries, Import.closesBlock line = false) ∧ Import.closesBlock closer = true ∧
        outside.after rest = .outside := by
  induction lines with
  | nil => contradiction
  | cons line lines ih =>
    cases hclose : Import.closesBlock line with
    | true =>
      simp only [after, next, hclose, if_true] at h
      exact ⟨[], line, lines, rfl, by simp, hclose, h⟩
    | false =>
      simp only [after, next, hclose, Bool.false_eq_true, if_false] at h
      obtain ⟨entries, closer, rest, rfl, hentries, hcloser, hrest⟩ := ih h
      refine ⟨line :: entries, closer, rest, rfl, ?_, hcloser, hrest⟩
      simpa [hclose] using hentries

/-- Lines that leave no block open are read by themselves. -/
theorem Item.ofLines_append {lines : List Text} (h : Mode.outside.after lines = .outside)
    (rest : List Text) : ofLines (lines ++ rest) = ofLines lines ++ ofLines rest := by
  fun_induction ofLines lines with
  | case1 => rfl
  | case2 line lines name hname ih =>
    have hkind : LineKind.ofLine line = .clause name := LineKind.of_iff.mp (.clause hname)
    rw [Mode.after, Mode.next, hkind] at h
    rw [List.cons_append, ofLines_cons, hkind]
    simp only [ih h, List.cons_append]
  | case3 line lines hname hopen ih =>
    have hkind : LineKind.ofLine line = .opener := LineKind.of_iff.mp (.opener hopen)
    rw [Mode.after, Mode.next, hkind] at h
    obtain ⟨entries, closer, lines, rfl, hentries, hcloser, hafter⟩ :=
      Mode.exists_of_after_inBlock h
    have htake (u : List Text) :
        (entries ++ closer :: u).takeWhile (!Import.closesBlock ·) = entries :=
      Text.takeWhile_run (by simpa using hentries) (by simp [hcloser])
    have hdrop (u : List Text) :
        (entries ++ closer :: u).dropWhile (!Import.closesBlock ·) = closer :: u :=
      Text.dropWhile_run (by simpa using hentries) (by simp [hcloser])
    simp only [hdrop, List.drop_succ_cons, List.drop_zero] at ih
    rw [List.cons_append, ofLines_cons, hkind]
    simp only [List.append_assoc, List.cons_append, htake, hdrop, List.drop_succ_cons,
      List.drop_zero, ih hafter]
  | case4 line lines hname hopen ih =>
    cases hsingle : Import.single? line with
    | some path =>
      have hkind : LineKind.ofLine line = .single path := LineKind.of_iff.mp (.single hsingle)
      rw [Mode.after, Mode.next, hkind] at h
      rw [List.cons_append, ofLines_cons, hkind, ofLine, hsingle]
      simp only [ih h, List.cons_append]
    | none =>
      have hkind : LineKind.ofLine line = .code :=
        LineKind.of_iff.mp (.code hname (by simpa using hopen) hsingle)
      rw [Mode.after, Mode.next, hkind] at h
      rw [List.cons_append, ofLines_cons, hkind, ofLine, hsingle]
      simp only [ih h, List.cons_append]

theorem Source.record_eq (source : Source) :
    source.record = ⟨source.items.filterMap Item.clause?, source.items.flatMap Item.importPaths,
      source.items.filterMap Item.codeLine?⟩ := by
  rw [record, Mode.read_outside, Record.foldl_add]
  rfl

/-- Merging files with packages is reading each of them with the machine, whose patterns put every
line outside of blocks into exactly one kind, and which leaves a block at the first line that begins
with a closing parenthesis: a body is the code that is read, the first package clause names the
package, and the declarations are the import paths where they are first seen. -/
theorem Document.ofPackaged_machine (sources : List Source) :
    (∀ line kind, LineKind.Of line kind ↔ LineKind.ofLine line = kind) ∧
      (∀ line, Import.closesBlock line = true ↔ line.trimStart.head? = some ')') ∧
      (∀ line path, Import.entryPath? line = some path ↔
        Text.beginsWith "//".toList line.trim = false ∧
          path = Import.trimQuotes line.trim.firstWord ∧ path ≠ []) ∧
      (ofPackaged sources).bodies = (sources.map fun source => ⟨source.path, source.record.code⟩) ∧
      (ofPackaged sources).enclosure = .inPackage
        ((sources.flatMap fun source => source.record.clauses).headD "main".toList) ∧
      (ofPackaged sources).declarations.items =
        Text.firstSeen (sources.flatMap fun source => source.record.paths) := by
  refine ⟨fun line kind => LineKind.of_iff, fun line => Import.closesBlock_iff,
    fun line path => Import.entryPath?_eq_some_iff, ?_, ?_, ?_⟩
  · simp only [Source.record_eq]
    rfl
  · simp only [Source.record_eq]
    rw [← List.filterMap_flatMap, List.headD_eq_head?_getD, List.head?_filterMap]
    rfl
  · simp only [Source.record_eq]
    rw [← List.flatMap_assoc]
    exact Declarations.items_ofList _

end SourceMerge
