import SourceMerge.Proofs.Declaration.BlockEntry
import SourceMerge.Proofs.Document.LineMachine

/-! Where an import block ends. Only the first character of a line can close a block, so that a
closing parenthesis behind an entry does not: it becomes part of the entry, and the block goes on
through the code below it. -/
namespace SourceMerge
open Text

namespace Import

/-- The entries on lines that stand in a block, up to the line that closes it. -/
def blockEntries (lines : List Text) : List Text :=
  (lines.takeWhile (!closesBlock ·)).filterMap entryPath?

/-- What stands behind the line that closes the block. -/
def behindBlock (lines : List Text) : List Text := (lines.dropWhile (!closesBlock ·)).drop 1

variable {line : Text} {rest : List Text}

theorem blockEntries_cons_of_closes (h : closesBlock line = true) :
    blockEntries (line :: rest) = [] := by
  simp [blockEntries, h]

theorem blockEntries_cons (h : closesBlock line = false) :
    blockEntries (line :: rest) = [line].filterMap entryPath? ++ blockEntries rest := by
  cases hentry : entryPath? line <;> simp [blockEntries, h, hentry]

theorem behindBlock_cons_of_closes (h : closesBlock line = true) :
    behindBlock (line :: rest) = rest := by
  simp [behindBlock, h]

theorem behindBlock_cons (h : closesBlock line = false) :
    behindBlock (line :: rest) = behindBlock rest := by
  simp [behindBlock, h]

variable {lines : List Text}

theorem blockEntries_append (h : ∀ line ∈ lines, closesBlock line = false) :
    blockEntries (lines ++ rest) = lines.filterMap entryPath? ++ blockEntries rest := by
  rw [blockEntries, List.takeWhile_append_of_pos (by simpa using h), List.filterMap_append]
  rfl

theorem behindBlock_append (h : ∀ line ∈ lines, closesBlock line = false) :
    behindBlock (lines ++ rest) = behindBlock rest := by
  rw [behindBlock, List.dropWhile_append_of_pos (by simpa using h)]
  rfl

end Import

namespace Item
open Import

theorem ofLines_cons_of_opener {opener : Text} (h : opensBlock opener = true) (rest : List Text) :
    ofLines (opener :: rest) = .imports (blockEntries rest) :: ofLines (behindBlock rest) := by
  rw [ofLines_cons, LineKind.of_iff.mp (.opener h)]
  rfl

/-- Outside of a block a line without an entry is code. -/
theorem of_code_of_no_entry {line : Text} (h : entryPath? line = none) : LineKind.Of line .code := by
  have hhead (c : Char) (hc : c ≠ '/') (hquote : c ≠ '"') : line.trimStart.head? ≠ some c := by
    intro hc'
    obtain ⟨path, hpath⟩ := exists_entryPath?_of_head? hc' hc hquote
    rw [h] at hpath
    contradiction
  exact LineKind.of_code_of_head? (hhead 'p' (by decide) (by decide))
    (hhead 'i' (by decide) (by decide))

theorem of_code_of_closesBlock {line : Text} (h : closesBlock line = true) :
    LineKind.Of line .code := by
  have hhead := closesBlock_iff.mp h
  exact LineKind.of_code_of_head? (by rw [hhead]; decide) (by rw [hhead]; decide)

/-- Lines that a block goes through without an entry are code outside of it, and so is the line that
closes it: at least one item is lost with them. -/
theorem length_ofLines_behindBlock_lt {lines : List Text} (hne : lines ≠ [])
    (h : blockEntries lines = []) :
    (ofLines (behindBlock lines)).length < (ofLines lines).length := by
  induction lines with
  | nil => contradiction
  | cons line rest ih =>
    cases hclose : closesBlock line with
    | true =>
      rw [behindBlock_cons_of_closes hclose, ofLines_cons_of_code (of_code_of_closesBlock hclose)]
      simp
    | false =>
      rw [blockEntries_cons hclose, List.append_eq_nil_iff, filterMap_singleton,
        Option.toList_eq_nil_iff] at h
      rw [behindBlock_cons hclose, ofLines_cons_of_code (of_code_of_no_entry h.1), List.length_cons]
      by_cases hrest : rest = []
      · subst hrest
        simp [behindBlock, ofLines]
      · have hlonger := ih hrest h.2
        omega

section Block
variable {before entries : List Text} {opener e : Text}
  (hbefore : Mode.outside.after before = .outside) (hopener : opensBlock opener = true)
include hbefore hopener

theorem ofLines_block (hentries : ∀ line ∈ entries, closesBlock line = false) (rest : List Text) :
    ofLines (before ++ opener :: (entries ++ rest)) =
      ofLines before ++ .imports (entries.filterMap entryPath? ++ blockEntries rest) ::
        ofLines (behindBlock rest) := by
  rw [ofLines_append hbefore, ofLines_cons_of_opener hopener, blockEntries_append hentries,
    behindBlock_append hentries]

/-- A block that is closed behind its last entry says the same as one that is closed on the next
line only if nothing stands below it and a blank stands between the entry and the parenthesis. In
any case it takes in what stands below it, up to the next line that starts with a parenthesis. -/
theorem ofLines_closedBehindEntry_iff (hentries : ∀ line ∈ entries, QuotedEntry line)
    (he : QuotedEntry e) (rest : List Text) :
    ofLines (before ++ opener :: (entries ++ [e ++ [')']] ++ rest)) =
        ofLines before ++
          .imports ((entries ++ [e ++ [')']]).filterMap entryPath? ++ blockEntries rest) ::
            ofLines (behindBlock rest) ∧
      (ofLines (before ++ opener :: (entries ++ [e ++ [')']] ++ rest)) =
          ofLines (before ++ opener :: (entries ++ [e, [')']] ++ rest)) ↔
        rest = [] ∧ ∃ c ∈ e.trimStart, isBlank c = true) := by
  have hopen (s : Text) : ∀ line ∈ entries ++ [e ++ s], closesBlock line = false := by
    intro line hline
    rcases List.mem_append.mp hline with hline | hline
    · simpa using (hentries line hline).closesBlock_append []
    · rw [List.mem_singleton.mp hline]
      exact he.closesBlock_append s
  have hattached := ofLines_block hbefore hopener (hopen [')']) rest
  have hapart := ofLines_block hbefore hopener (hopen []) ([')'] :: rest)
  have hparen : closesBlock [')'] = true := by decide
  rw [blockEntries_cons_of_closes hparen, behindBlock_cons_of_closes hparen, List.append_nil,
    List.append_nil] at hapart
  have hlines : entries ++ [e, [')']] ++ rest = entries ++ [e] ++ [')'] :: rest := by simp
  refine ⟨hattached, ?_⟩
  have hword : isBlank ')' = false := by decide
  have hquote : ')' ≠ '"' := by decide
  rw [hattached, hlines, hapart, List.append_cancel_left_eq, List.cons.injEq, Item.imports.injEq,
    List.filterMap_append, List.filterMap_append, List.append_assoc, List.append_cancel_left_eq,
    filterMap_singleton, filterMap_singleton,
    he.entryPath?_append_paths_iff hword hquote]
  constructor
  · rintro ⟨⟨hnone, hblank⟩, hbelow⟩
    refine ⟨?_, hblank⟩
    -- A line that adds nothing to the entries would have been code.
    by_contra hne
    have hlost := length_ofLines_behindBlock_lt hne hnone
    rw [hbelow] at hlost
    exact Nat.lt_irrefl _ hlost
  · rintro ⟨rfl, hblank⟩
    exact ⟨⟨rfl, hblank⟩, rfl⟩

end Block

/-- A function below such a block is not read as code: its keyword becomes an import. -/
theorem ofLines_closedBehindEntry_func :
    ofLines ["package p".toList, "import (".toList, "\t\"os\")".toList,
        "func f() \x7b\x7d".toList] =
      [.clause ['p'], .imports ["os\")".toList, "func".toList]] ∧
    ofLines ["package p".toList, "import (".toList, "\t\"os\")".toList,
        "func f() \x7b\x7d".toList] ≠
      ofLines ["package p".toList, "import (".toList, "\t\"os\"".toList, [')'],
        "func f() \x7b\x7d".toList] := by
  have hbefore : Mode.outside.after ["package p".toList] = .outside := by decide
  have hopener : opensBlock "import (".toList = true := by decide
  have hos : QuotedEntry "\t\"os\"".toList := quotedEntry_importLine (by decide : '"' ∉ "os".toList)
  obtain ⟨hitems, hiff⟩ := ofLines_closedBehindEntry_iff hbefore hopener
    (List.forall_mem_nil _) hos ["func f() \x7b\x7d".toList]
  refine ⟨hitems.trans (by decide +kernel), ?_⟩
  intro hsame
  exact absurd (hiff.mp hsame).1 (by decide)

theorem not_forall_closedBehindEntry :
    ¬ ∀ before entries rest e, Mode.outside.after before = .outside →
      (∀ line ∈ entries, QuotedEntry line) → QuotedEntry e →
        ofLines (before ++ "import (".toList :: (entries ++ [e ++ [')']] ++ rest)) =
          ofLines (before ++ "import (".toList :: (entries ++ [e, [')']] ++ rest)) := by
  intro h
  have hsame := h [] [] ["func f() \x7b\x7d".toList] "\t\"os\"".toList rfl
    (List.forall_mem_nil _) (quotedEntry_importLine (by decide : '"' ∉ "os".toList))
  revert hsame
  decide +kernel

end Item
end SourceMerge
