import Mathlib.Data.List.DropRight
import SourceMerge.Document.Render
import SourceMerge.Proofs.Declaration.LineKind

/-! The paths that imports declare. A path carries no quotes at its ends, so that it can be printed
between quotes as the entry of an import block and is read back as it was, if no blank cuts it. -/
namespace SourceMerge

namespace Text

theorem isBlank_of_mem_firstWord {t : Text} {c : Char} (h : c ∈ firstWord t) :
    isBlank c = false := by
  simpa using List.mem_takeWhile_imp h

theorem mem_of_mem_firstWord {t : Text} {c : Char} (h : c ∈ firstWord t) : c ∈ t :=
  (List.dropWhile_sublist _).subset ((List.takeWhile_sublist _).subset h)

end Text

namespace Import
open Text Document

/-- No quote stands at either end of a text. -/
structure Unquoted (t : Text) : Prop where
  head : ∀ c ∈ t.head?, (c == '"') = false
  last : ∀ c ∈ t.getLast?, (c == '"') = false

theorem unquoted_of_not_mem {t : Text} (h : '"' ∉ t) : Unquoted t where
  head c hc := by simpa using fun he : c = '"' => h (he ▸ List.mem_of_head? hc)
  last c hc := by simpa using fun he : c = '"' => h (he ▸ List.mem_of_getLast? hc)

theorem trimQuotes_isPrefix (t : Text) : trimQuotes t <+: t.dropWhile (· == '"') :=
  List.rdropWhile_prefix _ _

theorem unquoted_trimQuotes (t : Text) : Unquoted (trimQuotes t) where
  head c hc := by
    obtain ⟨rest, hrest⟩ := trimQuotes_isPrefix t
    apply not_of_mem_head?_dropWhile (p := (· == '"')) t
    rw [← hrest, List.head?_append, Option.mem_def.mp hc]
    rfl
  last c hc := by
    rw [trimQuotes, List.getLast?_reverse] at hc
    exact not_of_mem_head?_dropWhile _ c hc

theorem mem_of_mem_trimQuotes {t : Text} {c : Char} (h : c ∈ trimQuotes t) : c ∈ t :=
  (List.dropWhile_sublist _).subset ((trimQuotes_isPrefix t).subset h)

/-- The quotes around a path are taken off and no others. -/
theorem trimQuotes_quoted {path : Text} (h : Unquoted path) (hne : path ≠ []) :
    trimQuotes (['"'] ++ (path ++ ['"'])) = path := by
  have hhead : ∀ c ∈ (path ++ ['"']).head?, (c == '"') = false := by
    intro c hc
    apply h.head
    cases path with
    | nil => contradiction
    | cons d path => exact hc
  have hlast : ∀ c ∈ path.reverse.head?, (c == '"') = false := by
    rw [List.head?_reverse]
    exact h.last
  rw [trimQuotes, dropWhile_run (by simp) hhead, List.reverse_append,
    dropWhile_run (by simp) hlast, List.reverse_reverse]

/-- The path of an entry is part of its first word, without the quotes around it. -/
theorem entryPath?_eq_some_iff {line path : Text} :
    entryPath? line = some path ↔ beginsWith "//".toList line.trim = false ∧
      path = trimQuotes line.trim.firstWord ∧ path ≠ [] := by
  rw [entryPath?]
  constructor
  · intro h
    split at h
    · contradiction
    · rename_i hcomment
      simp only at h
      split at h
      · contradiction
      · rename_i hempty
        obtain rfl := Option.some.inj h
        exact ⟨by simpa using hcomment, rfl, by simpa using hempty⟩
  · rintro ⟨hcomment, rfl, hne⟩
    simp only [hcomment, Bool.false_eq_true, if_false]
    exact if_neg (by simpa using hne)

/-- A line declares a path as a single import or as the entry of a block. -/
def Declares (line path : Text) : Prop := single? line = some path ∨ entryPath? line = some path

theorem Declares.mem {line path : Text} (h : Declares line path) {c : Char} (hc : c ∈ path) :
    c ∈ line := by
  rcases h with h | h
  · obtain ⟨ws, rest, _, _, hline, _⟩ := single?_eq_some_iff.mp h
    apply (List.dropWhile_sublist isBlank).subset
    rw [← trimStart, hline]
    simp [hc]
  · obtain ⟨_, rfl, _⟩ := entryPath?_eq_some_iff.mp h
    exact mem_of_mem_trim (mem_of_mem_firstWord (mem_of_mem_trimQuotes hc))

/-- The ends of a declared path are no quotes, also when it is trimmed. -/
theorem Declares.unquoted_trim {line path : Text} (h : Declares line path) :
    Unquoted path.trim := by
  rcases h with h | h
  · obtain ⟨_, _, _, _, _, _, hquote⟩ := single?_eq_some_iff.mp h
    exact unquoted_of_not_mem fun hmem => hquote (mem_of_mem_trim hmem)
  · obtain ⟨_, rfl, _⟩ := entryPath?_eq_some_iff.mp h
    rw [trim_eq_self]
    · exact unquoted_trimQuotes _
    · intro c hc
      exact isBlank_of_mem_firstWord (mem_of_mem_trimQuotes hc)

/-- A printed entry does not close the block it stands in. -/
theorem closesBlock_importLine (path : Text) : closesBlock (importLine path) = false := by
  have htrim : trimStart (importLine path) = '"' :: (path ++ ['"']) := rfl
  rw [closesBlock, htrim]
  rfl

/-- A printed entry is read back as the path that was printed. -/
theorem entryPath?_importLine {path : Text} (hword : ∀ c ∈ path, isBlank c = false)
    (h : Unquoted path) (hne : path ≠ []) : entryPath? (importLine path) = some path := by
  have hquoted : ∀ c ∈ ['"'] ++ (path ++ ['"']), isBlank c = false := by
    intro c hc
    simp only [List.mem_append, List.mem_singleton] at hc
    rcases hc with rfl | hc | rfl
    · decide
    · exact hword c hc
    · decide
  have htrim : trim (importLine path) = ['"'] ++ (path ++ ['"']) := by
    have hstart : trimStart (importLine path) = trimStart (['"'] ++ (path ++ ['"'])) := rfl
    rw [trim, hstart, ← trim, trim_eq_self hquoted]
  have hfirst : firstWord (['"'] ++ (path ++ ['"'])) = ['"'] ++ (path ++ ['"']) := by
    rw [firstWord, trimStart_eq_self, List.takeWhile_eq_self_iff]
    · intro c hc
      rw [hquoted c hc]
      rfl
    · intro c hc
      exact hquoted c (List.mem_of_head? hc)
  refine entryPath?_eq_some_iff.mpr ⟨?_, ?_, hne⟩
  · rw [htrim]
    rfl
  · rw [htrim, hfirst, trimQuotes_quoted h hne]

end Import

end SourceMerge
