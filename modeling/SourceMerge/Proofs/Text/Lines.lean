import SourceMerge.Text.Indent
import SourceMerge.Text.Lines

/-! Cutting a text into its lines. No line holds a newline, and lines that were put together are cut
apart again as they were. -/
namespace SourceMerge.Text

theorem not_mem_of_mem_splitOn {α : Type} [BEq α] [LawfulBEq α] {x : α} {t l : List α}
    (h : l ∈ t.splitOn x) : x ∉ l := by
  induction t generalizing l with
  | nil =>
    rw [List.splitOn_nil, List.mem_singleton] at h
    rw [h]
    exact List.not_mem_nil
  | cons c t ih =>
    rw [List.splitOn_cons_eq_if_modifyHead] at h
    split at h
    · rcases List.mem_cons.mp h with rfl | h
      · exact List.not_mem_nil
      · exact ih h
    · rename_i hc
      cases hcut : t.splitOn x with
      | nil =>
        rw [hcut] at h
        contradiction
      | cons first others =>
        rw [hcut, List.modifyHead_cons] at h
        rw [hcut] at ih
        rcases List.mem_cons.mp h with rfl | h
        · intro hx
          rcases List.mem_cons.mp hx with rfl | hx
          · exact hc (beq_self_eq_true x)
          · exact ih List.mem_cons_self hx
        · exact ih (List.mem_cons_of_mem first h)

theorem mem_of_mem_dropReturn {line : Text} {c : Char} (h : c ∈ dropReturn line) : c ∈ line := by
  unfold dropReturn at h
  split at h
  · exact (List.dropLast_sublist line).subset h
  · exact h

theorem newline_not_mem_of_mem_lines {t line : Text} (h : line ∈ t.lines) : '\n' ∉ line := by
  obtain ⟨piece, hpiece, rfl⟩ := List.mem_map.mp h
  intro hmem
  exact not_mem_of_mem_splitOn hpiece (mem_of_mem_dropReturn hmem)

/-- A text that is cut from between newlines as it is. -/
structure IsLine (line : Text) : Prop where
  newline : '\n' ∉ line
  last : line.getLast? ≠ some '\r'

theorem IsLine.append {a b : Text} (ha : '\n' ∉ a) (hb : IsLine b) (hne : b ≠ []) :
    IsLine (a ++ b) := by
  refine ⟨?_, ?_⟩
  · rw [List.mem_append, not_or]
    exact ⟨ha, hb.newline⟩
  · have hlast := hb.last
    rw [List.getLast?_append]
    cases hb : b.getLast? with
    | none => exact absurd (List.getLast?_eq_none_iff.mp hb) hne
    | some c => rwa [hb] at hlast

theorem IsLine.enclose {word inner tail : Text} (hword : '\n' ∉ word) (hinner : '\n' ∉ inner)
    (htail : IsLine tail) (hne : tail ≠ []) : IsLine (word ++ inner ++ tail) := by
  apply IsLine.append ?_ htail hne
  rw [List.mem_append, not_or]
  exact ⟨hword, hinner⟩

theorem IsLine.indentLine {line : Text} (h : IsLine line) : IsLine (indentLine line) := by
  unfold Text.indentLine
  split
  · exact h
  · rename_i hne
    exact .append (by decide) h (by simpa using hne)

theorem newline_not_mem_indentLine {line : Text} (h : '\n' ∉ line) : '\n' ∉ indentLine line := by
  unfold Text.indentLine
  split
  · exact h
  · rw [List.mem_append, not_or]
    exact ⟨by decide, h⟩

theorem unlines_cons_cons (l next : Text) (rest : List Text) :
    unlines (l :: next :: rest) = l ++ '\n' :: unlines (next :: rest) := by
  rw [unlines, List.intercalate_cons_cons, List.append_assoc]
  rfl

theorem splitOn_unlines {ls : List Text} (hne : ls ≠ []) (h : ∀ l ∈ ls, '\n' ∉ l) :
    (unlines ls).splitOn '\n' = ls :=
  List.splitOn_intercalate '\n' h hne

/-- Lines that were put together are read back. -/
theorem lines_unlines {ls : List Text} (hne : ls ≠ []) (h : ∀ l ∈ ls, IsLine l) :
    (unlines ls).lines = ls := by
  have hkeep : ls.map dropReturn = ls.map id := by
    apply List.map_congr_left
    intro l hl
    exact dropReturn_of_ne (h l hl).last
  rw [lines, splitOn_unlines hne fun l hl => (h l hl).newline, hkeep, List.map_id]

theorem lines_append_newline {line : Text} (h : IsLine line) (t : Text) :
    (line ++ '\n' :: t).lines = line :: t.lines := by
  rw [lines, List.splitOn_append_cons_self, List.splitOn_eq_singleton h.newline, List.map_append,
    List.map_singleton, dropReturn_of_ne h.last]
  rfl

/-- The first lines are read back whatever comes below them. -/
theorem lines_unlines_append {front rest : List Text} (h : ∀ l ∈ front, IsLine l)
    (hne : rest ≠ []) : (unlines (front ++ rest)).lines = front ++ (unlines rest).lines := by
  induction front with
  | nil => rfl
  | cons l front ih =>
    obtain ⟨next, more, hmore⟩ : ∃ next more, front ++ rest = next :: more :=
      List.exists_cons_of_ne_nil (by simp [hne])
    have hfront := ih fun m hm => h m (List.mem_cons_of_mem l hm)
    rw [hmore] at hfront
    rw [List.cons_append, hmore, unlines_cons_cons, lines_append_newline (h l List.mem_cons_self),
      hfront, List.cons_append]

theorem eq_nil_of_unlines_eq_nil {ls : List Text} (hfirst : ls.head? ≠ some [])
    (h : unlines ls = []) : ls = [] := by
  cases ls with
  | nil => rfl
  | cons l rest =>
    cases rest with
    | nil =>
      rw [unlines_singleton] at h
      exact absurd (congrArg some h) hfirst
    | cons next rest =>
      rw [unlines_cons_cons] at h
      simp at h

/-- Lines of which the first is not empty can be told by the text they are put together to. -/
theorem unlines_inj {ls ms : List Text} (hls : ∀ l ∈ ls, '\n' ∉ l)
    (hms : ∀ m ∈ ms, '\n' ∉ m) (hl : ls.head? ≠ some []) (hm : ms.head? ≠ some [])
    (h : unlines ls = unlines ms) : ls = ms := by
  by_cases hnil : ls = []
  · rw [hnil, unlines_nil] at h
    rw [hnil, eq_nil_of_unlines_eq_nil hm h.symm]
  · have hne : ms ≠ [] := by
      rintro rfl
      exact hnil (eq_nil_of_unlines_eq_nil hl h)
    rw [← splitOn_unlines hnil hls, h, splitOn_unlines hne hms]

/-- Unless it is a newline, the first character of the whole is the first of the first line. -/
theorem head?_unlines {ls : List Text} {c : Char} (h : (unlines ls).head? = some c)
    (hc : c ≠ '\n') : ∃ l ∈ ls.head?, l.head? = some c := by
  cases ls with
  | nil => contradiction
  | cons l rest =>
    refine ⟨l, rfl, ?_⟩
    cases rest with
    | nil => rwa [unlines_singleton] at h
    | cons next rest =>
      rw [unlines_cons_cons] at h
      cases l with
      | nil => exact absurd (Option.some.inj h).symm hc
      | cons d l => exact h

end SourceMerge.Text
