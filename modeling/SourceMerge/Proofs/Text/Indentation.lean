import SourceMerge.Proofs.Text.Blanks
import SourceMerge.Text.Indent

/-! The indentation of a line. Taking one level away is undone by putting one in front, and neither
changes what stands after the blanks a line begins with. -/
namespace SourceMerge.Text

theorem isBlank_of_isIndent {c : Char} (h : isIndent c = true) : isBlank c = true := by
  simp only [isIndent, Bool.or_eq_true, beq_iff_eq] at h
  rcases h with rfl | rfl <;> decide

theorem allBlank_leadingIndent (line : Text) : AllBlank line.leadingIndent := by
  intro c hc
  exact isBlank_of_isIndent (List.mem_takeWhile_imp hc)

theorem leadingIndent_append {line : Text} {c : Char} (hmem : c ∈ line)
    (hc : isIndent c = false) (s : Text) : (line ++ s).leadingIndent = line.leadingIndent := by
  have hne : (line.takeWhile isIndent).length ≠ line.length := by
    intro h
    have hall := List.takeWhile_eq_self_iff.mp ((List.takeWhile_prefix isIndent).eq_of_length h)
    rw [hall c hmem] at hc
    contradiction
  rw [leadingIndent, List.takeWhile_append, if_neg hne]
  rfl

theorem allBlank_indentStep : AllBlank indentStep := by
  have h : indentStep = List.replicate 4 ' ' := rfl
  intro c hc
  rw [h] at hc
  rw [List.eq_of_mem_replicate hc]
  decide

/-- One level of indentation as it is read. -/
def IsLevel (unit : Text) : Prop := unit = indentStep ∨ unit = ['\t']

theorem IsLevel.allBlank {unit : Text} (h : IsLevel unit) : AllBlank unit := by
  rcases h with rfl | rfl
  · exact allBlank_indentStep
  · intro c hc
    rw [List.mem_singleton.mp hc]
    decide

theorem outdent_of_after? {base line rest : Text} (h : after? base line = some rest) :
    outdent base line = ((after? indentStep rest).or (after? ['\t'] rest)).getD line := by
  simp only [outdent, h, Option.bind_eq_bind, Option.bind_some, Option.orElse_eq_orElse,
    Option.orElse_eq_or]

/-- A line is left as it is, or loses exactly the base and one level after it. -/
theorem outdent_cases (base line : Text) :
    outdent base line = line ∨
      ∃ unit, IsLevel unit ∧ line = base ++ unit ++ outdent base line := by
  cases hbase : after? base line with
  | none => left; simp [outdent, hbase]
  | some rest =>
    have hline := after?_eq_some_iff.mp hbase
    rw [outdent_of_after? hbase]
    cases hstep : after? indentStep rest with
    | some t =>
      have hrest := after?_eq_some_iff.mp hstep
      right
      exact ⟨indentStep, Or.inl rfl, by rw [hline, hrest, List.append_assoc]; rfl⟩
    | none =>
      cases htab : after? ['\t'] rest with
      | some t =>
        have hrest := after?_eq_some_iff.mp htab
        right
        exact ⟨['\t'], Or.inr rfl, by rw [hline, hrest, List.append_assoc]; rfl⟩
      | none => left; rfl

theorem exists_outdent {base : Text} (hbase : AllBlank base) (line : Text) :
    ∃ a, AllBlank a ∧ line = a ++ outdent base line := by
  rcases outdent_cases base line with h | ⟨unit, hunit, h⟩
  · exact ⟨[], allBlank_nil, by rw [h]; rfl⟩
  · exact ⟨base ++ unit, hbase.append hunit.allBlank, h⟩

theorem exists_indentLine (line : Text) : ∃ a, AllBlank a ∧ indentLine line = a ++ line := by
  unfold indentLine
  split
  · exact ⟨[], allBlank_nil, rfl⟩
  · exact ⟨indentStep, allBlank_indentStep, rfl⟩

theorem trimStart_indentLine (line : Text) : trimStart (indentLine line) = trimStart line := by
  obtain ⟨a, ha, h⟩ := exists_indentLine line
  rw [h, trimStart_append ha]

/-- Taking a level away undoes putting one in front, for empty lines as well. -/
theorem outdent_indentLine (line : Text) : outdent [] (indentLine line) = line := by
  cases line with
  | nil => rfl
  | cons c t => exact outdent_append_step [] (c :: t)

theorem indentLine_injective : Function.Injective indentLine :=
  Function.LeftInverse.injective outdent_indentLine

/-- Going through a level of indentation in a block namespace changes only the indentation below. -/
theorem indentLine_outdent (base : Text) {rest : Text} (h : rest ≠ []) :
    indentLine (outdent base (base ++ indentStep ++ rest)) = indentStep ++ rest := by
  rw [outdent_append_step, indentLine, if_neg (by simpa using h)]

theorem outdent_nil (base : Text) : outdent base [] = [] := by
  rcases outdent_cases base [] with h | ⟨unit, _, h⟩
  · exact h
  · exact (List.append_eq_nil_iff.mp h.symm).2

end SourceMerge.Text
