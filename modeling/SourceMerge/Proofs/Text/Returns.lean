import SourceMerge.Proofs.Text.Blanks
import SourceMerge.Proofs.Text.Lines

/-! Newlines with a carriage return before them. Such a text has the lines of the text with bare
newlines, and since both characters are blank, readers of words and blanks get through it alike. -/
namespace SourceMerge.Text

/-- A character as a text with carriage returns has it. -/
def withReturn (c : Char) : Text := if c = '\n' then ['\r', '\n'] else [c]

/-- The text with a carriage return before every newline. -/
def withReturns (t : Text) : Text := t.flatMap withReturn

/-- No newline of the text has a carriage return before it. -/
def Unreturned (t : Text) : Prop := ¬ ['\r', '\n'] <:+: t

theorem unreturned_iff {t : Text} : Unreturned t ↔ includes ['\r', '\n'] t = false := by
  rw [Unreturned, ← Bool.not_eq_true, includes_iff]
  simp only [List.IsInfix, eq_comm]

instance (t : Text) : Decidable (Unreturned t) := decidable_of_iff' _ unreturned_iff

@[simp] theorem withReturns_nil : withReturns [] = [] := rfl

@[simp] theorem withReturns_newline (t : Text) :
    withReturns ('\n' :: t) = '\r' :: '\n' :: withReturns t := rfl

theorem withReturns_cons {c : Char} (hc : c ≠ '\n') (t : Text) :
    withReturns (c :: t) = c :: withReturns t := by
  rw [withReturns, List.flatMap_cons, withReturn, if_neg hc]
  rfl

theorem withReturns_append (s t : Text) :
    withReturns (s ++ t) = withReturns s ++ withReturns t := List.flatMap_append

theorem withReturns_eq_self {t : Text} (h : '\n' ∉ t) : withReturns t = t := by
  induction t with
  | nil => rfl
  | cons c t ih =>
    rw [List.mem_cons, not_or] at h
    rw [withReturns_cons (Ne.symm h.1), ih h.2]

section Lines

/-- Lines that have a carriage return at their end, the last one apart. -/
def returnLines : List Text → List Text
  | [] => []
  | [l] => [l]
  | l :: next :: rest => (l ++ ['\r']) :: returnLines (next :: rest)

theorem returnLines_ne_nil {ls : List Text} (h : ls ≠ []) : returnLines ls ≠ [] := by
  fun_cases returnLines ls
  · exact h
  · exact h
  · exact List.cons_ne_nil _ _

theorem newline_not_mem_returnLines {ls : List Text} (h : ∀ l ∈ ls, '\n' ∉ l) :
    ∀ l ∈ returnLines ls, '\n' ∉ l := by
  fun_induction returnLines ls with
  | case1 => exact h
  | case2 l => exact h
  | case3 l next rest ih =>
    intro m hm
    rcases List.mem_cons.mp hm with rfl | hm
    · rw [List.mem_append, not_or]
      exact ⟨h l List.mem_cons_self, by decide⟩
    · exact ih (fun l hl => h l (List.mem_cons_of_mem _ hl)) m hm

/-- Only newlines between lines get a carriage return, so each goes to the line before. -/
theorem withReturns_unlines {ls : List Text} (h : ∀ l ∈ ls, '\n' ∉ l) :
    withReturns (unlines ls) = unlines (returnLines ls) := by
  fun_induction returnLines ls with
  | case1 => rfl
  | case2 l =>
    rw [unlines_singleton]
    exact withReturns_eq_self (h l List.mem_cons_self)
  | case3 l next rest ih =>
    have hrest := ih fun l hl => h l (List.mem_cons_of_mem _ hl)
    obtain ⟨first, others, hlines⟩ :=
      List.exists_cons_of_ne_nil (returnLines_ne_nil (List.cons_ne_nil next rest))
    rw [unlines_cons_cons, withReturns_append, withReturns_eq_self (h l List.mem_cons_self),
      withReturns_newline, hrest, hlines, unlines_cons_cons, List.append_assoc]
    rfl

theorem dropReturn_returnLines {ls : List Text} (h : Unreturned (unlines ls)) :
    (returnLines ls).map dropReturn = ls.map dropReturn := by
  fun_induction returnLines ls with
  | case1 => rfl
  | case2 l => rfl
  | case3 l next rest ih =>
    rw [unlines_cons_cons] at h
    have hlast : l.getLast? ≠ some '\r' := by
      intro hl
      obtain ⟨front, rfl⟩ := List.getLast?_eq_some_iff.mp hl
      exact h ⟨front, unlines (next :: rest), by simp⟩
    have hrest : Unreturned (unlines (next :: rest)) := by
      intro hmem
      exact h (hmem.trans ⟨l ++ ['\n'], [], by simp⟩)
    have hfirst : dropReturn (l ++ ['\r']) = dropReturn l := by
      rw [dropReturn_append, dropReturn_of_ne hlast]
    rw [List.map_cons, hfirst, ih hrest]
    rfl

/-- A text has the same lines with carriage returns before its newlines. -/
theorem lines_withReturns {t : Text} (h : Unreturned t) : (withReturns t).lines = t.lines := by
  have hne : t.splitOn '\n' ≠ [] := List.splitOn_ne_nil '\n' t
  have hlines : ∀ l ∈ t.splitOn '\n', '\n' ∉ l := fun _ => not_mem_of_mem_splitOn
  have hjoin : unlines (t.splitOn '\n') = t := List.intercalate_splitOn '\n'
  have hcut : (withReturns t).splitOn '\n' = returnLines (t.splitOn '\n') := by
    rw [← splitOn_unlines (returnLines_ne_nil hne) (newline_not_mem_returnLines hlines),
      ← withReturns_unlines hlines, hjoin]
  rw [lines, hcut, dropReturn_returnLines (by rwa [hjoin]), lines]

end Lines

section Readers
variable {word : Text}

/-- A word that holds none of the two characters is read in one text if it is in the other. -/
theorem after?_withReturns (hreturn : '\r' ∉ word) (hnewline : '\n' ∉ word) (t : Text) :
    after? word (withReturns t) = (after? word t).map withReturns := by
  induction word generalizing t with
  | nil => rfl
  | cons w word ih =>
    rw [List.mem_cons, not_or] at hreturn hnewline
    cases t with
    | nil => rfl
    | cons c t =>
      by_cases hc : c = '\n'
      · rw [hc, withReturns_newline, after?, after?, if_neg (Ne.symm hreturn.1),
          if_neg (Ne.symm hnewline.1)]
        rfl
      · rw [withReturns_cons hc, after?, after?]
        split
        · exact ih hreturn.2 hnewline.2 t
        · rfl

theorem trimStart_withReturns (t : Text) :
    trimStart (withReturns t) = withReturns (trimStart t) := by
  induction t with
  | nil => rfl
  | cons c t ih =>
    by_cases hc : c = '\n'
    · rw [hc, withReturns_newline]
      exact ih
    · rw [withReturns_cons hc]
      cases hblank : isBlank c with
      | true =>
        rw [trimStart, trimStart, List.dropWhile_cons_of_pos hblank,
          List.dropWhile_cons_of_pos hblank]
        exact ih
      | false => rw [trimStart_cons hblank, trimStart_cons hblank, withReturns_cons hc]

theorem afterBlanks?_withReturns (t : Text) :
    afterBlanks? (withReturns t) = (afterBlanks? t).map withReturns := by
  cases t with
  | nil => rfl
  | cons c t =>
    by_cases hc : c = '\n'
    · rw [hc, withReturns_newline]
      exact congrArg some (trimStart_withReturns t)
    · rw [withReturns_cons hc, afterBlanks?, afterBlanks?]
      split
      · rw [trimStart_withReturns]
        rfl
      · rfl

theorem afterKeyword?_withReturns (hreturn : '\r' ∉ word) (hnewline : '\n' ∉ word) (t : Text) :
    afterKeyword? word (withReturns t) = (afterKeyword? word t).map withReturns := by
  rw [afterKeyword?, afterKeyword?, after?_withReturns hreturn hnewline]
  cases after? word t with
  | none => rfl
  | some rest => exact afterBlanks?_withReturns rest

end Readers
end SourceMerge.Text
