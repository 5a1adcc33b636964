import SourceMerge.Proofs.Text.Lines

/-! Cutting a text into lines and joining the lines again. Nothing is lost but one carriage return
before each newline and one at the end, and lines that end in none are cut as they were joined. -/
namespace SourceMerge.Text

/-- The text without one carriage return before each newline and without one at its end. -/
def withoutReturns : Text → Text
  | [] => []
  | ['\r'] => []
  | '\r' :: '\n' :: t => '\n' :: withoutReturns t
  | c :: t => c :: withoutReturns t

theorem length_splitOn {α : Type} [BEq α] [LawfulBEq α] (x : α) (t : List α) :
    (t.splitOn x).length = t.count x + 1 := by
  induction t with
  | nil => rfl
  | cons c t ih =>
    rw [List.splitOn_cons_eq_if_modifyHead, List.count_cons]
    split
    · rw [List.length_cons, ih]
    · rw [List.length_modifyHead, ih]

theorem length_lines (t : Text) : t.lines.length = t.count '\n' + 1 := by
  rw [lines, List.length_map, length_splitOn]

/-- A first character that is no carriage return stays, and so does a carriage return before
anything but a newline. -/
theorem withoutReturns_cons {c : Char} {t : Text} (h : c = '\r' → ∃ d ∈ t.head?, d ≠ '\n') :
    withoutReturns (c :: t) = c :: withoutReturns t := by
  rw [withoutReturns]
  · rintro hc rfl
    obtain ⟨d, hd, _⟩ := h hc
    contradiction
  · rintro rest hc rfl
    obtain ⟨d, hd, hne⟩ := h hc
    exact hne (Option.some.inj hd).symm

/-- A carriage return at the end of a line goes, before a newline as well as at the end. -/
theorem withoutReturns_line {line : Text} (h : '\n' ∉ line) {tail : Text}
    (htail : tail = [] ∨ ∃ t, tail = '\n' :: t) :
    withoutReturns (line ++ tail) = dropReturn line ++ withoutReturns tail := by
  induction line with
  | nil => rfl
  | cons c line ih =>
    rw [List.mem_cons, not_or] at h
    cases line with
    | nil =>
      by_cases hc : c = '\r'
      · subst hc
        rcases htail with rfl | ⟨t, rfl⟩ <;> rfl
      · have hlast : dropReturn [c] = [c] := dropReturn_of_ne (by simpa using hc)
        rw [hlast, List.singleton_append, withoutReturns_cons fun heq => absurd heq hc]
        rfl
    | cons d line =>
      have hd : d ≠ '\n' := fun heq => h.2 (heq ▸ List.mem_cons_self)
      have hfront : dropReturn (c :: d :: line) = c :: dropReturn (d :: line) := by
        simp only [dropReturn, List.getLast?_cons_cons]
        split <;> rfl
      rw [hfront, List.cons_append, withoutReturns_cons fun _ => ⟨d, rfl, hd⟩, ih h.2]
      rfl

theorem withoutReturns_unlines {ls : List Text} (h : ∀ l ∈ ls, '\n' ∉ l) :
    withoutReturns (unlines ls) = unlines (ls.map dropReturn) := by
  induction ls with
  | nil => rfl
  | cons l ls ih =>
    have hl := h l List.mem_cons_self
    cases ls with
    | nil =>
      have hend := withoutReturns_line hl (.inl rfl)
      rw [List.append_nil] at hend
      rw [unlines_singleton, List.map_singleton, unlines_singleton, hend]
      exact List.append_nil _
    | cons next rest =>
      have hrest := ih fun m hm => h m (List.mem_cons_of_mem l hm)
      rw [unlines_cons_cons, withoutReturns_line hl (.inr ⟨_, rfl⟩), List.map_cons, List.map_cons,
        unlines_cons_cons, ← List.map_cons, ← hrest]
      rfl

theorem unlines_lines (t : Text) : unlines t.lines = withoutReturns t := by
  have hjoin : unlines (t.splitOn '\n') = t := List.intercalate_splitOn '\n'
  rw [lines, ← withoutReturns_unlines fun _ => not_mem_of_mem_splitOn, hjoin]

/-- Cutting and joining undo one another up to carriage returns at the ends of lines. -/
theorem cut_and_joined (t : Text) :
    t.lines.length = t.count '\n' + 1 ∧ (∀ l ∈ t.lines, '\n' ∉ l) ∧
      unlines t.lines = withoutReturns t ∧
      ∀ ls : List Text, ls ≠ [] → (∀ l ∈ ls, '\n' ∉ l ∧ l.getLast? ≠ some '\r') →
        (unlines ls).lines = ls := by
  refine ⟨length_lines t, fun _ => newline_not_mem_of_mem_lines, unlines_lines t, ?_⟩
  intro ls hne hlines
  exact lines_unlines hne fun l hl => ⟨(hlines l hl).1, (hlines l hl).2⟩

theorem cut_and_joined_mixed :
    unlines (lines "a\r\r\n\nb\r\n\r".toList) = "a\r\n\nb\n".toList ∧
      (unlines [[], "a\rb".toList, [], []]).lines = [[], "a\rb".toList, [], []] := by
  obtain ⟨_, _, hjoined, hcut⟩ := cut_and_joined "a\r\r\n\nb\r\n\r".toList
  refine ⟨hjoined.trans (by decide), hcut _ (by decide) ?_⟩
  decide

end SourceMerge.Text
