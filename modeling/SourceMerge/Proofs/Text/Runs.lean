import Mathlib.Data.List.TakeWhile
import SourceMerge.Text.Basic

/-! Runs: the longest start of a list that keeps to a predicate. A run that is followed by nothing
or by an element outside of the predicate is cut off exactly there. -/
namespace SourceMerge.Text

section Boundary
variable {α : Type} {p : α → Bool} {front rest : List α}

theorem takeWhile_run (hfront : ∀ a ∈ front, p a = true) (hrest : ∀ a ∈ rest.head?, p a = false) :
    (front ++ rest).takeWhile p = front := by
  rw [List.takeWhile_append_of_pos hfront]
  cases rest with
  | nil => simp
  | cons a rest => simp [hrest a rfl]

theorem dropWhile_run (hfront : ∀ a ∈ front, p a = true) (hrest : ∀ a ∈ rest.head?, p a = false) :
    (front ++ rest).dropWhile p = rest := by
  rw [List.dropWhile_append_of_pos hfront]
  cases rest with
  | nil => rfl
  | cons a rest => simp [hrest a rfl]

theorem not_of_mem_head?_dropWhile (xs : List α) : ∀ a ∈ (xs.dropWhile p).head?, p a = false := by
  intro a ha
  have hhead := List.head?_dropWhile_not p xs
  rwa [Option.mem_def.mp ha] at hhead

/-- A list falls apart in one way into a run and what follows it. -/
theorem run_append_inj {front' rest' : List α} (hfront : ∀ a ∈ front, p a = true)
    (hrest : ∀ a ∈ rest.head?, p a = false) (hfront' : ∀ a ∈ front', p a = true)
    (hrest' : ∀ a ∈ rest'.head?, p a = false) (h : front ++ rest = front' ++ rest') :
    front = front' ∧ rest = rest' := by
  refine ⟨?_, ?_⟩
  · rw [← takeWhile_run hfront hrest, h, takeWhile_run hfront' hrest']
  · rw [← dropWhile_run hfront hrest, h, dropWhile_run hfront' hrest']

end Boundary

theorem ne_of_not_mem {c : Char} {t : Text} (h : c ∉ t) : ∀ d ∈ t, (d != c) = true := by
  intro d hd
  have hne : d ≠ c := fun he => h (he ▸ hd)
  simpa using hne

theorem takeWhile_ne {c : Char} {front rest : Text} (h : c ∉ front) :
    (front ++ c :: rest).takeWhile (· != c) = front :=
  takeWhile_run (ne_of_not_mem h) (by simp)

theorem dropWhile_ne {c : Char} {front rest : Text} (h : c ∉ front) :
    (front ++ c :: rest).dropWhile (· != c) = c :: rest :=
  dropWhile_run (ne_of_not_mem h) (by simp)

end SourceMerge.Text
