import SourceMerge.Proofs.Text.Blanks

/-! The first word of a text. Blanks around the text are no part of it, and neither is anything that
stands behind the blank after it, but what is attached to the word makes it longer. -/
namespace SourceMerge.Text

theorem trimStart_append_of_ne_nil {t : Text} (h : trimStart t ≠ []) (s : Text) :
    trimStart (t ++ s) = trimStart t ++ s := by
  obtain ⟨d, hd⟩ : ∃ d, (trimStart t).head? = some d :=
    Option.isSome_iff_exists.mp (List.isSome_head?.mpr h)
  have hmem : d ∈ t := (List.dropWhile_sublist _).subset (List.mem_of_head? hd)
  exact trimStart_append_of_mem hmem (head?_trimStart t d hd) s

theorem trimStart_trim (t : Text) : trimStart (trim t) = trim t := by
  apply trimStart_eq_self
  rw [trim, head?_trimEnd (head?_trimStart t)]
  exact head?_trimStart t

theorem firstWord_append_of_allBlank {b : Text} (hb : AllBlank b) (t : Text) :
    firstWord (t ++ b) = firstWord t := by
  have hnone : b.takeWhile (fun c => !isBlank c) = [] := by
    cases b with
    | nil => rfl
    | cons c b => simp [hb c List.mem_cons_self]
  by_cases h : trimStart t = []
  · have hblank := (trimStart_eq_nil.mp h).append hb
    rw [firstWord, firstWord, trimStart_eq_nil.mpr hblank, h]
  · rw [firstWord, firstWord, trimStart_append_of_ne_nil h, List.takeWhile_append, hnone]
    split
    · rename_i hall
      rw [List.append_nil, (List.takeWhile_prefix _).eq_of_length hall]
    · rfl

theorem firstWord_allBlank_append {a : Text} (ha : AllBlank a) (t : Text) :
    firstWord (a ++ t) = firstWord t := by
  rw [firstWord, firstWord, trimStart_append ha]

theorem firstWord_trim (t : Text) : firstWord (trim t) = firstWord t := by
  obtain ⟨a, b, ha, hb, ht⟩ := exists_trim t
  calc
    firstWord (trim t) = firstWord (trim t ++ b) := (firstWord_append_of_allBlank hb _).symm
    _ = firstWord (a ++ (trim t ++ b)) := (firstWord_allBlank_append ha _).symm
    _ = firstWord t := by rw [← List.append_assoc, ← ht]

/-- What stands behind a blank after the first word has no part in the word. -/
theorem firstWord_append_of_blank {t : Text} (h : ∃ c ∈ trimStart t, isBlank c = true) (s : Text) :
    firstWord (t ++ s) = firstWord t := by
  obtain ⟨c, hmem, hc⟩ := h
  rw [firstWord, firstWord, trimStart_append_of_ne_nil (List.ne_nil_of_mem hmem),
    List.takeWhile_append]
  split
  · rename_i hall
    have hword := List.takeWhile_eq_self_iff.mp ((List.takeWhile_prefix _).eq_of_length hall) c hmem
    simp [hc] at hword
  · rfl

/-- What is attached to the first word is part of it up to the next blank. -/
theorem firstWord_append_of_word {t : Text} (hne : trimStart t ≠ [])
    (h : ∀ c ∈ trimStart t, isBlank c = false) (s : Text) :
    firstWord (t ++ s) = firstWord t ++ s.takeWhile fun c => !isBlank c := by
  have hword : ∀ c ∈ trimStart t, (!isBlank c) = true := fun c hc => by rw [h c hc]; rfl
  rw [firstWord, firstWord, trimStart_append_of_ne_nil hne, List.takeWhile_append_of_pos hword,
    List.takeWhile_eq_self_iff.mpr hword]

/-- A word that a text begins with is at the front of its first word. -/
theorem beginsWith_firstWord {word : Text} (hword : ∀ c ∈ word, isBlank c = false) (t : Text) :
    beginsWith word (firstWord t) = beginsWith word (trimStart t) := by
  rw [Bool.eq_iff_iff, beginsWith_iff, beginsWith_iff]
  constructor
  · rintro ⟨rest, h⟩
    refine ⟨rest ++ (trimStart t).dropWhile fun c => !isBlank c, ?_⟩
    rw [← List.append_assoc, ← h, firstWord, List.takeWhile_append_dropWhile]
  · rintro ⟨rest, h⟩
    refine ⟨rest.takeWhile fun c => !isBlank c, ?_⟩
    rw [firstWord, h, List.takeWhile_append_of_pos]
    intro c hc
    rw [hword c hc]
    rfl

end SourceMerge.Text
