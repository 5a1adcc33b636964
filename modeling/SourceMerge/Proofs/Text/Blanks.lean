import Mathlib.Data.List.TakeWhile
import SourceMerge.Text.Basic

/-! Blanks around a text and between its words. Trimming takes away a run of blanks and nothing
else, and a keyword is read together with all the blanks after it. -/
namespace SourceMerge.Text

def AllBlank (t : Text) : Prop := ∀ c ∈ t, isBlank c = true

theorem allBlank_nil : AllBlank [] := by
  intro c hc
  contradiction

theorem AllBlank.append {a b : Text} (ha : AllBlank a) (hb : AllBlank b) : AllBlank (a ++ b) := by
  intro c hc
  rcases List.mem_append.mp hc with h | h
  · exact ha c h
  · exact hb c h

theorem AllBlank.not_mem {t : Text} {c : Char} (h : AllBlank t) (hc : isBlank c = false) :
    c ∉ t := by
  intro hmem
  rw [h c hmem] at hc
  contradiction

/-- Blanks in front of a text are no part of what trimming leaves. -/
theorem trimStart_append {a : Text} (ha : AllBlank a) (t : Text) :
    trimStart (a ++ t) = trimStart t := by
  unfold trimStart
  exact List.dropWhile_append_of_pos ha

theorem trimStart_cons {c : Char} (hc : isBlank c = false) (t : Text) :
    trimStart (c :: t) = c :: t := by
  simp [trimStart, hc]

/-- What stands behind a text is not reached by trimming, unless the text is all blank. -/
theorem trimStart_append_of_mem {t : Text} {c : Char} (hmem : c ∈ t) (hc : isBlank c = false)
    (s : Text) : trimStart (t ++ s) = trimStart t ++ s := by
  have hne : (t.dropWhile isBlank).isEmpty = false := by
    rw [List.isEmpty_eq_false_iff, ne_eq, List.dropWhile_eq_nil_iff]
    intro h
    rw [h c hmem] at hc
    contradiction
  rw [trimStart, List.dropWhile_append, hne]
  rfl

theorem trimStart_eq_nil {t : Text} : trimStart t = [] ↔ AllBlank t := List.dropWhile_eq_nil_iff

theorem head?_keyword {word : Text} (h : word.head?.any (!isBlank ·) = true) (rest : Text) :
    ∀ c ∈ (word ++ rest).head?, isBlank c = false := by
  cases word with
  | nil => contradiction
  | cons w word =>
    intro c hc
    cases hc
    simpa using h

theorem trimStart_keyword {a word : Text} (ha : AllBlank a)
    (h : word.head?.any (!isBlank ·) = true) (rest : Text) :
    trimStart (a ++ (word ++ rest)) = word ++ rest := by
  rw [trimStart_append ha, trimStart_eq_self (head?_keyword h rest)]

theorem exists_trimStart (t : Text) : ∃ a, AllBlank a ∧ t = a ++ trimStart t := by
  refine ⟨t.takeWhile isBlank, ?_, ?_⟩
  · intro c hc
    exact List.mem_takeWhile_imp hc
  · exact List.takeWhile_append_dropWhile.symm

theorem exists_trimEnd (t : Text) : ∃ b, AllBlank b ∧ t = trimEnd t ++ b := by
  obtain ⟨b, hb, ht⟩ := exists_trimStart t.reverse
  refine ⟨b.reverse, ?_, ?_⟩
  · intro c hc
    exact hb c (List.mem_reverse.mp hc)
  · have h := congrArg List.reverse ht
    simpa [trimStart, trimEnd] using h

/-- A text is its trimmed part between two runs of blanks. -/
theorem exists_trim (t : Text) :
    ∃ a b, AllBlank a ∧ AllBlank b ∧ t = a ++ trim t ++ b := by
  obtain ⟨a, ha, ht⟩ := exists_trimStart t
  obtain ⟨b, hb, hs⟩ := exists_trimEnd (trimStart t)
  refine ⟨a, b, ha, hb, ?_⟩
  rw [List.append_assoc, trim, ← hs]
  exact ht

/-- The end of a text is trimmed in its last part, if that part is not all blank. -/
theorem trimEnd_append {r : Text} (hr : ¬ AllBlank r) (a : Text) :
    trimEnd (a ++ r) = a ++ trimEnd r := by
  have hne : (r.reverse.dropWhile isBlank).isEmpty = false := by
    rw [List.isEmpty_eq_false_iff, ne_eq, List.dropWhile_eq_nil_iff]
    intro h
    exact hr fun c hc => h c (List.mem_reverse.mpr hc)
  rw [trimEnd, List.reverse_append, List.dropWhile_append, hne]
  simp [trimEnd]

/-- Blanks at the end of a text are no part of what trimming leaves. -/
theorem trimEnd_append_of_allBlank {b : Text} (hb : AllBlank b) (t : Text) :
    trimEnd (t ++ b) = trimEnd t := by
  rw [trimEnd, List.reverse_append, List.dropWhile_append_of_pos fun c hc =>
    hb c (List.mem_reverse.mp hc), trimEnd]

/-- Blanks around a text do not matter to what trimming leaves. -/
theorem trim_padded {a b : Text} (ha : AllBlank a) (hb : AllBlank b) (t : Text) :
    trim (a ++ (t ++ b)) = trim t := by
  rw [trim, trim, trimStart_append ha]
  by_cases ht : AllBlank t
  · rw [trimStart_eq_nil.mpr ht, trimStart_eq_nil.mpr (ht.append hb)]
  · obtain ⟨c, hmem, hc⟩ : ∃ c ∈ t, isBlank c = false := by
      simpa [AllBlank] using ht
    rw [trimStart_append_of_mem hmem hc, trimEnd_append_of_allBlank hb]

theorem trimEnd_isPrefix (t : Text) : trimEnd t <+: t := by
  obtain ⟨b, _, h⟩ := exists_trimEnd t
  exact ⟨b, h.symm⟩

theorem trimEnd_trimEnd (t : Text) : trimEnd (trimEnd t) = trimEnd t :=
  trimEnd_eq_self (getLast?_trimEnd t)

theorem trim_eq_trimEnd {t : Text} (h : ∀ c ∈ t.head?, isBlank c = false) : trim t = trimEnd t := by
  rw [trim, trimStart_eq_self h]

theorem trim_eq_self {t : Text} (h : ∀ c ∈ t, isBlank c = false) : trim t = t := by
  rw [trim, trimStart_eq_self, trimEnd_eq_self]
  · intro c hc
    exact h c (List.mem_of_getLast? hc)
  · intro c hc
    exact h c (List.mem_of_head? hc)

theorem mem_trimEnd {t : Text} {c : Char} (hmem : c ∈ t) (hc : isBlank c = false) :
    c ∈ trimEnd t := by
  obtain ⟨b, hb, ht⟩ := exists_trimEnd t
  rw [ht] at hmem
  rcases List.mem_append.mp hmem with hmem | hmem
  · exact hmem
  · rw [hb c hmem] at hc
    contradiction

theorem trim_ne_nil {t : Text} {c : Char} (hmem : c ∈ t) (hc : isBlank c = false) : trim t ≠ [] := by
  intro hnil
  obtain ⟨a, b, ha, hb, ht⟩ := exists_trim t
  rw [hnil, List.append_nil] at ht
  rw [ht] at hmem
  rw [(ha.append hb) c hmem] at hc
  contradiction

theorem mem_of_mem_trim {t : Text} {c : Char} (h : c ∈ trim t) : c ∈ t := by
  obtain ⟨a, b, _, _, ht⟩ := exists_trim t
  rw [ht]
  exact List.mem_append_left b (List.mem_append_right a h)

theorem afterBlanks?_eq_some_iff {t rest : Text} :
    afterBlanks? t = some rest ↔
      ∃ ws, ws ≠ [] ∧ AllBlank ws ∧ t = ws ++ rest ∧ ∀ c ∈ rest.head?, isBlank c = false := by
  constructor
  · intro h
    cases t with
    | nil => contradiction
    | cons c t =>
      by_cases hc : isBlank c = true
      · simp only [afterBlanks?, hc, if_true, Option.some.injEq] at h
        obtain ⟨a, ha, ht⟩ := exists_trimStart t
        refine ⟨c :: a, List.cons_ne_nil c a, ?_, ?_, ?_⟩
        · intro d hd
          rcases List.mem_cons.mp hd with rfl | hd
          · exact hc
          · exact ha d hd
        · rw [← h, List.cons_append, ← ht]
        · rw [← h]
          exact head?_trimStart t
      · simp only [afterBlanks?, hc, if_false, Bool.false_eq_true] at h
        contradiction
  · rintro ⟨ws, hne, hws, rfl, hrest⟩
    cases ws with
    | nil => contradiction
    | cons c a =>
      have ha : AllBlank a := fun d hd => hws d (List.mem_cons_of_mem c hd)
      simp only [List.cons_append, afterBlanks?, hws c List.mem_cons_self, if_true]
      rw [trimStart_append ha, trimStart_eq_self hrest]

theorem afterKeyword?_eq_some_iff {word t rest : Text} :
    afterKeyword? word t = some rest ↔
      ∃ ws, ws ≠ [] ∧ AllBlank ws ∧ t = word ++ (ws ++ rest) ∧
        ∀ c ∈ rest.head?, isBlank c = false := by
  rw [afterKeyword?, Option.bind_eq_some_iff]
  constructor
  · rintro ⟨s, hs, h⟩
    obtain ⟨ws, hne, hws, rfl, hrest⟩ := afterBlanks?_eq_some_iff.mp h
    exact ⟨ws, hne, hws, after?_eq_some_iff.mp hs, hrest⟩
  · rintro ⟨ws, hne, hws, rfl, hrest⟩
    exact ⟨ws ++ rest, after?_append word _, afterBlanks?_eq_some_iff.mpr ⟨ws, hne, hws, rfl, hrest⟩⟩

theorem afterKeyword?_append {word t rest : Text} (h : afterKeyword? word t = some rest)
    (hne : rest ≠ []) (s : Text) : afterKeyword? word (t ++ s) = some (rest ++ s) := by
  obtain ⟨ws, hws, hblank, rfl, hrest⟩ := afterKeyword?_eq_some_iff.mp h
  refine afterKeyword?_eq_some_iff.mpr ⟨ws, hws, hblank, by simp, ?_⟩
  cases rest with
  | nil => contradiction
  | cons c rest => exact hrest

end SourceMerge.Text
