import SourceMerge.Proofs.Braces.Counting
import SourceMerge.Proofs.Document.Layout

/-! A line that declares a namespace: the keyword, the name and what follows it. What is put behind
such a line leaves the name as it is, unless it begins with a part of a name. -/
namespace SourceMerge.Namespace
open Text

theorem exists_of_isTerminator {t : Text} (h : isTerminator t = true) :
    ∃ a b, AllBlank a ∧ AllBlank b ∧ t = a ++ ';' :: b := by
  obtain ⟨a, b, ha, hb, ht⟩ := exists_trim t
  rw [beq_iff_eq.mp h] at ht
  exact ⟨a, b, ha, hb, by simpa using ht⟩

theorem isTerminator_eq_false {t : Text} {c : Char} (hmem : c ∈ t) (hc : isBlank c = false)
    (hne : c ≠ ';') : isTerminator t = false := by
  by_contra h
  obtain ⟨a, b, ha, hb, rfl⟩ := exists_of_isTerminator (by simpa using h)
  rcases List.mem_append.mp hmem with hmem | hmem
  · exact ha.not_mem hc hmem
  · rcases List.mem_cons.mp hmem with rfl | hmem
    · contradiction
    · exact hb.not_mem hc hmem

/-- A line that declares a namespace, in full. -/
theorem exists_line {line : Text} {n : Namespace} (h : ofLine? line = some n) :
    ∃ a ws rest, AllBlank a ∧ AllBlank ws ∧
      line = a ++ ("namespace".toList ++ (ws ++ (n.name ++ rest))) ∧
      declared? line = some (n.name, rest) := by
  obtain ⟨rest, hdeclared⟩ := exists_declared? h
  obtain ⟨hkeyword, _⟩ := declared?_eq_some_iff.mp hdeclared
  obtain ⟨ws, _, hws, hline, _⟩ := afterKeyword?_eq_some_iff.mp hkeyword
  obtain ⟨a, ha, ht⟩ := exists_trimStart line
  rw [hline] at ht
  exact ⟨a, ws, rest, ha, hws, ht, hdeclared⟩

theorem mem_of_ofLine? {line : Text} {n : Namespace} (h : ofLine? line = some n) : 'n' ∈ line := by
  obtain ⟨a, ws, rest, _, _, rfl, _⟩ := exists_line h
  simp

theorem declared?_append {line name rest s : Text} (h : declared? line = some (name, rest))
    (hs : ∀ c ∈ (rest ++ s).head?, isNamePart c = false) :
    declared? (line ++ s) = some (name, rest ++ s) := by
  obtain ⟨hkeyword, hne, hname, _⟩ := declared?_eq_some_iff.mp h
  refine declared?_eq_some_iff.mpr ⟨?_, hne, hname, hs⟩
  have hmem := mem_of_ofLine? (ofLine?_of_declared? h)
  rw [trimStart_append_of_mem hmem (by decide), ← List.append_assoc]
  exact afterKeyword?_append hkeyword (by simp [hne]) s

/-- The line of a namespace for the whole file has no brace. -/
theorem not_mem_of_wholeFile {line name : Text} (h : ofLine? line = some ⟨name, .wholeFile⟩) :
    '{' ∉ line := by
  obtain ⟨a, ws, rest, ha, hws, rfl, hdeclared⟩ := exists_line h
  have hend : isTerminator rest = true := by
    rw [ofLine?_of_declared? hdeclared] at h
    by_contra hend
    simp [hend] at h
  obtain ⟨b, b', hb, hb', rfl⟩ := exists_of_isTerminator hend
  have hblank : ∀ u : Text, AllBlank u → '{' ∉ u := fun u hu => hu.not_mem rfl
  have hname : '{' ∉ name := fun hmem => by
    have := isNamePart_of_mem_name h hmem
    contradiction
  simp [hblank _ ha, hblank _ hws, hblank _ hb, hblank _ hb', hname]

end SourceMerge.Namespace
