import SourceMerge.Declaration.Namespace
import SourceMerge.Declaration.Using
import SourceMerge.Proofs.Braces.Counting

/-! What using and namespace declarations are told apart by. Each kind is recognised from its first
non-blank character on, so indentation does not matter, and no line is of two kinds or, with a
brace as its code, of either. -/
namespace SourceMerge

theorem Text.head?_of_after? {w : Char} {word t rest : Text}
    (h : after? (w :: word) t = some rest) : t.head? = some w := by
  rw [after?_eq_some_iff.mp h]
  rfl

theorem Text.head?_of_afterKeyword? {w : Char} {word t rest : Text}
    (h : afterKeyword? (w :: word) t = some rest) : t.head? = some w := by
  obtain ⟨s, hs, _⟩ := Option.bind_eq_some_iff.mp h
  exact head?_of_after? hs

/-- The first character of a line's code is its first character that is no blank. -/
theorem Text.head?_of_code {line : Text} {c : Char} (h : line.code = [c]) :
    (trimStart line).head? = some c := by
  obtain ⟨a, b, ha, _, hline⟩ := Braces.exists_code line
  have hblank : isBlank c = false := by
    have hhead := head?_trimStart line.beforeComment
    rw [← head?_trimEnd hhead] at hhead
    exact hhead c (by rw [← trim, ← code, h]; rfl)
  rw [hline, trimStart_append ha, h, trimStart_eq_self]
  · rfl
  · intro d hd
    cases hd
    exact hblank

namespace Using

theorem local?_congr {s t : Text} (h : s.trimStart = t.trimStart) : local? s = local? t := by
  rw [local?, local?, h]

theorem global?_congr {s t : Text} (h : s.trimStart = t.trimStart) : global? s = global? t := by
  rw [global?, global?, h]

theorem any?_congr {s t : Text} (h : s.trimStart = t.trimStart) : any? s = any? t := by
  rw [any?, any?, local?_congr h, global?_congr h]

theorem any?_eq_some_iff {line clause : Text} :
    any? line = some clause ↔ local? line = some clause ∨
      local? line = none ∧ global? line = some clause := by
  rw [any?, Option.orElse_eq_orElse, Option.orElse_eq_or, Option.or_eq_some_iff]

theorem any?_eq_none_iff {line : Text} :
    any? line = none ↔ local? line = none ∧ global? line = none := by
  rw [any?, Option.orElse_eq_orElse, Option.orElse_eq_or, Option.or_eq_none_iff]

theorem head?_of_local? {line clause : Text} (h : local? line = some clause) :
    line.trimStart.head? = some 'u' := by
  obtain ⟨_, hrest, _⟩ := Option.bind_eq_some_iff.mp h
  exact Text.head?_of_afterKeyword? hrest

theorem head?_of_global? {line clause : Text} (h : global? line = some clause) :
    line.trimStart.head? = some 'g' := by
  obtain ⟨_, hrest, _⟩ := Option.bind_eq_some_iff.mp h
  exact Text.head?_of_afterKeyword? hrest

/-- No text begins with a using declaration of both kinds. -/
theorem local?_eq_none_of_global? {line clause : Text} (h : global? line = some clause) :
    local? line = none := by
  cases hlocal : local? line with
  | none => rfl
  | some other =>
    have hhead := head?_of_global? h
    rw [head?_of_local? hlocal] at hhead
    contradiction

theorem any?_of_global? {line clause : Text} (h : global? line = some clause) :
    any? line = some clause :=
  any?_eq_some_iff.mpr (.inr ⟨local?_eq_none_of_global? h, h⟩)

theorem head?_of_any? {line clause : Text} (h : any? line = some clause) :
    line.trimStart.head? = some 'u' ∨ line.trimStart.head? = some 'g' := by
  rcases any?_eq_some_iff.mp h with h | ⟨_, h⟩
  · exact Or.inl (head?_of_local? h)
  · exact Or.inr (head?_of_global? h)

theorem any?_eq_none_of_head? {line : Text} (hu : line.trimStart.head? ≠ some 'u')
    (hg : line.trimStart.head? ≠ some 'g') : any? line = none := by
  cases h : any? line with
  | none => rfl
  | some clause =>
    rcases head?_of_any? h with hhead | hhead
    · exact absurd hhead hu
    · exact absurd hhead hg

theorem any?_eq_none_of_code {line : Text} {c : Char} (h : line.code = [c]) (hu : c ≠ 'u')
    (hg : c ≠ 'g') : any? line = none := by
  apply any?_eq_none_of_head? <;> rw [Text.head?_of_code h] <;> simpa

theorem code_ne_of_any? {line clause : Text} {c : Char} (h : any? line = some clause)
    (hu : c ≠ 'u') (hg : c ≠ 'g') : line.code ≠ [c] := by
  intro hcode
  rw [any?_eq_none_of_code hcode hu hg] at h
  contradiction

end Using

namespace Namespace

theorem ofLine?_congr {s t : Text} (h : s.trimStart = t.trimStart) : ofLine? s = ofLine? t := by
  rw [ofLine?, ofLine?, declared?, declared?, h]

theorem head?_of_ofLine? {line : Text} {n : Namespace} (h : ofLine? line = some n) :
    line.trimStart.head? = some 'n' := by
  obtain ⟨_, hdeclared, _⟩ := Option.bind_eq_some_iff.mp h
  obtain ⟨rest, hrest, _⟩ := Option.bind_eq_some_iff.mp hdeclared
  exact Text.head?_of_afterKeyword? hrest

theorem ofLine?_eq_none_of_head? {line : Text} (hn : line.trimStart.head? ≠ some 'n') :
    ofLine? line = none := by
  cases h : ofLine? line with
  | none => rfl
  | some n => exact absurd (head?_of_ofLine? h) hn

theorem ofLine?_eq_none_of_code {line : Text} {c : Char} (h : line.code = [c]) (hn : c ≠ 'n') :
    ofLine? line = none := by
  apply ofLine?_eq_none_of_head?
  rw [Text.head?_of_code h]
  simpa

theorem code_ne_of_ofLine? {line : Text} {n : Namespace} {c : Char} (h : ofLine? line = some n)
    (hn : c ≠ 'n') : line.code ≠ [c] := by
  intro hcode
  rw [ofLine?_eq_none_of_code hcode hn] at h
  contradiction

end Namespace

/-- A namespace line is no using declaration. -/
theorem Using.any?_eq_none_of_ofLine? {line : Text} {n : Namespace}
    (h : Namespace.ofLine? line = some n) : any? line = none := by
  apply any?_eq_none_of_head? <;> rw [Namespace.head?_of_ofLine? h] <;> decide

end SourceMerge
