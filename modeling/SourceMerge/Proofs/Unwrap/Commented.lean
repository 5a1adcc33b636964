import SourceMerge.Proofs.Braces.Modes
import SourceMerge.Proofs.Declaration.NamespaceLine
import SourceMerge.Proofs.Unwrap.Run

/-! A line comment behind a namespace line. It changes nothing if the namespace is a block. The
line of a namespace for the whole file is taken for one that opens a block, whose brace is then
looked for in the rest of the file. -/
namespace SourceMerge
open Text

/-- A line with a line comment put behind it. -/
def Text.commented (line comment : Text) : Text := line ++ " // ".toList ++ comment

namespace Namespace

/-- Behind a comment every namespace is a block. -/
theorem ofLine?_commented {line : Text} {n : Namespace} (h : ofLine? line = some n)
    (comment : Text) : ofLine? (line.commented comment) = some ⟨n.name, .block⟩ := by
  obtain ⟨rest, hdeclared⟩ := exists_declared? h
  obtain ⟨_, _, _, hhead⟩ := declared?_eq_some_iff.mp hdeclared
  have hcommented : declared? (line.commented comment) =
      some (n.name, rest ++ (" // ".toList ++ comment)) := by
    rw [commented, List.append_assoc]
    refine declared?_append hdeclared ?_
    cases rest with
    | nil =>
      intro c hc
      cases hc
      decide
    | cons c rest => exact hhead
  have hslash : '/' ∈ rest ++ (" // ".toList ++ comment) := by simp
  have hend := isTerminator_eq_false hslash (by decide) (by decide)
  rw [ofLine?_of_declared? hcommented, hend]
  rfl

end Namespace

namespace Unwrap
variable {line : Text} {n : Namespace}

theorem State.enter_commented (h : Namespace.ofLine? line = some n)
    (hcomment : (Braces.ofLine line).comment = [])
    (hend : (Braces.Mode.after line).isEnclosed = false) (comment : Text) :
    State.enter (line.commented comment) = .enter line := by
  have hindent : (line.commented comment).leadingIndent = line.leadingIndent := by
    rw [commented, List.append_assoc]
    exact leadingIndent_append (Namespace.mem_of_ofLine? h) (by decide) _
  simp only [enter, hindent]
  rw [commented, Braces.ofLine_commented hcomment hend]

/-- The line of a namespace for the whole file would be followed by the brace of a block. -/
theorem State.enter_of_wholeFile {name : Text}
    (h : Namespace.ofLine? line = some ⟨name, .wholeFile⟩) :
    State.enter line = ⟨.beforeBrace, line.leadingIndent⟩ := by
  rw [enter, if_pos (Braces.opens_eq_zero (Namespace.not_mem_of_wholeFile h))]

theorem State.kept_opener (w : Text) : State.kept ⟨.beforeBrace, w⟩ [['{']] = [] := by
  have hu : Using.any? ['{'] = none := by decide
  have hn : Namespace.ofLine? ['{'] = none := by decide
  have hcode : Text.code ['{'] = ['{'] := by decide +kernel
  rw [State.kept, State.next_of_content hu hn, State.content]
  simp only [hcode, if_true]
  rfl

/-- With a line comment behind it, a namespace line is read as before if and only if the namespace
is a block. A namespace for the whole file becomes a block without a brace, so that the next line
that is a lone brace is taken for the block's own. -/
theorem kept_commented_iff (h : Namespace.ofLine? line = some n)
    (hcomment : (Braces.ofLine line).comment = [])
    (hend : (Braces.Mode.after line).isEnclosed = false) (comment : Text) :
    Namespace.ofLine? (line.commented comment) = some ⟨n.name, .block⟩ ∧
      (n.extent = .wholeFile → ∀ (s : State) rest,
        s.kept (line.commented comment :: rest) =
            State.kept ⟨.beforeBrace, line.leadingIndent⟩ rest ∧
          s.kept (line :: rest) = s.kept rest) ∧
      (Namespace.ofLine? (line.commented comment) = some n ↔ n.extent = .block) ∧
      ((∀ (s : State) rest, s.kept (line.commented comment :: rest) = s.kept (line :: rest)) ↔
        n.extent = .block) := by
  obtain ⟨name, extent⟩ := n
  have hblock := Namespace.ofLine?_commented h comment
  have hnext (s : State) : s.next (line.commented comment) = (.enter line, none) := by
    rw [State.next_of_block hblock, State.enter_commented h hcomment hend]
  cases extent with
  | block =>
    refine ⟨hblock, by simp, by simp [hblock], fun _ => rfl, fun _ s rest => ?_⟩
    rw [State.kept, State.kept, hnext, State.next_of_block h]
  | wholeFile =>
    have hkept (s : State) (rest : List Text) :
        s.kept (line.commented comment :: rest) =
            State.kept ⟨.beforeBrace, line.leadingIndent⟩ rest ∧
          s.kept (line :: rest) = s.kept rest := by
      rw [State.kept, State.kept, hnext, State.next_of_wholeFile h, State.enter_of_wholeFile h]
      exact ⟨rfl, rfl⟩
    refine ⟨hblock, fun _ => hkept, by simp [hblock], fun hall => ?_, by simp⟩
    -- A lone brace tells the two apart: behind the comment it is dropped.
    have hbrace := hall .start [['{']]
    rw [(hkept _ _).1, (hkept _ _).2, State.kept_opener] at hbrace
    contradiction

theorem kept_commented_iff_sample :
    Namespace.ofLine? (commented "namespace X;".toList ['c']) = some ⟨['X'], .block⟩ ∧
      State.start.kept [commented "namespace X;".toList ['c'], ['{']] = [] ∧
      ∀ (s : State) rest,
        s.kept (commented "namespace X \x7b".toList ['c'] :: rest) =
          s.kept ("namespace X \x7b".toList :: rest) := by
  have hfile : Namespace.ofLine? "namespace X;".toList = some ⟨['X'], .wholeFile⟩ := by decide
  have hblock : Namespace.ofLine? "namespace X \x7b".toList = some ⟨['X'], .block⟩ := by decide
  obtain ⟨hcommented, hkept, _⟩ :=
    kept_commented_iff hfile (by decide +kernel) (by decide) ['c']
  obtain ⟨_, _, _, hsame⟩ := kept_commented_iff hblock (by decide +kernel) (by decide) ['c']
  refine ⟨hcommented, ?_, hsame.mpr rfl⟩
  rw [(hkept rfl _ _).1]
  exact State.kept_opener _

/-- Behind a comment the namespace is another one, and the lone braces of the type are lost. -/
theorem not_forall_kept_commented :
    ¬ ∀ line n, Namespace.ofLine? line = some n → (Braces.ofLine line).comment = [] →
      (Braces.Mode.after line).isEnclosed = false → ∀ comment : Text, '\n' ∉ comment →
        Namespace.ofLine? (line.commented comment) = some n ∧
          ∀ (s : State) rest,
            s.kept (line.commented comment :: rest) = s.kept (line :: rest) := by
  intro h
  obtain ⟨_, hkept⟩ := h "namespace X;".toList ⟨['X'], .wholeFile⟩ (by decide)
    (by decide +kernel) (by decide) ['c'] (by decide)
  have hlines : State.start.kept
      [commented "namespace X;".toList ['c'], "class A".toList, ['{'], ['}']] =
        ["class A".toList] := by
    decide +kernel
  rw [hkept] at hlines
  revert hlines
  decide +kernel

end Unwrap
end SourceMerge
