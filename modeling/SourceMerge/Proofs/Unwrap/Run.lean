import SourceMerge.Proofs.Braces.Balance
import SourceMerge.Proofs.Declaration.Recognition
import SourceMerge.Unwrap

/-! Runs over the lines of a file. `Step` lists all that one line can do; over lines without a
namespace line a run keeps its place, as long as no brace ends it. -/
namespace SourceMerge

/-- The lines that are no using declarations. -/
def Text.withoutUsings (lines : List Text) : List Text :=
  lines.filter fun line => (Using.any? line).isNone

theorem Text.withoutUsings_append (xs ys : List Text) :
    withoutUsings (xs ++ ys) = withoutUsings xs ++ withoutUsings ys :=
  List.filter_append _ _

theorem Text.withoutUsings_eq_self {lines : List Text}
    (h : ∀ line ∈ lines, Using.any? line = none) : withoutUsings lines = lines := by
  rw [withoutUsings, List.filter_eq_self]
  intro line hline
  rw [h line hline]
  rfl

theorem Text.withoutUsings_cons_of_some {line clause : Text} (h : Using.any? line = some clause)
    (rest : List Text) : withoutUsings (line :: rest) = withoutUsings rest := by
  simp [withoutUsings, h]

theorem Text.withoutUsings_cons_of_none {line : Text} (h : Using.any? line = none)
    (rest : List Text) : withoutUsings (line :: rest) = line :: withoutUsings rest := by
  simp [withoutUsings, h]

namespace Unwrap
open Braces Text

/-- What a line can do: the state before it, the line, the state after it, what is kept of it. -/
inductive Step : State → Text → State → Option Text → Prop
  | declaration {s line clause} : Using.any? line = some clause → Step s line s none
  | wholeFile {s line name} : Namespace.ofLine? line = some ⟨name, .wholeFile⟩ → Step s line s none
  | header {s line name} : Namespace.ofLine? line = some ⟨name, .block⟩ →
      Step s line (.enter line) none
  | outside {w line} : Using.any? line = none → Namespace.ofLine? line = none →
      Step ⟨.fileLevel, w⟩ line ⟨.fileLevel, w⟩ (some line)
  | opener {w line} : line.code = ['{'] → Step ⟨.beforeBrace, w⟩ line ⟨.inBlock 1, w⟩ none
  | gap {w line} : Using.any? line = none → Namespace.ofLine? line = none → line.code ≠ ['{'] →
      Step ⟨.beforeBrace, w⟩ line ⟨.beforeBrace, w⟩ (some (outdent w line))
  | closer {w line} : line.code = ['}'] → Step ⟨.inBlock 1, w⟩ line ⟨.fileLevel, w⟩ none
  | inside {w line depth} : Using.any? line = none → Namespace.ofLine? line = none →
      ¬ (depth = 1 ∧ line.code = ['}']) →
      Step ⟨.inBlock depth, w⟩ line
        ⟨.atDepth (depth + (ofLine line).opens) (ofLine line).closes, w⟩ (some (outdent w line))

namespace State

/-- The lines of which nothing is kept. -/
def dropped (s : State) : List Text → List Text
  | [] => []
  | line :: rest =>
    (if (s.next line).2.isNone then [line] else []) ++ (s.next line).1.dropped rest

theorem next_of_using {line clause : Text} (h : Using.any? line = some clause) (s : State) :
    s.next line = (s, none) := by simp [next, h]

theorem next_of_wholeFile {line name : Text}
    (h : Namespace.ofLine? line = some ⟨name, .wholeFile⟩) (s : State) :
    s.next line = (s, none) := by
  simp [next, Using.any?_eq_none_of_ofLine? h, h]

theorem next_of_block {line name : Text} (h : Namespace.ofLine? line = some ⟨name, .block⟩)
    (s : State) : s.next line = (.enter line, none) := by
  simp [next, Using.any?_eq_none_of_ofLine? h, h]

theorem next_of_content {line : Text} (hu : Using.any? line = none)
    (hn : Namespace.ofLine? line = none) (s : State) : s.next line = s.content line := by
  simp [next, hu, hn]

theorem step_content {line : Text} (hu : Using.any? line = none)
    (hn : Namespace.ofLine? line = none) (s : State) :
    Step s line (s.content line).1 (s.content line).2 := by
  obtain ⟨place, w⟩ := s
  cases place with
  | fileLevel => exact .outside hu hn
  | beforeBrace =>
    by_cases hcode : line.code = ['{']
    · simpa [content, hcode] using Step.opener hcode
    · simpa [content, hcode] using Step.gap hu hn hcode
  | inBlock depth =>
    by_cases hcode : depth = 1 ∧ line.code = ['}']
    · obtain ⟨rfl, hcode⟩ := hcode
      simpa [content, hcode] using Step.closer hcode
    · simpa only [content, hcode, if_false] using Step.inside hu hn hcode

theorem step_next (s : State) (line : Text) : Step s line (s.next line).1 (s.next line).2 := by
  cases hu : Using.any? line with
  | some clause =>
    rw [next_of_using hu]
    exact .declaration hu
  | none =>
    cases hn : Namespace.ofLine? line with
    | none =>
      rw [next_of_content hu hn]
      exact step_content hu hn s
    | some n =>
      obtain ⟨name, extent⟩ := n
      cases extent with
      | wholeFile =>
        rw [next_of_wholeFile hn]
        exact .wholeFile hn
      | block =>
        rw [next_of_block hn]
        exact .header hn

section Segments
variable {lines : List Text} {w : Text} (hn : ∀ line ∈ lines, Namespace.ofLine? line = none)
include hn

/-- A place that no line of content leaves is kept, and what is kept of each line alone. -/
theorem run_of_content {s : State} {f : Text → Text}
    (hcontent : ∀ line ∈ lines, s.content line = (s, some (f line))) :
    s.kept lines = (withoutUsings lines).map f ∧ s.after lines = s := by
  induction lines with
  | nil => exact ⟨rfl, rfl⟩
  | cons line rest ih =>
    obtain ⟨hkept, hafter⟩ := ih (fun l hl => hn l (List.mem_cons_of_mem line hl))
      fun l hl => hcontent l (List.mem_cons_of_mem line hl)
    cases hu : Using.any? line with
    | some clause =>
      have hnext := next_of_using hu s
      simp [kept, after, hnext, hkept, hafter, withoutUsings_cons_of_some hu]
    | none =>
      have hnext := next_of_content hu (hn line List.mem_cons_self) s
      rw [hcontent line List.mem_cons_self] at hnext
      simp [kept, after, hnext, hkept, hafter, withoutUsings_cons_of_none hu]

theorem run_fileLevel :
    kept ⟨.fileLevel, w⟩ lines = withoutUsings lines ∧
      after ⟨.fileLevel, w⟩ lines = ⟨.fileLevel, w⟩ := by
  have hrun := run_of_content hn (s := ⟨.fileLevel, w⟩) (f := id) fun _ _ => rfl
  rwa [List.map_id] at hrun

/-- Before the opening brace every line is taken to be in the block. -/
theorem run_beforeBrace (hopen : ∀ line ∈ lines, line.code ≠ ['{']) :
    kept ⟨.beforeBrace, w⟩ lines = (withoutUsings lines).map (outdent w) ∧
      after ⟨.beforeBrace, w⟩ lines = ⟨.beforeBrace, w⟩ := by
  apply run_of_content hn
  intro line hline
  rw [content]
  exact if_neg (hopen line hline)

/-- In a block the depth of a run is the depth of its lines, as long as they leave the block open. -/
theorem run_inBlock {n : Nat} (hcovers : Covers (n - 1) (withoutUsings lines)) :
    kept ⟨.inBlock n, w⟩ lines = (withoutUsings lines).map (outdent w) ∧
      ∃ m : Nat, m = n + depth (withoutUsings lines) ∧
        after ⟨.inBlock n, w⟩ lines = ⟨.inBlock m, w⟩ := by
  induction lines generalizing n with
  | nil => exact ⟨rfl, n, (Int.add_zero _).symm, rfl⟩
  | cons line rest ih =>
    have hrest := fun l hl => hn l (List.mem_cons_of_mem line hl)
    cases hu : Using.any? line with
    | some clause =>
      have hnext := next_of_using hu ⟨.inBlock n, w⟩
      rw [withoutUsings_cons_of_some hu] at hcovers ⊢
      obtain ⟨hkept, hafter⟩ := ih hrest hcovers
      simpa [kept, after, hnext, hkept] using hafter
    | none =>
      rw [withoutUsings_cons_of_none hu] at hcovers ⊢
      obtain ⟨hpos, hcovers⟩ := hcovers
      have hopen := hcovers.nonneg
      rw [delta] at hopen hcovers
      have hcloser : ¬ (n = 1 ∧ line.code = ['}']) := by
        rintro ⟨rfl, hcode⟩
        have hdelta := delta_of_code_close hcode
        rw [delta] at hdelta
        omega
      -- The block is still open behind the line, so that nothing is cut off in the subtraction.
      have hplace : Place.atDepth (n + (ofLine line).opens) (ofLine line).closes =
          .inBlock (n + (ofLine line).opens - (ofLine line).closes) := by
        rw [Place.atDepth, if_pos (by omega)]
      have hnext := next_of_content hu (hn line List.mem_cons_self) ⟨.inBlock n, w⟩
      simp only [content, hcloser, if_false, hplace] at hnext
      obtain ⟨hkept, m, hm, hafter⟩ :=
        ih (n := n + (ofLine line).opens - (ofLine line).closes) hrest
          (hcovers.mono (by omega))
      refine ⟨by simp [kept, hnext, hkept], m, ?_, by simp [after, hnext, hafter]⟩
      rw [depth_cons, delta, hm]
      omega

end Segments

end State

theorem Step.allBlank {s s' : State} {line : Text} {k : Option Text} (h : Step s line s' k)
    (hs : AllBlank s.indent) : AllBlank s'.indent := by
  cases h with
  | header => exact allBlank_leadingIndent line
  | _ => exact hs

/-- What is kept of a line declares nothing, and neither did the line. -/
theorem Step.exists_of_kept {s s' : State} {line l : Text} (h : Step s line s' (some l))
    (hs : AllBlank s.indent) :
    Using.any? line = none ∧ Namespace.ofLine? line = none ∧ ∃ a, AllBlank a ∧ line = a ++ l := by
  cases h with
  | outside hu hn => exact ⟨hu, hn, [], allBlank_nil, rfl⟩
  | gap hu hn => exact ⟨hu, hn, exists_outdent hs line⟩
  | inside hu hn => exact ⟨hu, hn, exists_outdent hs line⟩

theorem State.exists_of_mem_kept {s : State} (hs : AllBlank s.indent) {lines : List Text} {l : Text}
    (h : l ∈ s.kept lines) :
    ∃ line ∈ lines, Using.any? line = none ∧ Namespace.ofLine? line = none ∧
      ∃ a, AllBlank a ∧ line = a ++ l := by
  induction lines generalizing s with
  | nil => contradiction
  | cons line rest ih =>
    have hstep := step_next s line
    rcases List.mem_append.mp h with h | h
    · rw [Option.mem_toList] at h
      rw [h] at hstep
      exact ⟨line, List.mem_cons_self, hstep.exists_of_kept hs⟩
    · obtain ⟨origin, hmem, hline⟩ := ih (hstep.allBlank hs) h
      exact ⟨origin, List.mem_cons_of_mem line hmem, hline⟩

end Unwrap
end SourceMerge
