import SourceMerge.Document.Namespaced
import SourceMerge.Proofs.Unwrap.Run

/-! Unwrapping thins a file out: it drops lines and shortens indentation, and never loses, repeats or
moves a line of content. The braces that it drops are paid for by the lines that open blocks. -/
namespace SourceMerge
namespace Unwrap
open Braces Text

def isHeader (line : Text) : Bool := (Namespace.ofLine? line).any (·.extent == .block)

/-- The indentation of the latest namespace line that opened a block, after one more line. -/
def indentAfter (indent line : Text) : Text :=
  if isHeader line then line.leadingIndent else indent

/-- Of some lines some are dropped; the others are kept in their order, as they are or without the
indentation of the latest block and one level after it. -/
inductive Thinned : Text → List Text → List Text → List Text → Prop
  | nil {indent} : Thinned indent [] [] []
  | keep {indent line rest kept dropped} : Thinned (indentAfter indent line) rest kept dropped →
      Thinned indent (line :: rest) (line :: kept) dropped
  | shorten {indent unit inner rest kept dropped} : IsLevel unit →
      Thinned (indentAfter indent (indent ++ unit ++ inner)) rest kept dropped →
      Thinned indent ((indent ++ unit ++ inner) :: rest) (inner :: kept) dropped
  | drop {indent line rest kept dropped} : Thinned (indentAfter indent line) rest kept dropped →
      Thinned indent (line :: rest) kept (line :: dropped)

theorem Thinned.outdent {indent line : Text} {rest kept dropped : List Text}
    (h : Thinned (indentAfter indent line) rest kept dropped) :
    Thinned indent (line :: rest) (outdent indent line :: kept) dropped := by
  rcases outdent_cases indent line with hsame | ⟨unit, hunit, hline⟩
  · rw [hsame]
    exact .keep h
  · have hshort : Thinned indent ((indent ++ unit ++ Text.outdent indent line) :: rest)
        (Text.outdent indent line :: kept) dropped := .shorten hunit (hline ▸ h)
    rwa [← hline] at hshort

theorem isHeader_eq_false {line : Text} (h : ∀ name, Namespace.ofLine? line ≠ some ⟨name, .block⟩) :
    isHeader line = false := by
  unfold isHeader
  cases hn : Namespace.ofLine? line with
  | none => rfl
  | some n =>
    obtain ⟨name, extent⟩ := n
    cases extent with
    | wholeFile => rfl
    | block => exact absurd hn (h name)

/-- Only a line that opens a block changes the indentation. -/
theorem Step.indent_eq {s s' : State} {line : Text} {k : Option Text} (h : Step s line s' k) :
    s'.indent = indentAfter s.indent line := by
  have hother : (∀ name, Namespace.ofLine? line ≠ some ⟨name, .block⟩) →
      s.indent = indentAfter s.indent line := by
    intro hn
    rw [indentAfter, isHeader_eq_false hn]
    rfl
  cases h with
  | declaration hu =>
    apply hother
    intro name hn
    rw [Using.any?_eq_none_of_ofLine? hn] at hu
    contradiction
  | wholeFile hn => exact hother fun name => by simp [hn]
  | header hn => simp [indentAfter, isHeader, hn, State.enter]
  | opener hcode =>
    exact hother fun name => by simp [Namespace.ofLine?_eq_none_of_code hcode (by decide)]
  | closer hcode =>
    exact hother fun name => by simp [Namespace.ofLine?_eq_none_of_code hcode (by decide)]
  | outside hu hn => exact hother fun name => by simp [hn]
  | gap hu hn => exact hother fun name => by simp [hn]
  | inside hu hn => exact hother fun name => by simp [hn]

/-- What is kept of a line is the line, perhaps without its indentation. -/
theorem Step.thinned {s s' : State} {line : Text} {k : Option Text} {rest kept dropped : List Text}
    (h : Step s line s' k) (hrest : Thinned s'.indent rest kept dropped) :
    Thinned s.indent (line :: rest) (k.toList ++ kept)
      ((if k.isNone then [line] else []) ++ dropped) := by
  rw [h.indent_eq] at hrest
  cases h with
  | declaration => exact .drop hrest
  | wholeFile => exact .drop hrest
  | header => exact .drop hrest
  | opener => exact .drop hrest
  | closer => exact .drop hrest
  | outside => exact .keep hrest
  | gap => exact hrest.outdent
  | inside => exact hrest.outdent

theorem State.thinned (s : State) (lines : List Text) :
    Thinned s.indent lines (s.kept lines) (s.dropped lines) := by
  induction lines generalizing s with
  | nil => exact .nil
  | cons line rest ih => exact (step_next s line).thinned (ih (s.next line).1)

theorem Step.cause {s s' : State} {line : Text} (h : Step s line s' none) :
    (Using.any? line).isSome ∨ (Namespace.ofLine? line).isSome ∨ line.code = ['{'] ∨
      line.code = ['}'] := by
  cases h with
  | declaration hu => exact Or.inl (by rw [hu]; rfl)
  | wholeFile hn => exact Or.inr (Or.inl (by rw [hn]; rfl))
  | header hn => exact Or.inr (Or.inl (by rw [hn]; rfl))
  | opener hcode => exact Or.inr (Or.inr (Or.inl hcode))
  | closer hcode => exact Or.inr (Or.inr (Or.inr hcode))

theorem State.cause_of_mem_dropped {s : State} {lines : List Text} {line : Text}
    (h : line ∈ s.dropped lines) :
    (Using.any? line).isSome ∨ (Namespace.ofLine? line).isSome ∨ line.code = ['{'] ∨
      line.code = ['}'] := by
  induction lines generalizing s with
  | nil => contradiction
  | cons first rest ih =>
    rcases List.mem_append.mp h with h | h
    · have hstep := step_next s first
      split at h
      · rename_i hnone
        rw [Option.isNone_iff_eq_none.mp hnone] at hstep
        rw [List.mem_singleton.mp h]
        exact hstep.cause
      · contradiction
    · exact ih h

/-- How many lines that are just the brace `c` may be dropped before the next namespace line. -/
def Place.allowance (c : Char) : Place → Nat
  | .fileLevel => 0
  | .beforeBrace => 1
  | .inBlock _ => if c = '}' then 1 else 0

theorem Place.allowance_le (c : Char) (p : Place) : p.allowance c ≤ 1 := by
  unfold allowance
  split
  · decide
  · decide
  · split <;> decide

theorem Place.allowance_atDepth (c : Char) (opened closed depth : Nat) :
    (atDepth opened closed).allowance c ≤ (inBlock depth).allowance c := by
  unfold atDepth
  split
  · exact Nat.le_refl _
  · exact Nat.zero_le _

/-- A dropped brace uses the allowance up, and only a line that opens a block renews it. -/
theorem Step.allowance_le {s s' : State} {line : Text} {k : Option Text} {c : Char}
    (hc : c = '{' ∨ c = '}') (h : Step s line s' k) :
    (if k.isNone ∧ line.code = [c] then 1 else 0) + s'.place.allowance c ≤
      s.place.allowance c + if isHeader line then 1 else 0 := by
  have hletter : c ≠ 'u' ∧ c ≠ 'g' ∧ c ≠ 'n' := by
    rcases hc with rfl | rfl <;> decide
  cases h with
  | declaration hu =>
    have hcode := Using.code_ne_of_any? hu hletter.1 hletter.2.1
    simp [hcode]
  | wholeFile hn =>
    have hcode := Namespace.code_ne_of_ofLine? hn hletter.2.2
    simp [hcode]
  | header hn =>
    have hcode := Namespace.code_ne_of_ofLine? hn hletter.2.2
    have hheader : isHeader line = true := by simp [isHeader, hn]
    have hplace := Place.allowance_le c (State.enter line).place
    simp only [hcode, and_false, if_false, hheader, if_true]
    omega
  | opener hcode => rcases hc with rfl | rfl <;> simp [hcode, Place.allowance]
  | closer hcode => rcases hc with rfl | rfl <;> simp [hcode, Place.allowance]
  | outside => simp
  | gap => simp
  | inside =>
    have hplace := Place.allowance_atDepth c
    simp only [Option.isNone_some, Bool.false_eq_true, false_and, if_false]
    exact Nat.le_trans (by simpa using hplace _ _ _) (Nat.le_add_right _ _)

theorem State.countP_dropped_le {c : Char} (hc : c = '{' ∨ c = '}') (s : State)
    (lines : List Text) :
    (s.dropped lines).countP (fun line => line.code = [c]) ≤
      s.place.allowance c + lines.countP isHeader := by
  induction lines generalizing s with
  | nil => exact Nat.zero_le _
  | cons line rest ih =>
    have hstep := (step_next s line).allowance_le hc
    have hrest := ih (s.next line).1
    -- The allowance after the line covers what the rest drops, and the step pays for the line.
    have hline : (if (s.next line).2.isNone then [line] else []).countP
        (fun line => decide (line.code = [c])) =
          if (s.next line).2.isNone ∧ line.code = [c] then 1 else 0 := by
      cases (s.next line).2 <;> simp [List.countP_cons]
    rw [dropped, List.countP_append, hline, List.countP_cons]
    omega

end Unwrap

open Unwrap

/-- Unwrapping loses, repeats and moves no line of content, and drops at most as many lone opening
braces, and as many lone closing ones, as there are lines that open blocks. -/
theorem Source.unwrapped_thinned (source : Source) :
    ∃ dropped, Thinned [] source.lines source.unwrapped.lines dropped ∧
      (∀ line ∈ dropped, (Using.any? line).isSome ∨ (Namespace.ofLine? line).isSome ∨
        line.code = ['{'] ∨ line.code = ['}']) ∧
      dropped.countP (fun line => line.code = ['{']) ≤ source.lines.countP isHeader ∧
      dropped.countP (fun line => line.code = ['}']) ≤ source.lines.countP isHeader := by
  have hopeners := State.countP_dropped_le (Or.inl rfl) .start source.lines
  have hclosers := State.countP_dropped_le (Or.inr rfl) .start source.lines
  rw [State.start, Place.allowance, Nat.zero_add] at hopeners hclosers
  refine ⟨State.start.dropped source.lines, State.thinned .start source.lines, ?_, hopeners,
    hclosers⟩
  intro line h
  exact State.cause_of_mem_dropped h

end SourceMerge
