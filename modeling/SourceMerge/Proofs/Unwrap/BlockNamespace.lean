import SourceMerge.Document.Namespaced
import SourceMerge.Document.Render
import SourceMerge.Proofs.Unwrap.Run

/-! A file with one block namespace whose braces stand on lines of their own. It loses exactly the
wrapper, and a block namespace around the merged document gives its lines the indentation they
had below the wrapper's. -/
namespace SourceMerge
open Braces Text

structure BlockFile where
  before : List Text
  header : Text
  gap : List Text
  opener : Text
  body : List Text
  closer : Text
  rest : List Text
  name : Text
  header_eq : Namespace.ofLine? header = some ⟨name, .block⟩
  opens_header : (ofLine header).opens = 0
  ofLine?_others : ∀ line ∈ before ++ gap ++ body ++ rest, Namespace.ofLine? line = none
  code_gap : ∀ line ∈ gap, line.code ≠ ['{']
  code_opener : opener.code = ['{']
  code_closer : closer.code = ['}']
  balanced_body : Balanced (withoutUsings body)

namespace BlockFile
open Unwrap

def lines (f : BlockFile) : List Text :=
  f.before ++ f.header :: f.gap ++ f.opener :: f.body ++ f.closer :: f.rest

/-- The indentation of the namespace line. -/
def indent (f : BlockFile) : Text := f.header.leadingIndent

/-- A line of the file as a block namespace around the merged document shows it. -/
def shown (f : BlockFile) (line : Text) : Text := indentLine (outdent f.indent line)

theorem next_header (f : BlockFile) (s : State) :
    s.next f.header = (⟨.beforeBrace, f.indent⟩, none) := by
  rw [State.next_of_block f.header_eq, State.enter, f.opens_header]
  rfl

theorem next_opener (f : BlockFile) :
    State.next ⟨.beforeBrace, f.indent⟩ f.opener = (⟨.inBlock 1, f.indent⟩, none) := by
  have hu := Using.any?_eq_none_of_code f.code_opener (by decide) (by decide)
  have hn := Namespace.ofLine?_eq_none_of_code f.code_opener (by decide)
  rw [State.next_of_content hu hn, State.content, f.code_opener]
  rfl

theorem next_closer (f : BlockFile) :
    State.next ⟨.inBlock 1, f.indent⟩ f.closer = (⟨.fileLevel, f.indent⟩, none) := by
  have hu := Using.any?_eq_none_of_code f.code_closer (by decide) (by decide)
  have hn := Namespace.ofLine?_eq_none_of_code f.code_closer (by decide)
  rw [State.next_of_content hu hn, State.content, f.code_closer]
  rfl

theorem unwrapLines_lines (f : BlockFile) :
    unwrapLines f.lines = withoutUsings f.before ++
      (withoutUsings (f.gap ++ f.body)).map (outdent f.indent) ++ withoutUsings f.rest := by
  have hothers := f.ofLine?_others
  simp only [List.mem_append] at hothers
  obtain ⟨hbefore, hafterBefore⟩ :=
    State.run_fileLevel (w := []) fun l hl => hothers l (Or.inl (Or.inl (Or.inl hl)))
  obtain ⟨hgap, hafterGap⟩ :=
    State.run_beforeBrace (w := f.indent) (fun l hl => hothers l (Or.inl (Or.inl (Or.inr hl))))
      f.code_gap
  obtain ⟨hbody, m, hm, hafterBody⟩ :=
    State.run_inBlock (n := 1) (w := f.indent) (fun l hl => hothers l (Or.inl (Or.inr hl)))
      f.balanced_body.covers
  obtain ⟨hrest, _⟩ :=
    State.run_fileLevel (w := f.indent) fun l hl => hothers l (Or.inr hl)
  have hm : m = 1 := by
    rw [f.balanced_body.depth_eq] at hm
    omega
  subst hm
  simp only [unwrapLines, lines, State.start, State.kept_append, State.kept,
    State.after, hbefore, hafterBefore, next_header, hgap, hafterGap, next_opener, hbody,
    hafterBody, next_closer, hrest, withoutUsings_append, List.map_append, Option.toList_none,
    List.nil_append, List.append_assoc]

/-- Unwrapping a block namespace and wrapping its lines again is exact. -/
theorem rewrapped (f : BlockFile) (source : Source) (h : source.lines = f.lines) :
    source.unwrapped.lines = withoutUsings f.before ++
        (withoutUsings (f.gap ++ f.body)).map (outdent f.indent) ++ withoutUsings f.rest ∧
      ∀ globals front back name d, d = Document.ofNamespaced globals (front ++ source :: back) →
        d.enclosure = .inNamespace ⟨name, .block⟩ →
        d.lines = d.declarationBlock ++ ["namespace ".toList ++ name, ['{']] ++
            (front.flatMap fun s => s.unwrapped.render.map indentLine) ++
            indentLine source.path.marker :: (withoutUsings f.before).map indentLine ++
            (withoutUsings f.gap).map f.shown ++ (withoutUsings f.body).map f.shown ++
            (withoutUsings f.rest).map indentLine ++
            (back.flatMap fun s => s.unwrapped.render.map indentLine) ++ [['}']] ∧
          ∀ line ∈ withoutUsings f.body,
            (∀ rest, rest ≠ [] → line = f.indent ++ indentStep ++ rest →
              f.shown line = indentStep ++ rest) ∧ (line = [] → f.shown line = []) := by
  have hbody : source.unwrapped.lines = withoutUsings f.before ++
      (withoutUsings (f.gap ++ f.body)).map (outdent f.indent) ++ withoutUsings f.rest := by
    rw [← f.unwrapLines_lines, ← h]
    rfl
  refine ⟨hbody, ?_⟩
  intro globals front back name d hd henclosure
  constructor
  · have hbodies : d.bodies = front.map Source.unwrapped ++ source.unwrapped ::
        back.map Source.unwrapped := by
      rw [hd]
      exact List.map_append
    have hrender : source.unwrapped.render = source.path.marker :: source.unwrapped.lines := rfl
    have hshown : f.shown = indentLine ∘ outdent f.indent := rfl
    simp only [Document.lines, henclosure, Document.bodyLines, hbodies, List.flatMap_append,
      List.flatMap_cons, List.flatMap_map, List.map_flatMap, hrender, hbody, withoutUsings_append,
      List.map_append, List.map_cons, List.map_map, hshown, List.cons_append, List.append_assoc]
  · intro line _
    refine ⟨?_, ?_⟩
    · rintro rest hne rfl
      exact indentLine_outdent f.indent hne
    · rintro rfl
      rw [shown, outdent_nil]
      rfl

/-- Below an indented namespace line, a body with a brace in a comment and a using declaration. -/
def commented : BlockFile where
  before := []
  header := "\tnamespace A".toList
  gap := []
  opener := "\t\x7b".toList
  body := ["\t    class C \x7b // \x7d".toList, "\t    using Y;".toList, "\t      \x7d".toList, []]
  closer := "\t\x7d //".toList
  rest := []
  name := ['A']
  header_eq := by decide
  opens_header := by decide +kernel
  ofLine?_others := by decide
  code_gap := by decide
  code_opener := by decide +kernel
  code_closer := by decide +kernel
  balanced_body := by decide +kernel

theorem rewrapped_commented :
    ∃ source : Source, source.lines = commented.lines ∧
      source.unwrapped.lines = ["class C \x7b // \x7d".toList, "  \x7d".toList, []] ∧
      (Document.ofNamespaced none [source]).lines =
        ["using Y;".toList, [], "namespace A".toList, ['{'], "    // --- C ---".toList,
          "    class C \x7b // \x7d".toList, "      \x7d".toList, [], ['}']] := by
  have h : (Source.mk (.ofText ['C']) (unlines commented.lines)).lines = commented.lines := by
    decide +kernel
  obtain ⟨hbody, hlines⟩ := rewrapped commented _ h
  have hdocument := (hlines none [] [] ['A'] _ rfl (by decide +kernel)).1
  refine ⟨_, h, ?_, ?_⟩
  · rw [hbody]
    decide +kernel
  · refine Eq.trans hdocument ?_
    decide +kernel

end BlockFile
end SourceMerge
