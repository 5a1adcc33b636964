import SourceMerge.Proofs.Document.Layout
import SourceMerge.Proofs.Unwrap.Wrapper

/-! The braces of a merged document. Its own lines balance what stands between them, so that merging
balanced files gives a balanced document exactly if each wrapper that is taken away closes what
it opens, and the line for the chosen namespace opens and closes nothing. -/
namespace SourceMerge
namespace Document
open Braces Text Unwrap

theorem balanced_insert {front back : List Text} {line : Text} (hf : Balanced front)
    (hb : Balanced back) : Balanced (front ++ line :: back) ↔ (ofLine line).delta = 0 := by
  constructor
  · intro h
    have hdepth := h.depth_eq
    rw [depth_append, depth_cons, hf.depth_eq, hb.depth_eq] at hdepth
    omega
  · intro h
    have hline : Balanced [line] := balanced_of_delta fun l hl => by rwa [List.mem_singleton.mp hl]
    exact hf.append (hline.append hb)

theorem balanced_belowHeader {d : Document} (h : Balanced d.bodyLines) (extent : Extent) :
    Balanced (d.belowHeader extent) := by
  cases extent with
  | wholeFile =>
    have hempty : (ofLine []).delta = 0 := by rw [ofLine_nil]; rfl
    exact (balanced_insert balanced_nil h).mpr hempty
  | block =>
    have hopen : (ofLine ['{']).delta = 1 := by rw [ofLine_open, ofLine_nil]; rfl
    have hclose : (ofLine ['}']).delta = -1 := by rw [ofLine_close, ofLine_nil]; rfl
    refine Balanced.wrap hopen hclose ((balanced_map ?_).mpr h)
    intro line
    rw [ofLine_indentLine]

section Merge
variable {globals : Option Source} {sources : List Source}

theorem balanced_declarationBlock
    (husing : ∀ source ∈ globals.toList ++ sources, ∀ line ∈ source.lines,
      (Using.any? line).isSome → '{' ∉ line ∧ '}' ∉ line) :
    Balanced (ofNamespaced globals sources).declarationBlock := by
  apply balanced_of_delta
  intro line hline
  rcases mem_declarationBlock hline with rfl | ⟨item, hitem, rfl⟩
  · rw [ofLine_nil]
    rfl
  · obtain ⟨source, hsource, line, hline, clause, _, hany, _, hmem⟩ := exists_of_mem_items hitem
    obtain ⟨hopen, hclose⟩ := husing source hsource line hline (by rw [hany]; rfl)
    apply delta_of_not_mem
    · intro h
      exact hopen (hmem _ (mem_of_mem_usingLine h (by decide) (by decide)))
    · intro h
      exact hclose (hmem _ (mem_of_mem_usingLine h (by decide) (by decide)))

/-- Around balanced bodies only the line for the namespace can upset the balance. -/
theorem balanced_lines
    (husing : ∀ source ∈ globals.toList ++ sources, ∀ line ∈ source.lines,
      (Using.any? line).isSome → '{' ∉ line ∧ '}' ∉ line)
    (hbodies : ∀ source ∈ sources, Balanced source.unwrapped.lines) :
    Balanced (ofNamespaced globals sources).lines ↔
      ∀ n, Namespace.chosen? sources = some n → (ofLine n.headerLine).delta = 0 := by
  have hdeclarations := balanced_declarationBlock husing
  have hlines : Balanced (ofNamespaced globals sources).bodyLines := by
    apply balanced_bodyLines.mpr
    apply Balanced.flatMap
    intro b hb
    obtain ⟨source, hsource, rfl⟩ := List.mem_map.mp hb
    exact hbodies source hsource
  have henclosure := enclosure_ofNamespaced globals sources
  cases hchosen : Namespace.chosen? sources with
  | none =>
    rw [hchosen] at henclosure
    rw [lines_of_bare henclosure]
    constructor
    · intro _ n hn
      contradiction
    · intro _
      exact hdeclarations.append hlines
  | some n =>
    rw [hchosen] at henclosure
    rw [lines_of_inNamespace henclosure,
      balanced_insert hdeclarations (balanced_belowHeader hlines n.extent)]
    constructor
    · rintro h m hm
      rwa [← Option.some.inj hm]
    · intro h
      exact h n rfl

/-- Merging balanced files takes exactly their wrappers away, and leaves all bodies and the document
balanced exactly if each wrapper closes what it opens and the line for the chosen namespace
opens and closes nothing. -/
theorem balanced_ofNamespaced
    (hcount : ∀ source ∈ sources, namespaceCount source.lines ≤ 1)
    (husing : ∀ source ∈ globals.toList ++ sources, ∀ line ∈ source.lines,
      (Using.any? line).isSome → '{' ∉ line ∧ '}' ∉ line)
    (hbalanced : ∀ source ∈ sources, Balanced source.lines) :
    (∀ source ∈ sources,
        withoutUsings (State.start.dropped source.lines) = wrapper source.lines) ∧
      ((∀ source ∈ sources, Balanced source.unwrapped.lines) ∧
          Balanced (ofNamespaced globals sources).lines ↔
        (∀ source ∈ sources, depth (wrapper source.lines) = 0) ∧
          ∀ n, Namespace.chosen? sources = some n → (ofLine n.headerLine).delta = 0) := by
  have hdelta : ∀ source ∈ sources, ∀ line ∈ source.lines, (Using.any? line).isSome →
      (ofLine line).delta = 0 := by
    intro source hsource line hline hany
    obtain ⟨hopen, hclose⟩ :=
      husing source (List.mem_append_right globals.toList hsource) line hline hany
    exact delta_of_not_mem hopen hclose
  have hwrapper : (∀ source ∈ sources, Balanced source.unwrapped.lines) ↔
      ∀ source ∈ sources, depth (wrapper source.lines) = 0 := by
    constructor
    · intro h source hsource
      exact (source.balanced_unwrapped (hcount source hsource) (hdelta source hsource)
        (hbalanced source hsource)).mp (h source hsource)
    · intro h source hsource
      exact (source.balanced_unwrapped (hcount source hsource) (hdelta source hsource)
        (hbalanced source hsource)).mpr (h source hsource)
  refine ⟨?_, ?_⟩
  · intro source hsource
    exact State.dropped_fileLevel (hcount source hsource) (hdelta source hsource)
  · rw [← hwrapper]
    constructor
    · rintro ⟨hbodies, hlines⟩
      exact ⟨hbodies, (balanced_lines husing hbodies).mp hlines⟩
    · rintro ⟨hbodies, hheader⟩
      exact ⟨hbodies, (balanced_lines husing hbodies).mpr hheader⟩

end Merge

/-- In one file the brace stands on the namespace line, in the other the namespace has none. -/
def twoForms : List Source :=
  [⟨.ofText ['a'], "namespace A \x7b // a\n    class C \x7b \x7d\n\x7d".toList⟩,
    ⟨.ofText ['b'], "using X;\nnamespace B;\nclass D\n\x7b\n\x7d".toList⟩]

theorem balanced_twoForms :
    (∀ source ∈ twoForms, Balanced source.lines ∧ wrapper source.lines ≠ [] ∧
      Balanced source.unwrapped.lines) ∧ Balanced (ofNamespaced none twoForms).lines := by
  have hbalanced : ∀ source ∈ twoForms, Balanced source.lines := by decide +kernel
  have hwrapper : ∀ source ∈ twoForms, wrapper source.lines ≠ [] := by decide +kernel
  have hchosen : Namespace.chosen? twoForms = some ⟨['A'], .block⟩ := by decide +kernel
  have husing : ∀ source ∈ (none : Option Source).toList ++ twoForms, ∀ line ∈ source.lines,
      (Using.any? line).isSome → '{' ∉ line ∧ '}' ∉ line := by decide +kernel
  obtain ⟨_, h⟩ := balanced_ofNamespaced (by decide +kernel) husing hbalanced
  obtain ⟨hbodies, hlines⟩ := h.mpr ⟨by decide +kernel, by
    intro n hn
    rw [hchosen] at hn
    obtain rfl := Option.some.inj hn
    decide +kernel⟩
  exact ⟨fun source hs => ⟨hbalanced source hs, hwrapper source hs, hbodies source hs⟩, hlines⟩

/-- The block of the namespace is closed on the line that closes the class in it. -/
def sharedCloser : Source := ⟨.ofText ['a'], "namespace A\n\x7b\nclass C\n\x7b\n\x7d\x7d".toList⟩

/-- A namespace's closing brace stays when another brace stands beside it, and closes the block of
the whole document. -/
theorem not_balanced_sharedCloser :
    namespaceCount sharedCloser.lines = 1 ∧
      (∀ line ∈ sharedCloser.lines, Using.any? line = none) ∧ Balanced sharedCloser.lines ∧
      sharedCloser.unwrapped.lines = ["class C".toList, ['{'], ['}', '}']] ∧
      ¬ Balanced sharedCloser.unwrapped.lines ∧
      ¬ Balanced (ofNamespaced none [sharedCloser]).lines := by
  decide +kernel

end Document
end SourceMerge
