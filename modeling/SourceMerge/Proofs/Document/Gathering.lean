import SourceMerge.Proofs.Declaration.FirstSeen
import SourceMerge.Proofs.Document.Layout
import SourceMerge.Proofs.Unwrap.Run

/-! Two passes look at the using declarations of a file: one gathers their clauses, and the other one
drops their lines. They agree on every line in every state, and no clause that is gathered is lost. -/
namespace SourceMerge
open Text

namespace Using

theorem local?_or_global?_eq_none (line : Text) : local? line = none ∨ global? line = none := by
  cases hglobal : global? line with
  | none => exact .inr rfl
  | some clause => exact .inl (local?_eq_none_of_global? hglobal)

/-- A clause begins with a name and so is never blank. -/
theorem trim_clause_ne_nil {line clause : Text} (h : any? line = some clause) :
    clause.trim ≠ [] := by
  obtain ⟨_, rest, _, _, hclause⟩ := exists_clause h
  obtain ⟨region, _, _, _, hform⟩ := clause?_eq_some_iff.mp hclause
  rcases hform with ⟨hform, rfl⟩ | ⟨hform, rfl⟩
  · obtain ⟨c, hmem, hc⟩ := exists_of_form? hform
    exact trim_ne_nil (mem_trimEnd hmem hc) hc
  · obtain ⟨c, hmem, hc⟩ := exists_of_form? hform
    exact trim_ne_nil hmem hc

end Using

namespace Unwrap

/-- Whether a line is a namespace line or a brace and nothing else. -/
def isOfNamespace (line : Text) : Bool :=
  (Namespace.ofLine? line).isSome || line.code == ['{'] || line.code == ['}']

theorem isOfNamespace_of_using {line clause : Text} (h : Using.any? line = some clause) :
    isOfNamespace line = false := by
  have hopen := Using.code_ne_of_any? (c := '{') h (by decide) (by decide)
  have hclose := Using.code_ne_of_any? (c := '}') h (by decide) (by decide)
  have hnamesp : Namespace.ofLine? line = none := by
    cases hn : Namespace.ofLine? line with
    | none => rfl
    | some n =>
      rw [Using.any?_eq_none_of_ofLine? hn] at h
      contradiction
  simp [isOfNamespace, hopen, hclose, hnamesp]

/-- Of the lines that a step drops, those that do not belong to a namespace declare a using. -/
theorem Step.removed {s s' : State} {line : Text} {k : Option Text} (h : Step s line s' k) :
    (if k.isNone then [line] else []).filter (!isOfNamespace ·) =
      [line].filter fun line => (Using.any? line).isSome := by
  cases h with
  | declaration hu => simp [isOfNamespace_of_using hu, hu]
  | wholeFile hn => simp [isOfNamespace, hn, Using.any?_eq_none_of_ofLine? hn]
  | header hn => simp [isOfNamespace, hn, Using.any?_eq_none_of_ofLine? hn]
  | opener hcode =>
    have hu := Using.any?_eq_none_of_code hcode (by decide) (by decide)
    simp [isOfNamespace, hcode, hu]
  | closer hcode =>
    have hu := Using.any?_eq_none_of_code hcode (by decide) (by decide)
    simp [isOfNamespace, hcode, hu]
  | outside hu => simp [hu]
  | gap hu => simp [hu]
  | inside hu => simp [hu]

theorem State.removed (s : State) (lines : List Text) :
    (s.dropped lines).filter (!isOfNamespace ·) =
      lines.filter fun line => (Using.any? line).isSome := by
  induction lines generalizing s with
  | nil => rfl
  | cons line rest ih =>
    rw [dropped, List.filter_append, (step_next s line).removed, ih, ← List.filter_append]
    rfl

end Unwrap

namespace Document
open Unwrap
variable (globals : Option Source) (sources : List Source)

theorem trim_captured_ne_nil {clause : Text} (h : clause ∈ captured globals sources) :
    clause.trim ≠ [] := by
  obtain ⟨_, _, _, _, hany⟩ := exists_of_mem_captured h
  exact Using.trim_clause_ne_nil hany

theorem items_ofNamespaced :
    (ofNamespaced globals sources).declarations.items =
      ((captured globals sources).map trim).eraseDups := by
  have hall : ((captured globals sources).map trim).filter (· ≠ []) =
      (captured globals sources).map trim := by
    rw [List.filter_eq_self]
    intro t ht
    obtain ⟨clause, hclause, rfl⟩ := List.mem_map.mp ht
    simpa using trim_captured_ne_nil globals sources hclause
  have hitems : (ofNamespaced globals sources).declarations.items =
      firstSeen (captured globals sources) := Declarations.items_ofList _
  rw [hitems, firstSeen, hall]

theorem mem_items_of_any? {source : Source} (hsource : source ∈ sources) {line clause : Text}
    (hline : line ∈ source.lines) (h : Using.any? line = some clause) :
    clause.trim ∈ (ofNamespaced globals sources).declarations.items := by
  refine mem_items_ofNamespaced.mpr ⟨Using.trim_clause_ne_nil h, clause, ?_, rfl⟩
  apply List.mem_append_right
  exact List.mem_flatMap.mpr ⟨source, hsource, List.mem_filterMap.mpr ⟨line, hline, h⟩⟩

/-- The declarations are the clauses that are captured, trimmed, each where it is first seen, and
none of them is blank. The lines that a run over a file drops as using declarations, from any state,
are the lines with a clause, and every one of these clauses is among the declarations. -/
theorem ofNamespaced_gathered :
    (∀ line, Using.local? line = none ∨ Using.global? line = none) ∧
      (∀ line clause, Using.any? line = some clause → clause.trim ≠ []) ∧
      (ofNamespaced globals sources).declarations.items =
        ((globals.toList.flatMap (fun source => source.lines.filterMap Using.global?) ++
          sources.flatMap fun source => source.lines.filterMap Using.any?).map trim).eraseDups ∧
      ∀ source ∈ sources, ∀ s : State,
        (s.dropped source.lines).filter (!isOfNamespace ·) =
            source.lines.filter (fun line => (Using.any? line).isSome) ∧
          ∀ line ∈ source.lines, ∀ clause, Using.any? line = some clause →
            s.next line = (s, none) ∧
              clause.trim ∈ (ofNamespaced globals sources).declarations.items := by
  refine ⟨Using.local?_or_global?_eq_none, fun line clause => Using.trim_clause_ne_nil,
    items_ofNamespaced globals sources, ?_⟩
  intro source hsource s
  refine ⟨State.removed s source.lines, ?_⟩
  intro line hline clause h
  exact ⟨State.next_of_using h s, mem_items_of_any? globals sources hsource hline h⟩

end Document
end SourceMerge
