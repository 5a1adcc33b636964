import Mathlib.Data.Option.Basic
import SourceMerge.Document.Render
import SourceMerge.Proofs.Document.Congruence
import SourceMerge.Proofs.Text.Returns

/-! Files that another editor has saved, with a carriage return before each newline and perhaps with a
byte-order mark in front. Merging reads the same lines in them and finds the same entry point,
although the entry point is looked for across the ends of lines. -/
namespace SourceMerge
open Text

namespace EntryPoint

theorem afterIntArgument?_withReturns (t : Text) :
    afterIntArgument? (withReturns t) = (afterIntArgument? t).map withReturns := by
  simp only [afterIntArgument?, Option.bind_eq_bind]
  rw [trimStart_withReturns, after?_withReturns (by decide) (by decide)]
  cases after? ['<'] t.trimStart with
  | none => rfl
  | some argument =>
    simp only [Option.map_some, Option.bind_some]
    rw [trimStart_withReturns, after?_withReturns (by decide) (by decide)]
    cases after? "int".toList argument.trimStart with
    | none => rfl
    | some rest =>
      simp only [Option.map_some, Option.bind_some]
      rw [trimStart_withReturns, after?_withReturns (by decide) (by decide)]

theorem afterType?_withReturns (t : Text) :
    afterType? (withReturns t) = (afterType? t).map withReturns := by
  simp only [afterType?, Option.orElse_eq_orElse, Option.orElse_eq_or]
  rw [after?_withReturns (by decide) (by decide), after?_withReturns (by decide) (by decide),
    after?_withReturns (by decide) (by decide)]
  cases after? "void".toList t with
  | some rest => rfl
  | none =>
    cases after? "int".toList t with
    | some rest => rfl
    | none =>
      cases after? "Task".toList t with
      | none => rfl
      | some rest =>
        simp only [Option.map_none, Option.map_some, Option.none_or, afterIntArgument?_withReturns]
        cases afterIntArgument? rest <;> rfl

theorem isSignature_withReturns (t : Text) : isSignature (withReturns t) = isSignature t := by
  simp only [isSignature, Option.bind_eq_bind]
  rw [afterKeyword?_withReturns (by decide) (by decide)]
  cases afterKeyword? "static".toList t with
  | none => rfl
  | some afterStatic =>
    have hasync : (afterKeyword? "async".toList (withReturns afterStatic)).getD
        (withReturns afterStatic) =
          withReturns ((afterKeyword? "async".toList afterStatic).getD afterStatic) := by
      rw [afterKeyword?_withReturns (by decide) (by decide)]
      cases afterKeyword? "async".toList afterStatic <;> rfl
    simp only [Option.map_some, Option.bind_some]
    rw [hasync, afterType?_withReturns]
    cases afterType? ((afterKeyword? "async".toList afterStatic).getD afterStatic) with
    | none => rfl
    | some afterType =>
      simp only [Option.map_some, Option.bind_some, afterBlanks?_withReturns]
      cases afterBlanks? afterType with
      | none => rfl
      | some name =>
        simp only [Option.map_some, Option.bind_some]
        rw [after?_withReturns (by decide) (by decide)]
        cases after? "Main".toList name with
        | none => rfl
        | some rest =>
          simp only [Option.map_some, Option.bind_some]
          rw [trimStart_withReturns, after?_withReturns (by decide) (by decide), Option.isSome_map]

/-- The character before a signature may change from a newline to the newline after a return, and
neither is part of a word. -/
theorem occursAfter_withReturns (previous : Option Char) (t : Text) :
    occursAfter previous (withReturns t) = occursAfter previous t := by
  induction t generalizing previous with
  | nil => rfl
  | cons c t ih =>
    by_cases hc : c = '\n'
    · have hreturn : isSignature ('\r' :: '\n' :: withReturns t) = false := rfl
      have hnewline : ∀ rest, isSignature ('\n' :: rest) = false := fun _ => rfl
      rw [hc, withReturns_newline, occursAfter, occursAfter, occursAfter, hreturn, hnewline,
        hnewline, ih]
      rfl
    · rw [occursAfter, ← isSignature_withReturns (c :: t), withReturns_cons hc, occursAfter, ih]

end EntryPoint

/-- A content as another editor saves it: with a byte-order mark or without, and with a carriage
return before each newline or with bare newlines. -/
def Text.saved (mark returns : Bool) (t : Text) : Text :=
  (if mark then [byteOrderMark] else []) ++ (if returns then withReturns t else t)

namespace Source

/-- Two sources read from one file before and after it has been saved again. The content had no
byte-order mark and only bare newlines before. -/
inductive Resaved : Source → Source → Prop
  | intro (path : Path) (content : Text) (mark returns : Bool)
      (unmarked : content.head? ≠ some byteOrderMark) (unreturned : Unreturned content) :
      Resaved (ofContent path content) (ofContent path (content.saved mark returns))

theorem head?_withReturns_ne {t : Text} (h : t.head? ≠ some byteOrderMark) :
    (withReturns t).head? ≠ some byteOrderMark := by
  cases t with
  | nil => exact h
  | cons c t =>
    by_cases hc : c = '\n'
    · rw [hc, withReturns_newline, List.head?_cons]
      decide
    · rwa [withReturns_cons hc]

theorem content_ofContent {path : Path} {content : Text}
    (h : content.head? ≠ some byteOrderMark) : (ofContent path content).content = content :=
  if_neg h

/-- A mark in front is dropped, so only the carriage returns are left of another way to save. -/
theorem content_ofContent_saved {path : Path} {content : Text} (mark returns : Bool)
    (h : content.head? ≠ some byteOrderMark) :
    (ofContent path (content.saved mark returns)).content =
      if returns then withReturns content else content := by
  have hplain : (if returns then withReturns content else content).head? ≠ some byteOrderMark := by
    split
    · exact head?_withReturns_ne h
    · exact h
  cases mark with
  | true => rfl
  | false => exact content_ofContent hplain

namespace Resaved
variable {s s' : Source}

theorem path_eq (h : Resaved s s') : s'.path = s.path := by
  cases h
  rfl

theorem lines_eq (h : Resaved s s') : s'.lines = s.lines := by
  obtain ⟨path, content, mark, returns, hmark, hreturns⟩ := h
  rw [lines, lines, content_ofContent_saved mark returns hmark, content_ofContent hmark]
  split
  · exact lines_withReturns hreturns
  · rfl

theorem holdsEntryPoint_eq (h : Resaved s s') : s'.holdsEntryPoint = s.holdsEntryPoint := by
  obtain ⟨path, content, mark, returns, hmark, hreturns⟩ := h
  rw [holdsEntryPoint, holdsEntryPoint, content_ofContent_saved mark returns hmark,
    content_ofContent hmark]
  split
  · exact EntryPoint.occursAfter_withReturns none content
  · rfl

theorem items_eq (h : Resaved s s') : s'.items = s.items := by rw [items, items, h.lines_eq]

theorem namespace?_eq (h : Resaved s s') : s'.namespace? = s.namespace? := by
  rw [namespace?, namespace?, h.lines_eq]

theorem unwrapped_eq (h : Resaved s s') : s'.unwrapped = s.unwrapped := by
  rw [unwrapped, unwrapped, h.path_eq, h.lines_eq]

theorem usings_eq (h : Resaved s s') : s'.usings = s.usings := by
  rw [usings, usings, h.lines_eq]

theorem globalUsings_eq (h : Resaved s s') : s'.globalUsings = s.globalUsings := by
  rw [globalUsings, globalUsings, h.lines_eq]

theorem sameNamespaced (h : Resaved s s') : SameNamespaced s s' :=
  ⟨h.usings_eq, h.namespace?_eq, h.holdsEntryPoint_eq, h.unwrapped_eq⟩

theorem samePackaged (h : Resaved s s') : SamePackaged s s' := ⟨h.path_eq, h.items_eq⟩

end Resaved
end Source

namespace Document
open Source
variable {globals globals' : Option Source} {sources sources' : List Source}

theorem ofPackaged_resaved (h : List.Forall₂ Resaved sources sources') :
    ofPackaged sources' = ofPackaged sources :=
  ofPackaged_congr (h.imp fun _ _ => Resaved.samePackaged)

theorem ofNamespaced_resaved (hglobals : Option.Rel Resaved globals globals')
    (h : List.Forall₂ Resaved sources sources') :
    ofNamespaced globals' sources' = ofNamespaced globals sources := by
  rw [ofNamespaced_congr globals' (h.imp fun _ _ => Resaved.sameNamespaced)]
  cases hglobals with
  | none => rfl
  | some hs => simp only [ofNamespaced, Option.toList_some, List.flatMap_cons, hs.globalUsings_eq]

/-- Line endings and byte-order marks do not matter. When any of the files are saved again with
carriage returns, with a mark, or with both, merging gives the same documents and texts. -/
theorem merge_resaved (hglobals : Option.Rel Resaved globals globals')
    (h : List.Forall₂ Resaved sources sources') :
    (ofPackaged sources' = ofPackaged sources ∧
        (ofPackaged sources').render = (ofPackaged sources).render) ∧
      ofNamespaced globals' sources' = ofNamespaced globals sources ∧
        (ofNamespaced globals' sources').render = (ofNamespaced globals sources).render := by
  have hpackaged := ofPackaged_resaved h
  have hnamespaced := ofNamespaced_resaved hglobals h
  exact ⟨⟨hpackaged, congrArg render hpackaged⟩, hnamespaced, congrArg render hnamespaced⟩

/-- A file for global usings, as some editor saves it. -/
def sampleSeed (mark returns : Bool) : Source :=
  .ofContent (.ofText ['g']) (Text.saved mark returns "global using A;\n".toList)

/-- A file whose entry point has a signature that runs over lines. -/
def sampleProgram (mark returns : Bool) : Source :=
  .ofContent (.ofText ['p'])
    (Text.saved mark returns "namespace P;\nstatic\nint Main\n(".toList)

/-- Carriage returns come into a signature, and a mark before global usings. -/
theorem merge_resaved_signature :
    Option.Rel Resaved (some (sampleSeed false false)) (some (sampleSeed true true)) ∧
      List.Forall₂ Resaved [sampleProgram false false] [sampleProgram false true] ∧
      ofNamespaced (some (sampleSeed true true)) [sampleProgram false true] =
        ofNamespaced (some (sampleSeed false false)) [sampleProgram false false] := by
  have hglobals : Option.Rel Resaved (some (sampleSeed false false)) (some (sampleSeed true true)) :=
    .some (.intro _ "global using A;\n".toList true true (by decide) (by decide))
  have hsources : List.Forall₂ Resaved [sampleProgram false false] [sampleProgram false true] :=
    .cons (.intro _ "namespace P;\nstatic\nint Main\n(".toList false true (by decide)
      (by decide)) .nil
  exact ⟨hglobals, hsources, (merge_resaved hglobals hsources).2.1⟩

end Document
end SourceMerge
