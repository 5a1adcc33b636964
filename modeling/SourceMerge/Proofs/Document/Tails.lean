import SourceMerge.Proofs.Declaration.Tail
import SourceMerge.Proofs.Document.Congruence
import SourceMerge.Proofs.Document.LineMachine
import SourceMerge.Proofs.Unwrap.Run

/-! What follows a declaration on its line does not come into a merged document. The line is dropped
as a whole, and the document is the same whatever stands there, so that code in that place is lost
unless it repeats declarations that are gathered elsewhere. -/
namespace SourceMerge
open Text Braces

namespace Unwrap

/-- A line may stand in for another one if it declares the same namespace with the same number of
braces, in case that one declares a namespace. -/
def Fits (line line' : Text) : Prop :=
  ∀ n, Namespace.ofLine? line = some n → Namespace.ofLine? line' = some n ∧
    (ofLine line').opens = (ofLine line).opens ∧ (ofLine line').closes = (ofLine line).closes

/-- Two lines that are read alike in every state. -/
structure Alike (line line' : Text) : Prop where
  any? : Using.any? line' = Using.any? line
  ofLine? : Namespace.ofLine? line' = Namespace.ofLine? line
  next : ∀ s : State, s.next line' = s.next line

theorem alike_of_using {line line' clause : Text} (h : Using.any? line = some clause)
    (h' : Using.any? line' = some clause) : Alike line line' := by
  have hnone (l : Text) (hl : Using.any? l = some clause) : Namespace.ofLine? l = none := by
    cases hn : Namespace.ofLine? l with
    | none => rfl
    | some n =>
      rw [Using.any?_eq_none_of_ofLine? hn] at hl
      contradiction
  exact ⟨by rw [h, h'], by rw [hnone line h, hnone line' h'], fun s => by
    rw [State.next_of_using h, State.next_of_using h']⟩

theorem alike_of_namespace {line line' : Text} {n : Namespace}
    (h : Namespace.ofLine? line = some n) (hfits : Fits line line')
    (hindent : line'.leadingIndent = line.leadingIndent) : Alike line line' := by
  obtain ⟨h', hopens, hcloses⟩ := hfits n h
  refine ⟨?_, by rw [h, h'], fun s => ?_⟩
  · rw [Using.any?_eq_none_of_ofLine? h, Using.any?_eq_none_of_ofLine? h']
  · obtain ⟨name, extent⟩ := n
    cases extent with
    | wholeFile => rw [State.next_of_wholeFile h, State.next_of_wholeFile h']
    | block =>
      rw [State.next_of_block h, State.next_of_block h', State.enter, State.enter, hopens,
        hcloses, hindent]

/-- Behind a declaration one text is read like any other that may stand in for it. -/
theorem alike_of_tail {own tail tail' : Text}
    (hown : (∃ clause, ∀ t, Using.any? (own ++ t) = some clause) ∨
      (Namespace.ofLine? (own ++ tail)).isSome ∧ 'n' ∈ own)
    (hfits : Fits (own ++ tail) (own ++ tail')) : Alike (own ++ tail) (own ++ tail') := by
  rcases hown with ⟨clause, hread⟩ | ⟨hn, hmem⟩
  · exact alike_of_using (hread tail) (hread tail')
  · obtain ⟨n, hn⟩ := Option.isSome_iff_exists.mp hn
    refine alike_of_namespace hn hfits ?_
    rw [leadingIndent_append hmem (by decide), leadingIndent_append hmem (by decide)]

theorem Alike.kept {line line' : Text} (h : Alike line line') (s : State)
    (before after : List Text) :
    s.kept (before ++ line' :: after) = s.kept (before ++ line :: after) := by
  rw [State.kept_append, State.kept_append, State.kept, State.kept, h.next]

/-- Nothing is kept of a line that declares something. -/
theorem State.next_of_declaration {line : Text}
    (h : (Using.any? line).isSome ∨ (Namespace.ofLine? line).isSome) (s : State) :
    (s.next line).2 = none := by
  cases hu : Using.any? line with
  | some clause => rw [next_of_using hu]
  | none =>
    obtain ⟨⟨name, extent⟩, hn⟩ := Option.isSome_iff_exists.mp (h.resolve_left (by simp [hu]))
    cases extent with
    | wholeFile => rw [next_of_wholeFile hn]
    | block => rw [next_of_block hn]

theorem Alike.sameNamespaced {line line' : Text} (h : Alike line line') {source source' : Source}
    {before after : List Text} (hlines : source.lines = before ++ line :: after)
    (hlines' : source'.lines = before ++ line' :: after) (hpath : source'.path = source.path)
    (hentry : source'.holdsEntryPoint = source.holdsEntryPoint) :
    Source.SameNamespaced source source' where
  usings := by
    rw [Source.usings, Source.usings, hlines, hlines']
    simp only [List.filterMap_append, List.filterMap_cons, h.any?]
  namesp := by
    rw [Source.namespace?, Source.namespace?, hlines, hlines']
    simp only [List.findSome?_append, List.findSome?_cons, h.ofLine?]
  holdsEntryPoint := hentry
  unwrapped := by
    rw [Source.unwrapped, Source.unwrapped, hlines, hlines', hpath]
    exact congrArg (Body.mk source.path) (h.kept .start before after)

end Unwrap

namespace LineKind

/-- A line may stand in for another one if it has the same package clause, in case that one has a
package clause. -/
def Fits (line line' : Text) : Prop :=
  ∀ name, Package.name? line = some name → Package.name? line' = some name

theorem ofLine_of_tail {own tail tail' : Text}
    (hown : (Package.name? (own ++ tail)).isSome ∨
      ∃ path, ∀ t, Import.single? (own ++ t) = some path)
    (hfits : Fits (own ++ tail) (own ++ tail')) : ofLine (own ++ tail') = ofLine (own ++ tail) := by
  rcases hown with hname | ⟨path, hread⟩
  · obtain ⟨name, hname⟩ := Option.isSome_iff_exists.mp hname
    rw [of_iff.mp (.clause (hfits name hname)), of_iff.mp (.clause hname)]
  · rw [of_iff.mp (.single (hread tail')), of_iff.mp (.single (hread tail))]

theorem ne_code_of_declaration {line : Text}
    (h : (Package.name? line).isSome ∨ (Import.single? line).isSome) : ofLine line ≠ .code := by
  intro hcode
  obtain ⟨hname, _, hsingle⟩ : Package.name? line = none ∧ Import.opensBlock line = false ∧
      Import.single? line = none := by
    cases of_iff.mpr hcode with
    | code hname hopen hsingle => exact ⟨hname, hopen, hsingle⟩
  simp [hname, hsingle] at h

/-- Nothing is kept of a line that declares something. -/
theorem items_of_declaration {line : Text}
    (h : (Package.name? line).isSome ∨ (Import.single? line).isSome) :
    (Item.ofLines [line]).filterMap Item.codeLine? = [] := by
  have hcode := ne_code_of_declaration h
  rw [Item.ofLines_cons]
  cases hkind : ofLine line with
  | code => contradiction
  | _ => simp [Item.ofLines, Item.codeLine?]

/-- Outside of import blocks, lines of one kind that are no code give the same items. -/
theorem samePackaged {line line' : Text} (h : ofLine line' = ofLine line)
    (hcode : ofLine line ≠ .code) {source source' : Source} {before after : List Text}
    (hlines : source.lines = before ++ line :: after)
    (hlines' : source'.lines = before ++ line' :: after) (hpath : source'.path = source.path)
    (hbefore : Mode.outside.after before = .outside) : Source.SamePackaged source source' := by
  refine ⟨hpath, ?_⟩
  rw [Source.items, Source.items, hlines, hlines', Item.ofLines_append hbefore,
    Item.ofLines_append hbefore, Item.ofLines_cons, Item.ofLines_cons, h]
  cases hkind : ofLine line with
  | code => contradiction
  | _ => rfl

end LineKind

namespace Document
open Unwrap

/-- Code behind a declaration on its line is lost, unless it is nothing but declarations that are
gathered from elsewhere: it is not kept, and the document is the same whatever stands there. -/
theorem tail_retained_iff {source : Source} {before after : List Text} {line : Text}
    (hlines : source.lines = before ++ line :: after) (globals : Option Source)
    (front back : List Source) :
    ((Using.any? line).isSome ∨ (Namespace.ofLine? line).isSome →
        ∀ d, d = ofNamespaced globals (front ++ source :: back) →
          ∃ own tail, line = own ++ tail ∧ Unwrap.tail? line = some tail ∧
            (Retained Using.cut? d.declarations.items
                ((State.start.after before).next line).2.toList tail ↔
              Retained Using.cut? d.declarations.items [] tail) ∧
            ∀ tail' source', Unwrap.Fits line (own ++ tail') → source'.path = source.path →
              source'.lines = before ++ (own ++ tail') :: after →
              source'.holdsEntryPoint = source.holdsEntryPoint →
              ofNamespaced globals (front ++ source' :: back) = d) ∧
      (Mode.outside.after before = .outside →
        (Package.name? line).isSome ∨ (Import.single? line).isSome →
        ∀ d, d = ofPackaged (front ++ source :: back) →
          ∃ own tail, line = own ++ tail ∧ LineKind.tail? line = some tail ∧
            (Retained Import.cut? d.declarations.items
                ((Item.ofLines [line]).filterMap Item.codeLine?) tail ↔
              Retained Import.cut? d.declarations.items [] tail) ∧
            ∀ tail' source', LineKind.Fits line (own ++ tail') → source'.path = source.path →
              source'.lines = before ++ (own ++ tail') :: after →
              ofPackaged (front ++ source' :: back) = d) := by
  constructor
  · rintro hdropped d rfl
    obtain ⟨own, tail, rfl, htail, hown⟩ := Unwrap.exists_tail hdropped
    refine ⟨own, tail, rfl, htail, ?_, fun tail' source' hfits hpath hlines' hentry => ?_⟩
    · rw [State.next_of_declaration hdropped, Option.toList_none]
    · have halike := alike_of_tail hown hfits
      exact ofNamespaced_congr globals (Source.forall₂_replaced Source.SameNamespaced.refl
        (halike.sameNamespaced hlines hlines' hpath hentry) front back)
  · rintro hbefore hdropped d rfl
    obtain ⟨own, tail, rfl, htail, hown⟩ := LineKind.exists_tail hdropped
    refine ⟨own, tail, rfl, htail, ?_, fun tail' source' hfits hpath hlines' => ?_⟩
    · rw [LineKind.items_of_declaration hdropped]
    · have hkind := LineKind.ofLine_of_tail hown hfits
      have hcode := LineKind.ne_code_of_declaration hdropped
      exact ofPackaged_congr (Source.forall₂_replaced Source.SamePackaged.refl
        (LineKind.samePackaged hkind hcode hlines hlines' hpath hbefore) front back)

/-- A file with one line. -/
def oneLine (line : Text) : Source := ⟨.ofText ['f'], line⟩

/-- The line of a namespace with its brace and what follows it, which closes the namespace. -/
def namespaceLine (tail : Text) : Text := "namespace N \x7b".toList ++ tail

def packageLine (tail : Text) : Text := "package p;".toList ++ tail

def classTail : Text := "class C \x7b\x7d\x7d".toList

def importTail : Text := "import \"fmt\"".toList

/-- A class on the line of its namespace is lost, and might as well be an enumeration, and an import
on the line of its package might as well be a variable. -/
theorem tail_retained_iff_oneLine :
    ¬ Retained Using.cut? (ofNamespaced none [oneLine (namespaceLine classTail)]).declarations.items
        (State.start.next (namespaceLine classTail)).2.toList classTail ∧
      ofNamespaced none [oneLine (namespaceLine "enum E \x7b\x7d\x7d".toList)] =
        ofNamespaced none [oneLine (namespaceLine classTail)] ∧
      ofPackaged [oneLine (packageLine "var v".toList)] =
        ofPackaged [oneLine (packageLine importTail)] := by
  have hlines : (oneLine (namespaceLine classTail)).lines = [] ++ [namespaceLine classTail] := by
    decide
  obtain ⟨own, tail, hline, htail, hiff, hsame⟩ :=
    (tail_retained_iff hlines none [] []).1 (.inr (by decide)) _ rfl
  have htail' : Unwrap.tail? (namespaceLine classTail) = some classTail := by decide +kernel
  obtain rfl := Option.some.inj (htail.symm.trans htail')
  obtain rfl : "namespace N \x7b".toList = own := List.append_cancel_right hline
  have hlines' : (oneLine (packageLine importTail)).lines = [] ++ [packageLine importTail] := by
    decide
  obtain ⟨own', tail', hline', htail', _, hsame'⟩ :=
    (tail_retained_iff hlines' none [] []).2 rfl (.inl (by decide)) _ rfl
  have htail'' : LineKind.tail? (packageLine importTail) = some importTail := by decide +kernel
  obtain rfl := Option.some.inj (htail'.symm.trans htail'')
  obtain rfl : "package p;".toList = own' := List.append_cancel_right hline'
  refine ⟨fun h => ?_, ?_, ?_⟩
  · cases hiff.mp h with
    | empty hempty =>
      revert hempty
      decide +kernel
    | kept hmem => contradiction
    | gathered hcut =>
      rw [show Using.cut? (codeStart classTail) = none by decide +kernel] at hcut
      contradiction
  · have hsameName : Namespace.ofLine? (namespaceLine "enum E \x7b\x7d\x7d".toList) =
        Namespace.ofLine? (namespaceLine classTail) := by decide
    have hfits : Unwrap.Fits (namespaceLine classTail)
        (namespaceLine "enum E \x7b\x7d\x7d".toList) := fun n hn =>
      ⟨hsameName.trans hn, by decide +kernel, by decide +kernel⟩
    exact hsame _ (oneLine (namespaceLine "enum E \x7b\x7d\x7d".toList)) hfits rfl (by decide)
      (by decide +kernel)
  · have hsameName : Package.name? (packageLine "var v".toList) =
        Package.name? (packageLine importTail) := by decide
    exact hsame' _ (oneLine (packageLine "var v".toList)) (fun name hn => hsameName.trans hn) rfl
      (by decide)

/-- The second of two using declarations on one line is neither kept nor gathered. -/
theorem not_forall_tail_retained :
    ¬ ∀ (source : Source) before line after tail, source.lines = before ++ line :: after →
      Unwrap.tail? line = some tail →
        Retained Using.cut? (ofNamespaced none [source]).declarations.items
          source.unwrapped.lines tail := by
  intro h
  have hretained := h (oneLine "using A; using B;".toList) [] "using A; using B;".toList []
    " using B;".toList (by decide) (by decide +kernel)
  have hitems : (ofNamespaced none [oneLine "using A; using B;".toList]).declarations.items =
      [['A']] := by decide +kernel
  have hbody : (oneLine "using A; using B;".toList).unwrapped.lines = [] := by decide +kernel
  have hcode : codeStart " using B;".toList = "using B;".toList := by decide +kernel
  rw [hitems, hbody] at hretained
  cases hretained with
  | empty hempty => rw [hcode] at hempty; contradiction
  | kept hmem => contradiction
  | gathered hcut hmem =>
    rw [hcode, show Using.cut? "using B;".toList = some (['B'], []) by decide] at hcut
    obtain ⟨rfl, _⟩ := Prod.mk.inj (Option.some.inj hcut)
    revert hmem
    decide

end Document
end SourceMerge
