import Mathlib.Data.List.Induction
import SourceMerge.Proofs.Document.Verbatim
import SourceMerge.Proofs.Unwrap.Thinning

/-! The states that runs reach. The indentation is that of the latest line for a block. Whether a
block is open, and how deep, is told by the lines since its opening: the depth is the depth of the
opening and of the lines of content since then, and was never below 1. -/
namespace SourceMerge.Unwrap
open Braces Text

/-- The latest line for a block has no opening brace, and no lone one has come since. -/
inductive Awaits : List Text → Prop
  | since {front header gap} : isHeader header = true → (ofLine header).opens = 0 →
      (∀ line ∈ gap, isHeader line = false ∧ line.code ≠ ['{']) → Awaits (front ++ header :: gap)

/-- The last of some lines opens a block, to a depth that its braces give. It is the line for the
block, if that has an opening brace, or else the lone brace that is waited for. -/
inductive Opens : List Text → Int → Prop
  | header {front line} : isHeader line = true → 0 < (ofLine line).opens →
      Opens (front ++ [line]) (ofLine line).delta
  | brace {front line} : Awaits front → line.code = ['{'] → Opens (front ++ [line]) 1

/-- Since its opening a block has been open. Only lines of content count for its depth. -/
inductive StaysOpen : List Text → Int → Prop
  | since {opening rest d} : Opens opening d → (∀ line ∈ rest, isHeader line = false) →
      (∀ part, part <+: rest.filter declaresNothing → 1 ≤ d + depth part) →
      StaysOpen (opening ++ rest) (d + depth (rest.filter declaresNothing))

section Lines
variable {line : Text} {lines : List Text}

theorem isHeader_iff :
    isHeader line = true ↔ ∃ name, Namespace.ofLine? line = some ⟨name, .block⟩ := by
  constructor
  · intro h
    by_contra hnone
    rw [isHeader_eq_false fun name hn => hnone ⟨name, hn⟩] at h
    contradiction
  · rintro ⟨name, hn⟩
    rw [isHeader, hn]
    rfl

theorem filter_isHeader_withoutUsings (lines : List Text) :
    (withoutUsings lines).filter isHeader = lines.filter isHeader := by
  rw [withoutUsings, List.filter_filter]
  apply List.filter_congr
  intro line _
  cases h : isHeader line with
  | false => rfl
  | true =>
    obtain ⟨name, hn⟩ := isHeader_iff.mp h
    rw [Using.any?_eq_none_of_ofLine? hn]
    rfl

/-- A declaration that opens no block is neither a line for a block nor content. -/
theorem not_header_nor_content (h : (Using.any? line).isSome ∨
    ∃ name, Namespace.ofLine? line = some ⟨name, .wholeFile⟩) :
    isHeader line = false ∧ line.declaresNothing = false := by
  rcases h with hu | ⟨name, hn⟩
  · have hheader : isHeader line = false := isHeader_eq_false fun name hn => by
      simp [Using.any?_eq_none_of_ofLine? hn] at hu
    refine ⟨hheader, Bool.eq_false_iff.mpr fun hline => ?_⟩
    simp [(declaresNothing_iff.mp hline).1] at hu
  · refine ⟨isHeader_eq_false fun other => by simp [hn], Bool.eq_false_iff.mpr fun hline => ?_⟩
    rw [(declaresNothing_iff.mp hline).2] at hn
    contradiction

theorem next_of_declares (hheader : isHeader line = false) (h : line.declaresNothing = false)
    (s : State) : s.next line = (s, none) := by
  cases hu : Using.any? line with
  | some clause => exact State.next_of_using hu s
  | none =>
    cases hn : Namespace.ofLine? line with
    | none => simp [declaresNothing_iff.mpr ⟨hu, hn⟩] at h
    | some n =>
      obtain ⟨name, extent⟩ := n
      cases extent with
      | wholeFile => exact State.next_of_wholeFile hn s
      | block => simp [isHeader_iff.mpr ⟨name, hn⟩] at hheader

/-- Between lines for blocks only content moves a run. -/
theorem after_filter (h : ∀ line ∈ lines, isHeader line = false) (s : State) :
    s.after lines = s.after (lines.filter declaresNothing) := by
  induction lines generalizing s with
  | nil => rfl
  | cons line rest ih =>
    have hrest := ih fun l hl => h l (List.mem_cons_of_mem line hl)
    cases hline : line.declaresNothing with
    | true =>
      rw [List.filter_cons_of_pos hline, State.after, State.after]
      exact hrest _
    | false =>
      rw [List.filter_cons_of_neg (by simp [hline]), State.after,
        next_of_declares (h line List.mem_cons_self) hline]
      exact hrest s

theorem ofLine?_of_mem_filter (h : line ∈ lines.filter declaresNothing) :
    Using.any? line = none ∧ Namespace.ofLine? line = none :=
  declaresNothing_iff.mp (List.mem_filter.mp h).2

end Lines

section Snoc
variable {line : Text} {lines : List Text} {n : Int}

theorem Awaits.snoc (h : Awaits lines) (hheader : isHeader line = false)
    (hcode : line.code ≠ ['{']) : Awaits (lines ++ [line]) := by
  obtain ⟨hfirst, hopens, hgap⟩ := h
  rw [List.append_assoc, List.cons_append]
  refine .since hfirst hopens ?_
  exact List.forall_mem_append.mpr ⟨hgap, List.forall_mem_singleton.mpr ⟨hheader, hcode⟩⟩

theorem Opens.staysOpen (h : Opens lines n) (hn : 1 ≤ n) : StaysOpen lines n := by
  have hopen : StaysOpen (lines ++ []) (n + depth ([].filter declaresNothing)) := by
    refine .since h (by simp) fun part hpart => ?_
    rw [List.prefix_nil.mp hpart, depth_nil, Int.add_zero]
    exact hn
  simpa using hopen

theorem StaysOpen.snoc_declaring (h : StaysOpen lines n) (hheader : isHeader line = false)
    (hline : line.declaresNothing = false) : StaysOpen (lines ++ [line]) n := by
  obtain @⟨opening, rest, d, hopens, hrest, hparts⟩ := h
  have hfilter : (rest ++ [line]).filter declaresNothing = rest.filter declaresNothing := by
    simp [hline]
  rw [List.append_assoc, ← hfilter]
  refine .since hopens ?_ (hfilter ▸ hparts)
  exact List.forall_mem_append.mpr ⟨hrest, List.forall_mem_singleton.mpr hheader⟩

/-- A line of content adds its own depth, and must leave the block open. -/
theorem StaysOpen.snoc_content (h : StaysOpen lines n) (hheader : isHeader line = false)
    (hline : line.declaresNothing = true) (hn : 1 ≤ n + (ofLine line).delta) :
    StaysOpen (lines ++ [line]) (n + (ofLine line).delta) := by
  obtain @⟨opening, rest, d, hopens, hrest, hparts⟩ := h
  have hfilter : (rest ++ [line]).filter declaresNothing =
      rest.filter declaresNothing ++ [line] := by
    simp [hline]
  have hdepth : d + depth (rest.filter declaresNothing) + (ofLine line).delta =
      d + depth ((rest ++ [line]).filter declaresNothing) := by
    rw [hfilter, depth_append, depth_cons, depth_nil]
    omega
  rw [hdepth] at hn ⊢
  rw [List.append_assoc]
  refine .since hopens ?_ fun part hpart => ?_
  · exact List.forall_mem_append.mpr ⟨hrest, List.forall_mem_singleton.mpr hheader⟩
  · rw [hfilter] at hpart
    rcases List.prefix_concat_iff.mp hpart with rfl | hpart
    · rwa [← hfilter]
    · exact hparts part hpart

theorem StaysOpen.pos (h : StaysOpen lines n) : 1 ≤ n := by
  obtain ⟨_, _, hparts⟩ := h
  exact hparts _ List.prefix_rfl

end Snoc

/-- What some lines must be like for a run over them to end in a place. -/
def Place.Fits (lines : List Text) : Place → Prop
  | .fileLevel => True
  | .beforeBrace => Awaits lines
  | .inBlock n => StaysOpen lines n

theorem Place.fits_atDepth {lines : List Text} {opened closed : Nat}
    (h : closed < opened → StaysOpen lines (opened - closed)) :
    (atDepth opened closed).Fits lines := by
  unfold atDepth
  split
  · rename_i hopen
    have hdepth : ((opened - closed : Nat) : Int) = opened - closed := by omega
    show StaysOpen lines ((opened - closed : Nat) : Int)
    rw [hdepth]
    exact h hopen
  · trivial

section Step
variable {s s' : State} {line : Text} {k : Option Text} {lines : List Text}

theorem Place.Fits.snoc_declaring {p : Place} (h : p.Fits lines) (hheader : isHeader line = false)
    (hline : line.declaresNothing = false) (hcode : line.code ≠ ['{']) :
    p.Fits (lines ++ [line]) := by
  cases p with
  | fileLevel => trivial
  | beforeBrace => exact Awaits.snoc h hheader hcode
  | inBlock n => exact StaysOpen.snoc_declaring h hheader hline

theorem Place.fits_enter (h : isHeader line = true) (lines : List Text) :
    (State.enter line).place.Fits (lines ++ [line]) := by
  simp only [State.enter]
  split
  · rename_i hopens
    exact Awaits.since h hopens (by simp)
  · rename_i hopens
    refine Place.fits_atDepth fun hlt => ?_
    have hdelta : (ofLine line).delta = (ofLine line).opens - (ofLine line).closes := rfl
    rw [← hdelta]
    refine (Opens.header h (by omega)).staysOpen ?_
    omega

/-- Each step leads from a place that fits the lines so far to one that fits them with the line. -/
theorem Step.fits (h : Step s line s' k) (hs : s.place.Fits lines) :
    s'.place.Fits (lines ++ [line]) := by
  cases h with
  | declaration hu =>
    obtain ⟨hheader, hline⟩ := not_header_nor_content (.inl (by rw [hu]; rfl))
    exact hs.snoc_declaring hheader hline (Using.code_ne_of_any? hu (by decide) (by decide))
  | wholeFile hn =>
    obtain ⟨hheader, hline⟩ := not_header_nor_content (.inr ⟨_, hn⟩)
    exact hs.snoc_declaring hheader hline (Namespace.code_ne_of_ofLine? hn (by decide))
  | header hn => exact Place.fits_enter (isHeader_iff.mpr ⟨_, hn⟩) lines
  | outside => trivial
  | opener hcode => exact (Opens.brace hs hcode).staysOpen (by decide)
  | gap _ hn hcode => exact Awaits.snoc hs (isHeader_eq_false fun name => by simp [hn]) hcode
  | closer => trivial
  | @inside w line n hu hn _ =>
    refine Place.fits_atDepth fun hopen => ?_
    have hdepth : ((n + (ofLine line).opens : Nat) : Int) - (ofLine line).closes =
        n + (ofLine line).delta := by
      rw [delta]
      omega
    rw [hdepth]
    refine StaysOpen.snoc_content hs (isHeader_eq_false fun name => by simp [hn])
      (declaresNothing_iff.mpr ⟨hu, hn⟩) ?_
    omega

end Step

namespace State

theorem after_snoc (s : State) (lines : List Text) (line : Text) :
    s.after (lines ++ [line]) = ((s.after lines).next line).1 := after_append s lines [line]

theorem fits_after (lines : List Text) : (start.after lines).place.Fits lines := by
  -- what fits speaks of all lines so far, so that the latest one is taken off at the end
  induction lines using List.reverseRecOn with
  | nil => trivial
  | append_singleton lines line ih =>
    rw [after_snoc]
    exact (step_next _ line).fits ih

theorem indent_after (lines : List Text) :
    (start.after lines).indent = (lines.filter isHeader).getLast?.elim [] leadingIndent := by
  induction lines using List.reverseRecOn with
  | nil => rfl
  | append_singleton lines line ih =>
    rw [after_snoc, (step_next _ line).indent_eq, ih, List.filter_append, indentAfter]
    cases h : isHeader line <;> simp [h]

end State

section Completeness
variable {lines : List Text} {n : Int}

theorem Awaits.place_after (h : Awaits lines) : (State.start.after lines).place = .beforeBrace := by
  obtain @⟨front, header, gap, hheader, hopens, hgap⟩ := h
  obtain ⟨name, hn⟩ := isHeader_iff.mp hheader
  have henter : State.enter header = ⟨.beforeBrace, header.leadingIndent⟩ := by
    rw [State.enter, if_pos hopens]
  rw [State.after_append, State.after, State.next_of_block hn, henter,
    after_filter fun line hline => (hgap line hline).1]
  have hrun := State.run_beforeBrace (w := header.leadingIndent)
    (fun line (hline : line ∈ gap.filter declaresNothing) => (ofLine?_of_mem_filter hline).2)
    fun line hline => (hgap line (List.mem_filter.mp hline).1).2
  rw [hrun.2]

theorem Opens.place_after (h : Opens lines n) (hn : 1 ≤ n) :
    ∃ m : Nat, m = n ∧ (State.start.after lines).place = .inBlock m := by
  cases h with
  | @header front line hheader hopens =>
    obtain ⟨name, hname⟩ := isHeader_iff.mp hheader
    rw [delta] at hn ⊢
    refine ⟨(ofLine line).opens - (ofLine line).closes, by omega, ?_⟩
    rw [State.after_snoc, State.next_of_block hname, State.enter, if_neg (by omega),
      Place.atDepth, if_pos (by omega)]
  | @brace front line hawaits hcode =>
    have hplace := hawaits.place_after
    have hu := Using.any?_eq_none_of_code hcode (by decide) (by decide)
    have hname := Namespace.ofLine?_eq_none_of_code hcode (by decide)
    refine ⟨1, rfl, ?_⟩
    rw [State.after_snoc, State.next_of_content hu hname, State.content, hplace]
    simp only [hcode, if_true]

theorem StaysOpen.place_after (h : StaysOpen lines n) :
    ∃ m : Nat, m = n ∧ (State.start.after lines).place = .inBlock m := by
  obtain @⟨opening, rest, d, hopens, hrest, hparts⟩ := h
  have hd : 1 ≤ d := by simpa using hparts [] List.nil_prefix
  obtain ⟨m, rfl, hplace⟩ := hopens.place_after hd
  have hstate : State.start.after opening =
      ⟨.inBlock m, (State.start.after opening).indent⟩ := by
    rw [← hplace]
  have hcontent : withoutUsings (rest.filter declaresNothing) = rest.filter declaresNothing :=
    withoutUsings_eq_self fun line hline => (ofLine?_of_mem_filter hline).1
  have hcovers : Covers (m - 1) (withoutUsings (rest.filter declaresNothing)) := by
    rw [hcontent, covers_iff_forall]
    intro part hpart
    have hpos := hparts part hpart
    omega
  obtain ⟨_, k, hk, hafter⟩ := State.run_inBlock
    (w := (State.start.after opening).indent)
    (fun line (hline : line ∈ rest.filter declaresNothing) => (ofLine?_of_mem_filter hline).2)
    hcovers
  rw [hcontent] at hk
  exact ⟨k, hk, by rw [State.after_append, hstate, after_filter hrest, hafter]⟩

end Completeness

/-- A run that has read some lines has the indentation of the latest line for a block. It waits for
a brace, or stands in a block of some depth, exactly if the lines since that line say so, and
declarations that open no block change neither its state nor what is kept. -/
theorem State.reached (lines : List Text) :
    (start.after lines).indent =
        ((withoutUsings lines).filter isHeader).getLast?.elim [] leadingIndent ∧
      ((start.after lines).place = .beforeBrace ↔ Awaits lines) ∧
      (∀ n, (start.after lines).place = .inBlock n ↔ 1 ≤ n ∧ StaysOpen lines n) ∧
      ∀ line, (Using.any? line).isSome ∨
          (∃ name, Namespace.ofLine? line = some ⟨name, .wholeFile⟩) →
        start.after (lines ++ [line]) = start.after lines ∧
          start.kept (lines ++ [line]) = start.kept lines := by
  have hfits := fits_after lines
  refine ⟨?_, ?_, ?_, ?_⟩
  · rw [filter_isHeader_withoutUsings, indent_after]
  · refine ⟨fun hplace => ?_, Awaits.place_after⟩
    rwa [hplace] at hfits
  · intro n
    constructor
    · intro hplace
      rw [hplace] at hfits
      have hpos := StaysOpen.pos hfits
      exact ⟨by omega, hfits⟩
    · rintro ⟨_, hopen⟩
      obtain ⟨m, hm, hplace⟩ := hopen.place_after
      rw [hplace, Int.natCast_inj.mp hm]
  · intro line hline
    obtain ⟨hheader, hdeclares⟩ := not_header_nor_content hline
    have hnext := next_of_declares hheader hdeclares (start.after lines)
    rw [after_snoc, kept_append, kept, kept, hnext]
    simp

/-- A block that is opened by a brace of its own and holds an open class. -/
def openBlock : List Text :=
  ["\tnamespace N".toList, "// c".toList, "\t\x7b".toList, "class C \x7b".toList,
    "namespace M;".toList]

theorem State.reached_openBlock :
    (start.after openBlock).indent = ['\t'] ∧ StaysOpen openBlock 2 ∧
      start.kept (openBlock ++ ["global using X;".toList]) = start.kept openBlock := by
  obtain ⟨hindent, _, hplace, hdeclared⟩ := reached openBlock
  refine ⟨hindent.trans (by decide), ?_, ?_⟩
  · exact ((hplace 2).mp (by decide +kernel)).2
  · exact (hdeclared _ (.inl (by decide))).2

end SourceMerge.Unwrap
