import SourceMerge.Document.Namespaced
import SourceMerge.Proofs.Unwrap.Run

/-! The wrapper of a file with at most one namespace: its namespace line, the lone opening brace that
the line waits for, and the line at which the depth in the block is back at zero, if that is a lone
closing brace. Unwrapping drops exactly the wrapper, so that it keeps a file balanced exactly if
the wrapper itself closes what it opens. -/
namespace SourceMerge
namespace Unwrap
open Braces Text

/-- The line that brings the depth back to zero, if it is a lone closing brace. -/
def closing (depth : Int) : List Text → List Text
  | [] => []
  | line :: rest =>
    if depth + (ofLine line).delta ≤ 0 then if line.code = ['}'] then [line] else []
    else closing (depth + (ofLine line).delta) rest

/-- The first lone opening brace, and the line that closes it if it is a lone closing brace. -/
def opening : List Text → List Text
  | [] => []
  | line :: rest => if line.code = ['{'] then line :: closing 1 rest else opening rest

/-- What belongs to the wrapper of the lines from some place on. -/
def Place.wrapper : Place → List Text → List Text
  | .fileLevel, _ => []
  | .beforeBrace, lines => opening lines
  | .inBlock depth, lines => closing depth lines

end Unwrap

/-- The wrapper of the lines of a file. -/
def Text.wrapper : List Text → List Text
  | [] => []
  | line :: rest =>
    match Namespace.ofLine? line with
    | none => wrapper rest
    | some ⟨_, .wholeFile⟩ => [line]
    | some ⟨_, .block⟩ => line :: (Unwrap.State.enter line).place.wrapper rest

namespace Unwrap
open Braces Text

/-- A line in a block is at a depth of at least 1. -/
def Place.IsProper : Place → Prop
  | .inBlock depth => 0 < depth
  | _ => True

theorem Place.isProper_atDepth (opened closed : Nat) : (atDepth opened closed).IsProper := by
  unfold atDepth
  split
  · exact Nat.sub_pos_of_lt ‹_›
  · trivial

theorem State.isProper_enter (line : Text) : (State.enter line).place.IsProper := by
  simp only [State.enter]
  split
  · trivial
  · exact Place.isProper_atDepth _ _

theorem Place.wrapper_of_using {p : Place} {line clause : Text} (hp : p.IsProper)
    (hany : Using.any? line = some clause) (hdelta : (ofLine line).delta = 0) (rest : List Text) :
    p.wrapper (line :: rest) = p.wrapper rest := by
  cases p with
  | fileLevel => rfl
  | beforeBrace =>
    have hcode := Using.code_ne_of_any? (c := '{') hany (by decide) (by decide)
    simp [wrapper, opening, hcode]
  | inBlock d =>
    have hd : d ≠ 0 := Nat.ne_of_gt hp
    simp [wrapper, closing, hdelta, hd]

/-- Inside a block, only a lone closing brace at depth 1 is a wrapper's. -/
theorem closing_cons {d : Nat} {line : Text} (hd : 0 < d)
    (hcode : ¬ (d = 1 ∧ line.code = ['}'])) (rest : List Text) :
    closing d (line :: rest) =
      (Place.atDepth (d + (ofLine line).opens) (ofLine line).closes).wrapper rest := by
  rw [closing]
  by_cases hclosed : (d : Int) + (ofLine line).delta ≤ 0
  · have hplace : ¬ (ofLine line).closes < d + (ofLine line).opens := by
      rw [delta] at hclosed
      omega
    have hlone : line.code ≠ ['}'] := by
      intro hlone
      rw [delta_of_code_close hlone] at hclosed
      exact hcode ⟨by omega, hlone⟩
    rw [if_pos hclosed, if_neg hlone, Place.atDepth, if_neg hplace]
    rfl
  · have hplace : (ofLine line).closes < d + (ofLine line).opens := by
      rw [delta] at hclosed
      omega
    have hdepth : ((d + (ofLine line).opens - (ofLine line).closes : Nat) : Int) =
        d + (ofLine line).delta := by
      rw [delta]
      omega
    rw [if_neg hclosed, Place.atDepth, if_pos hplace, Place.wrapper, hdepth]

section Step
variable {s s' : State} {line : Text} {k : Option Text}

theorem Step.isProper (h : Step s line s' k) (hs : s.place.IsProper) : s'.place.IsProper := by
  cases h with
  | declaration => exact hs
  | wholeFile => exact hs
  | header => exact State.isProper_enter line
  | outside => trivial
  | opener => exact Nat.one_pos
  | gap => trivial
  | closer => trivial
  | inside => exact Place.isProper_atDepth _ _

/-- A line is either kept, with the braces it has, or dropped. -/
theorem Step.depth_eq (h : Step s line s' k) (hs : AllBlank s.indent) :
    depth k.toList + depth (if k.isNone then [line] else []) = (ofLine line).delta := by
  cases k with
  | none => simp
  | some l =>
    obtain ⟨_, _, a, ha, hline⟩ := h.exists_of_kept hs
    simp [hline, ofLine_append ha]

/-- A line without a namespace belongs to the wrapper if it is dropped and declares nothing. -/
theorem Step.wrapper_eq (h : Step s line s' k) (hs : s.place.IsProper)
    (hn : Namespace.ofLine? line = none)
    (hu : (Using.any? line).isSome → (ofLine line).delta = 0) (rest : List Text) :
    s.place.wrapper (line :: rest) =
      withoutUsings (if k.isNone then [line] else []) ++ s'.place.wrapper rest := by
  cases h with
  | declaration hany =>
    rw [Place.wrapper_of_using hs hany (hu (by rw [hany]; rfl))]
    simp [withoutUsings, hany]
  | wholeFile h => rw [hn] at h; contradiction
  | header h => rw [hn] at h; contradiction
  | outside => rfl
  | opener hcode =>
    have hany := Using.any?_eq_none_of_code hcode (by decide) (by decide)
    simp [withoutUsings, hany, Place.wrapper, opening, hcode]
  | gap _ _ hcode => simp [withoutUsings, Place.wrapper, opening, hcode]
  | closer hcode =>
    have hany := Using.any?_eq_none_of_code hcode (by decide) (by decide)
    simp [withoutUsings, hany, Place.wrapper, closing, hcode, delta_of_code_close hcode]
  | inside _ _ hcode => exact closing_cons hs hcode rest

end Step

theorem depth_withoutUsings {lines : List Text}
    (hu : ∀ line ∈ lines, (Using.any? line).isSome → (ofLine line).delta = 0) :
    depth (withoutUsings lines) = depth lines := by
  apply depth_filter
  intro line hline h
  apply hu line hline
  rw [← Option.not_isNone, h]
  rfl

theorem State.depth_kept (s : State) (hs : AllBlank s.indent) (lines : List Text) :
    depth (s.kept lines) + depth (s.dropped lines) = depth lines := by
  induction lines generalizing s with
  | nil => rfl
  | cons line rest ih =>
    have hstep := step_next s line
    have hline := hstep.depth_eq hs
    have hrest := ih (s.next line).1 (hstep.allBlank hs)
    rw [kept, dropped, depth_append, depth_append, depth_cons]
    omega

/-- A block is no deeper than what `y` braces cover, and before a block no less is covered than was
by `x` of them. -/
def Place.HasRoom : Place → Int → Int → Prop
  | .fileLevel, _, _ => True
  | .beforeBrace, x, y => x ≤ y
  | .inBlock depth, _, y => depth - 1 ≤ y

theorem Place.hasRoom_atDepth {opened closed : Nat} {y : Int} (h : opened - closed - 1 ≤ y)
    (x : Int) : (atDepth opened closed).HasRoom x y := by
  unfold atDepth
  split
  · show ((opened - closed : Nat) : Int) - 1 ≤ y
    omega
  · trivial

/-- With `x` braces open before some lines and `y` before what is kept of them, the wrapper can go. -/
structure Place.Affords (p : Place) (x y : Int) (lines : List Text) : Prop where
  depth_le : x + depth (p.wrapper lines) ≤ y
  room : p.HasRoom x y

theorem Place.Affords.nonneg {p : Place} {x y : Int} {lines : List Text} (h : p.Affords x y lines)
    (hp : p.IsProper) (hx : 0 ≤ x) : 0 ≤ y := by
  obtain ⟨hdepth, hroom⟩ := h
  cases p with
  | fileLevel =>
    simp only [wrapper, depth_nil] at hdepth
    omega
  | beforeBrace => exact Int.le_trans hx hroom
  | inBlock d =>
    have hd : 0 < d := hp
    have hroom : (d : Int) - 1 ≤ y := hroom
    omega

theorem Step.affords {s s' : State} {line : Text} {k : Option Text} {rest : List Text} {x y : Int}
    (h : Step s line s' k) (hs : s.place.IsProper) (hb : AllBlank s.indent)
    (hn : Namespace.ofLine? line = none)
    (hu : (Using.any? line).isSome → (ofLine line).delta = 0) (hx : 0 ≤ x)
    (ha : s.place.Affords x y (line :: rest)) :
    s'.place.Affords (x + (ofLine line).delta) (y + depth k.toList) rest := by
  have hy := ha.nonneg hs hx
  obtain ⟨hdepth, hroom⟩ := ha
  have hline := h.depth_eq hb
  have hdrop : depth (withoutUsings (if k.isNone then [line] else [])) =
      depth (if k.isNone then [line] else []) := by
    apply depth_withoutUsings
    intro l hl
    split at hl
    · rwa [List.mem_singleton.mp hl]
    · contradiction
  -- A line adds less to `y` than to `x` by just the depth that it takes from the wrapper.
  rw [h.wrapper_eq hs hn hu rest, depth_append, hdrop] at hdepth
  refine ⟨by omega, ?_⟩
  cases h with
  | declaration hany =>
    rw [hu (by rw [hany]; rfl), Option.toList_none, depth_nil, Int.add_zero, Int.add_zero]
    exact hroom
  | wholeFile h => rw [hn] at h; contradiction
  | header h => rw [hn] at h; contradiction
  | outside => trivial
  | opener =>
    show ((1 : Nat) : Int) - 1 ≤ _
    simp only [Option.toList_none, depth_nil]
    omega
  | gap =>
    have hroom : x ≤ y := hroom
    show x + (ofLine line).delta ≤ _
    simp only [Option.isNone_some, Bool.false_eq_true, if_false, depth_nil] at hline
    omega
  | closer => trivial
  | @inside w line d =>
    have hroom : (d : Int) - 1 ≤ y := hroom
    apply Place.hasRoom_atDepth
    simp only [Option.isNone_some, Bool.false_eq_true, if_false, depth_nil, delta] at hline
    omega

theorem neg_one_le_closing (n : Int) (lines : List Text) : -1 ≤ depth (closing n lines) := by
  fun_induction closing n lines with
  | case1 => decide
  | case2 n line rest hle hcode => simp [delta_of_code_close hcode]
  | case3 => decide
  | case4 n line rest hle ih => exact ih

theorem neg_one_le_wrapper_atDepth (opened closed : Nat) (lines : List Text) :
    -1 ≤ depth ((Place.atDepth opened closed).wrapper lines) := by
  unfold Place.atDepth
  split
  · exact neg_one_le_closing _ lines
  · show -1 ≤ depth []
    decide

/-- The lines after a header can do without a wrapper that closes what it opens. -/
theorem affords_enter {line : Text} {rest : List Text} {x : Int} (hx : 0 ≤ x)
    (h : (ofLine line).delta + depth ((State.enter line).place.wrapper rest) = 0) :
    (State.enter line).place.Affords (x + (ofLine line).delta) x rest := by
  refine ⟨by omega, ?_⟩
  simp only [State.enter] at h ⊢
  split
  · rename_i hopens
    show x + (ofLine line).delta ≤ x
    rw [delta, hopens]
    omega
  · rename_i hopens
    rw [if_neg hopens, delta] at h
    have hwrapper := neg_one_le_wrapper_atDepth (ofLine line).opens (ofLine line).closes rest
    apply Place.hasRoom_atDepth
    omega

theorem covers_toList {y : Int} {k : Option Text} (hy : 0 ≤ y) (hk : 0 ≤ y + depth k.toList) :
    Covers y k.toList := by
  cases k with
  | none => exact hy
  | some l =>
    refine ⟨hy, ?_⟩
    simpa [Covers] using hk

theorem State.mem_of_mem_dropped {s : State} {lines : List Text} {line : Text}
    (h : line ∈ s.dropped lines) : line ∈ lines := by
  induction lines generalizing s with
  | nil => contradiction
  | cons first rest ih =>
    rcases List.mem_append.mp h with h | h
    · split at h
      · exact List.mem_singleton.mp h ▸ List.mem_cons_self
      · contradiction
    · exact List.mem_cons_of_mem first (ih h)

section Run
variable {lines : List Text} {w : Text}
  (hn : ∀ line ∈ lines, Namespace.ofLine? line = none)
  (hu : ∀ line ∈ lines, (Using.any? line).isSome → (ofLine line).delta = 0)
include hn hu

theorem State.dropped_eq {s : State} (hs : s.place.IsProper) :
    withoutUsings (s.dropped lines) = s.place.wrapper lines := by
  induction lines generalizing s with
  | nil =>
    obtain ⟨place, w⟩ := s
    cases place <;> rfl
  | cons line rest ih =>
    have hstep := step_next s line
    have hline := hstep.wrapper_eq hs (hn line List.mem_cons_self) (hu line List.mem_cons_self) rest
    have hrest := ih (fun l hl => hn l (List.mem_cons_of_mem line hl))
      (fun l hl => hu l (List.mem_cons_of_mem line hl)) (hstep.isProper hs)
    rw [dropped, withoutUsings_append, hrest, hline]

theorem State.covers_kept {s : State} (hs : s.place.IsProper) (hb : AllBlank s.indent) {x y : Int}
    (hx : Covers x lines) (h : s.place.Affords x y lines) : Covers y (s.kept lines) := by
  induction lines generalizing s x y with
  | nil => exact h.nonneg hs hx
  | cons line rest ih =>
    have hstep := step_next s line
    have hnext := hstep.affords hs hb (hn line List.mem_cons_self) (hu line List.mem_cons_self)
      hx.nonneg h
    have hrest := ih (fun l hl => hn l (List.mem_cons_of_mem line hl))
      (fun l hl => hu l (List.mem_cons_of_mem line hl)) (hstep.isProper hs) (hstep.allBlank hb)
      hx.2 hnext
    exact covers_append.mpr ⟨covers_toList (h.nonneg hs hx.nonneg) hrest.nonneg, hrest⟩

end Run

/-- The lines that declare a namespace. -/
def namespaceCount (lines : List Text) : Nat :=
  lines.countP fun line => (Namespace.ofLine? line).isSome

theorem namespaceCount_cons_of_none {line : Text} (h : Namespace.ofLine? line = none)
    (rest : List Text) : namespaceCount (line :: rest) = namespaceCount rest := by
  simp [namespaceCount, h]

theorem ofLine?_eq_none_of_mem {line : Text} {n : Namespace} {rest : List Text}
    (h : Namespace.ofLine? line = some n) (hcount : namespaceCount (line :: rest) ≤ 1) :
    ∀ l ∈ rest, Namespace.ofLine? l = none := by
  have hrest : namespaceCount rest = 0 := by
    simp only [namespaceCount, List.countP_cons, h, Option.isSome_some, if_true] at hcount
    exact Nat.le_zero.mp (Nat.le_of_succ_le_succ hcount)
  intro l hl
  simpa using List.countP_eq_zero.mp hrest l hl

section File
variable {lines : List Text} {w : Text} (hcount : namespaceCount lines ≤ 1)
  (hu : ∀ line ∈ lines, (Using.any? line).isSome → (ofLine line).delta = 0)
include hcount hu

/-- Beside using declarations exactly the wrapper is dropped. -/
theorem State.dropped_fileLevel : withoutUsings (dropped ⟨.fileLevel, w⟩ lines) = wrapper lines := by
  induction lines with
  | nil => rfl
  | cons line rest ih =>
    have hrest := fun l hl => hu l (List.mem_cons_of_mem line hl)
    cases hn : Namespace.ofLine? line with
    | none =>
      rw [namespaceCount_cons_of_none hn] at hcount
      have hdrop := ih hcount hrest
      cases hany : Using.any? line with
      | some clause =>
        simp [dropped, next_of_using hany, withoutUsings_cons_of_some hany, hdrop, wrapper, hn]
      | none => simp [dropped, next_of_content hany hn, content, hdrop, wrapper, hn]
    | some n =>
      have hnone := ofLine?_eq_none_of_mem hn hcount
      have hany := Using.any?_eq_none_of_ofLine? hn
      obtain ⟨name, extent⟩ := n
      cases extent with
      | wholeFile =>
        have hdrop : withoutUsings (dropped ⟨.fileLevel, w⟩ rest) = [] :=
          dropped_eq hnone hrest trivial
        simp [dropped, next_of_wholeFile hn, withoutUsings_cons_of_none hany, hdrop, wrapper, hn]
      | block =>
        have hdrop := dropped_eq hnone hrest (isProper_enter line)
        simp [dropped, next_of_block hn, withoutUsings_cons_of_none hany, hdrop, wrapper, hn]

theorem State.covers_fileLevel (hw : AllBlank w) {x : Int} (hx : Covers x lines)
    (h : depth (wrapper lines) = 0) : Covers x (kept ⟨.fileLevel, w⟩ lines) := by
  induction lines generalizing x with
  | nil => exact hx
  | cons line rest ih =>
    have hrest := fun l hl => hu l (List.mem_cons_of_mem line hl)
    cases hn : Namespace.ofLine? line with
    | none =>
      rw [namespaceCount_cons_of_none hn] at hcount
      simp only [wrapper, hn] at h
      have hkept := ih hcount hrest hx.2 h
      cases hany : Using.any? line with
      | some clause =>
        have hdelta := hu line List.mem_cons_self (by rw [hany]; rfl)
        rw [hdelta, Int.add_zero] at hkept
        simpa [kept, next_of_using hany] using hkept
      | none => simpa [kept, next_of_content hany hn, content] using ⟨hx.1, hkept⟩
    | some n =>
      have hnone := ofLine?_eq_none_of_mem hn hcount
      obtain ⟨name, extent⟩ := n
      cases extent with
      | wholeFile =>
        simp only [wrapper, hn, depth_cons, depth_nil] at h
        have hkept := covers_kept hnone hrest (s := ⟨.fileLevel, w⟩) (y := x) trivial hw hx.2
          ⟨by simp only [Place.wrapper, depth_nil]; omega, trivial⟩
        simpa [kept, next_of_wholeFile hn] using hkept
      | block =>
        simp only [wrapper, hn, depth_cons] at h
        have hkept := covers_kept hnone hrest (y := x) (isProper_enter line)
          (allBlank_leadingIndent line) hx.2 (affords_enter hx.nonneg h)
        simpa [kept, next_of_block hn] using hkept

end File

end Unwrap

open Unwrap Braces Text

/-- Unwrapping keeps a balanced file balanced exactly if its wrapper closes what it opens. -/
theorem Source.balanced_unwrapped {source : Source} (hcount : namespaceCount source.lines ≤ 1)
    (hu : ∀ line ∈ source.lines, (Using.any? line).isSome → (ofLine line).delta = 0)
    (h : Balanced source.lines) :
    Balanced source.unwrapped.lines ↔ depth (wrapper source.lines) = 0 := by
  have hdropped : depth (wrapper source.lines) = depth (State.start.dropped source.lines) := by
    rw [← State.dropped_fileLevel (w := []) hcount hu]
    exact depth_withoutUsings fun line hline => hu line (State.mem_of_mem_dropped hline)
  have hkept : depth source.unwrapped.lines + depth (wrapper source.lines) = 0 := by
    rw [hdropped, ← h.depth_eq]
    exact State.depth_kept .start allBlank_nil source.lines
  constructor
  · intro hbody
    rw [hbody.depth_eq] at hkept
    omega
  · intro hwrapper
    refine ⟨State.covers_fileLevel hcount hu allBlank_nil h.covers hwrapper, ?_⟩
    omega

end SourceMerge
