import Mathlib.Algebra.Group.Nat.Even
import SourceMerge.Proofs.Braces.Lexer

/-! The two spellings of the opener of an interpolated verbatim literal. With the dollar sign in
front, the scan meets the opener of a verbatim literal; with the at sign in front, it meets the
quote of a regular literal, in which a backslash hides the quote behind it. The two are scanned
alike as long as no quote stands behind an odd number of backslashes, and else only if what follows
happens to hold the same braces inside and outside of a literal. -/
namespace SourceMerge.Braces
open Text

def dollarFirst : Text := ['$', '@', '"']

def atFirst : Text := ['@', '$', '"']

/-- Whether a verbatim literal has a quote behind an odd number of backslashes, when its text is
read from behind backslashes whose number is odd or not. The quote that closes it counts, and of a
doubled quote the first one. -/
def escapesQuote (odd : Bool) : Text → Bool
  | [] => false
  | '"' :: '"' :: t => odd || escapesQuote false t
  | '"' :: _ => odd
  | '\\' :: t => escapesQuote (!odd) t
  | _ :: t => escapesQuote false t

/-- The braces of a line whose first part has some and ends in code, and whose second part has
others. -/
def followedBy (b b' : Braces) : Braces := ⟨b.opens + b'.opens, b.closes + b'.closes, b'.comment⟩

namespace Reader
variable {r : Reader}

theorem readAll_dollarFirst (h : r.mode.isCode = true) :
    r.readAll dollarFirst = ⟨.verbatim, r.braces⟩ := by
  obtain ⟨mode, b⟩ := r
  cases mode <;>
    first
    | contradiction
    | simp [dollarFirst, read, count, Mode.next, Mode.ofCode]

theorem readAll_atFirst (h : r.mode.isCode = true) :
    r.readAll atFirst = ⟨.literal '"', r.braces⟩ := by
  obtain ⟨mode, b⟩ := r
  cases mode <;>
    first
    | contradiction
    | simp [atFirst, read, count, Mode.next, Mode.ofCode]

theorem braces_readAll_code {b : Braces} (h : b.comment = []) (t : Text) :
    (readAll ⟨.code, b⟩ t).braces = b.followedBy (ofLine t) := by
  obtain ⟨opens, closes, comment⟩ := b
  obtain rfl : comment = [] := h
  rw [← countFrom_eq]
  exact countFrom_add opens closes 0 0 t

/-- A regular and a verbatim literal have the same braces behind them, if the one is left at every
quote at which the other one is. -/
theorem braces_readAll_literal {odd : Bool} {t : Text} (h : escapesQuote odd t = false)
    (b : Braces) :
    (readAll ⟨if odd then .escape '"' else .literal '"', b⟩ t).braces =
      (readAll ⟨.verbatim, b⟩ t).braces := by
  fun_induction escapesQuote odd t with
  | case1 => rfl
  | case2 odd t ih =>
    -- Behind a doubled quote the regular literal is one that has been closed and opened again.
    obtain ⟨rfl, h⟩ := Bool.or_eq_false_iff.mp h
    have ih := ih h
    simpa [read, count, Mode.next, Mode.ofCode, Mode.isCode] using ih
  | case3 odd t hpair =>
    -- A quote that no second one follows ends both literals, the verbatim one only when the next
    -- character is seen.
    subst h
    rw [readAll_cons, readAll_cons]
    refine braces_readAll_congr (by simp [read, count, Mode.isCode]) fun c hc => ?_
    have hquote : c ≠ '"' := ne_of_mem_head? hpair hc
    simp [read, count, Mode.next, Mode.isCode, hquote]
  | case4 odd t ih =>
    have ih := ih h
    cases odd <;> simpa [read, count, Mode.next, Mode.isCode] using ih
  | case5 odd c t _ hquote hescape ih =>
    have hc : c ≠ '"' := fun hc => hquote hc
    have hc' : c ≠ '\\' := fun hc => hescape hc
    have ih := ih h
    cases odd <;> simpa [read, count, Mode.next, Mode.isCode, hc, hc'] using ih

variable (b : Braces) {text : Text}

/-- Without a quote a literal stays open, and nothing in it counts. -/
theorem readAll_unquoted (hr : r.mode = .literal '"' ∨ r.mode = .escape '"') (h : '"' ∉ text) :
    (r.readAll text).braces = r.braces ∧
      ((r.readAll text).mode = .literal '"' ∨ (r.readAll text).mode = .escape '"') := by
  induction text generalizing r with
  | nil => exact ⟨rfl, hr⟩
  | cons c t ih =>
    obtain ⟨hc, ht⟩ : '"' ≠ c ∧ '"' ∉ t := by simpa using h
    have hbraces : r.count c = r.braces := by
      rcases hr with hr | hr <;> simp [count, hr, Mode.isCode]
    have hmode : r.mode.next c = .literal '"' ∨ r.mode.next c = .escape '"' := by
      rcases hr with hr | hr
      · rw [hr, Mode.next, if_neg hc.symm]
        split <;> simp
      · rw [hr]
        exact .inl rfl
    obtain ⟨hrest, hmoderest⟩ := ih (r := r.read c) hmode ht
    exact ⟨hrest.trans hbraces, hmoderest⟩

/-- Behind a character that is no backslash the next one is not hidden. -/
theorem readAll_unescaped (h : '"' ∉ text) (hend : text.getLast? ≠ some '\\') :
    readAll ⟨.literal '"', b⟩ text = ⟨.literal '"', b⟩ := by
  rcases List.eq_nil_or_concat text with rfl | ⟨t, c, rfl⟩
  · rfl
  · rw [List.concat_eq_append] at h hend ⊢
    obtain ⟨ht, hc⟩ : '"' ∉ t ∧ '"' ≠ c := by simpa using h
    have hc' : c ≠ '\\' := by simpa using hend
    obtain ⟨hbraces, hmode⟩ := readAll_unquoted (r := ⟨.literal '"', b⟩) (.inl rfl) ht
    rw [readAll_append]
    generalize readAll ⟨.literal '"', b⟩ t = r at hbraces hmode
    obtain ⟨mode, b'⟩ := r
    obtain rfl : b' = b := hbraces
    rcases hmode with rfl | rfl <;> simp [read, count, Mode.next, Mode.isCode, hc.symm, hc']

theorem readAll_backslashes (n : Nat) :
    readAll ⟨.literal '"', b⟩ (List.replicate n '\\') =
      ⟨if Even n then .literal '"' else .escape '"', b⟩ := by
  induction n with
  | zero => rfl
  | succ n ih =>
    rw [List.replicate_succ', readAll_append, ih]
    by_cases hn : Even n <;>
      simp [read, count, Mode.next, Mode.isCode, hn, Nat.even_add_one]

end Reader

section Line
variable {front : Text} (h : (Mode.after front).isCode = true) (rest : Text)
include h

theorem ofLine_append_of_isCode {opener : Text} {m : Mode}
    (hopener : ∀ r : Reader, r.mode.isCode = true → r.readAll opener = ⟨m, r.braces⟩) :
    ofLine (front ++ (opener ++ rest)) = (Reader.readAll ⟨m, ofLine front⟩ rest).braces := by
  have hmode := h
  rw [← Reader.mode_start] at hmode
  rw [Reader.ofLine_eq, Reader.readAll_append, Reader.readAll_append, hopener _ hmode,
    ← Reader.ofLine_eq]

/-- With the dollar sign in front a verbatim literal is scanned. -/
theorem ofLine_dollarFirst :
    ofLine (front ++ (dollarFirst ++ rest)) =
      (ofLine front).followedBy (ofLine (afterVerbatim rest)) := by
  rw [ofLine_append_of_isCode h rest fun _ => Reader.readAll_dollarFirst, Reader.readAll_verbatim,
    Reader.braces_readAll_code (comment_of_isCode h)]

/-- With the at sign in front a regular literal is scanned. -/
theorem ofLine_atFirst :
    ofLine (front ++ (atFirst ++ rest)) =
      (ofLine front).followedBy (ofLine (afterLiteral '"' rest)) := by
  rw [ofLine_append_of_isCode h rest fun _ => Reader.readAll_atFirst, Reader.readAll_literal,
    Reader.braces_readAll_code (comment_of_isCode h)]

end Line

theorem ofLine_afterLiteral {t : Text} (h : escapesQuote false t = false) :
    ofLine (afterLiteral '"' t) = ofLine (afterVerbatim t) := by
  have hbraces := Reader.braces_readAll_literal h ⟨0, 0, []⟩
  rw [if_neg (by decide), Reader.readAll_literal, Reader.readAll_verbatim, ← countFrom_eq,
    ← countFrom_eq] at hbraces
  exact hbraces

section Backslashes
variable {text behind : Text} {n : Nat}

/-- A regular literal is left at a quote if the number of backslashes before it is even. -/
theorem ofLine_afterLiteral_backslashes (h : '"' ∉ text) (hend : text.getLast? ≠ some '\\') :
    ofLine (afterLiteral '"' (text ++ (List.replicate n '\\' ++ '"' :: behind))) =
      if Even n then ofLine behind else ofLine (afterLiteral '"' behind) := by
  have hread (t : Text) : ofLine (afterLiteral '"' t) =
      (Reader.readAll ⟨.literal '"', ⟨0, 0, []⟩⟩ t).braces := by
    rw [Reader.readAll_literal, ← countFrom_eq]
    rfl
  rw [hread, Reader.readAll_append, Reader.readAll_unescaped _ h hend, Reader.readAll_append,
    Reader.readAll_backslashes]
  by_cases hn : Even n
  · simp only [if_pos hn]
    exact (countFrom_eq 0 0 behind).symm
  · simp only [if_neg hn]
    rw [hread]
    rfl

/-- A verbatim literal is left at its first single quote, whatever backslashes stand before it. -/
theorem afterVerbatim_backslashes (h : '"' ∉ text) (hbehind : behind.head? ≠ some '"') :
    afterVerbatim (text ++ (List.replicate n '\\' ++ '"' :: behind)) = behind := by
  have hplain {t : Text} (ht : '"' ∉ t) (u : Text) : afterVerbatim (t ++ u) = afterVerbatim u := by
    induction t with
    | nil => rfl
    | cons c t ih =>
      obtain ⟨hc, ht⟩ : '"' ≠ c ∧ '"' ∉ t := by simpa using ht
      rw [List.cons_append, afterVerbatim_cons hc.symm, ih ht]
  have hbackslashes : '"' ∉ List.replicate n '\\' := fun hmem =>
    absurd (List.eq_of_mem_replicate hmem) (by decide)
  rw [hplain h, hplain hbackslashes, afterVerbatim_quote hbehind]

end Backslashes

theorem followedBy_inj {b b₁ b₂ : Braces} (h : b.followedBy b₁ = b.followedBy b₂) : b₁ = b₂ := by
  obtain ⟨o₁, c₁, t₁⟩ := b₁
  obtain ⟨o₂, c₂, t₂⟩ := b₂
  simpa [followedBy] using h

end SourceMerge.Braces

namespace SourceMerge.ByteScan
open Braces

/-- Lines with equally many bytes whose comments end the same text are scanned alike if and only if
they have the same braces and the same comment. -/
theorem ofLine_eq_ofLine_iff {line line' t : Text} (hsize : Utf8.size line = Utf8.size line')
    (h : (Braces.ofLine line).comment <:+ t) (h' : (Braces.ofLine line').comment <:+ t) :
    ofLine line = ofLine line' ↔ Braces.ofLine line = Braces.ofLine line' := by
  have hline := size_eq line
  have hline' := size_eq line'
  rw [ofLine_eq, ofLine_eq, ByteScan.mk.injEq]
  constructor
  · rintro ⟨hopens, hcloses, hcode⟩
    have hcomment := Utf8.eq_of_suffix h h' (by omega)
    exact Braces.mk.injEq .. |>.mpr ⟨hopens, hcloses, hcomment⟩
  · intro hbraces
    rw [hbraces] at hline ⊢
    exact ⟨rfl, rfl, by omega⟩

theorem ofLine_atFirst_iff {front : Text} (h : (Mode.after front).isCode = true) (rest : Text) :
    ofLine (front ++ (atFirst ++ rest)) = ofLine (front ++ (dollarFirst ++ rest)) ↔
      Braces.ofLine (afterLiteral '"' rest) = Braces.ofLine (afterVerbatim rest) := by
  have hsize : Utf8.size (front ++ (atFirst ++ rest)) =
      Utf8.size (front ++ (dollarFirst ++ rest)) := by
    have hopener : Utf8.size atFirst = Utf8.size dollarFirst := by decide
    rw [Utf8.size, Utf8.size] at hopener ⊢
    simp only [Utf8.encode_append, List.length_append, hopener]
  have hat := ofLine_atFirst h rest
  have hdollar := ofLine_dollarFirst h rest
  rw [ofLine_eq_ofLine_iff hsize (t := rest), hat, hdollar]
  · exact ⟨followedBy_inj, fun heq => by rw [heq]⟩
  · rw [hat]
    exact (comment_suffix 0 0 _).trans (afterLiteral_suffix '"' rest)
  · rw [hdollar]
    exact (comment_suffix 0 0 _).trans (afterVerbatim_suffix rest)

/-- Put in the place of the other spelling where code is read, the at sign in front changes no
number of the scan if and only if what follows has the same braces and comment behind a regular
literal as behind a verbatim one. It has, if no quote of the literal stands behind an odd number of
backslashes. For a literal with one quote, the one that closes it, this is the only way, unless the
braces and the comment behind it are those that it would have inside of a literal. -/
theorem ofLine_respelled_iff {front : Text} (h : (Mode.after front).isCode = true) (rest : Text) :
    (ofLine (front ++ (atFirst ++ rest)) = ofLine (front ++ (dollarFirst ++ rest)) ↔
        Braces.ofLine (afterLiteral '"' rest) = Braces.ofLine (afterVerbatim rest)) ∧
      (escapesQuote false rest = false →
        ofLine (front ++ (atFirst ++ rest)) = ofLine (front ++ (dollarFirst ++ rest))) ∧
      ∀ (text : Text) (n : Nat) (behind : Text),
        rest = text ++ (List.replicate n '\\' ++ '"' :: behind) → '"' ∉ text →
        text.getLast? ≠ some '\\' → behind.head? ≠ some '"' →
        afterVerbatim rest = behind ∧
          (ofLine (front ++ (atFirst ++ rest)) = ofLine (front ++ (dollarFirst ++ rest)) ↔
            Even n ∨ Braces.ofLine (afterLiteral '"' behind) = Braces.ofLine behind) := by
  have hiff := ofLine_atFirst_iff h rest
  refine ⟨hiff, fun hescape => hiff.mpr (ofLine_afterLiteral hescape), ?_⟩
  rintro text n behind hrest htext hend hbehind
  have hverbatim : afterVerbatim rest = behind := by
    rw [hrest, afterVerbatim_backslashes htext hbehind]
  refine ⟨hverbatim, ?_⟩
  rw [hiff, hverbatim, hrest, ofLine_afterLiteral_backslashes htext hend]
  by_cases hn : Even n <;> simp [hn]

def assignment : Text := "var s = ".toList

/-- A backslash inside of the literal does no harm, and one at its end hides the brace behind it. -/
theorem ofLine_respelled_iff_backslash :
    ofLine (assignment ++ (atFirst ++ "a\\b\"; \x7b".toList)) =
        ofLine (assignment ++ (dollarFirst ++ "a\\b\"; \x7b".toList)) ∧
      ofLine (assignment ++ (atFirst ++ "ab\\\"; \x7b".toList)) ≠
        ofLine (assignment ++ (dollarFirst ++ "ab\\\"; \x7b".toList)) := by
  have hcode : (Mode.after assignment).isCode = true := by decide
  refine ⟨(ofLine_respelled_iff hcode _).2.1 (by decide), fun hsame => ?_⟩
  have hplain := (ofLine_respelled_iff hcode "ab\\\"; \x7b".toList).2.2 ['a', 'b'] 1
    "; \x7b".toList (by decide) (by decide) (by decide) (by decide)
  rcases hplain.2.mp hsame with heven | hbraces
  · exact absurd heven (by decide)
  · revert hbraces
    decide +kernel

/-- The two spellings are not always scanned alike. -/
theorem not_forall_ofLine_respelled :
    ¬ ∀ front rest : Text, (Mode.after front).isCode = true →
      ofLine (front ++ (atFirst ++ rest)) = ofLine (front ++ (dollarFirst ++ rest)) := by
  intro h
  have hsame := (ofLine_atFirst_iff rfl _).mp (h [] "\\\" \x7b".toList rfl)
  revert hsame
  decide +kernel

end SourceMerge.ByteScan
