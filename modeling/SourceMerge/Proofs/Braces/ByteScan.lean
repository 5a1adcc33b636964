import SourceMerge.Braces.ByteScan
import SourceMerge.Proofs.Braces.Counting
import SourceMerge.Proofs.Text.Bytes

/-! The index that moves over the bytes of a line is a reader of the same bytes taken as characters
of their own. Each loop leaves it where the part of the line that the loop is for has ended. -/
namespace SourceMerge
namespace ByteScan
open Utf8 Braces
variable {bytes : Array UInt8} {i : Nat} {c : Char}

theorem isAt_iff (hc : c.toNat < 0x80) :
    isAt bytes i c = true ↔ ((asChars bytes.toList).drop i).head? = some c := by
  rw [isAt, List.head?_drop, asChars, List.getElem?_map, Array.getElem?_toList]
  cases bytes[i]? with
  | none => simp
  | some b => simp [ofNat_toNat_eq_iff hc]

theorem drop_of_isAt (hc : c.toNat < 0x80) (h : isAt bytes i c = true) :
    (asChars bytes.toList).drop i = c :: (asChars bytes.toList).drop (i + 1) := by
  obtain ⟨rest, hrest⟩ := List.head?_eq_some_iff.mp ((isAt_iff hc).mp h)
  rw [← List.tail_drop, hrest]
  rfl

theorem isAt_of_drop {t : Text} (hc : c.toNat < 0x80)
    (h : (asChars bytes.toList).drop i = c :: t) : isAt bytes i c = true :=
  (isAt_iff hc).mpr (by rw [h]; rfl)

theorem exists_drop (h : i < bytes.size) :
    ∃ c, (asChars bytes.toList).drop i = c :: (asChars bytes.toList).drop (i + 1) := by
  rw [← Array.length_toList, ← length_asChars] at h
  exact ⟨_, List.drop_eq_getElem_cons h⟩

theorem drop_eq_nil (h : bytes.size ≤ i) : (asChars bytes.toList).drop i = [] := by
  rw [List.drop_eq_nil_iff, length_asChars]
  exact h

theorem drop_blockCommentEnd (bytes : Array UInt8) (i : Nat) :
    (asChars bytes.toList).drop (blockCommentEnd bytes i + 2) =
      afterBlockComment ((asChars bytes.toList).drop i) := by
  fun_induction blockCommentEnd bytes i with
  | case1 i h ih =>
    obtain ⟨c, hc⟩ := exists_drop h.1
    rw [ih, hc, afterBlockComment_cons]
    rintro ⟨rfl, hslash⟩
    exact h.2 ⟨isAt_of_drop (by decide) hc, (isAt_iff (by decide)).mpr hslash⟩
  | case2 i h =>
    by_cases hi : i < bytes.size
    · obtain ⟨hstar, hslash⟩ : isAt bytes i '*' ∧ isAt bytes (i + 1) '/' := by simpa [hi] using h
      rw [drop_of_isAt (by decide) hstar, drop_of_isAt (by decide) hslash]
      rfl
    · rw [drop_eq_nil (by omega), drop_eq_nil (by omega)]
      rfl

theorem drop_verbatimEnd (bytes : Array UInt8) (i : Nat) :
    (asChars bytes.toList).drop (verbatimEnd bytes i + 1) =
      afterVerbatim ((asChars bytes.toList).drop i) := by
  fun_induction verbatimEnd bytes i with
  | case1 i _ hquote hnext ih =>
    rw [ih, drop_of_isAt (by decide) hquote, drop_of_isAt (by decide) hnext]
    rfl
  | case2 i _ hquote hnext =>
    rw [drop_of_isAt (by decide) hquote, afterVerbatim_quote]
    exact fun h => hnext ((isAt_iff (by decide)).mpr h)
  | case3 i hi hquote ih =>
    obtain ⟨c, hc⟩ := exists_drop hi
    rw [ih, hc, afterVerbatim_cons]
    rintro rfl
    exact hquote (isAt_of_drop (by decide) hc)
  | case4 i hi =>
    rw [drop_eq_nil (by omega), drop_eq_nil (by omega)]
    rfl

theorem drop_literalEnd {quote : Char} (hascii : quote.toNat < 0x80) (bytes : Array UInt8)
    (i : Nat) :
    (asChars bytes.toList).drop (literalEnd quote bytes i + 1) =
      afterLiteral quote ((asChars bytes.toList).drop i) := by
  fun_induction literalEnd quote bytes i with
  | case1 i h ih =>
    obtain ⟨c, hc⟩ := exists_drop h.1
    have hquote : c ≠ quote := by
      rintro rfl
      exact h.2 (isAt_of_drop hascii hc)
    have hescape : isAt bytes i '\\' = true ↔ c = '\\' := by
      rw [isAt_iff (by decide), hc]
      simp
    simp only [dite_eq_ite] at ih
    rw [ih, hc]
    -- A backslash at the end of the line takes the index one place further than there are bytes.
    cases hrest : (asChars bytes.toList).drop (i + 1) with
    | nil =>
      have hnil :
          (asChars bytes.toList).drop (if isAt bytes i '\\' then i + 2 else i + 1) = [] := by
        split
        · rw [← List.tail_drop, hrest]
          rfl
        · exact hrest
      rw [hnil]
      rfl
    | cons d t =>
      rw [afterLiteral, if_neg hquote]
      by_cases hc' : c = '\\'
      · rw [if_pos hc', if_pos (hescape.mpr hc'), ← List.tail_drop, hrest]
        rfl
      · rw [if_neg hc', if_neg (fun h => hc' (hescape.mp h)), hrest]
  | case2 i h =>
    by_cases hi : i < bytes.size
    · have hquote : isAt bytes i quote = true := by simpa [hi] using h
      rw [drop_of_isAt hascii hquote]
      cases (asChars bytes.toList).drop (i + 1) with
      | nil => rfl
      | cons d t => rw [afterLiteral, if_pos rfl]
    · rw [drop_eq_nil (by omega), drop_eq_nil (by omega)]
      rfl

/-- The braces of a line that has a number of bytes, with its comment as the bytes left for it. -/
def ofBraces (size : Nat) (b : Braces) : ByteScan := ⟨b.opens, b.closes, size - b.comment.length⟩

/-- From every index in the code the index reads the same braces as a reader of characters. -/
theorem scanFrom_eq (bytes : Array UInt8) (opens closes i : Nat) :
    scanFrom bytes opens closes i =
      ofBraces bytes.size (countFrom opens closes ((asChars bytes.toList).drop i)) := by
  fun_induction scanFrom bytes opens closes i with
  | case1 o cl i hi h =>
    have hlength : (asChars bytes.toList).length = bytes.size := length_asChars bytes.toList
    have hrest := congrArg List.length (drop_of_isAt (by decide) h.2)
    rw [drop_of_isAt (by decide) h.1, drop_of_isAt (by decide) h.2, countFrom, ofBraces]
    simp only [List.length_cons, List.length_drop] at hrest ⊢
    congr 1
    omega
  | case2 o cl i hi _ h ih =>
    rw [ih, drop_of_isAt (by decide) h.1, drop_of_isAt (by decide) h.2, countFrom,
      drop_blockCommentEnd]
  | case3 o cl i hi _ _ h ih =>
    rw [ih, drop_of_isAt (by decide) h.1, drop_of_isAt (by decide) h.2, countFrom,
      drop_verbatimEnd]
  | case4 o cl i hi _ _ _ h ih =>
    rw [ih, drop_of_isAt (by decide) h, countFrom, drop_literalEnd (by decide)]
  | case5 o cl i hi _ _ _ _ h ih =>
    rw [ih, drop_of_isAt (by decide) h, countFrom, drop_literalEnd (by decide)]
  | case6 o cl i hi _ _ _ _ _ h ih => rw [ih, drop_of_isAt (by decide) h, countFrom]
  | case7 o cl i hi _ _ _ _ _ _ h ih => rw [ih, drop_of_isAt (by decide) h, countFrom]
  | case8 o cl i hi hline hblock hverbatim hquote htick hopen hclose ih =>
    -- No opener and no brace stands at the index, so that its character is none to a reader either.
    obtain ⟨c, hc⟩ := exists_drop hi
    have hpair {d e : Char} (hd : d.toNat < 0x80) (he : e.toNat < 0x80)
        (h : ¬ (isAt bytes i d = true ∧ isAt bytes (i + 1) e = true)) (s : Text) (hcd : c = d)
        (hs : (asChars bytes.toList).drop (i + 1) = e :: s) : False :=
      h ⟨isAt_of_drop hd (hcd ▸ hc), isAt_of_drop he hs⟩
    have hone {d : Char} (hd : d.toNat < 0x80) (h : ¬ isAt bytes i d = true) (hcd : c = d) :
        False :=
      h (isAt_of_drop hd (hcd ▸ hc))
    rw [ih, hc]
    exact congrArg _ (countFrom.eq_9 o cl c _ (hpair (by decide) (by decide) hline)
      (hpair (by decide) (by decide) hblock) (hpair (by decide) (by decide) hverbatim)
      (hone (by decide) hquote) (hone (by decide) htick) (hone (by decide) hopen)
      (hone (by decide) hclose)).symm
  | case9 o cl i hi =>
    rw [drop_eq_nil (by omega), countFrom]
    rfl

theorem ofBytes_eq (bytes : Bytes) :
    ofBytes bytes = ofBraces bytes.length (Braces.ofLine (asChars bytes)) :=
  scanFrom_eq bytes.toArray 0 0 0

end ByteScan
end SourceMerge
