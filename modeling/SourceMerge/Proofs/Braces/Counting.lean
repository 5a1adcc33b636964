import SourceMerge.Braces
import SourceMerge.Proofs.Text.Indentation

/-! Counting the braces of a line. The count is a sum over the line from left to right, so blanks
in front change nothing, a line that is a comment has no braces, and a line whose code is one
brace has exactly that brace. -/
namespace SourceMerge.Braces
open Text

theorem afterBlockComment_suffix (t : Text) : afterBlockComment t <:+ t := by
  fun_induction afterBlockComment t with
  | case1 => exact List.suffix_rfl
  | case2 t => exact ⟨['*', '/'], rfl⟩
  | case3 c t _ ih => exact ih.trans (List.suffix_cons c t)

theorem afterVerbatim_suffix (t : Text) : afterVerbatim t <:+ t := by
  fun_induction afterVerbatim t with
  | case1 => exact List.suffix_rfl
  | case2 t ih => exact ih.trans ⟨['"', '"'], rfl⟩
  | case3 t => exact List.suffix_cons '"' t
  | case4 c t _ _ ih => exact ih.trans (List.suffix_cons c t)

theorem afterLiteral_suffix (quote : Char) (t : Text) : afterLiteral quote t <:+ t := by
  fun_induction afterLiteral quote t with
  | case1 => exact List.suffix_rfl
  | case2 c => exact List.nil_suffix
  | case3 d t => exact List.suffix_cons quote (d :: t)
  | case4 d t _ ih => exact ih.trans ⟨['\\', d], rfl⟩
  | case5 c d t _ _ ih => exact ih.trans (List.suffix_cons c (d :: t))

/-- A character that does not begin the closer of a block comment is read over. -/
theorem afterBlockComment_cons {c : Char} {t : Text} (h : ¬ (c = '*' ∧ t.head? = some '/')) :
    afterBlockComment (c :: t) = afterBlockComment t := by
  apply afterBlockComment.eq_3
  rintro s rfl rfl
  exact h ⟨rfl, rfl⟩

theorem afterVerbatim_cons {c : Char} {t : Text} (h : c ≠ '"') :
    afterVerbatim (c :: t) = afterVerbatim t :=
  afterVerbatim.eq_4 c t (fun _ hc _ => h hc) h

theorem afterVerbatim_quote {t : Text} (h : t.head? ≠ some '"') : afterVerbatim ('"' :: t) = t := by
  apply afterVerbatim.eq_3
  rintro s rfl
  exact h rfl

/-- Braces counted before a place only add to those counted after it. -/
theorem countFrom_add (a b opens closes : Nat) (t : Text) :
    countFrom (a + opens) (b + closes) t =
      ⟨a + (countFrom opens closes t).opens, b + (countFrom opens closes t).closes,
        (countFrom opens closes t).comment⟩ := by
  fun_induction countFrom opens closes t with
  | case1 => simp [countFrom]
  | case2 => simp [countFrom]
  | case3 o c t ih => simpa [countFrom] using ih
  | case4 o c t ih => simpa [countFrom] using ih
  | case5 o c t ih => simpa [countFrom] using ih
  | case6 o c t ih => simpa [countFrom] using ih
  | case7 o c t ih => simpa [countFrom, Nat.add_assoc] using ih
  | case8 o c t ih => simpa [countFrom, Nat.add_assoc] using ih
  | case9 o c d t h1 h2 h3 h4 h5 h6 h7 ih =>
    rw [countFrom.eq_9 _ _ d t h1 h2 h3 h4 h5 h6 h7]
    exact ih

theorem ofLine_open (t : Text) :
    ofLine ('{' :: t) = ⟨1 + (ofLine t).opens, (ofLine t).closes, (ofLine t).comment⟩ := by
  have h := countFrom_add 1 0 0 0 t
  simp only [Nat.zero_add] at h
  simpa [ofLine, countFrom] using h

theorem ofLine_close (t : Text) :
    ofLine ('}' :: t) = ⟨(ofLine t).opens, 1 + (ofLine t).closes, (ofLine t).comment⟩ := by
  have h := countFrom_add 0 1 0 0 t
  simp only [Nat.zero_add] at h
  simpa [ofLine, countFrom] using h

@[simp] theorem ofLine_nil : ofLine [] = ⟨0, 0, []⟩ := by simp [ofLine, countFrom]

@[simp] theorem ofLine_lineComment (t : Text) :
    ofLine ('/' :: '/' :: t) = ⟨0, 0, '/' :: '/' :: t⟩ := by simp [ofLine, countFrom]

theorem ofLine_cons_of_isBlank {c : Char} (hc : isBlank c = true) (t : Text) :
    ofLine (c :: t) = ofLine t := by
  have hne : ∀ d, isBlank d = false → c = d → False := by
    rintro d hd rfl
    rw [hc] at hd
    contradiction
  exact countFrom.eq_9 0 0 c t (fun _ h _ => hne '/' rfl h) (fun _ h _ => hne '/' rfl h)
    (fun _ h _ => hne '@' rfl h) (hne '"' rfl) (hne '\x27' rfl) (hne '{' rfl) (hne '}' rfl)

theorem ofLine_append {a : Text} (ha : AllBlank a) (t : Text) : ofLine (a ++ t) = ofLine t := by
  induction a with
  | nil => rfl
  | cons c a ih =>
    rw [List.cons_append, ofLine_cons_of_isBlank (ha c List.mem_cons_self)]
    exact ih fun d hd => ha d (List.mem_cons_of_mem c hd)

theorem ofLine_indentLine (line : Text) : ofLine (indentLine line) = ofLine line := by
  obtain ⟨a, ha, h⟩ := exists_indentLine line
  rw [h, ofLine_append ha]

theorem comment_suffix (opens closes : Nat) (t : Text) :
    (countFrom opens closes t).comment <:+ t := by
  fun_induction countFrom opens closes t with
  | case1 => exact List.suffix_rfl
  | case2 o c t => exact List.suffix_rfl
  | case3 o c t ih => exact ih.trans ((afterBlockComment_suffix t).trans ⟨['/', '*'], rfl⟩)
  | case4 o c t ih => exact ih.trans ((afterVerbatim_suffix t).trans ⟨['@', '"'], rfl⟩)
  | case5 o c t ih => exact ih.trans ((afterLiteral_suffix '"' t).trans (List.suffix_cons _ t))
  | case6 o c t ih => exact ih.trans ((afterLiteral_suffix '\x27' t).trans (List.suffix_cons _ t))
  | case7 o c t ih => exact ih.trans (List.suffix_cons _ t)
  | case8 o c t ih => exact ih.trans (List.suffix_cons _ t)
  | case9 o c d t _ _ _ _ _ _ _ ih => exact ih.trans (List.suffix_cons d t)

/-- A line comment begins with its two slashes. -/
theorem comment_cases (opens closes : Nat) (t : Text) :
    (countFrom opens closes t).comment = [] ∨
      ∃ r, (countFrom opens closes t).comment = '/' :: '/' :: r := by
  fun_induction countFrom opens closes t with
  | case1 => left; rfl
  | case2 o c t => right; exact ⟨t, rfl⟩
  | case3 o c t ih => exact ih
  | case4 o c t ih => exact ih
  | case5 o c t ih => exact ih
  | case6 o c t ih => exact ih
  | case7 o c t ih => exact ih
  | case8 o c t ih => exact ih
  | case9 o c d t _ _ _ _ _ _ _ ih => exact ih

/-- The comment of a line holds no braces. -/
theorem ofLine_comment (line : Text) :
    ofLine (ofLine line).comment = ⟨0, 0, (ofLine line).comment⟩ := by
  rcases comment_cases 0 0 line with h | ⟨r, h⟩
  · rw [show (ofLine line).comment = [] from h, ofLine_nil]
  · rw [show (ofLine line).comment = '/' :: '/' :: r from h, ofLine_lineComment]

theorem beforeComment_append (line : Text) :
    line.beforeComment ++ (ofLine line).comment = line := by
  obtain ⟨front, h⟩ := comment_suffix 0 0 line
  have hlength := congrArg List.length h
  rw [List.length_append] at hlength
  have hfront : line.beforeComment = front := by
    unfold beforeComment ofLine
    rw [show line.length - (countFrom 0 0 line).comment.length = front.length by omega]
    calc line.take front.length = (front ++ (countFrom 0 0 line).comment).take front.length := by
          rw [h]
      _ = front := List.take_left
  rw [hfront]
  exact h

/-- A line is its code between blanks, and the comment after it. -/
theorem exists_code (line : Text) :
    ∃ a b, AllBlank a ∧ AllBlank b ∧ line = a ++ (line.code ++ (b ++ (ofLine line).comment)) := by
  obtain ⟨a, b, ha, hb, h⟩ := exists_trim line.beforeComment
  refine ⟨a, b, ha, hb, ?_⟩
  have hline := beforeComment_append line
  rw [h] at hline
  simpa [code] using hline.symm

/-- The braces of a line are those of its code in front of a comment. -/
theorem exists_ofLine_code (line : Text) :
    ∃ t, ofLine t = ⟨0, 0, (ofLine line).comment⟩ ∧ ofLine line = ofLine (line.code ++ t) := by
  obtain ⟨a, b, ha, hb, h⟩ := exists_code line
  refine ⟨b ++ (ofLine line).comment, ?_, ?_⟩
  · rw [ofLine_append hb, ofLine_comment]
  · calc ofLine line = ofLine (a ++ (line.code ++ (b ++ (ofLine line).comment))) := by rw [← h]
      _ = ofLine (line.code ++ (b ++ (ofLine line).comment)) := ofLine_append ha _

theorem delta_of_code_close {line : Text} (h : line.code = ['}']) : (ofLine line).delta = -1 := by
  obtain ⟨t, ht, hline⟩ := exists_ofLine_code line
  rw [hline, h, List.singleton_append, ofLine_close, ht]
  rfl

theorem counts_le_of_suffix {s t : Text} (h : s <:+ t) :
    s.count '{' ≤ t.count '{' ∧ s.count '}' ≤ t.count '}' :=
  ⟨h.sublist.count_le '{', h.sublist.count_le '}'⟩

/-- No more braces are counted on a line than stand on it. -/
theorem counts_le (opens closes : Nat) (t : Text) :
    (countFrom opens closes t).opens ≤ opens + t.count '{' ∧
      (countFrom opens closes t).closes ≤ closes + t.count '}' := by
  fun_induction countFrom opens closes t with
  | case1 => simp
  | case2 => simp
  | case3 o c t ih =>
    have h := counts_le_of_suffix (afterBlockComment_suffix t)
    simp; omega
  | case4 o c t ih =>
    have h := counts_le_of_suffix (afterVerbatim_suffix t)
    simp; omega
  | case5 o c t ih =>
    have h := counts_le_of_suffix (afterLiteral_suffix '"' t)
    simp; omega
  | case6 o c t ih =>
    have h := counts_le_of_suffix (afterLiteral_suffix '\x27' t)
    simp; omega
  | case7 o c t ih => simp; omega
  | case8 o c t ih => simp; omega
  | case9 o c d t _ _ _ _ _ _ _ ih =>
    have h := counts_le_of_suffix (List.suffix_cons d t)
    omega

theorem opens_eq_zero {line : Text} (h : '{' ∉ line) : (ofLine line).opens = 0 := by
  have hle := (counts_le 0 0 line).1
  rw [List.count_eq_zero_of_not_mem h] at hle
  exact Nat.le_zero.mp hle

theorem closes_eq_zero {line : Text} (h : '}' ∉ line) : (ofLine line).closes = 0 := by
  have hle := (counts_le 0 0 line).2
  rw [List.count_eq_zero_of_not_mem h] at hle
  exact Nat.le_zero.mp hle

theorem delta_of_not_mem {line : Text} (ho : '{' ∉ line) (hc : '}' ∉ line) :
    (ofLine line).delta = 0 := by
  rw [delta, opens_eq_zero ho, closes_eq_zero hc]
  rfl

end SourceMerge.Braces
