import SourceMerge.Proofs.Braces.Counting

/-! A line read one character after the other. What a character means depends on the mode that the
characters before it leave; the braces of the line are those that are read as code. -/
namespace SourceMerge.Braces
open Text

/-- What the beginning of a line leaves open. A slash or an at sign is code that the next character
may make the opener of something else, and a quote may end a verbatim literal or be the first half
of a quote in it. -/
inductive Mode
  | code
  | slash
  | atSign
  | lineComment
  | blockComment
  | star
  | literal (quote : Char)
  | escape (quote : Char)
  | verbatim
  | verbatimQuote
  deriving DecidableEq, Repr

namespace Mode

/-- The mode after a character of code. -/
def ofCode : Char → Mode
  | '/' => .slash
  | '@' => .atSign
  | '"' => .literal '"'
  | '\x27' => .literal '\x27'
  | _ => .code

def next : Mode → Char → Mode
  | .code, c => ofCode c
  | .slash, c => if c = '/' then .lineComment else if c = '*' then .blockComment else ofCode c
  | .atSign, c => if c = '"' then .verbatim else ofCode c
  | .lineComment, _ => .lineComment
  | .blockComment, c => if c = '*' then .star else .blockComment
  | .star, c => if c = '/' then .code else if c = '*' then .star else .blockComment
  | .literal quote, c =>
    if c = quote then .code else if c = '\\' then .escape quote else .literal quote
  | .escape quote, _ => .literal quote
  | .verbatim, c => if c = '"' then .verbatimQuote else .verbatim
  | .verbatimQuote, c => if c = '"' then .verbatim else ofCode c

/-- The mode that a line ends in. -/
def after (line : Text) : Mode := line.foldl next .code

def isCode : Mode → Bool
  | .code => true
  | .slash => true
  | .atSign => true
  | .verbatimQuote => true
  | _ => false

/-- Whether a literal or a block comment is still open. -/
def isEnclosed : Mode → Bool
  | .blockComment => true
  | .star => true
  | .literal _ => true
  | .escape _ => true
  | .verbatim => true
  | _ => false

theorem isCode_of_not_isEnclosed {m : Mode} (h : m.isEnclosed = false) (hm : m ≠ .lineComment) :
    m.isCode = true := by
  cases m <;> first | rfl | contradiction

theorem ofCode_eq_code {c : Char} (hslash : c ≠ '/') (hat : c ≠ '@') (hquote : c ≠ '"')
    (htick : c ≠ '\x27') : ofCode c = .code := by
  unfold ofCode
  split <;> first | rfl | contradiction

theorem ofCode_ne_lineComment (c : Char) : ofCode c ≠ .lineComment := by
  unfold ofCode
  split <;> simp

theorem next_eq_lineComment_iff {m : Mode} {c : Char} :
    m.next c = .lineComment ↔ m = .slash ∧ c = '/' ∨ m = .lineComment := by
  have hcode := ofCode_ne_lineComment c
  cases m <;> grind [next]

/-- Where code is read, a blank is code. -/
theorem next_of_isBlank {m : Mode} (h : m.isCode = true) {c : Char} (hc : isBlank c = true) :
    m.next c = .code := by
  have hne : ∀ d, isBlank d = false → c ≠ d := by
    rintro d hd rfl
    rw [hc] at hd
    contradiction
  have hcode := ofCode_eq_code (hne '/' rfl) (hne '@' rfl) (hne '"' rfl) (hne '\x27' rfl)
  cases m with
  | code => exact hcode
  | slash => rw [next, if_neg (hne '/' rfl), if_neg (hne '*' rfl), hcode]
  | atSign => rw [next, if_neg (hne '"' rfl), hcode]
  | verbatimQuote => rw [next, if_neg (hne '"' rfl), hcode]
  | _ => contradiction

end Mode

theorem ne_of_mem_head? {c d : Char} {t : Text} (h : ∀ s, t = c :: s → False) (hd : d ∈ t.head?) :
    d ≠ c := by
  rintro rfl
  obtain ⟨s, rfl⟩ := List.head?_eq_some_iff.mp hd
  exact h s rfl

/-- A line that has been read in part. -/
structure Reader where
  mode : Mode
  braces : Braces
  deriving DecidableEq, Repr

namespace Reader

/-- The braces after one more character, which is part of a line comment if it leaves one open. -/
def count (r : Reader) (c : Char) : Braces where
  opens := if r.mode.isCode = true ∧ c = '{' then r.braces.opens + 1 else r.braces.opens
  closes := if r.mode.isCode = true ∧ c = '}' then r.braces.closes + 1 else r.braces.closes
  comment :=
    if r.mode = .slash ∧ c = '/' then ['/', '/']
    else if r.mode = .lineComment then r.braces.comment ++ [c]
    else r.braces.comment

def read (r : Reader) (c : Char) : Reader := ⟨r.mode.next c, r.count c⟩

def readAll (r : Reader) (t : Text) : Reader := t.foldl read r

def start : Reader := ⟨.code, ⟨0, 0, []⟩⟩

@[simp] theorem readAll_nil (r : Reader) : r.readAll [] = r := rfl

@[simp] theorem readAll_cons (r : Reader) (c : Char) (t : Text) :
    r.readAll (c :: t) = (r.read c).readAll t := rfl

theorem readAll_append (r : Reader) (s t : Text) :
    r.readAll (s ++ t) = (r.readAll s).readAll t := List.foldl_append

theorem mode_readAll (r : Reader) (t : Text) : (r.readAll t).mode = t.foldl Mode.next r.mode := by
  induction t generalizing r with
  | nil => rfl
  | cons c t ih => exact ih (r.read c)

/-- Two readers that agree on the braces so far and on the next character agree on all braces. -/
theorem braces_readAll_congr {r r' : Reader} (h : r.braces = r'.braces) {t : Text}
    (ht : ∀ c ∈ t.head?, r.read c = r'.read c) :
    (r.readAll t).braces = (r'.readAll t).braces := by
  cases t with
  | nil => exact h
  | cons c t => rw [readAll_cons, readAll_cons, ht c rfl]

variable (b : Braces)

theorem readAll_lineComment (t : Text) :
    readAll ⟨.lineComment, b⟩ t = ⟨.lineComment, ⟨b.opens, b.closes, b.comment ++ t⟩⟩ := by
  induction t generalizing b with
  | nil => simp
  | cons c t ih => simp [read, count, Mode.next, Mode.isCode, ih]

/-- What follows the opener of a block comment is read past its closer as code. -/
theorem readAll_blockComment (t : Text) :
    (readAll ⟨.blockComment, b⟩ t).braces = (readAll ⟨.code, b⟩ (afterBlockComment t)).braces := by
  fun_induction afterBlockComment t with
  | case1 => rfl
  | case2 t => simp [read, count, Mode.next, Mode.isCode]
  | case3 c t hcloser ih =>
    rw [← ih, readAll_cons]
    by_cases hc : c = '*'
    · subst hc
      refine braces_readAll_congr (by simp [read, count, Mode.isCode]) fun d hd => ?_
      have hslash : d ≠ '/' := ne_of_mem_head? (fun s hs => hcloser s rfl hs) hd
      simp [read, count, Mode.next, Mode.isCode, hslash]
    · simp [read, count, Mode.next, Mode.isCode, hc]

theorem readAll_verbatim (t : Text) :
    (readAll ⟨.verbatim, b⟩ t).braces = (readAll ⟨.code, b⟩ (afterVerbatim t)).braces := by
  fun_induction afterVerbatim t with
  | case1 => rfl
  | case2 t ih => simp [read, count, Mode.next, Mode.isCode, ih]
  | case3 t hpair =>
    rw [readAll_cons]
    refine braces_readAll_congr (by simp [read, count, Mode.isCode]) fun d hd => ?_
    have hquote : d ≠ '"' := ne_of_mem_head? hpair hd
    simp [read, count, Mode.next, Mode.isCode, hquote]
  | case4 c t _ hquote ih =>
    have hc : c ≠ '"' := fun h => hquote h
    rw [← ih, readAll_cons]
    simp [read, count, Mode.next, Mode.isCode, hc]

theorem readAll_literal (quote : Char) (t : Text) :
    (readAll ⟨.literal quote, b⟩ t).braces =
      (readAll ⟨.code, b⟩ (afterLiteral quote t)).braces := by
  fun_induction afterLiteral quote t with
  | case1 => rfl
  | case2 c => simp [read, count, Mode.isCode]
  | case3 d t => simp [read, count, Mode.next, Mode.isCode]
  | case4 d t hquote ih =>
    rw [← ih]
    simp [read, count, Mode.next, Mode.isCode, hquote]
  | case5 c d t hquote hescape ih =>
    rw [← ih, readAll_cons]
    simp [read, count, Mode.next, Mode.isCode, hquote, hescape]

end Reader

/-- The braces of a line are those that a reader counts. -/
theorem countFrom_eq (opens closes : Nat) (t : Text) :
    countFrom opens closes t = (Reader.readAll ⟨.code, ⟨opens, closes, []⟩⟩ t).braces := by
  fun_induction countFrom opens closes t with
  | case1 => rfl
  | case2 o c t =>
    simp [Reader.read, Reader.count, Mode.next, Mode.ofCode, Mode.isCode,
      Reader.readAll_lineComment]
  | case3 o c t ih =>
    rw [ih, ← Reader.readAll_blockComment]
    simp [Reader.read, Reader.count, Mode.next, Mode.ofCode, Mode.isCode]
  | case4 o c t ih =>
    rw [ih, ← Reader.readAll_verbatim]
    simp [Reader.read, Reader.count, Mode.next, Mode.ofCode, Mode.isCode]
  | case5 o c t ih =>
    rw [ih, ← Reader.readAll_literal]
    simp [Reader.read, Reader.count, Mode.next, Mode.ofCode, Mode.isCode]
  | case6 o c t ih =>
    rw [ih, ← Reader.readAll_literal]
    simp [Reader.read, Reader.count, Mode.next, Mode.ofCode, Mode.isCode]
  | case7 o c t ih => simp [ih, Reader.read, Reader.count, Mode.next, Mode.ofCode, Mode.isCode]
  | case8 o c t ih => simp [ih, Reader.read, Reader.count, Mode.next, Mode.ofCode, Mode.isCode]
  | case9 o c d t hline hblock hverbatim hquote htick hopen hclose ih =>
    rw [ih, Reader.readAll_cons]
    have hbraces : Reader.count ⟨.code, ⟨o, c, []⟩⟩ d = ⟨o, c, []⟩ := by
      simp [Reader.count, show d ≠ '{' from hopen, show d ≠ '}' from hclose]
    refine Reader.braces_readAll_congr hbraces.symm fun e he => ?_
    -- A slash or an at sign that begins nothing is read like any other character of code.
    by_cases hslash : d = '/'
    · subst hslash
      have hne : e ≠ '/' ∧ e ≠ '*' :=
        ⟨ne_of_mem_head? (fun s hs => hline s rfl hs) he,
          ne_of_mem_head? (fun s hs => hblock s rfl hs) he⟩
      simp [Reader.read, Reader.count, Mode.next, Mode.ofCode, Mode.isCode, hne]
    · by_cases hat : d = '@'
      · subst hat
        have hne : e ≠ '"' := ne_of_mem_head? (fun s hs => hverbatim s rfl hs) he
        simp [Reader.read, Reader.count, Mode.next, Mode.ofCode, Mode.isCode, hne]
      · have hread : Reader.read ⟨.code, ⟨o, c, []⟩⟩ d = ⟨.code, ⟨o, c, []⟩⟩ := by
          rw [Reader.read, hbraces, Mode.next, Mode.ofCode_eq_code hslash hat hquote htick]
        rw [hread]

namespace Reader

theorem ofLine_eq (line : Text) : ofLine line = (start.readAll line).braces :=
  countFrom_eq 0 0 line

theorem mode_start (line : Text) : (start.readAll line).mode = Mode.after line :=
  mode_readAll start line

/-- A comment has been met if and only if one is being read. -/
def IsConsistent (r : Reader) : Prop := r.braces.comment ≠ [] ↔ r.mode = .lineComment

theorem IsConsistent.read {r : Reader} (h : r.IsConsistent) (c : Char) :
    (r.read c).IsConsistent := by
  rw [IsConsistent, Reader.read, Mode.next_eq_lineComment_iff]
  simp only [count]
  by_cases hopener : r.mode = .slash ∧ c = '/'
  · simp [hopener]
  · by_cases hline : r.mode = .lineComment
    · simp [hline]
    · rw [if_neg hopener, if_neg hline, show r.braces.comment ≠ [] ↔ _ from h]
      simp [hopener, hline]

theorem IsConsistent.readAll {r : Reader} (h : r.IsConsistent) (t : Text) :
    (r.readAll t).IsConsistent := by
  induction t generalizing r with
  | nil => exact h
  | cons c t ih => exact ih (h.read c)

end Reader

/-- A line has a comment if and only if it ends in one. -/
theorem comment_ne_nil_iff (line : Text) :
    (ofLine line).comment ≠ [] ↔ Mode.after line = .lineComment := by
  have hstart : Reader.start.IsConsistent := by simp [Reader.IsConsistent, Reader.start]
  rw [Reader.ofLine_eq, ← Reader.mode_start]
  exact hstart.readAll line

/-- A comment behind a line that ends in code, with a blank between them, adds no brace. -/
theorem ofLine_commented {line : Text} (hcomment : (ofLine line).comment = [])
    (hend : (Mode.after line).isEnclosed = false) (c : Text) :
    ofLine (line ++ " // ".toList ++ c) =
      ⟨(ofLine line).opens, (ofLine line).closes, "// ".toList ++ c⟩ := by
  have hmode : (Mode.after line).isCode = true :=
    Mode.isCode_of_not_isEnclosed hend fun h => (comment_ne_nil_iff line).mpr h hcomment
  rw [← Reader.mode_start] at hmode
  rw [Reader.ofLine_eq line] at hcomment ⊢
  rw [Reader.ofLine_eq, Reader.readAll_append, Reader.readAll_append]
  generalize Reader.start.readAll line = r at hcomment hmode ⊢
  have hblank : r.read ' ' = ⟨.code, r.braces⟩ := by
    have hline : r.mode ≠ .lineComment := fun h => by simp [h, Mode.isCode] at hmode
    rw [Reader.read, Mode.next_of_isBlank hmode rfl]
    simp [Reader.count, hline]
  have hopener : r.readAll " // ".toList =
      ⟨.lineComment, ⟨r.braces.opens, r.braces.closes, "// ".toList⟩⟩ := by
    rw [show " // ".toList = ' ' :: "// ".toList from rfl, Reader.readAll_cons, hblank]
    simp [Reader.read, Reader.count, Mode.next, Mode.ofCode, Mode.isCode]
  rw [hopener, Reader.readAll_lineComment]

end SourceMerge.Braces
