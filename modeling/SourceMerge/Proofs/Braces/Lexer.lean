import Mathlib.Data.List.Induction
import SourceMerge.Proofs.Braces.ByteScan
import SourceMerge.Proofs.Braces.Bytewise
import SourceMerge.Proofs.Text.Subparts

/-! What the scan of a line finds, told by the modes that its characters are read in: the braces
are those that are read as code, and the code ends in front of the first two slashes of which one
is read as code. The index that moves over the bytes finds the same braces and stops at the same
place. -/
namespace SourceMerge.Braces
open Text

namespace Mode

/-- The characters of a text with the modes that they are read in. -/
def readings (m : Mode) : Text → List (Mode × Char)
  | [] => []
  | c :: t => (m, c) :: (m.next c).readings t

/-- How often a character of a line is read as code. -/
def codeCount (c : Char) (line : Text) : Nat :=
  (readings .code line).countP fun r => r.1.isCode && r.2 == c

theorem after_append (s t : Text) : after (s ++ t) = t.foldl next (after s) := List.foldl_append

theorem foldl_lineComment (t : Text) : t.foldl next .lineComment = .lineComment := by
  induction t with
  | nil => rfl
  | cons c t ih => exact ih

theorem foldl_slashes {m : Mode} (h : m.isCode = true) (t : Text) :
    ('/' :: '/' :: t).foldl next m = .lineComment := by
  cases m with
  | code => exact foldl_lineComment t
  | slash => exact foldl_lineComment t
  | atSign => exact foldl_lineComment t
  | verbatimQuote => exact foldl_lineComment t
  | _ => contradiction

theorem next_slash {m : Mode} (h : m.isCode = true) (hslash : m ≠ .slash) :
    m.next '/' = .slash := by
  cases m <;> first | rfl | contradiction

theorem of_next_eq_slash {m : Mode} {c : Char} (h : m.next c = .slash) :
    c = '/' ∧ m.isCode = true ∧ m ≠ .slash := by
  have hcode : ofCode c = .slash → c = '/' := by
    unfold ofCode
    split <;> simp
  cases m <;> grind [next, isCode]

/-- A line comment is open behind two slashes, of which the first is read as code and is not itself
the second of two. -/
theorem exists_slashes {line : Text} (h : after line = .lineComment) :
    ∃ front rest, line = front ++ '/' :: '/' :: rest ∧ (after front).isCode = true ∧
      after front ≠ .slash := by
  induction line using List.reverseRecOn with
  | nil => contradiction
  | append_singleton t c ih =>
    rw [after_append, List.foldl_cons, List.foldl_nil, next_eq_lineComment_iff] at h
    rcases h with ⟨hslash, rfl⟩ | hline
    · obtain ⟨front, d, rfl⟩ : ∃ front d, t = front ++ [d] := by
        rcases List.eq_nil_or_concat t with rfl | ⟨front, d, rfl⟩
        · contradiction
        · exact ⟨front, d, List.concat_eq_append⟩
      rw [after_append] at hslash
      obtain ⟨rfl, hcode, hne⟩ := of_next_eq_slash hslash
      exact ⟨front, [], by simp, hcode, hne⟩
    · obtain ⟨front, rest, rfl, hcode, hne⟩ := ih hline
      exact ⟨front, rest ++ [c], by simp, hcode, hne⟩

end Mode

/-- Behind the front of a line stand two slashes, of which the first is read as code. -/
def OpensComment (line front : Text) : Prop :=
  (Mode.after front).isCode = true ∧ ∃ rest, line = front ++ '/' :: '/' :: rest

/-- The code of a line ends where a line comment is opened for the first time, or with the line. -/
inductive CodeEnds (line : Text) : Text → Prop
  | atComment {front} : OpensComment line front →
      (∀ f, OpensComment line f → front.length ≤ f.length) → CodeEnds line front
  | atEnd : (∀ f, ¬ OpensComment line f) → CodeEnds line line

namespace Reader

theorem braces_readAll (r : Reader) (t : Text) :
    (r.readAll t).braces.opens =
        r.braces.opens + (r.mode.readings t).countP (fun q => q.1.isCode && q.2 == '{') ∧
      (r.readAll t).braces.closes =
        r.braces.closes + (r.mode.readings t).countP (fun q => q.1.isCode && q.2 == '}') := by
  induction t generalizing r with
  | nil => exact ⟨rfl, rfl⟩
  | cons c t ih =>
    obtain ⟨hopens, hcloses⟩ := ih (r.read c)
    rw [readAll_cons, hopens, hcloses, Mode.readings, List.countP_cons, List.countP_cons]
    simp only [read, count, Bool.and_eq_true, beq_iff_eq]
    constructor <;> split <;> omega

/-- The two slashes of a line comment are the first two characters of it. -/
theorem readAll_slashes {r : Reader} (h : r.mode.isCode = true) (hslash : r.mode ≠ .slash)
    (t : Text) :
    r.readAll ('/' :: '/' :: t) =
      ⟨.lineComment, ⟨r.braces.opens, r.braces.closes, '/' :: '/' :: t⟩⟩ := by
  have hline : r.mode ≠ .lineComment := fun hline => by simp [hline, Mode.isCode] at h
  have hfirst : r.read '/' = ⟨.slash, r.braces⟩ := by
    rw [read, Mode.next_slash h hslash]
    simp [count, hslash, hline]
  rw [readAll_cons, readAll_cons, hfirst]
  simp [read, count, Mode.next, readAll_lineComment]

end Reader

theorem opens_eq_codeCount (line : Text) : (ofLine line).opens = Mode.codeCount '{' line := by
  rw [Reader.ofLine_eq, (Reader.braces_readAll .start line).1]
  exact Nat.zero_add _

/-- The slash of the opener does not close a block comment. -/
example : Mode.codeCount '{' "/*/\x7b */ \x7b // \x7b".toList = 1 := by decide

theorem closes_eq_codeCount (line : Text) : (ofLine line).closes = Mode.codeCount '}' line := by
  rw [Reader.ofLine_eq, (Reader.braces_readAll .start line).2]
  exact Nat.zero_add _

theorem ofLine_slashes {front : Text} (h : (Mode.after front).isCode = true)
    (hslash : Mode.after front ≠ .slash) (rest : Text) :
    ofLine (front ++ '/' :: '/' :: rest) =
      ⟨(ofLine front).opens, (ofLine front).closes, '/' :: '/' :: rest⟩ := by
  rw [← Reader.mode_start] at h hslash
  rw [Reader.ofLine_eq, Reader.ofLine_eq, Reader.readAll_append, Reader.readAll_slashes h hslash]

/-- A line that ends in code has no comment. -/
theorem comment_of_isCode {line : Text} (h : (Mode.after line).isCode = true) :
    (ofLine line).comment = [] := by
  by_contra hcomment
  rw [← ne_eq, comment_ne_nil_iff] at hcomment
  simp [hcomment, Mode.isCode] at h

theorem OpensComment.comment_ne_nil {line front : Text} (h : OpensComment line front) :
    (ofLine line).comment ≠ [] := by
  obtain ⟨hcode, rest, rfl⟩ := h
  rw [comment_ne_nil_iff, Mode.after_append, Mode.foldl_slashes hcode]

/-- No two slashes open a comment before those of which the first is no second one. -/
theorem length_le_of_opensComment {line front f : Text} (h : OpensComment line front)
    (hslash : Mode.after front ≠ .slash) (hf : OpensComment line f) :
    front.length ≤ f.length := by
  obtain ⟨hcode, rest, rfl⟩ := h
  obtain ⟨hfcode, r, hline⟩ := hf
  by_contra hlt
  have hprefix : f ++ ['/', '/'] <+: front ++ ['/'] := by
    have hlong : f ++ ['/', '/'] <+: front ++ '/' :: '/' :: rest := ⟨r, by rw [hline]; simp⟩
    have hshort : front ++ ['/'] <+: front ++ '/' :: '/' :: rest := ⟨'/' :: rest, by simp⟩
    refine List.prefix_of_prefix_length_le hlong hshort ?_
    simp only [List.length_append, List.length_cons, List.length_nil]
    omega
  obtain ⟨s, hs⟩ := hprefix
  have hmode : Mode.after (front ++ ['/']) = .lineComment := by
    rw [← hs, List.append_assoc, Mode.after_append]
    exact Mode.foldl_slashes hfcode s
  rw [Mode.after_append, List.foldl_cons, List.foldl_nil, Mode.next_slash hcode hslash] at hmode
  contradiction

theorem beforeComment_eq_self {line : Text} (h : (ofLine line).comment = []) :
    line.beforeComment = line := by
  rw [beforeComment, h]
  exact List.take_length

/-- What stands before the comment of a line is its code, and has the braces of the line. -/
theorem codeEnds_beforeComment (line : Text) :
    CodeEnds line line.beforeComment ∧
      ofLine line.beforeComment = ⟨(ofLine line).opens, (ofLine line).closes, []⟩ := by
  by_cases hcomment : (ofLine line).comment = []
  · rw [beforeComment_eq_self hcomment]
    refine ⟨.atEnd fun f hf => hf.comment_ne_nil hcomment, ?_⟩
    rw [← hcomment]
  · obtain ⟨front, rest, rfl, hcode, hslash⟩ :=
      Mode.exists_slashes ((comment_ne_nil_iff line).mp hcomment)
    have hline := ofLine_slashes hcode hslash rest
    have hfront : (front ++ '/' :: '/' :: rest).beforeComment = front := by
      have happend := beforeComment_append (front ++ '/' :: '/' :: rest)
      rw [hline] at happend
      exact List.append_cancel_right happend
    have hnone := comment_of_isCode hcode
    have hopens : OpensComment (front ++ '/' :: '/' :: rest) front := ⟨hcode, rest, rfl⟩
    rw [hfront, hline]
    refine ⟨.atComment hopens fun f hf => length_le_of_opensComment hopens hslash hf, ?_⟩
    rw [← hnone]

theorem CodeEnds.eq {line front f : Text} (h : CodeEnds line front) (hf : CodeEnds line f) :
    front = f := by
  cases h with
  | atComment hopens hfirst =>
    cases hf with
    | atComment hopens' hfirst' =>
      have hlength := Nat.le_antisymm (hfirst f hopens') (hfirst' front hopens)
      obtain ⟨_, rest, hline⟩ := hopens
      obtain ⟨_, rest', hline'⟩ := hopens'
      exact List.append_inj_left (hline.symm.trans hline') hlength
    | atEnd hnone => exact absurd hopens (hnone front)
  | atEnd hnone =>
    cases hf with
    | atComment hopens => exact absurd hopens (hnone f)
    | atEnd => rfl

theorem codeEnds_iff {line front : Text} : CodeEnds line front ↔ front = line.beforeComment := by
  constructor
  · intro h
    exact h.eq (codeEnds_beforeComment line).1
  · rintro rfl
    exact (codeEnds_beforeComment line).1

end SourceMerge.Braces

namespace SourceMerge.ByteScan
open Braces

theorem size_eq (line : Text) : Utf8.size line =
    Utf8.size line.beforeComment + Utf8.size (Braces.ofLine line).comment := by
  rw [Utf8.size, Utf8.size, Utf8.size, ← List.length_append, ← Utf8.encode_append,
    beforeComment_append]

/-- The index finds the braces of a line, and stops behind the bytes of its code. -/
theorem ofLine_eq (line : Text) :
    ofLine line =
      ⟨(Braces.ofLine line).opens, (Braces.ofLine line).closes, Utf8.size line.beforeComment⟩ := by
  rw [ofLine, ofBytes_eq, ofLine_asChars, ofBraces, Utf8.length_asChars, ← Utf8.size, ← Utf8.size,
    size_eq, Nat.add_sub_cancel]

theorem take_codeEnd (line : Text) :
    (Utf8.encode line).take (ofLine line).codeEnd = Utf8.encode line.beforeComment := by
  have hline := congrArg Utf8.encode (beforeComment_append line)
  rw [Utf8.encode_append] at hline
  rw [ofLine_eq, ← hline]
  exact List.take_left

/-- The scan of a line by an index over its bytes agrees with a lexer that reads its characters:
the braces are those read as code, and the code ends in front of the first two slashes of which one
is read as code, or with the line. This place is one between two characters, so that the code can
always be cut out, and the code by itself is scanned like the line. -/
theorem ofLine_lexed (line : Text) :
    ofLine line =
        ⟨Mode.codeCount '{' line, Mode.codeCount '}' line, Utf8.size line.beforeComment⟩ ∧
      (Braces.ofLine line).opens = Mode.codeCount '{' line ∧
      (Braces.ofLine line).closes = Mode.codeCount '}' line ∧
      (∀ front, CodeEnds line front ↔ front = line.beforeComment) ∧
      Utf8.decode? ((Utf8.encode line).take (ofLine line).codeEnd) = some line.beforeComment ∧
      ofBytes ((Utf8.encode line).take (ofLine line).codeEnd) = ofLine line := by
  have hopens := opens_eq_codeCount line
  have hcloses := closes_eq_codeCount line
  refine ⟨by rw [ofLine_eq, hopens, hcloses], hopens, hcloses, fun _ => codeEnds_iff, ?_, ?_⟩
  · exact Utf8.decode?_eq_some_iff.mpr (take_codeEnd line)
  · have hcode := (codeEnds_beforeComment line).2
    have hself : line.beforeComment.beforeComment = line.beforeComment :=
      beforeComment_eq_self (by rw [hcode])
    rw [take_codeEnd, ← ofLine, ofLine_eq, hcode, hself, ofLine_eq line]

end SourceMerge.ByteScan
