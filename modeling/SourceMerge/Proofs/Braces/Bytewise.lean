import SourceMerge.Proofs.Braces.Modes
import SourceMerge.Proofs.Text.Bytes

/-! A line read byte by byte. The bytes of a character that is not ASCII mean as little to the
reader as the character does, in every mode and however many they are, so that a reader of the
bytes is always in the mode of a reader of the characters and has counted the same braces. -/
namespace SourceMerge.Braces
open Utf8

/-- The characters with a meaning to the reader. -/
def marks : Text := ['/', '*', '@', '"', '\x27', '\\', '{', '}']

theorem not_mem_marks {c : Char} (h : 0x80 ≤ c.toNat) : c ∉ marks := by
  have hascii : ∀ d ∈ marks, d.toNat < 0x80 := by simp [marks]
  intro hmem
  have hlt := hascii c hmem
  omega

namespace Mode

/-- An open literal was opened by one of the two quotes. -/
def IsProper : Mode → Prop
  | .literal quote => quote = '"' ∨ quote = '\x27'
  | .escape quote => quote = '"' ∨ quote = '\x27'
  | _ => True

theorem isProper_ofCode (c : Char) : (ofCode c).IsProper := by
  unfold ofCode
  split <;> simp [IsProper]

theorem IsProper.next {m : Mode} (h : m.IsProper) (c : Char) : (m.next c).IsProper := by
  have hcode := isProper_ofCode c
  cases m <;> grind [Mode.next, IsProper]

/-- Characters without a meaning are read alike, and several of them like one. -/
theorem next_of_not_mem_marks {m : Mode} (h : m.IsProper) {c d : Char} (hc : c ∉ marks)
    (hd : d ∉ marks) : m.next c = m.next d ∧ (m.next c).next d = m.next c := by
  simp only [marks, List.mem_cons, List.not_mem_nil, or_false, not_or] at hc hd
  have hcode : ofCode c = .code := ofCode_eq_code hc.1 hc.2.2.1 hc.2.2.2.1 hc.2.2.2.2.1
  have hcode' : ofCode d = .code := ofCode_eq_code hd.1 hd.2.2.1 hd.2.2.2.1 hd.2.2.2.2.1
  cases m <;> grind [next, IsProper]

end Mode

namespace Reader
variable {r : Reader} {c : Char}

theorem read_of_not_mem_marks (hc : c ∉ marks) :
    r.read c = ⟨r.mode.next c, ⟨r.braces.opens, r.braces.closes,
      if r.mode = .lineComment then r.braces.comment ++ [c] else r.braces.comment⟩⟩ := by
  have hslash : c ≠ '/' := fun h => hc (h ▸ by decide)
  have hopen : c ≠ '{' := fun h => hc (h ▸ by decide)
  have hclose : c ≠ '}' := fun h => hc (h ▸ by decide)
  simp [read, count, hslash, hopen, hclose]

theorem readAll_of_not_mem_marks (hr : r.mode.IsProper) (hc : c ∉ marks) {t : Text} (hne : t ≠ [])
    (ht : ∀ d ∈ t, d ∉ marks) :
    r.readAll t = ⟨r.mode.next c, ⟨r.braces.opens, r.braces.closes,
      if r.mode = .lineComment then r.braces.comment ++ t else r.braces.comment⟩⟩ := by
  induction t generalizing r with
  | nil => contradiction
  | cons d t ih =>
    have hd := ht d List.mem_cons_self
    obtain ⟨hsame, hagain⟩ := Mode.next_of_not_mem_marks hr hc hd
    rw [readAll_cons, read_of_not_mem_marks hd, ← hsame]
    cases t with
    | nil => rfl
    | cons e t =>
      have hslash : c ≠ '/' := fun h => hc (h ▸ by decide)
      have hline : r.mode.next c = .lineComment ↔ r.mode = .lineComment := by
        rw [Mode.next_eq_lineComment_iff]
        simp [hslash]
      have hnext := (Mode.next_of_not_mem_marks hr hc hc).2
      rw [ih (hr.next c) (by simp) fun x hx => ht x (List.mem_cons_of_mem d hx)]
      simp only [hnext, hline]
      split <;> simp

/-- The same place in a line and the same braces, for a reader of the bytes. -/
def bytewise (r : Reader) : Reader :=
  ⟨r.mode, ⟨r.braces.opens, r.braces.closes, asChars (encode r.braces.comment)⟩⟩

theorem read_bytewise (hc : c.toNat < 0x80) : r.bytewise.read c = (r.read c).bytewise := by
  have hascii : asChars (encode [c]) = [c] := by
    rw [encode, List.flatMap_singleton, asChars_encodeChar hc]
  have hcomment (t : Text) : asChars (encode (t ++ [c])) = asChars (encode t) ++ [c] := by
    rw [encode_append, asChars_append, hascii]
  have hslashes : asChars (encode ['/', '/']) = ['/', '/'] := by decide
  obtain ⟨mode, opens, closes, comment⟩ := r
  change read ⟨mode, ⟨opens, closes, asChars (encode comment)⟩⟩ c = _
  by_cases hopener : mode = .slash ∧ c = '/'
  · simp [read, count, bytewise, hopener, hslashes]
  · by_cases hline : mode = .lineComment
    · simp [read, count, bytewise, hline, hcomment]
    · simp [read, count, bytewise, hopener, hline]

/-- The bytes of a character are read like the character. -/
theorem readAll_encodeChar (hr : r.mode.IsProper) (c : Char) :
    r.bytewise.readAll (asChars (encodeChar c)) = (r.read c).bytewise := by
  by_cases hc : c.toNat < 0x80
  · rw [asChars_encodeChar hc]
    exact read_bytewise hc
  · have hhigh : 0x80 ≤ c.toNat := by omega
    have hne : asChars (encodeChar c) ≠ [] := fun h =>
      encodeChar_ne_nil c (List.map_eq_nil_iff.mp h)
    rw [readAll_of_not_mem_marks (r := r.bytewise) hr (not_mem_marks hhigh) hne
      fun d hd => not_mem_marks (le_of_mem_asChars hhigh hd),
      read_of_not_mem_marks (not_mem_marks hhigh)]
    by_cases hline : r.mode = .lineComment
    · have hchar : encode [c] = encodeChar c := List.flatMap_singleton encodeChar c
      simp [bytewise, hline, encode_append, asChars_append, hchar]
    · simp [bytewise, hline]

theorem readAll_encode (hr : r.mode.IsProper) (t : Text) :
    r.bytewise.readAll (asChars (encode t)) = (r.readAll t).bytewise := by
  induction t generalizing r with
  | nil => rfl
  | cons c t ih =>
    rw [encode, List.flatMap_cons, asChars_append, readAll_append, readAll_encodeChar hr, ← encode,
      ih (hr.next c), readAll_cons]

end Reader

/-- A line has the same braces in its bytes, and the bytes of its comment for its comment. -/
theorem ofLine_asChars (line : Text) :
    ofLine (asChars (encode line)) =
      ⟨(ofLine line).opens, (ofLine line).closes, asChars (encode (ofLine line).comment)⟩ := by
  rw [Reader.ofLine_eq, Reader.ofLine_eq line]
  exact congrArg Reader.braces (Reader.readAll_encode (r := .start) trivial line)

end SourceMerge.Braces
