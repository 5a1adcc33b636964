import SourceMerge.Proofs.Text.Bytes
import SourceMerge.Proofs.Text.Lines
import SourceMerge.Proofs.Text.Subparts

/-! Lines of bytes that need not be UTF-8. An ASCII character is read from nothing but its own byte,
so the ends of lines stand where their bytes stand, and each line is read for itself. -/
namespace SourceMerge.Utf8

/-- A line of bytes without the carriage return at its end. -/
def rawLine (piece : Bytes) : Bytes := if piece.getLast? = some 0x0D then piece.dropLast else piece

/-- Bytes cut at every newline. -/
def rawLines (bytes : Bytes) : List Bytes := (bytes.splitOn 0x0A).map rawLine

section Ascii
variable {bytes : Bytes} {units : List (Option Char)} {before after : Text} {c : Char}

theorem Decodes.exists_byte (h : Decodes bytes units) (hc : c.toNat < 0x80)
    (hunits : units.map (·.getD replacement) = before ++ c :: after) :
    ∃ front rest, bytes = front ++ c.toNat.toUInt8 :: rest ∧ decodeLossy rest = after := by
  induction h generalizing before with
  | nil => simp at hunits
  | @char bytes units d h ih =>
    cases before with
    | nil =>
      obtain ⟨hd, hafter⟩ := List.cons.inj hunits
      obtain rfl : d = c := hd
      refine ⟨[], bytes, by rw [encodeChar_of_lt hc, List.singleton_append, List.nil_append], ?_⟩
      rw [decodeLossy, decodes_iff.mp h, ← hafter]
    | cons _ before =>
      obtain ⟨front, rest, rfl, hrest⟩ := ih (List.cons.inj hunits).2
      exact ⟨encodeChar d ++ front, rest, by rw [List.append_assoc], hrest⟩
  | @subpart part bytes units _ h ih =>
    cases before with
    | nil =>
      obtain ⟨hd, _⟩ := List.cons.inj hunits
      obtain rfl : replacement = c := hd
      exact absurd hc (by decide)
    | cons _ before =>
      obtain ⟨front, rest, rfl, hrest⟩ := ih (List.cons.inj hunits).2
      exact ⟨part ++ front, rest, by rw [List.append_assoc], hrest⟩

/-- An ASCII character in what is read stands for its byte, with what is read before it and behind it
read from the bytes before it and behind it. -/
theorem exists_of_decodeLossy_eq (hc : c.toNat < 0x80)
    (h : decodeLossy bytes = before ++ c :: after) :
    ∃ front rest, bytes = front ++ c.toNat.toUInt8 :: rest ∧ decodeLossy front = before ∧
      decodeLossy rest = after := by
  obtain ⟨front, rest, rfl, rfl⟩ := (decodes_units bytes).exists_byte hc h
  refine ⟨front, rest, rfl, ?_, rfl⟩
  have hbyte : c.toNat.toUInt8.toNat = c.toNat := toNat_toUInt8 (by omega)
  rw [decodeLossy_append_ascii (by rwa [hbyte]), hbyte, Char.ofNat_toNat] at h
  exact List.append_cancel_right h

end Ascii

section Lines
variable {bytes piece : Bytes} {pieces : List Bytes}

theorem newline_not_mem_decodeLossy (h : 0x0A ∉ piece) : '\n' ∉ decodeLossy piece := by
  intro hmem
  obtain ⟨before, after, hsplit⟩ := List.append_of_mem hmem
  obtain ⟨front, rest, rfl, _⟩ := exists_of_decodeLossy_eq (by decide) hsplit
  exact h (List.mem_append_right front List.mem_cons_self)

theorem decodeLossy_intercalate (pieces : List Bytes) :
    decodeLossy ([0x0A].intercalate pieces) = Text.unlines (pieces.map decodeLossy) := by
  induction pieces with
  | nil => rfl
  | cons piece pieces ih =>
    cases pieces with
    | nil => simp [List.intercalate]
    | cons next pieces =>
      rw [List.intercalate_cons_cons, List.append_assoc, List.singleton_append,
        decodeLossy_append_ascii (by decide), ih]
      rfl

/-- Cutting what is read at its newlines gives what is read of the bytes between newlines. -/
theorem splitOn_decodeLossy (bytes : Bytes) :
    (decodeLossy bytes).splitOn '\n' = (bytes.splitOn 0x0A).map decodeLossy := by
  have hpieces : ∀ l ∈ (bytes.splitOn 0x0A).map decodeLossy, '\n' ∉ l := by
    intro l hl
    obtain ⟨piece, hpiece, rfl⟩ := List.mem_map.mp hl
    exact newline_not_mem_decodeLossy (Text.not_mem_of_mem_splitOn hpiece)
  have hne : (bytes.splitOn 0x0A).map decodeLossy ≠ [] :=
    mt List.map_eq_nil_iff.mp (List.splitOn_ne_nil 0x0A bytes)
  rw [← Text.splitOn_unlines hne hpieces, ← decodeLossy_intercalate, List.intercalate_splitOn]

theorem dropReturn_decodeLossy (piece : Bytes) :
    Text.dropReturn (decodeLossy piece) = decodeLossy (rawLine piece) := by
  rw [rawLine]
  split
  · rename_i hlast
    obtain ⟨front, rfl⟩ := List.getLast?_eq_some_iff.mp hlast
    rw [decodeLossy_append_ascii (by decide), List.dropLast_concat]
    exact Text.dropReturn_append _
  · rename_i hlast
    apply Text.dropReturn_of_ne
    intro hreturn
    obtain ⟨before, hsplit⟩ := List.getLast?_eq_some_iff.mp hreturn
    obtain ⟨front, rest, rfl, _, hrest⟩ := exists_of_decodeLossy_eq (by decide) hsplit
    have hnil : rest = [] := by
      by_contra hne
      exact decodeLossy_ne_nil hne hrest
    rw [hnil] at hlast
    exact hlast List.getLast?_concat

/-- What is read has the lines of the bytes, each read for itself. -/
theorem lines_decodeLossy (bytes : Bytes) :
    (decodeLossy bytes).lines = (rawLines bytes).map decodeLossy := by
  rw [Text.lines, splitOn_decodeLossy, rawLines, List.map_map, List.map_map]
  exact List.map_congr_left fun piece _ => dropReturn_decodeLossy piece

end Lines

section Front
variable {bytes : Bytes} {units : List (Option Char)} {c : Char}

theorem decodeLossy_encodeChar_append (c : Char) (bytes : Bytes) :
    decodeLossy (encodeChar c ++ bytes) = c :: decodeLossy bytes := by
  rw [decodeLossy, decodes_iff.mp (.char c (decodes_units bytes))]
  rfl

theorem Decodes.isPrefix (h : Decodes bytes units) (hunits : units.head? = some (some c)) :
    encodeChar c <+: bytes := by
  cases h with
  | nil => contradiction
  | char d _ =>
    obtain rfl := Option.some.inj (Option.some.inj hunits)
    exact List.prefix_append _ _
  | subpart => cases Option.some.inj hunits

/-- A character that is no replacement character is read first where its bytes stand first. -/
theorem isPrefix_of_head?_decodeLossy (hc : c ≠ replacement)
    (h : (decodeLossy bytes).head? = some c) : encodeChar c <+: bytes := by
  rw [decodeLossy, List.head?_map, Option.map_eq_some_iff] at h
  obtain ⟨unit, hunit, hshown⟩ := h
  cases unit with
  | none => exact absurd hshown.symm hc
  | some d => exact (decodes_units bytes).isPrefix (hshown ▸ hunit)

end Front
end SourceMerge.Utf8
