import SourceMerge.Proofs.Text.Decoding

/-! The bytes of a text taken for characters. An ASCII character is its own byte, and no other
character has an ASCII byte in it. -/
namespace SourceMerge.Utf8

/-- Each byte as a character of its own. -/
def asChars (bytes : Bytes) : Text := bytes.map fun b => Char.ofNat b.toNat

theorem ofNat_toNat_eq_iff {b : UInt8} {c : Char} (hc : c.toNat < 0x80) :
    Char.ofNat b.toNat = c ↔ b = c.toNat.toUInt8 := by
  constructor
  · rintro rfl
    have hlt := b.toNat_lt
    rw [toNat_ofNat (.inl (by omega))]
    simp
  · rintro rfl
    rw [toNat_toUInt8 (by omega), Char.ofNat_toNat]

@[simp] theorem length_asChars (bytes : Bytes) : (asChars bytes).length = bytes.length :=
  List.length_map _

theorem asChars_append (a b : Bytes) : asChars (a ++ b) = asChars a ++ asChars b :=
  List.map_append

theorem encodeChar_of_lt {c : Char} (h : c.toNat < 0x80) : encodeChar c = [c.toNat.toUInt8] :=
  if_pos h

theorem le_of_mem_encodeChar {c : Char} (hc : 0x80 ≤ c.toNat) {b : UInt8} (hb : b ∈ encodeChar c) :
    0x80 ≤ b.toNat := by
  have hvalid : c.toNat < 0xD800 ∨ 0xDFFF < c.toNat ∧ c.toNat < 0x110000 := c.valid
  have hbyte {n : Nat} (hlow : 0x80 ≤ n) (hhigh : n < 0x100) : 0x80 ≤ n.toUInt8.toNat := by
    rwa [toNat_toUInt8 hhigh]
  revert hb
  rw [encodeChar]
  generalize c.toNat = n at hc hvalid
  split_ifs with hone htwo hthree
  · omega
  · simp only [List.mem_cons, List.not_mem_nil, or_false]
    rintro (rfl | rfl) <;> exact hbyte (by omega) (by omega)
  · simp only [List.mem_cons, List.not_mem_nil, or_false]
    rintro (rfl | rfl | rfl) <;> exact hbyte (by omega) (by omega)
  · simp only [List.mem_cons, List.not_mem_nil, or_false]
    rintro (rfl | rfl | rfl | rfl) <;> exact hbyte (by omega) (by omega)

theorem asChars_encodeChar {c : Char} (h : c.toNat < 0x80) : asChars (encodeChar c) = [c] := by
  rw [encodeChar_of_lt h, asChars, List.map_singleton, toNat_toUInt8 (by omega), Char.ofNat_toNat]

theorem le_of_mem_asChars {c : Char} (hc : 0x80 ≤ c.toNat) {d : Char}
    (hd : d ∈ asChars (encodeChar c)) : 0x80 ≤ d.toNat := by
  obtain ⟨b, hb, rfl⟩ := List.mem_map.mp hd
  have hlt := b.toNat_lt
  rw [toNat_ofNat (.inl (by omega))]
  exact le_of_mem_encodeChar hc hb

theorem eq_nil_of_size {t : Text} (h : size t = 0) : t = [] := by
  cases t with
  | nil => rfl
  | cons c t =>
    have hnil := List.length_eq_zero_iff.mp h
    rw [encode, List.flatMap_cons] at hnil
    exact absurd (List.append_eq_nil_iff.mp hnil).1 (encodeChar_ne_nil c)

/-- The ends of a text are told apart by their number of bytes. -/
theorem eq_of_suffix {s s' t : Text} (h : s <:+ t) (h' : s' <:+ t) (hsize : size s = size s') :
    s = s' := by
  have hlonger {s s' : Text} (hs : s <:+ s') (hsize : size s = size s') : s = s' := by
    obtain ⟨front, rfl⟩ := hs
    rw [size, size, encode_append, List.length_append] at hsize
    have hfront : size front = 0 := by
      rw [size]
      omega
    rw [eq_nil_of_size hfront, List.nil_append]
  rcases List.suffix_or_suffix_of_suffix h h' with hs | hs
  · exact hlonger hs hsize
  · exact (hlonger hs hsize.symm).symm

end SourceMerge.Utf8
