import Mathlib.Tactic.SplitIfs
import SourceMerge.Path

/-! Reading what was written as UTF-8. The bytes of a character lead from between two characters to
between two characters and are read as that character, so that a text is read back as it was, and
a path made of a text is shown as that text. -/
namespace SourceMerge.Utf8

theorem encode_append (s t : Text) : encode (s ++ t) = encode s ++ encode t :=
  List.flatMap_append

theorem encodeChar_ne_nil (c : Char) : encodeChar c ≠ [] := by
  rw [encodeChar]
  split_ifs <;> simp

theorem toNat_toUInt8 {n : Nat} (h : n < 0x100) : n.toUInt8.toNat = n := by
  simp [Nat.mod_eq_of_lt h]

theorem ofLead_two : ∀ a < 0x20, 2 ≤ a →
    State.ofLead (0xC0 + a) = some (.inside a 1 0x80 0xBF) := by
  decide

theorem ofLead_three : ∀ a < 0x10, State.ofLead (0xE0 + a) =
    some (.inside a 2 (if a = 0 then 0xA0 else 0x80) (if a = 0xD then 0x9F else 0xBF)) := by
  decide

theorem ofLead_four : ∀ a < 5, State.ofLead (0xF0 + a) =
    some (.inside a 3 (if a = 0 then 0x90 else 0x80) (if a = 4 then 0x8F else 0xBF)) := by
  decide

section Reading
variable {us : List (Option Char)}

theorem next_ascii {n : Nat} (h : n < 0x80) :
    Reading.next ⟨us, .between⟩ n.toUInt8 = ⟨some (Char.ofNat n) :: us, .between⟩ := by
  have hbyte : n.toUInt8.toNat = n := toNat_toUInt8 (by omega)
  simp only [Reading.next, Reading.begin, hbyte]
  rw [if_pos h]

theorem next_lead {n : Nat} {s : State} (h : State.ofLead n = some s) (hlow : 0x80 ≤ n)
    (hhigh : n < 0x100) : Reading.next ⟨us, .between⟩ n.toUInt8 = ⟨us, s⟩ := by
  simp only [Reading.next, Reading.begin, toNat_toUInt8 hhigh, h]
  rw [if_neg (by omega)]

/-- A continuation byte adds six bits. -/
theorem next_inside {value more low high k : Nat} (hk : k < 0x40) (hlow : low ≤ 0x80 + k)
    (hhigh : 0x80 + k ≤ high) :
    Reading.next ⟨us, .inside value more low high⟩ (0x80 + k).toUInt8 =
      if more = 1 then ⟨some (Char.ofNat (value * 0x40 + k)) :: us, .between⟩
      else ⟨us, .inside (value * 0x40 + k) (more - 1) 0x80 0xBF⟩ := by
  have hbyte : (0x80 + k).toUInt8.toNat = 0x80 + k := toNat_toUInt8 (by omega)
  simp only [Reading.next, hbyte]
  rw [if_pos ⟨hlow, hhigh⟩, Nat.add_sub_cancel_left]

/-- The bytes of a character are read as that character. -/
theorem foldl_encodeChar (c : Char) :
    (encodeChar c).foldl Reading.next ⟨us, .between⟩ = ⟨some c :: us, .between⟩ := by
  have hchar : Char.ofNat c.toNat = c := Char.ofNat_toNat c
  have hvalid : c.toNat < 0xD800 ∨ 0xDFFF < c.toNat ∧ c.toNat < 0x110000 := c.valid
  revert hchar hvalid
  rw [encodeChar]
  generalize c.toNat = n
  intro hchar hvalid
  split
  · rename_i h
    simp only [List.foldl_cons, List.foldl_nil, next_ascii h, hchar]
  split
  · have hlead := ofLead_two (n / 0x40) (by omega) (by omega)
    have hbits : n / 0x40 * 0x40 + n % 0x40 = n := by omega
    simp only [List.foldl_cons, List.foldl_nil]
    rw [next_lead hlead (by omega) (by omega), next_inside (by omega) (by omega) (by omega),
      if_pos rfl, hbits, hchar]
  split
  · have hlead := ofLead_three (n / 0x1000) (by omega)
    have hbits : (n / 0x1000 * 0x40 + n / 0x40 % 0x40) * 0x40 + n % 0x40 = n := by omega
    simp only [List.foldl_cons, List.foldl_nil]
    rw [next_lead hlead (by omega) (by omega),
      next_inside (by omega) (by split <;> omega) (by split <;> omega), if_neg (by decide),
      next_inside (by omega) (by omega) (by omega), if_pos rfl, hbits, hchar]
  · have hlead := ofLead_four (n / 0x40000) (by omega)
    have hbits : ((n / 0x40000 * 0x40 + n / 0x1000 % 0x40) * 0x40 + n / 0x40 % 0x40) * 0x40 +
        n % 0x40 = n := by omega
    simp only [List.foldl_cons, List.foldl_nil]
    rw [next_lead hlead (by omega) (by omega),
      next_inside (by omega) (by split <;> omega) (by split <;> omega), if_neg (by decide),
      next_inside (by omega) (by omega) (by omega), if_neg (by decide),
      next_inside (by omega) (by omega) (by omega), if_pos rfl, hbits, hchar]

theorem foldl_encode (t : Text) :
    (encode t).foldl Reading.next ⟨us, .between⟩ = ⟨(t.map some).reverse ++ us, .between⟩ := by
  induction t generalizing us with
  | nil => rfl
  | cons c t ih =>
    rw [encode, List.flatMap_cons, List.foldl_append, foldl_encodeChar, ← encode, ih]
    simp

end Reading

/-- A text is read back from its bytes. -/
theorem decodeLossy_encode (t : Text) : decodeLossy (encode t) = t := by
  rw [decodeLossy, units, foldl_encode, Reading.finish]
  simp only [List.append_nil, List.reverse_reverse, List.map_map]
  exact List.map_id t

end SourceMerge.Utf8

namespace SourceMerge.Path

theorem display_ofText (t : Text) : (ofText t).display = t := Utf8.decodeLossy_encode t

end SourceMerge.Path
