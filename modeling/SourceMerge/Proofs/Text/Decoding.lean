import Mathlib.Data.List.Basic
import Mathlib.Tactic.SplitIfs
import SourceMerge.Proofs.Text.Utf8

/-! Reading bytes one by one. An ASCII byte is read by itself, whatever was left open before it, and
the bytes of an open character and those that the reader waits for are what is written for it. -/
namespace SourceMerge.Utf8

/-- The characters and undecodable units of some bytes, read from a state. -/
def State.read : State → Bytes → List (Option Char)
  | .between, [] => []
  | .inside .., [] => [none]
  | s, b :: bytes =>
    (Reading.next ⟨[], s⟩ b).units.reverse ++ (Reading.next ⟨[], s⟩ b).state.read bytes

theorem begin_eq (us : List (Option Char)) (s : State) (b : UInt8) :
    Reading.begin ⟨us, s⟩ b =
      ⟨(Reading.begin ⟨[], s⟩ b).units ++ us, (Reading.begin ⟨[], s⟩ b).state⟩ := by
  unfold Reading.begin
  split
  · rfl
  · split <;> rfl

theorem next_eq (us : List (Option Char)) (s : State) (b : UInt8) :
    Reading.next ⟨us, s⟩ b =
      ⟨(Reading.next ⟨[], s⟩ b).units ++ us, (Reading.next ⟨[], s⟩ b).state⟩ := by
  cases s with
  | between => exact begin_eq us .between b
  | inside value more low high =>
    simp only [Reading.next]
    split
    · split <;> rfl
    · rw [begin_eq (none :: us), begin_eq [none], List.append_assoc]
      rfl

/-- What has been read before is left as it is. -/
theorem finish_foldl (us : List (Option Char)) (s : State) (bytes : Bytes) :
    (bytes.foldl Reading.next ⟨us, s⟩).finish = us.reverse ++ s.read bytes := by
  induction bytes generalizing us s with
  | nil =>
    cases s with
    | between => exact (List.append_nil _).symm
    | inside value more low high => exact List.reverse_cons
  | cons b bytes ih =>
    rw [List.foldl_cons, next_eq, ih, State.read, List.reverse_append, List.append_assoc]

theorem units_eq (bytes : Bytes) : units bytes = State.between.read bytes :=
  finish_foldl [] .between bytes

/-- The state inside a character, as lead bytes and continuation bytes give it. -/
def State.IsReached : State → Prop
  | .between => True
  | .inside _ more low high => 1 ≤ more ∧ 0x80 ≤ low ∧ low ≤ high ∧ high ≤ 0xBF

theorem isReached_between : State.between.IsReached := trivial

theorem isReached_ofLead {n : Nat} {s : State} (h : State.ofLead n = some s) : s.IsReached := by
  unfold State.ofLead at h
  split_ifs at h <;> cases h <;> simp [State.IsReached]

theorem isReached_begin (us : List (Option Char)) (s : State) (b : UInt8) :
    (Reading.begin ⟨us, s⟩ b).state.IsReached := by
  unfold Reading.begin
  split
  · exact isReached_between
  · split
    · rename_i hlead
      exact isReached_ofLead hlead
    · exact isReached_between

theorem isReached_next {s : State} (hs : s.IsReached) (us : List (Option Char)) (b : UInt8) :
    (Reading.next ⟨us, s⟩ b).state.IsReached := by
  cases s with
  | between => exact isReached_begin us .between b
  | inside value more low high =>
    simp only [Reading.next]
    split
    · split
      · exact isReached_between
      · simp only [State.IsReached] at hs ⊢
        omega
    · exact isReached_begin _ _ b

/-- A byte that does not continue an open character breaks it off and is read afresh. -/
theorem read_broken {value more low high : Nat} {b : UInt8}
    (hout : ¬ (low ≤ b.toNat ∧ b.toNat ≤ high)) (bytes : Bytes) :
    (State.inside value more low high).read (b :: bytes) =
      none :: State.between.read (b :: bytes) := by
  simp only [State.read, Reading.next, if_neg hout]
  rw [begin_eq, List.reverse_append]
  rfl

section Ascii
variable {b : UInt8}

theorem read_between_ascii (hb : b.toNat < 0x80) (bytes : Bytes) :
    State.between.read (b :: bytes) = some (Char.ofNat b.toNat) :: State.between.read bytes := by
  simp only [State.read, Reading.next, Reading.begin, if_pos hb]
  rfl

/-- An ASCII byte breaks off an open character and is read by itself. -/
theorem read_ascii {s : State} (hs : s.IsReached) (hb : b.toNat < 0x80) (bytes : Bytes) :
    s.read (b :: bytes) = s.read [] ++ some (Char.ofNat b.toNat) :: State.between.read bytes := by
  cases s with
  | between => exact read_between_ascii hb bytes
  | inside value more low high =>
    have hout : ¬ (low ≤ b.toNat ∧ b.toNat ≤ high) := by
      simp only [State.IsReached] at hs
      omega
    rw [read_broken hout, read_between_ascii hb]
    rfl

theorem read_append_ascii {s : State} (hs : s.IsReached) (hb : b.toNat < 0x80)
    (front bytes : Bytes) :
    s.read (front ++ b :: bytes) =
      s.read front ++ some (Char.ofNat b.toNat) :: State.between.read bytes := by
  induction front generalizing s with
  | nil => exact read_ascii hs hb bytes
  | cons c front ih =>
    rw [List.cons_append, State.read, ih (isReached_next hs [] c), State.read, List.append_assoc]

/-- Bytes around an ASCII byte are read apart from each other. -/
theorem decodeLossy_append_ascii (hb : b.toNat < 0x80) (front bytes : Bytes) :
    decodeLossy (front ++ b :: bytes) =
      decodeLossy front ++ Char.ofNat b.toNat :: decodeLossy bytes := by
  simp only [decodeLossy, units_eq]
  rw [read_append_ascii isReached_between hb, List.map_append, List.map_cons]
  rfl

end Ascii

section Written

theorem toNat_ofNat {n : Nat} (h : n.isValidChar) : (Char.ofNat n).toNat = n := by
  rw [Char.ofNat, dif_pos h]
  exact UInt32.toNat_ofNatLT

/-- The byte with six bits that continues a character. -/
def continuation (k : Nat) : UInt8 := (0x80 + k).toUInt8

theorem encodeChar_one {n : Nat} (h : n < 0x80) : encodeChar (Char.ofNat n) = [n.toUInt8] := by
  rw [encodeChar, toNat_ofNat (Or.inl (by omega))]
  exact if_pos h

theorem encodeChar_two {a k : Nat} (ha : 2 ≤ a) (ha' : a < 0x20) (hk : k < 0x40) :
    encodeChar (Char.ofNat (a * 0x40 + k)) = [(0xC0 + a).toUInt8, continuation k] := by
  have hlead : (a * 0x40 + k) / 0x40 = a := by omega
  have hlast : (a * 0x40 + k) % 0x40 = k := by omega
  rw [encodeChar, toNat_ofNat (Or.inl (by omega))]
  simp only [hlead, hlast]
  rw [if_neg (by omega), if_pos (by omega), continuation]

theorem encodeChar_three {a k l : Nat} (ha : a < 0x10) (hk : k < 0x40) (hl : l < 0x40)
    (hlong : a = 0 → 0x20 ≤ k) (hsurrogate : a = 0xD → k < 0x20) :
    encodeChar (Char.ofNat ((a * 0x40 + k) * 0x40 + l)) =
      [(0xE0 + a).toUInt8, continuation k, continuation l] := by
  have hvalid : ((a * 0x40 + k) * 0x40 + l).isValidChar := by
    unfold Nat.isValidChar
    omega
  have hlead : ((a * 0x40 + k) * 0x40 + l) / 0x1000 = a := by omega
  have hmiddle : ((a * 0x40 + k) * 0x40 + l) / 0x40 % 0x40 = k := by omega
  have hlast : ((a * 0x40 + k) * 0x40 + l) % 0x40 = l := by omega
  rw [encodeChar, toNat_ofNat hvalid]
  simp only [hlead, hmiddle, hlast]
  rw [if_neg (by omega), if_neg (by omega), if_pos (by omega), continuation, continuation]

theorem encodeChar_four {a k l m : Nat} (ha : a < 5) (hk : k < 0x40) (hl : l < 0x40)
    (hm : m < 0x40) (hlong : a = 0 → 0x10 ≤ k) (hrange : a = 4 → k < 0x10) :
    encodeChar (Char.ofNat (((a * 0x40 + k) * 0x40 + l) * 0x40 + m)) =
      [(0xF0 + a).toUInt8, continuation k, continuation l, continuation m] := by
  have hvalid : (((a * 0x40 + k) * 0x40 + l) * 0x40 + m).isValidChar := by
    unfold Nat.isValidChar
    omega
  have hlead : (((a * 0x40 + k) * 0x40 + l) * 0x40 + m) / 0x40000 = a := by omega
  have hsecond : (((a * 0x40 + k) * 0x40 + l) * 0x40 + m) / 0x1000 % 0x40 = k := by omega
  have hthird : (((a * 0x40 + k) * 0x40 + l) * 0x40 + m) / 0x40 % 0x40 = l := by omega
  have hlast : (((a * 0x40 + k) * 0x40 + l) * 0x40 + m) % 0x40 = m := by omega
  rw [encodeChar, toNat_ofNat hvalid]
  simp only [hlead, hsecond, hthird, hlast]
  rw [if_neg (by omega), if_neg (by omega), if_neg (by omega), continuation, continuation,
    continuation]

/-- The bytes read of a character that is open: whatever continues them as the state asks for
completes them to what is written for the character that is read then. -/
def State.Owes : State → Bytes → Prop
  | .between, pending => pending = []
  | .inside value more low high, pending =>
    ∀ ks : List Nat, ks.length = more → (∀ k ∈ ks, k < 0x40) →
      (∀ k ∈ ks.head?, low ≤ 0x80 + k ∧ 0x80 + k ≤ high) →
      encodeChar (Char.ofNat (ks.foldl (fun v k => v * 0x40 + k) value)) =
        pending ++ ks.map continuation

theorem owes_two {a : Nat} (ha : 2 ≤ a) (ha' : a < 0x20) :
    (State.inside a 1 0x80 0xBF).Owes [(0xC0 + a).toUInt8] := by
  intro ks hlength hk _
  obtain ⟨k, rfl⟩ := List.length_eq_one_iff.mp hlength
  have hk := hk k List.mem_cons_self
  exact encodeChar_two ha ha' hk

theorem owes_three {a : Nat} (ha : a < 0x10) :
    (State.inside a 2 (if a = 0 then 0xA0 else 0x80) (if a = 0xD then 0x9F else 0xBF)).Owes
      [(0xE0 + a).toUInt8] := by
  intro ks hlength hk hfirst
  obtain ⟨k, l, rfl⟩ := List.length_eq_two.mp hlength
  have hfirst := hfirst k rfl
  refine encodeChar_three ha (hk k (by simp)) (hk l (by simp)) (fun h => ?_) fun h => ?_
  · rw [if_pos h] at hfirst
    omega
  · rw [if_pos h] at hfirst
    omega

theorem owes_four {a : Nat} (ha : a < 5) :
    (State.inside a 3 (if a = 0 then 0x90 else 0x80) (if a = 4 then 0x8F else 0xBF)).Owes
      [(0xF0 + a).toUInt8] := by
  intro ks hlength hk hfirst
  obtain ⟨k, l, m, rfl⟩ := List.length_eq_three.mp hlength
  have hfirst := hfirst k rfl
  refine encodeChar_four ha (hk k (by simp)) (hk l (by simp)) (hk m (by simp)) (fun h => ?_)
    fun h => ?_
  · rw [if_pos h] at hfirst
    omega
  · rw [if_pos h] at hfirst
    omega

theorem exists_of_ofLead {n : Nat} {s : State} (h : State.ofLead n = some s) :
    (∃ a, 2 ≤ a ∧ a < 0x20 ∧ n = 0xC0 + a) ∨ (∃ a < 0x10, n = 0xE0 + a) ∨
      ∃ a < 5, n = 0xF0 + a := by
  by_cases htwo : n < 0xE0
  · left
    refine ⟨n - 0xC0, ?_⟩
    unfold State.ofLead at h
    split_ifs at h <;> omega
  by_cases hthree : n < 0xF0
  · right; left
    exact ⟨n - 0xE0, by omega, by omega⟩
  · right; right
    refine ⟨n - 0xF0, ?_⟩
    unfold State.ofLead at h
    split_ifs at h <;> omega

theorem owes_ofLead {b : UInt8} {s : State} (h : State.ofLead b.toNat = some s) :
    s.Owes [b] := by
  have hbyte : b = b.toNat.toUInt8 := (UInt8.ofNat_toNat).symm
  rcases exists_of_ofLead h with ⟨a, ha, ha', hn⟩ | ⟨a, ha, hn⟩ | ⟨a, ha, hn⟩
  · rw [hn, ofLead_two a ha' ha] at h
    rw [hbyte, hn]
    exact Option.some.inj h ▸ owes_two ha ha'
  · rw [hn, ofLead_three a ha] at h
    rw [hbyte, hn]
    exact Option.some.inj h ▸ owes_three ha
  · rw [hn, ofLead_four a ha] at h
    rw [hbyte, hn]
    exact Option.some.inj h ▸ owes_four ha

section Open
variable {value more low high k : Nat} {pending : Bytes}

theorem exists_continuation {b : UInt8} (hlow : 0x80 ≤ b.toNat) (hhigh : b.toNat ≤ 0xBF) :
    ∃ k < 0x40, b.toNat = 0x80 + k ∧ b = continuation k := by
  refine ⟨b.toNat - 0x80, by omega, by omega, ?_⟩
  rw [continuation, Nat.add_sub_cancel' hlow]
  exact (UInt8.ofNat_toNat).symm

/-- A byte that an open character waits for is one of those that complete it. -/
theorem owes_next (h : (State.inside value more low high).Owes pending) (hk : k < 0x40)
    (hlow : low ≤ 0x80 + k) (hhigh : 0x80 + k ≤ high) (hmore : 2 ≤ more) :
    (State.inside (value * 0x40 + k) (more - 1) 0x80 0xBF).Owes (pending ++ [continuation k]) := by
  intro ks hlength hks _
  have hall : ∀ l ∈ k :: ks, l < 0x40 := by
    intro l hl
    rcases List.mem_cons.mp hl with rfl | hl
    · exact hk
    · exact hks l hl
  have hfirst : ∀ l ∈ (k :: ks).head?, low ≤ 0x80 + l ∧ 0x80 + l ≤ high := by
    intro l hl
    obtain rfl := Option.some.inj hl
    exact ⟨hlow, hhigh⟩
  have howed := h (k :: ks) (by rw [List.length_cons]; omega) hall hfirst
  rw [List.append_assoc]
  exact howed

/-- The last byte that an open character waits for completes it. -/
theorem encodeChar_of_owes (h : (State.inside value 1 low high).Owes pending) (hk : k < 0x40)
    (hlow : low ≤ 0x80 + k) (hhigh : 0x80 + k ≤ high) :
    encodeChar (Char.ofNat (value * 0x40 + k)) = pending ++ [continuation k] := by
  refine h [k] rfl ?_ ?_
  · intro l hl
    rwa [List.mem_singleton.mp hl]
  · intro l hl
    obtain rfl := Option.some.inj hl
    exact ⟨hlow, hhigh⟩

end Open

end Written
end SourceMerge.Utf8
