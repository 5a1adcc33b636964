import SourceMerge.Proofs.Text.Decoding

/-! Reading bytes that need not be UTF-8. At each place the reader takes the bytes of a character if
they stand there, and otherwise one maximal subpart: as many bytes as some character begins with,
or a single byte that no character begins with. Bytes in which no subpart is met are those that
are written for the characters read. -/
namespace SourceMerge.Utf8

/-- Bytes that the bytes of some character begin with. -/
def BeginsChar (front : Bytes) : Prop := ∃ c, front <+: encodeChar c

/-- The maximal subpart at the front of bytes that no character stands at the front of. -/
structure IsSubpart (part rest : Bytes) : Prop where
  ne_nil : part ≠ []
  front : BeginsChar part ∨ part.length = 1
  illFormed : ∀ c, ¬ encodeChar c <+: part ++ rest
  maximal : ∀ b ∈ rest.head?, ¬ BeginsChar (part ++ [b])

/-- Bytes fall apart into the bytes of characters and undecodable subparts. -/
inductive Decodes : Bytes → List (Option Char) → Prop
  | nil : Decodes [] []
  | char {bytes units} (c : Char) (h : Decodes bytes units) :
      Decodes (encodeChar c ++ bytes) (some c :: units)
  | subpart {part rest units} (hpart : IsSubpart part rest) (h : Decodes rest units) :
      Decodes (part ++ rest) (none :: units)

theorem BeginsChar.of_append {front bytes : Bytes} (h : BeginsChar (front ++ bytes)) :
    BeginsChar front := by
  obtain ⟨c, hc⟩ := h
  exact ⟨c, (List.prefix_append front bytes).trans hc⟩

/-- The reading of some bytes from between two characters. -/
def reading (bytes : Bytes) : Reading := bytes.foldl Reading.next ⟨[], .between⟩

theorem reading_append (front bytes : Bytes) :
    reading (front ++ bytes) = bytes.foldl Reading.next (reading front) :=
  List.foldl_append

theorem reading_encodeChar (c : Char) : reading (encodeChar c) = ⟨[some c], .between⟩ :=
  foldl_encodeChar c

theorem units_suffix_foldl (r : Reading) (bytes : Bytes) :
    r.units <:+ (bytes.foldl Reading.next r).units := by
  induction bytes generalizing r with
  | nil => exact List.suffix_rfl
  | cons b bytes ih =>
    have hnext : r.units <:+ (r.next b).units := by
      rw [show r.next b = Reading.next ⟨r.units, r.state⟩ b from rfl, next_eq]
      exact List.suffix_append _ _
    exact hnext.trans (ih (r.next b))

theorem units_suffix_of_isPrefix {front bytes : Bytes} (h : front <+: bytes) :
    (reading front).units <:+ (reading bytes).units := by
  obtain ⟨rest, rfl⟩ := h
  rw [reading_append]
  exact units_suffix_foldl _ _

section Subparts
variable {value more low high : Nat} {front pending part part' rest rest' : Bytes} {c d : Char}

/-- No character begins with bytes of which some have turned out to be undecodable. -/
theorem not_beginsChar (h : none ∈ (reading front).units) : ¬ BeginsChar front := by
  rintro ⟨c, hc⟩
  have hunits := (units_suffix_of_isPrefix hc).subset h
  rw [reading_encodeChar] at hunits
  simp at hunits

/-- No character is complete in bytes that have only opened one. -/
theorem not_encodeChar_isPrefix (h : (reading front).units = []) (c : Char) :
    ¬ encodeChar c <+: front := by
  intro hc
  have hunits := units_suffix_of_isPrefix hc
  rw [h, reading_encodeChar, List.suffix_nil] at hunits
  contradiction

/-- No character is the front of another one. -/
theorem eq_of_encodeChar_isPrefix (h : encodeChar c <+: encodeChar d) : c = d := by
  have hunits := units_suffix_of_isPrefix h
  rw [reading_encodeChar, reading_encodeChar] at hunits
  simpa using hunits.subset List.mem_cons_self

/-- Bytes that have opened a character are the front of one. -/
theorem beginsChar_of_owes (hs : (State.inside value more low high).IsReached)
    (howes : (State.inside value more low high).Owes pending) : BeginsChar pending := by
  obtain ⟨hmore, hlow, hrange, hhigh⟩ := hs
  obtain ⟨last, rfl⟩ := Nat.exists_eq_add_of_le (Nat.le_trans hlow hrange)
  have hbits : ∀ k ∈ last :: List.replicate (more - 1) 0, k < 0x40 := by
    intro k hk
    rcases List.mem_cons.mp hk with rfl | hk
    · omega
    · rw [List.eq_of_mem_replicate hk]
      decide
  have hfirst : ∀ k ∈ (last :: List.replicate (more - 1) 0).head?,
      low ≤ 0x80 + k ∧ 0x80 + k ≤ 0x80 + last := by
    intro k hk
    obtain rfl := Option.some.inj hk
    exact ⟨hrange, Nat.le_refl _⟩
  have hlength : (last :: List.replicate (more - 1) 0).length = more := by
    rw [List.length_cons, List.length_replicate]
    omega
  exact ⟨_, _, (howes _ hlength hbits hfirst).symm⟩

/-- A character that stays open is an undecodable subpart. -/
theorem isSubpart_pending (hs : (State.inside value more low high).IsReached)
    (howes : (State.inside value more low high).Owes pending)
    (hopened : reading pending = ⟨[], .inside value more low high⟩)
    (hout : ∀ b ∈ rest.head?, ¬ (low ≤ b.toNat ∧ b.toNat ≤ high)) : IsSubpart pending rest := by
  have hnone : ∀ c, ¬ encodeChar c <+: pending := not_encodeChar_isPrefix (by rw [hopened])
  have hmaximal : ∀ b ∈ rest.head?, ¬ BeginsChar (pending ++ [b]) := by
    intro b hb
    apply not_beginsChar
    rw [reading_append, hopened, List.foldl_cons, List.foldl_nil]
    simp only [Reading.next, if_neg (hout b hb)]
    rw [begin_eq]
    exact List.mem_append_right _ List.mem_cons_self
  refine ⟨?_, .inl (beginsChar_of_owes hs howes), fun c hc => ?_, hmaximal⟩
  · rintro rfl
    cases hopened
  · rcases List.prefix_or_prefix_of_prefix hc (List.prefix_append pending rest) with h | ⟨tail, h⟩
    · exact hnone c h
    rw [← h, List.prefix_append_right_inj] at hc
    obtain ⟨_, rfl⟩ := hc
    cases tail with
    | nil =>
      rw [List.append_nil] at h
      exact hnone c (h ▸ List.prefix_rfl)
    | cons b tail =>
      refine hmaximal b rfl ⟨c, tail, ?_⟩
      rw [← h, List.append_assoc, List.singleton_append]

theorem isSubpart_byte {b : UInt8} (h : reading [b] = ⟨[none], .between⟩) (rest : Bytes) :
    IsSubpart [b] rest := by
  have hnone : ¬ BeginsChar [b] := not_beginsChar (by rw [h]; exact List.mem_cons_self)
  refine ⟨List.cons_ne_nil b [], .inr rfl, fun c hc => ?_, fun d _ hd => hnone hd.of_append⟩
  obtain ⟨first, tail, hfirst⟩ := List.exists_cons_of_ne_nil (encodeChar_ne_nil c)
  rw [hfirst, List.singleton_append, List.cons_prefix_cons] at hc
  exact hnone ⟨c, tail, by rw [hfirst, hc.1, List.singleton_append]⟩

/-- A subpart is not a part of a longer one. -/
theorem IsSubpart.eq_nil {tail : Bytes} (h : IsSubpart part (tail ++ rest))
    (h' : IsSubpart (part ++ tail) rest) : tail = [] := by
  cases tail with
  | nil => rfl
  | cons b tail =>
    have hmaximal := h.maximal b rfl
    rcases h'.front with hfront | hone
    · rw [← List.singleton_append, ← List.append_assoc] at hfront
      exact absurd hfront.of_append hmaximal
    · have hpos := List.length_pos_of_ne_nil h.ne_nil
      rw [List.length_append, List.length_cons] at hone
      omega

theorem IsSubpart.unique (h : IsSubpart part rest) (h' : IsSubpart part' rest')
    (heq : part ++ rest = part' ++ rest') : part = part' ∧ rest = rest' := by
  rcases List.append_eq_append_iff.mp heq with ⟨tail, rfl, rfl⟩ | ⟨tail, rfl, rfl⟩
  · rw [h.eq_nil h', List.append_nil]
    exact ⟨rfl, rfl⟩
  · rw [h'.eq_nil h, List.append_nil]
    exact ⟨rfl, rfl⟩

end Subparts

section Units
variable {bytes : Bytes} {units units' : List (Option Char)} {t : Text}

/-- Bytes fall apart in one way only. -/
theorem Decodes.unique (h : Decodes bytes units) (h' : Decodes bytes units') : units = units' := by
  induction h generalizing units' with
  | nil =>
    generalize hnil : ([] : Bytes) = bytes at h'
    cases h' with
    | nil => rfl
    | char d => exact absurd (List.append_eq_nil_iff.mp hnil.symm).1 (encodeChar_ne_nil d)
    | subpart hpart => exact absurd (List.append_eq_nil_iff.mp hnil.symm).1 hpart.ne_nil
  | @char rest units c _ ih =>
    generalize hbytes : encodeChar c ++ rest = bytes at h'
    cases h' with
    | nil => exact absurd (List.append_eq_nil_iff.mp hbytes).1 (encodeChar_ne_nil c)
    | char d h' =>
      have hc := hbytes ▸ List.prefix_append (encodeChar c) rest
      obtain rfl : c = d := by
        rcases List.prefix_or_prefix_of_prefix hc (List.prefix_append _ _) with h | h
        · exact eq_of_encodeChar_isPrefix h
        · exact (eq_of_encodeChar_isPrefix h).symm
      rw [ih (List.append_cancel_left hbytes ▸ h')]
    | subpart hpart => exact absurd ⟨_, hbytes⟩ (hpart.illFormed c)
  | @subpart part rest units hpart _ ih =>
    generalize hbytes : part ++ rest = bytes at h'
    cases h' with
    | nil => exact absurd (List.append_eq_nil_iff.mp hbytes).1 hpart.ne_nil
    | char d => exact absurd ⟨_, hbytes.symm⟩ (hpart.illFormed d)
    | subpart hpart' h' =>
      obtain ⟨rfl, rfl⟩ := hpart.unique hpart' hbytes
      rw [ih h']

/-- Whatever state the reader is in, it reads the bytes of the open character together with those
still to come as they fall apart. -/
theorem decodes_read {s : State} {pending : Bytes} (hs : s.IsReached) (howes : s.Owes pending)
    (hopened : reading pending = ⟨[], s⟩) : Decodes (pending ++ bytes) (s.read bytes) := by
  induction bytes generalizing s pending with
  | nil =>
    cases s with
    | between =>
      rw [howes]
      exact .nil
    | inside value more low high =>
      exact .subpart (isSubpart_pending hs howes hopened (by simp)) .nil
  | cons b bytes ih =>
    have hrest : Decodes bytes (State.between.read bytes) := ih isReached_between rfl rfl
    have hbetween : Decodes (b :: bytes) (State.between.read (b :: bytes)) := by
      by_cases hascii : b.toNat < 0x80
      · have hbyte : encodeChar (Char.ofNat b.toNat) = [b] := by
          rw [encodeChar_one hascii]
          exact congrArg (fun c => [c]) UInt8.ofNat_toNat
        rw [read_between_ascii hascii, ← List.singleton_append, ← hbyte]
        exact .char _ hrest
      cases hlead : State.ofLead b.toNat with
      | some s =>
        have hnext : Reading.next ⟨[], .between⟩ b = ⟨[], s⟩ := by
          simp only [Reading.next, Reading.begin, if_neg hascii, hlead]
        rw [State.read, hnext]
        exact ih (isReached_ofLead hlead) (owes_ofLead hlead) hnext
      | none =>
        have hnext : Reading.next ⟨[], .between⟩ b = ⟨[none], .between⟩ := by
          simp only [Reading.next, Reading.begin, if_neg hascii, hlead]
        rw [State.read, hnext]
        exact .subpart (isSubpart_byte hnext bytes) hrest
    cases s with
    | between =>
      rw [howes]
      exact hbetween
    | inside value more low high =>
      by_cases hin : low ≤ b.toNat ∧ b.toNat ≤ high
      · obtain ⟨hmore, hlow, _, hhigh⟩ := hs
        obtain ⟨k, hk, hnat, rfl⟩ : ∃ k < 0x40, b.toNat = 0x80 + k ∧ b = continuation k :=
          exists_continuation (by omega) (by omega)
        rw [hnat] at hin
        have hnext : Reading.next ⟨[], .inside value more low high⟩ (continuation k) =
            if more = 1 then ⟨[some (Char.ofNat (value * 0x40 + k))], .between⟩
            else ⟨[], .inside (value * 0x40 + k) (more - 1) 0x80 0xBF⟩ :=
          next_inside hk hin.1 hin.2
        rw [State.read, hnext, ← List.singleton_append, ← List.append_assoc]
        by_cases hlast : more = 1
        · subst hlast
          rw [if_pos rfl, ← encodeChar_of_owes howes hk hin.1 hin.2]
          exact .char _ hrest
        · rw [if_neg hlast] at hnext ⊢
          have hopen : (State.inside (value * 0x40 + k) (more - 1) 0x80 0xBF).IsReached :=
            ⟨by omega, Nat.le_refl _, by decide, Nat.le_refl _⟩
          refine ih hopen (owes_next howes hk hin.1 hin.2 (by omega)) ?_
          rw [reading_append, hopened]
          exact hnext
      · have hpart : IsSubpart pending (b :: bytes) :=
          isSubpart_pending hs howes hopened fun d hd => Option.some.inj hd ▸ hin
        rw [read_broken hin]
        exact .subpart hpart hbetween

theorem decodes_units (bytes : Bytes) : Decodes bytes (Utf8.units bytes) := by
  rw [units_eq]
  have hread : Decodes ([] ++ bytes) (State.between.read bytes) :=
    decodes_read isReached_between rfl rfl
  exact hread

theorem decodes_iff : Decodes bytes units ↔ Utf8.units bytes = units := by
  constructor
  · exact (decodes_units bytes).unique
  · rintro rfl
    exact decodes_units bytes

/-- What is read without a loss was written so. -/
theorem Decodes.eq_encode (h : Decodes bytes units) (ht : units = t.map some) :
    bytes = encode t := by
  induction h generalizing t with
  | nil => rw [List.map_eq_nil_iff.mp ht.symm]; rfl
  | char c _ ih =>
    obtain ⟨d, u, rfl, hc, hu⟩ := List.map_eq_cons_iff.mp ht.symm
    obtain rfl := Option.some.inj hc
    rw [ih hu.symm, encode, encode, List.flatMap_cons]
  | subpart _ _ _ =>
    obtain ⟨_, _, _, hnone, _⟩ := List.map_eq_cons_iff.mp ht.symm
    contradiction

theorem mapM_id_eq_some_iff : units.mapM id = some t ↔ units = t.map some := by
  induction units generalizing t with
  | nil => cases t <;> simp
  | cons unit units ih =>
    rw [List.mapM_cons]
    cases unit with
    | none => cases t <;> simp
    | some c =>
      cases t with
      | nil => cases units.mapM id <;> simp
      | cons d u =>
        rw [List.map_cons, List.cons.injEq, Option.some.injEq, ← ih]
        cases units.mapM id <;> simp

theorem units_encode (t : Text) : Utf8.units (encode t) = t.map some := by
  rw [Utf8.units, foldl_encode, Reading.finish]
  simp

/-- Bytes are read as a text without a loss exactly if they are written for it. -/
theorem decode?_eq_some_iff : decode? bytes = some t ↔ bytes = encode t := by
  rw [decode?, mapM_id_eq_some_iff]
  constructor
  · exact (decodes_units bytes).eq_encode
  · rintro rfl
    exact units_encode t

/-- Bytes that are read as nothing are no bytes. -/
theorem decodeLossy_ne_nil (h : bytes ≠ []) : decodeLossy bytes ≠ [] := by
  intro hnil
  have hunits : Utf8.units bytes = [] := List.map_eq_nil_iff.mp hnil
  exact h ((decodes_units bytes).eq_encode (t := []) hunits)

end Units
end SourceMerge.Utf8
