/-! Text as a list of characters, the blanks of Unicode, and the two steps every recogniser is
made of: past a fixed word, and past a run of blanks. -/
namespace SourceMerge

abbrev Text := List Char

namespace Text

/-- The characters with the Unicode property White_Space. -/
def isBlank (c : Char) : Bool :=
  let n := c.toNat
  (0x9 ≤ n && n ≤ 0xD) || n == 0x20 || n == 0x85 || n == 0xA0 || n == 0x1680 ||
    (0x2000 ≤ n && n ≤ 0x200A) || n == 0x2028 || n == 0x2029 || n == 0x202F || n == 0x205F ||
    n == 0x3000

def trimStart (t : Text) : Text := t.dropWhile isBlank

def trimEnd (t : Text) : Text := (t.reverse.dropWhile isBlank).reverse

def trim (t : Text) : Text := (trimStart t).trimEnd

/-- What follows `word` at the front of a text, if the text begins with it. -/
def after? : Text → Text → Option Text
  | [], t => some t
  | _ :: _, [] => none
  | w :: word, c :: t => if w = c then after? word t else none

/-- What follows a run of at least one blank. -/
def afterBlanks? : Text → Option Text
  | [] => none
  | c :: t => if isBlank c then some (trimStart t) else none

/-- What follows `word` and the blanks that must separate it from its operand. -/
def afterKeyword? (word t : Text) : Option Text := (after? word t).bind afterBlanks?

/-- The first run of non-blank characters, or nothing in a blank text. -/
def firstWord (t : Text) : Text := (trimStart t).takeWhile fun c => !isBlank c

/-- Whether `needle` stands somewhere in a text. -/
def includes (needle : Text) : Text → Bool
  | [] => needle.isEmpty
  | c :: t => (after? needle (c :: t)).isSome || includes needle t

/-- Whether a text ends in `tail`. -/
def endsIn (tail t : Text) : Bool := (after? tail.reverse t.reverse).isSome

/-- Whether a text begins with `head`. -/
def beginsWith (head t : Text) : Bool := (after? head t).isSome

/-- Lower case for the ASCII letters. -/
def lower (t : Text) : Text := t.map Char.toLower

theorem after?_eq_some_iff {word t rest : Text} :
    after? word t = some rest ↔ t = word ++ rest := by
  induction word generalizing t with
  | nil => simp [after?]
  | cons w word ih =>
    cases t with
    | nil => simp [after?]
    | cons c t =>
      by_cases h : w = c
      · simp [after?, h, ih]
      · simp [after?, h, Ne.symm h]

theorem after?_append (word rest : Text) : after? word (word ++ rest) = some rest :=
  after?_eq_some_iff.mpr rfl

theorem beginsWith_iff {head t : Text} : beginsWith head t = true ↔ ∃ rest, t = head ++ rest := by
  simp [beginsWith, Option.isSome_iff_exists, after?_eq_some_iff]

theorem endsIn_iff {tail t : Text} : endsIn tail t = true ↔ ∃ start, t = start ++ tail := by
  simp only [endsIn, Option.isSome_iff_exists, after?_eq_some_iff]
  constructor
  · rintro ⟨r, h⟩
    exact ⟨r.reverse, by rw [← t.reverse_reverse, h]; simp⟩
  · rintro ⟨r, rfl⟩
    exact ⟨r.reverse, by simp⟩

theorem includes_iff {needle t : Text} :
    includes needle t = true ↔ ∃ before rest, t = before ++ needle ++ rest := by
  induction t with
  | nil => cases needle <;> simp [includes]
  | cons c t ih =>
    simp only [includes, Bool.or_eq_true, Option.isSome_iff_exists, after?_eq_some_iff, ih]
    constructor
    · rintro (⟨r, h⟩ | ⟨b, r, h⟩)
      · exact ⟨[], r, h⟩
      · exact ⟨c :: b, r, by simp [h]⟩
    · rintro ⟨b, r, h⟩
      cases b with
      | nil => exact .inl ⟨r, h⟩
      | cons d b =>
        simp only [List.cons_append, List.cons.injEq] at h
        exact .inr ⟨b, r, h.2⟩

theorem trimStart_eq_self {t : Text} (h : ∀ c ∈ t.head?, isBlank c = false) :
    trimStart t = t := by
  cases t with
  | nil => rfl
  | cons c t => simp [trimStart, h c rfl]

theorem trimEnd_eq_self {t : Text} (h : ∀ c ∈ t.getLast?, isBlank c = false) :
    trimEnd t = t := by
  have : trimStart t.reverse = t.reverse := trimStart_eq_self (by simpa using h)
  simp only [trimEnd, trimStart] at this ⊢
  simp [this]

theorem head?_trimStart (t : Text) : ∀ c ∈ (trimStart t).head?, isBlank c = false := by
  induction t with
  | nil => simp [trimStart]
  | cons d t ih =>
    by_cases hd : isBlank d = true
    · simpa [trimStart, hd] using ih
    · simp [trimStart, hd]

theorem getLast?_trimEnd (t : Text) : ∀ c ∈ (trimEnd t).getLast?, isBlank c = false := by
  have := head?_trimStart t.reverse
  simpa [trimEnd, trimStart] using this

/-- The first character of a text survives the trimming of its end, unless it is blank. -/
theorem head?_trimEnd {t : Text} (h : ∀ c ∈ t.head?, isBlank c = false) :
    (trimEnd t).head? = t.head? := by
  cases t with
  | nil => rfl
  | cons c t =>
    have hc := h c rfl
    rw [trimEnd, List.head?_reverse]
    generalize hr : (c :: t).reverse = r
    have hlast : r.getLast? = some c := by rw [← hr]; simp
    clear hr h
    induction r with
    | nil => simp at hlast
    | cons d r ih =>
      by_cases hd : isBlank d = true
      · cases r with
        | nil => simp_all
        | cons e r => rw [List.dropWhile_cons_of_pos hd]; exact ih (by simpa using hlast)
      · rw [List.dropWhile_cons_of_neg hd, hlast]; rfl

theorem trim_trim (t : Text) : trim (trim t) = trim t := by
  have hstart : ∀ c ∈ (trim t).head?, isBlank c = false := by
    rw [trim, head?_trimEnd (head?_trimStart t)]
    exact head?_trimStart t
  have hend : ∀ c ∈ (trim t).getLast?, isBlank c = false := getLast?_trimEnd _
  rw [trim, trimStart_eq_self hstart, trimEnd_eq_self hend]

end Text
end SourceMerge
