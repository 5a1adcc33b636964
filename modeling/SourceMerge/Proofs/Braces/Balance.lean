import SourceMerge.Proofs.Braces.Counting

/-! Nesting depth over several lines, and balance: no line closes a brace that is not open, and at
the end none is open. Both depend only on the change in depth that each line makes. -/
namespace SourceMerge.Braces

/-- The nesting depth that some lines add up to. -/
def depth : List Text → Int
  | [] => 0
  | line :: rest => (ofLine line).delta + depth rest

/-- With so many braces open before some lines, none of them closes more than are open. -/
def Covers (opened : Int) : List Text → Prop
  | [] => 0 ≤ opened
  | line :: rest => 0 ≤ opened ∧ Covers (opened + (ofLine line).delta) rest

structure Balanced (lines : List Text) : Prop where
  covers : Covers 0 lines
  depth_eq : depth lines = 0

instance Covers.decide : (opened : Int) → (lines : List Text) → Decidable (Covers opened lines)
  | opened, [] => inferInstanceAs (Decidable (0 ≤ opened))
  | opened, line :: rest =>
    have := Covers.decide (opened + (ofLine line).delta) rest
    inferInstanceAs (Decidable (_ ∧ _))

instance (lines : List Text) : Decidable (Balanced lines) :=
  decidable_of_iff (Covers 0 lines ∧ depth lines = 0)
    ⟨fun h => ⟨h.1, h.2⟩, fun h => ⟨h.covers, h.depth_eq⟩⟩

@[simp] theorem depth_nil : depth [] = 0 := rfl

@[simp] theorem depth_cons (line : Text) (rest : List Text) :
    depth (line :: rest) = (ofLine line).delta + depth rest := rfl

@[simp] theorem depth_append (xs ys : List Text) : depth (xs ++ ys) = depth xs + depth ys := by
  induction xs with
  | nil => simp
  | cons line rest ih => simp [ih, Int.add_assoc]

theorem Covers.nonneg {n : Int} {lines : List Text} (h : Covers n lines) : 0 ≤ n := by
  cases lines with
  | nil => exact h
  | cons line rest => exact h.1

theorem Covers.mono {n m : Int} {lines : List Text} (h : Covers n lines) (hle : n ≤ m) :
    Covers m lines := by
  induction lines generalizing n m with
  | nil => exact Int.le_trans h hle
  | cons line rest ih =>
    refine ⟨Int.le_trans h.1 hle, ih h.2 ?_⟩
    omega

theorem covers_append {n : Int} {xs ys : List Text} :
    Covers n (xs ++ ys) ↔ Covers n xs ∧ Covers (n + depth xs) ys := by
  induction xs generalizing n with
  | nil =>
    simp only [List.nil_append, depth_nil, Int.add_zero]
    exact ⟨fun h => ⟨h.nonneg, h⟩, And.right⟩
  | cons x xs ih =>
    simp only [List.cons_append, Covers, ih, depth_cons, and_assoc, Int.add_assoc]

/-- Lines are covered if no first part of them closes more than is open. -/
theorem covers_iff_forall {n : Int} {lines : List Text} :
    Covers n lines ↔ ∀ front, front <+: lines → 0 ≤ n + depth front := by
  constructor
  · rintro h front ⟨back, rfl⟩
    exact (covers_append.mp h).2.nonneg
  · intro h
    induction lines generalizing n with
    | nil => simpa [Covers] using h [] List.prefix_rfl
    | cons line rest ih =>
      refine ⟨by simpa using h [] List.nil_prefix, ih ?_⟩
      intro front hfront
      have hcons := h (line :: front) (List.cons_prefix_cons.mpr ⟨rfl, hfront⟩)
      rw [depth_cons] at hcons
      omega

theorem balanced_iff_forall {lines : List Text} :
    Balanced lines ↔ (∀ front, front <+: lines → 0 ≤ depth front) ∧ depth lines = 0 := by
  constructor
  · intro h
    refine ⟨fun front hfront => ?_, h.depth_eq⟩
    have hcovers := covers_iff_forall.mp h.covers front hfront
    omega
  · rintro ⟨h, hdepth⟩
    refine ⟨covers_iff_forall.mpr fun front hfront => ?_, hdepth⟩
    have hfront := h front hfront
    omega

theorem balanced_nil : Balanced [] := ⟨Int.le_refl 0, rfl⟩

theorem Balanced.append {xs ys : List Text} (hx : Balanced xs) (hy : Balanced ys) :
    Balanced (xs ++ ys) := by
  refine ⟨covers_append.mpr ⟨hx.covers, ?_⟩, ?_⟩
  · rw [hx.depth_eq]
    exact hy.covers
  · rw [depth_append, hx.depth_eq, hy.depth_eq]
    rfl

theorem Balanced.flatMap {α : Type} {f : α → List Text} {xs : List α}
    (h : ∀ x ∈ xs, Balanced (f x)) : Balanced (xs.flatMap f) := by
  induction xs with
  | nil => exact balanced_nil
  | cons x xs ih =>
    rw [List.flatMap_cons]
    exact (h x List.mem_cons_self).append (ih fun y hy => h y (List.mem_cons_of_mem x hy))

theorem covers_cons_of_delta {line : Text} (h : (ofLine line).delta = 0) {n : Int}
    {rest : List Text} : Covers n (line :: rest) ↔ Covers n rest := by
  constructor
  · intro hn
    have hrest := hn.2
    rwa [h, Int.add_zero] at hrest
  · intro hn
    refine ⟨hn.nonneg, ?_⟩
    rwa [h, Int.add_zero]

/-- Lines that change no depth are balanced. -/
theorem balanced_of_delta {lines : List Text} (h : ∀ line ∈ lines, (ofLine line).delta = 0) :
    Balanced lines := by
  induction lines with
  | nil => exact balanced_nil
  | cons line rest ih =>
    have hline := h line List.mem_cons_self
    have hrest := ih fun l hl => h l (List.mem_cons_of_mem line hl)
    refine ⟨⟨Int.le_refl 0, ?_⟩, ?_⟩
    · rw [hline]
      exact hrest.covers
    · rw [depth_cons, hline, hrest.depth_eq]
      rfl

theorem Balanced.wrap {opener closer : Text} {lines : List Text}
    (ho : (ofLine opener).delta = 1) (hc : (ofLine closer).delta = -1) (h : Balanced lines) :
    Balanced (opener :: lines ++ [closer]) := by
  refine ⟨⟨Int.le_refl 0, ?_⟩, ?_⟩
  · rw [ho]
    refine covers_append.mpr ⟨h.covers.mono (by decide), ?_⟩
    rw [h.depth_eq]
    exact ⟨by decide, by rw [hc]; exact Int.le_refl 0⟩
  · simp only [List.cons_append, depth_cons, depth_append, depth_nil, ho, hc, h.depth_eq]
    decide

section Change
variable {f : Text → Text} (hf : ∀ line, (ofLine (f line)).delta = (ofLine line).delta)
include hf

theorem depth_map (lines : List Text) : depth (lines.map f) = depth lines := by
  induction lines with
  | nil => rfl
  | cons line rest ih => simp only [List.map_cons, depth_cons, hf, ih]

theorem covers_map {n : Int} {lines : List Text} : Covers n (lines.map f) ↔ Covers n lines := by
  induction lines generalizing n with
  | nil => rfl
  | cons line rest ih => simp only [List.map_cons, Covers, hf, ih]

theorem balanced_map {lines : List Text} : Balanced (lines.map f) ↔ Balanced lines := by
  constructor
  · intro h
    exact ⟨(covers_map hf).mp h.covers, by rw [← depth_map hf, h.depth_eq]⟩
  · intro h
    exact ⟨(covers_map hf).mpr h.covers, by rw [depth_map hf, h.depth_eq]⟩

end Change

section Filter
variable {p : Text → Bool} {lines : List Text}
  (hp : ∀ line ∈ lines, p line = false → (ofLine line).delta = 0)
include hp

theorem depth_filter : depth (lines.filter p) = depth lines := by
  induction lines with
  | nil => rfl
  | cons line rest ih =>
    have hrest := ih fun l hl => hp l (List.mem_cons_of_mem line hl)
    by_cases h : p line = true
    · rw [List.filter_cons_of_pos h, depth_cons, depth_cons, hrest]
    · have hline := hp line List.mem_cons_self (by simpa using h)
      rw [List.filter_cons_of_neg h, depth_cons, hline, hrest, Int.zero_add]

theorem Covers.filter {n : Int} (hn : Covers n lines) : Covers n (lines.filter p) := by
  induction lines generalizing n with
  | nil => exact hn
  | cons line rest ih =>
    have hrest := ih (fun l hl => hp l (List.mem_cons_of_mem line hl)) hn.2
    by_cases h : p line = true
    · rw [List.filter_cons_of_pos h]
      exact ⟨hn.1, hrest⟩
    · have hline := hp line List.mem_cons_self (by simpa using h)
      rw [List.filter_cons_of_neg h]
      rwa [hline, Int.add_zero] at hrest

end Filter

end SourceMerge.Braces
