import SourceMerge.Text.Basic

/-! The declarations gathered from a project. They are trimmed, never blank, all different, and
kept in the order in which they were first seen. -/
namespace SourceMerge

structure Declarations where
  items : List Text
  nodup : items.Nodup
  trimmed : ∀ d ∈ items, d.trim = d ∧ d ≠ []

namespace Declarations

def empty : Declarations := ⟨[], .nil, by simp⟩

def isEmpty (s : Declarations) : Bool := s.items.isEmpty

def size (s : Declarations) : Nat := s.items.length

def contains (s : Declarations) (declaration : Text) : Bool :=
  s.items.contains declaration.trim

/-- Whether a declaration would be a new member. -/
def isNew (s : Declarations) (declaration : Text) : Bool :=
  !declaration.trim.isEmpty && !s.contains declaration

theorem isNew_iff {s : Declarations} {declaration : Text} :
    s.isNew declaration = true ↔ declaration.trim ≠ [] ∧ declaration.trim ∉ s.items := by
  simp [isNew, contains]

/-- Adds a declaration at the end, unless it is blank or present. -/
def insert (s : Declarations) (declaration : Text) : Declarations :=
  if h : s.isNew declaration = true then
    { items := s.items ++ [declaration.trim]
      nodup := by
        rw [List.nodup_append]
        refine ⟨s.nodup, by simp, ?_⟩
        intro a ha b hb
        simp only [List.mem_singleton] at hb
        rintro rfl
        exact (isNew_iff.mp h).2 (hb ▸ ha)
      trimmed := by
        intro d hd
        rcases List.mem_append.mp hd with hd | hd
        · exact s.trimmed d hd
        · simp only [List.mem_singleton] at hd
          subst hd
          exact ⟨Text.trim_trim declaration, (isNew_iff.mp h).1⟩ }
  else s

def insertAll (s : Declarations) (declarations : List Text) : Declarations :=
  declarations.foldl insert s

/-- Those of some declarations that are new when they are inserted one after the other. -/
def added (s : Declarations) : List Text → List Text
  | [] => []
  | d :: ds => if s.isNew d then d :: (s.insert d).added ds else s.added ds

def ofList (declarations : List Text) : Declarations := empty.insertAll declarations

theorem items_insert (s : Declarations) (declaration : Text) :
    (s.insert declaration).items =
      if s.isNew declaration then s.items ++ [declaration.trim] else s.items := by
  unfold insert
  split <;> simp_all

theorem insert_of_not_isNew {s : Declarations} {declaration : Text}
    (h : s.isNew declaration = false) : s.insert declaration = s := by
  simp [insert, h]

theorem mem_insert {s : Declarations} {declaration d : Text} :
    d ∈ (s.insert declaration).items ↔
      d ∈ s.items ∨ (d = declaration.trim ∧ declaration.trim ≠ []) := by
  rw [items_insert]
  by_cases h : s.isNew declaration = true
  · have := (isNew_iff.mp h).1
    simp [h, this]
  · simp only [h]
    have h := mt isNew_iff.mpr h
    constructor
    · exact .inl
    · rintro (hd | ⟨rfl, hne⟩)
      · exact hd
      · exact Decidable.byContradiction fun hm => h ⟨hne, hm⟩

theorem insertAll_append (s : Declarations) (ds es : List Text) :
    s.insertAll (ds ++ es) = (s.insertAll ds).insertAll es :=
  List.foldl_append

theorem mem_insertAll {s : Declarations} {ds : List Text} {d : Text} :
    d ∈ (s.insertAll ds).items ↔ d ∈ s.items ∨ (d ≠ [] ∧ d ∈ ds.map Text.trim) := by
  induction ds generalizing s with
  | nil => simp [insertAll]
  | cons e ds ih =>
    have step : s.insertAll (e :: ds) = (s.insert e).insertAll ds := rfl
    rw [step, ih, mem_insert]
    simp only [List.map_cons, List.mem_cons]
    constructor
    · rintro ((h | ⟨rfl, h⟩) | ⟨h, k⟩)
      · exact .inl h
      · exact .inr ⟨h, .inl rfl⟩
      · exact .inr ⟨h, .inr k⟩
    · rintro (h | ⟨h, rfl | k⟩)
      · exact .inl (.inl h)
      · exact .inl (.inr ⟨rfl, h⟩)
      · exact .inr ⟨h, k⟩

end Declarations
end SourceMerge
