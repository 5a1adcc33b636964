import SourceMerge.Text.Utf8

/-! The order of texts by their UTF-8 bytes, and stable sorting by it. -/
namespace SourceMerge.Text

def atMost (a b : Text) : Bool := decide (Utf8.encode a ≤ Utf8.encode b)

/-- Sorts by a text computed from each element; elements with equal texts keep their order. -/
def sortOn {α : Type} (key : α → Text) (xs : List α) : List α :=
  xs.mergeSort fun x y => atMost (key x) (key y)

def sort (ts : List Text) : List Text := sortOn id ts

theorem sortOn_perm {α : Type} (key : α → Text) (xs : List α) : (sortOn key xs).Perm xs :=
  List.mergeSort_perm xs _

theorem atMost_trans {a b c : Text} (h : atMost a b = true) (k : atMost b c = true) :
    atMost a c = true := by
  simp only [atMost, decide_eq_true_eq] at *
  exact List.le_trans h k

theorem atMost_total (a b : Text) : (atMost a b || atMost b a) = true := by
  simp only [atMost, Bool.or_eq_true, decide_eq_true_eq]
  exact List.le_total _ _

theorem sortOn_sorted {α : Type} (key : α → Text) (xs : List α) :
    (sortOn key xs).Pairwise fun x y => atMost (key x) (key y) = true := by
  apply List.pairwise_mergeSort
  · intro _ _ _ h k
    exact atMost_trans h k
  · intro x y
    exact atMost_total (key x) (key y)

end SourceMerge.Text
