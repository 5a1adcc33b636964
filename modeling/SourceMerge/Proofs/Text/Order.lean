import SourceMerge.Proofs.Text.Utf8
import SourceMerge.Text.Order

/-! Sorted texts. Sorting keeps all texts, and since different texts have different bytes, it
forgets the order in which they came. -/
namespace SourceMerge.Text
variable {a b t : Text} {ts us : List Text}

theorem mem_sort : t ∈ sort ts ↔ t ∈ ts := (sortOn_perm id ts).mem_iff

theorem sort_nil : sort [] = [] := List.mergeSort_nil

theorem sort_eq_self (h : ts.Pairwise fun a b => atMost a b = true) : sort ts = ts :=
  List.mergeSort_of_pairwise h

theorem encode_injective : Function.Injective Utf8.encode := by
  intro a b h
  rw [← Utf8.decodeLossy_encode a, h, Utf8.decodeLossy_encode]

theorem atMost_antisymm (h : atMost a b = true) (k : atMost b a = true) : a = b :=
  encode_injective (List.le_antisymm (of_decide_eq_true h) (of_decide_eq_true k))

/-- Texts that begin alike are ordered by what is left of them. -/
theorem atMost_append_left (front a b : Text) :
    atMost (front ++ a) (front ++ b) = atMost a b := by
  have hbytes (bytes : Bytes) : bytes ++ Utf8.encode a ≤ bytes ++ Utf8.encode b ↔
      Utf8.encode a ≤ Utf8.encode b := by
    induction bytes with
    | nil => rfl
    | cons c bytes ih => simp [List.cons_le_cons_iff, ih]
  rw [atMost, atMost, Utf8.encode_append, Utf8.encode_append, decide_eq_decide]
  exact hbytes _

/-- Texts that are all different are strictly increasing when they are sorted. -/
theorem sort_strict {ts : List Text} (h : ts.Nodup) :
    (sort ts).Pairwise fun a b => Utf8.encode a < Utf8.encode b := by
  have hnodup : (sort ts).Nodup := (sortOn_perm id ts).nodup_iff.mpr h
  refine ((sortOn_sorted id ts).and hnodup).imp ?_
  rintro a b ⟨hle, hne⟩
  exact Std.lt_of_le_of_ne (of_decide_eq_true hle) fun heq => hne (encode_injective heq)

section Keys
variable {α : Type} {key : α → Text} {x y : α} {xs ys : List α}

/-- Where the keys tell the elements apart, sorting forgets their order. -/
theorem sortOn_eq_of_perm (h : xs.Perm ys)
    (hapart : ∀ x ∈ xs, ∀ y ∈ xs, key x = key y → x = y) : sortOn key xs = sortOn key ys := by
  apply List.Perm.eq_of_pairwise ?_ (sortOn_sorted key xs) (sortOn_sorted key ys)
  · exact (sortOn_perm key xs).trans (h.trans (sortOn_perm key ys).symm)
  · intro x y hx hy hxy hyx
    rw [(sortOn_perm key xs).mem_iff] at hx
    rw [(sortOn_perm key ys).mem_iff, ← h.mem_iff] at hy
    exact hapart x hx y hy (atMost_antisymm hxy hyx)

/-- A text in front of all keys has no say in the order. -/
theorem sortOn_map {β : Type} {f : α → β} {key' : β → Text} {front : Text}
    (h : ∀ x ∈ xs, key' (f x) = front ++ key x) :
    sortOn key' (xs.map f) = (sortOn key xs).map f := by
  refine (List.map_mergeSort fun x hx y hy => ?_).symm
  rw [h x hx, h y hy, atMost_append_left]

/-- Elements with equal keys keep their order. -/
theorem pair_sublist_sortOn (hkey : key x = key y) (h : [x, y].Sublist xs) :
    [x, y].Sublist (sortOn key xs) := by
  refine List.pair_sublist_mergeSort (fun _ _ _ => atMost_trans) (fun _ _ => atMost_total _ _) ?_ h
  rw [hkey]
  exact decide_eq_true (List.le_refl _)

/-- No two elements of a list without duplicates stand in it in both orders. -/
theorem not_pair_sublist_swap (hxs : xs.Nodup) (h : [x, y].Sublist xs) :
    ¬ [y, x].Sublist xs := by
  intro h'
  induction xs with
  | nil => contradiction
  | cons z xs ih =>
    obtain ⟨hz, hxs⟩ := List.nodup_cons.mp hxs
    cases h with
    | cons _ h =>
      cases h' with
      | cons _ h' => exact ih hxs h h'
      | cons_cons => exact hz (h.subset (by simp))
    | cons_cons _ h =>
      cases h' with
      | cons _ h' => exact hz (h'.subset (by simp))
      | cons_cons => exact hz (List.singleton_sublist.mp h)

/-- If a part of a list may be turned around with no effect on the sorted list, the keys in that
part differ. -/
theorem nodup_map_of_sortOn_append_reverse {front : List α} (hnodup : (front ++ xs).Nodup)
    (h : sortOn key (front ++ xs.reverse) = sortOn key (front ++ xs)) : (xs.map key).Nodup := by
  have hsorted : (sortOn key (front ++ xs)).Nodup := (sortOn_perm _ _).nodup_iff.mpr hnodup
  rw [List.Nodup, List.pairwise_map, List.pairwise_iff_forall_sublist]
  intro x y hpair hkey
  have hback : [y, x].Sublist xs.reverse := hpair.reverse
  refine not_pair_sublist_swap hsorted
    (pair_sublist_sortOn hkey (hpair.trans (List.sublist_append_right _ _))) ?_
  rw [← h]
  exact pair_sublist_sortOn hkey.symm (hback.trans (List.sublist_append_right _ _))

end Keys

theorem sort_eq_of_perm (h : ts.Perm us) : sort ts = sort us :=
  sortOn_eq_of_perm h fun _ _ _ _ heq => heq

end SourceMerge.Text
