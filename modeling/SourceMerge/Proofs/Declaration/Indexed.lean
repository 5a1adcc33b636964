import SourceMerge.Declarations.Indexed
import SourceMerge.Proofs.Declaration.FirstSeen

/-! Stored declarations over any history of calls. The order and the index hold the same members, so
that the answers of the index are those of the members, and what is stored is what was put in. -/
namespace SourceMerge.Declarations
open Text

/-- The declarations that some calls put in. -/
def insertions : List Call → List Text
  | [] => []
  | .insert declaration :: calls => declaration :: insertions calls
  | .contains _ :: calls => insertions calls

namespace Indexed
variable {s : Indexed} {d : Declarations}

/-- Both parts hold the members of a set of declarations, each member once. -/
structure Stores (s : Indexed) (d : Declarations) : Prop where
  ordered_eq : s.ordered = d.items
  index_perm : s.index.Perm d.items

theorem stores_empty : empty.Stores .empty := ⟨rfl, .refl _⟩

theorem Stores.contains_eq (h : s.Stores d) (t : Text) : s.contains t = d.contains t := by
  rw [contains, Declarations.contains, Bool.eq_iff_iff, List.contains_iff_mem,
    List.contains_iff_mem]
  exact h.index_perm.mem_iff

/-- What is new goes into both parts, and nothing else changes them. -/
theorem Stores.insert_eq (h : s.Stores d) (t : Text) :
    s.insert t =
      if d.isNew t then (⟨s.ordered ++ [t.trim], t.trim :: s.index⟩, true) else (s, false) := by
  have hcontains : s.index.contains t.trim = d.contains t := h.contains_eq t
  have hnew : d.isNew t = !(t.trim.isEmpty || s.index.contains t.trim) := by
    rw [isNew, hcontains, Bool.not_or]
  rw [insert, hnew]
  cases hpresent : t.trim.isEmpty || s.index.contains t.trim with
  | true => rfl
  | false =>
    have hfresh : t.trim ∉ s.index := by
      simpa using (Bool.or_eq_false_iff.mp hpresent).2
    rw [List.insert_of_not_mem hfresh]
    rfl

theorem Stores.isNew_eq (h : s.Stores d) (t : Text) : (s.insert t).2 = d.isNew t := by
  rw [h.insert_eq]
  cases d.isNew t <;> rfl

theorem Stores.insert (h : s.Stores d) (t : Text) : (s.insert t).1.Stores (d.insert t) := by
  rw [h.insert_eq]
  cases hnew : d.isNew t with
  | false =>
    rw [insert_of_not_isNew hnew]
    exact h
  | true =>
    refine ⟨?_, ?_⟩ <;> rw [items_insert, hnew, if_pos rfl]
    · exact congrArg (· ++ [t.trim]) h.ordered_eq
    · exact (h.index_perm.cons t.trim).trans (List.perm_append_singleton t.trim d.items).symm

theorem Stores.after (h : s.Stores d) (calls : List Call) :
    (s.after calls).Stores (d.insertAll (insertions calls)) := by
  induction calls generalizing s d with
  | nil => exact h
  | cons c calls ih =>
    cases c with
    | insert t => exact ih (h.insert t)
    | contains t => exact ih h

/-- After any calls exactly what they put in is stored. -/
theorem stores_after (calls : List Call) :
    (empty.after calls).Stores (ofList (insertions calls)) :=
  stores_empty.after calls

theorem Stores.ordered_isPrefix (h : s.Stores d) (calls : List Call) :
    s.ordered <+: (s.after calls).ordered := by
  rw [(h.after calls).ordered_eq, h.ordered_eq, items_insertAll]
  exact List.prefix_append _ _

end Indexed

theorem mem_ofList {ts : List Text} {t : Text} :
    t ∈ (ofList ts).items ↔ t ≠ [] ∧ ∃ u ∈ ts, u.trim = t := by
  rw [ofList, mem_insertAll, List.mem_map]
  exact or_iff_right List.not_mem_nil

namespace Indexed

/-- Over any history of calls the members are the texts that were put in, trimmed, without the blank
ones, each at the place where it was first seen. The index holds the same, it answers for the whole
history, and what is stored keeps its place. -/
theorem stored (calls : List Call) :
    (empty.after calls).ordered = firstSeen (insertions calls) ∧
      (empty.after calls).ordered.Nodup ∧
      (∀ d ∈ (empty.after calls).ordered, d.trim = d ∧ d ≠ []) ∧
      (empty.after calls).index.Perm (empty.after calls).ordered ∧
      (empty.after calls).size = (firstSeen (insertions calls)).length ∧
      (∀ t, ((empty.after calls).insert t).2 = true ↔
        t.trim ≠ [] ∧ ∀ u ∈ insertions calls, u.trim ≠ t.trim) ∧
      (∀ t, ((empty.after calls).insert t).2 = false →
        ((empty.after calls).insert t).1 = empty.after calls) ∧
      (∀ t, (empty.after calls).contains t = true ↔
        t.trim ≠ [] ∧ ∃ u ∈ insertions calls, u.trim = t.trim) ∧
      ∀ more, (empty.after calls).ordered <+: (empty.after (calls ++ more)).ordered := by
  have h := stores_after calls
  have hordered : (empty.after calls).ordered = firstSeen (insertions calls) :=
    h.ordered_eq.trans (items_ofList _)
  refine ⟨hordered, ?_, ?_, ?_, ?_, ?_, ?_, ?_, ?_⟩
  · rw [h.ordered_eq]
    exact (ofList _).nodup
  · rw [h.ordered_eq]
    exact (ofList _).trimmed
  · rw [h.ordered_eq]
    exact h.index_perm
  · rw [size, hordered]
  · intro t
    rw [h.isNew_eq, isNew_iff, mem_ofList]
    constructor
    · rintro ⟨hne, hnew⟩
      exact ⟨hne, fun u hu heq => hnew ⟨hne, u, hu, heq⟩⟩
    · rintro ⟨hne, hnew⟩
      exact ⟨hne, fun ⟨_, u, hu, heq⟩ => hnew u hu heq⟩
  · intro t hold
    rw [h.isNew_eq] at hold
    rw [h.insert_eq, hold]
    rfl
  · intro t
    rw [h.contains_eq, Declarations.contains, List.contains_iff_mem, mem_ofList]
  · intro more
    rw [after_append]
    exact h.ordered_isPrefix more

/-- Two declarations, one of them put in twice with different blanks, and a blank text. -/
def history : List Call :=
  [.insert " a\u00a0".toList, .contains "b".toList, .insert "\t".toList, .insert "b".toList,
    .insert "a\n".toList]

theorem stored_history :
    (empty.after history).ordered = ["a".toList, "b".toList] ∧
      ((empty.after history).insert "A".toList).2 = true ∧
      ((empty.after history).insert "\u2003a".toList).1 = empty.after history := by
  obtain ⟨hordered, _, _, _, _, hnew, hunchanged, _, _⟩ := stored history
  refine ⟨hordered.trans (by decide), (hnew _).mpr (by decide), hunchanged _ (by decide)⟩

end Indexed
end SourceMerge.Declarations
