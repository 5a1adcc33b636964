import SourceMerge.Declarations

/-! The members of a set of declarations. They are the texts that were put in, trimmed, without the
blank ones, each at the place where it was first seen. A text that is put between others changes this
unless it is seen anyway. -/
namespace SourceMerge

/-- The texts that are not blank, trimmed, each where it is first seen. -/
def Text.firstSeen (ts : List Text) : List Text := ((ts.map trim).filter (· ≠ [])).eraseDups

namespace Declarations
open Text

/-- New declarations go behind those that are present. -/
theorem items_insertAll (s : Declarations) (ds : List Text) :
    (s.insertAll ds).items =
      s.items ++ ((ds.map trim).filter fun t => t ≠ [] ∧ t ∉ s.items).eraseDups := by
  induction ds generalizing s with
  | nil => simp [insertAll]
  | cons d ds ih =>
    have hstep : s.insertAll (d :: ds) = (s.insert d).insertAll ds := rfl
    rw [hstep, ih, items_insert, List.map_cons]
    by_cases hnew : d.trim ≠ [] ∧ d.trim ∉ s.items
    · rw [if_pos (isNew_iff.mpr hnew), List.filter_cons_of_pos (by simpa using hnew),
        List.eraseDups_cons, List.filter_filter, List.append_assoc, List.singleton_append]
      congr 3
      apply List.filter_congr
      intro t _
      by_cases ht : t = d.trim <;> simp [ht]
    · rw [if_neg (mt isNew_iff.mp hnew), List.filter_cons_of_neg (by simpa using hnew)]

theorem items_ofList (ds : List Text) : (ofList ds).items = firstSeen ds := by
  rw [ofList, items_insertAll, firstSeen]
  simp [empty]

end Declarations

namespace Text

theorem eraseDups_eq_self {ts : List Text} (h : ts.Nodup) : ts.eraseDups = ts := by
  induction ts with
  | nil => rfl
  | cons t ts ih =>
    obtain ⟨hfresh, hnodup⟩ := List.nodup_cons.mp h
    have hrest : ts.filter (fun s => !s == t) = ts := by
      rw [List.filter_eq_self]
      intro s hs
      simpa using fun he : s = t => hfresh (he ▸ hs)
    rw [List.eraseDups_cons, hrest, ih hnodup]

/-- Trimmed texts that are all different and not blank are seen as they stand. -/
theorem firstSeen_eq_self {ts : List Text} (hnodup : ts.Nodup)
    (htrim : ∀ t ∈ ts, t.trim = t ∧ t ≠ []) : firstSeen ts = ts := by
  have hmap : ts.map trim = ts.map id := List.map_congr_left fun t ht => (htrim t ht).1
  have hfilter : ts.filter (· ≠ []) = ts :=
    List.filter_eq_self.mpr fun t ht => by simpa using (htrim t ht).2
  rw [firstSeen, hmap, List.map_id, hfilter, eraseDups_eq_self hnodup]

/-- The texts that are not blank and have not been seen yet, trimmed. -/
def unseen (seen ts : List Text) : List Text := (ts.map trim).filter fun t => t ≠ [] ∧ t ∉ seen

/-- What is first seen in a list comes before what is first seen behind it. -/
theorem firstSeen_append (before after : List Text) :
    firstSeen (before ++ after) =
      firstSeen before ++ (unseen (firstSeen before) after).eraseDups := by
  rw [← Declarations.items_ofList, Declarations.ofList, Declarations.insertAll_append,
    Declarations.items_insertAll, ← Declarations.ofList, Declarations.items_ofList]
  rfl

theorem unseen_cons (seen : List Text) (t : Text) (ts : List Text) :
    unseen seen (t :: ts) =
      if t.trim ≠ [] ∧ t.trim ∉ seen then t.trim :: unseen seen ts else unseen seen ts := by
  rw [unseen, List.map_cons, List.filter_cons]
  simp only [decide_eq_true_eq]
  rfl

theorem eraseDups_cons_eq_iff {t : Text} {ts : List Text} :
    (t :: ts).eraseDups = ts.eraseDups ↔ ts.head? = some t := by
  rw [List.eraseDups_cons]
  cases ts with
  | nil => simp
  | cons s ts =>
    rw [List.eraseDups_cons, List.head?_cons]
    constructor
    · intro h
      rw [(List.cons.inj h).1]
    · intro h
      obtain rfl := Option.some.inj h
      simp

/-- A text is seen anyway between others if one of those before it is the same, or if it would be
the next new one among those after it. -/
def SeenAnyway (before after : List Text) (t : Text) : Prop :=
  t.trim ∈ firstSeen before ∨ (unseen (firstSeen before) after).head? = some t.trim

instance (before after : List Text) : DecidablePred (SeenAnyway before after) := fun _ =>
  inferInstanceAs (Decidable (_ ∨ _))

variable {before after : List Text} {t s : Text}

/-- A text that is put between others is noticed unless it is seen anyway. -/
theorem firstSeen_insert_iff (ht : t.trim ≠ []) :
    firstSeen (before ++ t :: after) = firstSeen (before ++ after) ↔
      SeenAnyway before after t := by
  rw [firstSeen_append, firstSeen_append, List.append_cancel_left_eq, unseen_cons, SeenAnyway]
  by_cases hseen : t.trim ∈ firstSeen before
  · simp [hseen]
  · simp [ht, hseen, eraseDups_cons_eq_iff]

theorem firstSeen_toList_iff {o : Option Text} (ho : ∀ t ∈ o, t.trim ≠ []) :
    firstSeen (before ++ (o.toList ++ after)) = firstSeen (before ++ after) ↔
      ∀ t ∈ o, SeenAnyway before after t := by
  cases o with
  | none => simp
  | some t => simpa using firstSeen_insert_iff (ho t rfl)

/-- Of two different texts that have both not been seen before, each would be noticed. -/
theorem seen_of_exchange (ht : t.trim ≠ []) (hs : s.trim ≠ []) (hne : t.trim ≠ s.trim)
    (h : firstSeen (before ++ t :: after) = firstSeen (before ++ s :: after)) :
    t.trim ∈ firstSeen before ∨ s.trim ∈ firstSeen before := by
  apply Decidable.byContradiction
  intro hnew
  rw [not_or] at hnew
  rw [firstSeen_append, firstSeen_append, List.append_cancel_left_eq, unseen_cons, unseen_cons,
    if_pos ⟨ht, hnew.1⟩, if_pos ⟨hs, hnew.2⟩, List.eraseDups_cons, List.eraseDups_cons] at h
  exact hne (List.cons.inj h).1

/-- Between the same texts one text, or none, is as good as another one if the two are the same or
all that are there are seen anyway. -/
theorem firstSeen_exchange_iff {old new : Option Text}
    (h : ∀ t, old = some t ∨ new = some t → t.trim = t ∧ t ≠ []) :
    firstSeen (before ++ (old.toList ++ after)) = firstSeen (before ++ (new.toList ++ after)) ↔
      old = new ∨ ∀ t, old = some t ∨ new = some t → SeenAnyway before after t := by
  have htrim : ∀ t, old = some t ∨ new = some t → t.trim ≠ [] := fun t ht => by
    rw [(h t ht).1]
    exact (h t ht).2
  have hold : firstSeen (before ++ (old.toList ++ after)) = firstSeen (before ++ after) ↔
      ∀ t ∈ old, SeenAnyway before after t := firstSeen_toList_iff fun t ht => htrim t (.inl ht)
  have hnew : firstSeen (before ++ (new.toList ++ after)) = firstSeen (before ++ after) ↔
      ∀ t ∈ new, SeenAnyway before after t := firstSeen_toList_iff fun t ht => htrim t (.inr ht)
  constructor
  · intro hsame
    -- Unless the two are the same, one of them is seen anyway, and then the other one is too.
    have hanyway : old = new ∨ (∀ t ∈ old, SeenAnyway before after t) ∨
        ∀ t ∈ new, SeenAnyway before after t := by
      match old, new with
      | none, _ => exact .inr (.inl (by simp))
      | some _, none => exact .inr (.inr (by simp))
      | some t, some s =>
        by_cases hts : t = s
        · exact .inl (congrArg some hts)
        · have hne : t.trim ≠ s.trim := by rwa [(h t (.inl rfl)).1, (h s (.inr rfl)).1]
          rcases seen_of_exchange (htrim t (.inl rfl)) (htrim s (.inr rfl)) hne hsame with
            hseen | hseen
          · exact .inr (.inl fun u hu => Option.some.inj hu ▸ Or.inl hseen)
          · exact .inr (.inr fun u hu => Option.some.inj hu ▸ Or.inl hseen)
    rcases hanyway with hequal | hall | hall
    · exact .inl hequal
    · have hboth := hnew.mp (hsame.symm.trans (hold.mpr hall))
      exact .inr fun t ht => ht.elim (hall t) (hboth t)
    · have hboth := hold.mp (hsame.trans (hnew.mpr hall))
      exact .inr fun t ht => ht.elim (hboth t) (hall t)
  · rintro (rfl | hall)
    · rfl
    · rw [hold.mpr fun t ht => hall t (.inl ht), hnew.mpr fun t ht => hall t (.inr ht)]

end Text
end SourceMerge
