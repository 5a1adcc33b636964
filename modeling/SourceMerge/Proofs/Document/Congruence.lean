import Mathlib.Data.List.Forall2
import SourceMerge.Document.Namespaced
import SourceMerge.Document.Packaged

/-! Merging takes from each file only what is gathered of it and what is left of it. Files that agree
in that may stand in for each other. -/
namespace SourceMerge
namespace Source

/-- Two sources of which the same is taken when files with namespaces are merged. -/
structure SameNamespaced (s s' : Source) : Prop where
  usings : s'.usings = s.usings
  namesp : s'.namespace? = s.namespace?
  holdsEntryPoint : s'.holdsEntryPoint = s.holdsEntryPoint
  unwrapped : s'.unwrapped = s.unwrapped

/-- Two sources of which the same is taken when files with packages are merged. -/
structure SamePackaged (s s' : Source) : Prop where
  path : s'.path = s.path
  items : s'.items = s.items

theorem SameNamespaced.refl (s : Source) : SameNamespaced s s := ⟨rfl, rfl, rfl, rfl⟩

theorem SamePackaged.refl (s : Source) : SamePackaged s s := ⟨rfl, rfl⟩

variable {R : Source → Source → Prop} {sources sources' : List Source}

/-- What is the same in related sources is the same list for related lists of them. -/
theorem map_eq {α : Type} {f : Source → α} (hf : ∀ s s', R s s' → f s' = f s)
    (h : List.Forall₂ R sources sources') : sources'.map f = sources.map f := by
  induction h with
  | nil => rfl
  | cons hfirst _ ih => rw [List.map_cons, List.map_cons, hf _ _ hfirst, ih]

theorem flatMap_eq {α : Type} {f : Source → List α} (hf : ∀ s s', R s s' → f s' = f s)
    (h : List.Forall₂ R sources sources') : sources'.flatMap f = sources.flatMap f := by
  rw [List.flatMap_def, List.flatMap_def, map_eq hf h]

theorem forall₂_replaced {s s' : Source} (hrefl : ∀ s, R s s) (h : R s s')
    (front back : List Source) : List.Forall₂ R (front ++ s :: back) (front ++ s' :: back) := by
  have hsame (ss : List Source) : List.Forall₂ R ss ss := List.forall₂_same.mpr fun s _ => hrefl s
  exact List.rel_append (hsame front) (.cons h (hsame back))

end Source

namespace Namespace
open Source
variable {sources sources' : List Source}

theorem first?_eq (h : List.Forall₂ SameNamespaced sources sources') :
    first? sources' = first? sources := by
  unfold first?
  induction h with
  | nil => rfl
  | cons hfirst _ ih => rw [List.findSome?_cons, List.findSome?_cons, hfirst.namesp, ih]

/-- The entry point stays in the files that hold it, so the same namespaces have the first say. -/
theorem chosen?_eq (h : List.Forall₂ SameNamespaced sources sources') :
    chosen? sources' = chosen? sources := by
  have hholds : List.Forall₂ SameNamespaced (sources.filter holdsEntryPoint)
      (sources'.filter holdsEntryPoint) := by
    apply List.rel_filter ?_ h
    intro s s' hs
    simp only [hs.holdsEntryPoint]
  have hentry : ofEntryPoint? sources' = ofEntryPoint? sources := first?_eq hholds
  rw [chosen?, chosen?, hentry, first?_eq h]

end Namespace

namespace Document
open Source
variable {sources sources' : List Source}

theorem ofNamespaced_congr (globals : Option Source)
    (h : List.Forall₂ SameNamespaced sources sources') :
    ofNamespaced globals sources' = ofNamespaced globals sources := by
  have husings : sources'.flatMap usings = sources.flatMap usings :=
    flatMap_eq (fun _ _ hs => hs.usings) h
  have hbodies : sources'.map unwrapped = sources.map unwrapped :=
    map_eq (fun _ _ hs => hs.unwrapped) h
  rw [ofNamespaced, ofNamespaced, husings, Namespace.chosen?_eq h, hbodies]

theorem ofPackaged_congr (h : List.Forall₂ SamePackaged sources sources') :
    ofPackaged sources' = ofPackaged sources := by
  have hitems : sources'.flatMap items = sources.flatMap items :=
    flatMap_eq (fun _ _ hs => hs.items) h
  have hbodies : sources'.map stripped = sources.map stripped := by
    refine map_eq (fun s s' hs => ?_) h
    rw [stripped, stripped, hs.path, hs.items]
  rw [ofPackaged, ofPackaged, Package.first?, Package.first?, hitems, hbodies]

end Document
end SourceMerge
