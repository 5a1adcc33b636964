import SourceMerge.Proofs.Document.Hoisting

/-! Which namespace is chosen for some files. A file leads if it holds the entry point and declares a
namespace; the earliest file that leads decides, and without one the earliest file that declares a
namespace at all. A single leader decides from any place among the files. -/
namespace SourceMerge

namespace Source
variable {source : Source} {n : Namespace}

/-- The namespace on the first line of a file that declares one. -/
def DeclaresFirst (source : Source) (n : Namespace) : Prop :=
  ∃ before line after, source.lines = before ++ line :: after ∧ Namespace.ofLine? line = some n ∧
    ∀ l ∈ before, Namespace.ofLine? l = none

def declaresNamespace (source : Source) : Bool :=
  source.lines.any fun line => (Namespace.name? line).isSome

def leads (source : Source) : Bool := source.holdsEntryPoint && source.declaresNamespace

theorem namespace?_eq_some_iff : source.namespace? = some n ↔ source.DeclaresFirst n :=
  List.findSome?_eq_some_iff

theorem isSome_namespace? (source : Source) :
    source.namespace?.isSome = source.declaresNamespace := by
  rw [Bool.eq_iff_iff, namespace?, List.findSome?_isSome_iff, declaresNamespace, List.any_eq_true]
  simp only [Namespace.ofLine?_isSome]

theorem DeclaresFirst.declaresNamespace (h : source.DeclaresFirst n) :
    source.declaresNamespace = true := by
  rw [← isSome_namespace?, namespace?_eq_some_iff.mpr h]
  rfl

theorem exists_declaresFirst (h : source.declaresNamespace = true) :
    ∃ n, source.DeclaresFirst n := by
  rw [← isSome_namespace?] at h
  obtain ⟨n, hn⟩ := Option.isSome_iff_exists.mp h
  exact ⟨n, namespace?_eq_some_iff.mp hn⟩

/-- The first namespace that some files declare is that of the first file that declares one. -/
theorem findSome?_namespace? (sources : List Source) :
    sources.findSome? namespace? = (sources.find? declaresNamespace).bind namespace? := by
  induction sources with
  | nil => rfl
  | cons source rest ih =>
    have hdeclares := isSome_namespace? source
    cases hn : source.namespace? with
    | some n =>
      rw [hn] at hdeclares
      rw [List.findSome?_cons_of_isSome (by simp [hn]), List.find?_cons_of_pos hdeclares.symm]
      rfl
    | none =>
      rw [hn] at hdeclares
      rw [List.findSome?_cons_of_isNone (by simp [hn]),
        List.find?_cons_of_neg (by simp [← hdeclares]), ih]

end Source

namespace Namespace
open Source
variable {sources sources' : List Source} {n : Namespace}

/-- A namespace that some files should be given: that of the earliest file that leads, or, if none
leads, that of the earliest file that declares one. -/
inductive IsChosen : List Source → Namespace → Prop
  | leading {before source after n} : (∀ s ∈ before, s.leads = false) → source.leads = true →
      source.DeclaresFirst n → IsChosen (before ++ source :: after) n
  | declaring {before source after n} : (∀ s ∈ before ++ source :: after, s.leads = false) →
      (∀ s ∈ before, s.declaresNamespace = false) → source.DeclaresFirst n →
      IsChosen (before ++ source :: after) n

theorem ofEntryPoint?_eq_bind (sources : List Source) :
    ofEntryPoint? sources = (sources.find? leads).bind namespace? := by
  have hleads : leads = fun s => decide (s.holdsEntryPoint = true ∧ s.declaresNamespace = true) := by
    funext s
    simp [leads]
  rw [ofEntryPoint?, findSome?_namespace?, List.find?_filter, ← hleads]

theorem chosen?_of_find?_leads {source : Source} (hfind : sources.find? leads = some source)
    (hn : source.DeclaresFirst n) : chosen? sources = some n := by
  have hentry : ofEntryPoint? sources = some n := by
    rw [ofEntryPoint?_eq_bind, hfind, Option.bind_some, namespace?_eq_some_iff.mpr hn]
  rw [chosen?, hentry]
  rfl

theorem chosen?_of_not_leads (h : ∀ s ∈ sources, s.leads = false) :
    chosen? sources = (sources.find? declaresNamespace).bind namespace? := by
  have hfind : sources.find? leads = none := List.find?_eq_none.mpr fun s hs => by simp [h s hs]
  rw [chosen?, ofEntryPoint?_eq_bind, hfind, ← findSome?_namespace?]
  rfl

theorem chosen?_eq_some_iff : chosen? sources = some n ↔ IsChosen sources n := by
  constructor
  · intro h
    cases hlead : sources.find? leads with
    | some source =>
      obtain ⟨hleads, before, after, rfl, hbefore⟩ := List.find?_eq_some_iff_append.mp hlead
      obtain ⟨m, hm⟩ := exists_declaresFirst (Bool.and_eq_true_iff.mp hleads).2
      obtain rfl : m = n := Option.some.inj ((chosen?_of_find?_leads hlead hm).symm.trans h)
      exact .leading (by simpa using hbefore) hleads hm
    | none =>
      have hnone : ∀ s ∈ sources, s.leads = false := by simpa using hlead
      rw [chosen?_of_not_leads hnone] at h
      obtain ⟨source, hfind, hn⟩ := Option.bind_eq_some_iff.mp h
      obtain ⟨_, before, after, rfl, hbefore⟩ := List.find?_eq_some_iff_append.mp hfind
      exact .declaring hnone (by simpa using hbefore) (namespace?_eq_some_iff.mp hn)
  · intro h
    cases h with
    | @leading before source after n hbefore hleads hn =>
      refine chosen?_of_find?_leads (List.find?_eq_some_iff_append.mpr ?_) hn
      exact ⟨hleads, before, after, rfl, by simpa using hbefore⟩
    | @declaring before source after n hnone hbefore hn =>
      have hfind : (before ++ source :: after).find? declaresNamespace = some source :=
        List.find?_eq_some_iff_append.mpr
          ⟨hn.declaresNamespace, before, after, rfl, by simpa using hbefore⟩
      rw [chosen?_of_not_leads hnone, hfind, Option.bind_some, namespace?_eq_some_iff.mpr hn]

theorem chosen?_eq_none_iff :
    chosen? sources = none ↔ ∀ source ∈ sources, ∀ line ∈ source.lines, name? line = none := by
  rw [← Option.not_isSome_iff_eq_none, chosen?_isSome_iff]
  simp [ofLine?_isSome]

/-- A single leader decides alone. -/
theorem chosen?_of_leaders {source : Source} (h : sources.filter leads = [source]) :
    chosen? sources = source.namespace? := by
  have hfind : sources.find? leads = some source := by rw [← List.head?_filter, h]; rfl
  have hleads : source.leads = true := List.find?_some hfind
  obtain ⟨n, hn⟩ := exists_declaresFirst (Bool.and_eq_true_iff.mp hleads).2
  rw [chosen?_of_find?_leads hfind hn, namespace?_eq_some_iff.mpr hn]

theorem chosen?_eq_of_perm (hone : sources.countP leads = 1) (h : sources'.Perm sources) :
    chosen? sources' = chosen? sources := by
  rw [List.countP_eq_length_filter] at hone
  obtain ⟨source, hsource⟩ := List.length_eq_one_iff.mp hone
  have hsource' : sources'.filter leads = [source] := by
    rw [← List.perm_singleton, ← hsource]
    exact h.filter leads
  rw [chosen?_of_leaders hsource, chosen?_of_leaders hsource']

/-- The choice is the first namespace of the earliest file that holds the entry point and declares a
namespace, or of the earliest file that declares one if there is no such file. There is none if and
only if no line of any file declares one. With exactly one file of the first kind the order of the
files has no influence. -/
theorem chosen?_biased (sources : List Source) :
    (∀ n, chosen? sources = some n ↔ IsChosen sources n) ∧
      (chosen? sources = none ↔
        ∀ source ∈ sources, ∀ line ∈ source.lines, name? line = none) ∧
      (sources.countP leads = 1 → ∀ sources', sources'.Perm sources →
        chosen? sources' = chosen? sources) :=
  ⟨fun _ => chosen?_eq_some_iff, chosen?_eq_none_iff, fun hone _ h => chosen?_eq_of_perm hone h⟩

/-- A file that declares a namespace and no entry point. -/
def plainFile : Source := ⟨.ofText ['a'], "// models\nnamespace A\n".toList⟩

def programFile : Source := ⟨.ofText ['b'], "namespace B;\nstatic int Main(".toList⟩

/-- The program decides, whether it comes last or first. -/
theorem chosen?_biased_programFile :
    [plainFile, programFile].countP leads = 1 ∧
      chosen? [plainFile, programFile] = some ⟨['B'], .wholeFile⟩ ∧
      chosen? [programFile, plainFile] = some ⟨['B'], .wholeFile⟩ := by
  have hone : [plainFile, programFile].countP leads = 1 := by decide +kernel
  have hlast : IsChosen [plainFile, programFile] ⟨['B'], .wholeFile⟩ := by
    refine @IsChosen.leading [plainFile] programFile [] _ (by decide +kernel) (by decide +kernel) ?_
    exact ⟨[], "namespace B;".toList, ["static int Main(".toList], by decide, by decide, by simp⟩
  obtain ⟨hiff, _, hperm⟩ := chosen?_biased [plainFile, programFile]
  have hchosen := (hiff _).mpr hlast
  exact ⟨hone, hchosen, (hperm hone _ (.swap _ _ [])).trans hchosen⟩

end Namespace
end SourceMerge
