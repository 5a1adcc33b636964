import SourceMerge.Proofs.Collection.Determined
import SourceMerge.Proofs.FileSystem.Mirrored

/-! Collecting files that directories list in another order. Sources are sorted by their paths as
they are shown, so the listing has no say exactly if no two sources look alike. -/
namespace SourceMerge.FileSystem
open Directory Collection
variable {fs fs' : FileSystem} {root : Path} {language : Language}

section Mirrored

/-- The paths of the sources among some leaves. -/
def sourcePaths (language : Language) (leaves : List Leaf) : List Path :=
  (withRole language .source leaves).map Leaf.path

/-- A source below a directory does not look like the directory. -/
theorem display_ne_of_mem_sourcePaths {d : Directory} (hd : d.isProper = true) {p : Path}
    (h : p ∈ sourcePaths language (leavesBelow root d)) : p.display ≠ root.display := by
  obtain ⟨leaf, hleaf, rfl⟩ := List.mem_map.mp h
  obtain ⟨way, node, hholds, _, _, hpath⟩ := mem_leavesBelow_iff.mp (List.mem_filter.mp hleaf).1
  rw [hpath]
  exact Path.display_child_below_ne (hholds.isEntry hd)

theorem nodup_sourcePaths {d : Directory} (hd : d.isProper = true) :
    (sourcePaths language (leavesBelow root d)).Nodup :=
  (List.filter_sublist.map _).nodup (nodup_leavesBelow hd root)

/-- A listing and its mirror image give the same collection only if no two sources look alike. -/
theorem shownApart_of_mirrored (hproper : fs.top.isProper = true)
    (h : fs.mirrored.collection root language = fs.collection root language) :
    ShownApart (fs.collection root language).sources := by
  obtain ⟨front, d, hfront, hd, hleaves, hmirrored⟩ := leaves_mirrored hproper root
  have hroot : ∀ p ∈ sourcePaths language front, p = root := by
    intro p hp
    obtain ⟨leaf, hleaf, rfl⟩ := List.mem_map.mp hp
    rcases hfront with rfl | rfl
    · contradiction
    · rw [List.mem_singleton.mp (List.mem_filter.mp hleaf).1]
  have hnodup :
      (sourcePaths language front ++ sourcePaths language (leavesBelow root d)).Nodup := by
    refine List.nodup_append'.mpr ⟨?_, nodup_sourcePaths hd, ?_⟩
    · have hfrontPaths : (front.map Leaf.path).Nodup := by
        rcases hfront with rfl | rfl <;> simp
      exact (List.filter_sublist.map _).nodup hfrontPaths
    · intro p hp hbelow
      exact display_ne_of_mem_sourcePaths hd hbelow (by rw [hroot p hp])
  have hsorted := congrArg Collection.sources h
  rw [collection, collection, hleaves, hmirrored, ofLeaves_eq, ofLeaves_eq] at hsorted
  simp only [withRole, List.filter_append, List.map_append, List.filter_reverse,
    List.map_reverse] at hsorted
  have hkeys := Text.nodup_map_of_sortOn_append_reverse hnodup hsorted
  intro p hp q hq heq
  rw [collection, hleaves, mem_sources_ofLeaves, withRole, List.filter_append, List.map_append,
    List.mem_append] at hp hq
  rcases hp with hp | hp <;> rcases hq with hq | hq
  · rw [hroot p hp, hroot q hq]
  · exact absurd (by rw [← heq, hroot p hp]) (display_ne_of_mem_sourcePaths hd hq)
  · exact absurd (by rw [heq, hroot q hq]) (display_ne_of_mem_sourcePaths hd hp)
  · exact List.inj_on_of_nodup_map hkeys hp hq heq

end Mirrored

/-- With at most one file for global usings, the order in which directories list their entries has
no effect on a collection exactly if no two sources look alike, and then it has none on the merge.
Where directories have names that are UTF-8, no two sources do. -/
theorem collection_relisted_iff (hproper : fs.top.isProper = true) (root : Path)
    (language : Language)
    (hone : (withRole language .globalUsings (fs.leaves root)).length ≤ 1) :
    ((∀ fs', fs.Relisted fs' → fs'.collection root language = fs.collection root language) ↔
        ShownApart (fs.collection root language).sources) ∧
      (ShownApart (fs.collection root language).sources →
        ∀ fs', fs.Relisted fs' → fs'.mergedText root language = fs.mergedText root language) ∧
      (∀ d, fs.find .entry root = .ok (.directory d) →
        (∀ way name, Eligible d language .source way name → ∀ n ∈ way, ∃ t, n = Utf8.encode t) →
        ShownApart (fs.collection root language).sources) := by
  have hsame : ShownApart (fs.collection root language).sources →
      ∀ fs', fs.Relisted fs' → fs'.collection root language = fs.collection root language :=
    fun hapart fs' h => ofLeaves_eq_of_perm (h.leaves_perm hproper root) hapart hone
  refine ⟨⟨?_, hsame⟩, ?_, ?_⟩
  · intro h
    exact shownApart_of_mirrored hproper (h fs.mirrored (relisted_mirrored fs))
  · intro hapart fs' h
    exact mergedText_congr (hsame hapart fs' h) (fun p _ => h.read_eq hproper p)
      fun p _ => h.read_eq hproper p
  · intro d hfind htext
    exact shownApart_sources hfind (isProper_of_find hproper hfind) htext

theorem collection_relisted_sampleProject : sampleProject.top.isProper = true ∧
    (withRole .csharp .globalUsings (sampleProject.leaves (.ofText ['.']))).length ≤ 1 ∧
    sampleProject.mirrored.mergedText (.ofText ['.']) .csharp =
      sampleProject.mergedText (.ofText ['.']) .csharp := by
  have hproper : sampleProject.top.isProper = true := by decide
  have hleaves : sampleProject.leaves (.ofText ['.']) =
      leavesBelow (.ofText ['.']) sampleProject.top :=
    leaves_of_find find_sampleProject
  have hone :
      (withRole .csharp .globalUsings (sampleProject.leaves (.ofText ['.']))).length ≤ 1 := by
    rw [hleaves]
    decide
  have hapart : ShownApart (sampleProject.collection (.ofText ['.']) .csharp).sources := by
    have hpaths : (withRole .csharp .source (leavesBelow (.ofText ['.']) sampleProject.top)).map
        Leaf.path = [.ofText "./A.cs".toList] := by decide
    intro p hp q hq _
    rw [collection, hleaves, mem_sources_ofLeaves, hpaths, List.mem_singleton] at hp hq
    rw [hp, hq]
  exact ⟨hproper, hone,
    (collection_relisted_iff hproper _ _ hone).2.1 hapart _ (relisted_mirrored sampleProject)⟩

/-- Two directories whose names are not UTF-8 and are shown as the same replacement character. -/
def lookalikes : FileSystem where
  top :=
    [([0xFF], .directory
        [(Utf8.encode "a.go".toList, .file (.ok (Utf8.encode "package p".toList)))]),
      ([0xFE], .directory
        [(Utf8.encode "a.go".toList, .file (.ok (Utf8.encode "package q".toList)))])]
  working := []

theorem not_forall_collection_relisted :
    ¬ ∀ (fs fs' : FileSystem) (root : Path) (language : Language), fs.top.isProper = true →
      (withRole language .globalUsings (fs.leaves root)).length ≤ 1 → fs.Relisted fs' →
      fs'.collection root language = fs.collection root language := by
  intro h
  have hproper : lookalikes.top.isProper = true := by decide
  have hleaves : lookalikes.leaves (.ofText ['.']) =
      leavesBelow (.ofText ['.']) lookalikes.top :=
    leaves_of_find (find_eq_ok.mpr ⟨[], locate_dot _ _, rfl⟩)
  have hone : (withRole .go .globalUsings (lookalikes.leaves (.ofText ['.']))).length ≤ 1 := by
    rw [hleaves]
    decide
  have hapart := shownApart_of_mirrored hproper
    (h lookalikes lookalikes.mirrored (.ofText ['.']) .go hproper hone (relisted_mirrored _))
  have hmem : ∀ p, p = (Path.ofText ['.']).child [0xFF] ∨ p = (Path.ofText ['.']).child [0xFE] →
      p.child (Utf8.encode "a.go".toList) ∈
        (lookalikes.collection (.ofText ['.']) .go).sources := by
    intro p hp
    rw [collection, hleaves, mem_sources_ofLeaves]
    rcases hp with rfl | rfl <;> decide
  have heq := hapart _ (hmem _ (.inl rfl)) _ (hmem _ (.inr rfl)) (by decide)
  exact absurd heq (by decide)

end SourceMerge.FileSystem
