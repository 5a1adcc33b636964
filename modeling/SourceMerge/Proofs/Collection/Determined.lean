import Mathlib.Data.List.Basic
import SourceMerge.Project
import SourceMerge.Proofs.Collection.Eligible
import SourceMerge.Proofs.Text.Order

/-! What a merge depends on. Ignored leaves have no part in a collection, and the others may come in
any order if no two sources look alike; a document is made of what is read at these paths. -/
namespace SourceMerge

/-- No two of some paths are shown as the same text. -/
def ShownApart (paths : List Path) : Prop :=
  ∀ p ∈ paths, ∀ q ∈ paths, p.display = q.display → p = q

namespace Collection
variable {language : Language} {leaves leaves' : List Leaf}

/-- The leaves of a role. -/
def withRole (language : Language) (role : Role) (leaves : List Leaf) : List Leaf :=
  leaves.filter fun leaf => leaf.role language = role

theorem ofLeaves_eq (language : Language) (leaves : List Leaf) : ofLeaves language leaves =
    ⟨Text.sortOn Path.display ((withRole language .source leaves).map Leaf.path),
      ((withRole language .globalUsings leaves).map Leaf.path).getLast?⟩ := rfl

theorem mem_sources_ofLeaves {p : Path} : p ∈ (ofLeaves language leaves).sources ↔
    p ∈ (withRole language .source leaves).map Leaf.path :=
  (Text.sortOn_perm _ _).mem_iff

theorem withRole_filter {role : Role} (hrole : role ≠ .ignored) (leaves : List Leaf) :
    withRole language role (leaves.filter fun leaf => leaf.role language ≠ .ignored) =
      withRole language role leaves := by
  rw [withRole, List.filter_filter]
  refine List.filter_congr fun leaf _ => ?_
  by_cases h : leaf.role language = role <;> simp [h, hrole]

/-- Only leaves with a part in a merge count. -/
theorem ofLeaves_filter (language : Language) (leaves : List Leaf) :
    ofLeaves language (leaves.filter fun leaf => leaf.role language ≠ .ignored) =
      ofLeaves language leaves := by
  rw [ofLeaves_eq, ofLeaves_eq, withRole_filter (by decide), withRole_filter (by decide)]

theorem eq_of_perm_of_length_le_one {α : Type} {xs ys : List α} (h : xs.Perm ys)
    (hone : xs.length ≤ 1) : ys = xs := by
  match xs, hone with
  | [], _ => exact List.nil_perm.mp h
  | [x], _ => exact (List.singleton_perm.mp h).symm

/-- The leaves come in any order if the sources among them do not look alike and there are no two
files for global usings. -/
theorem ofLeaves_eq_of_perm (h : leaves.Perm leaves')
    (hapart : ShownApart (ofLeaves language leaves).sources)
    (hone : (withRole language .globalUsings leaves).length ≤ 1) :
    ofLeaves language leaves' = ofLeaves language leaves := by
  have hperm : ∀ role, (withRole language role leaves).Perm (withRole language role leaves') :=
    fun role => h.filter _
  have hsources : Text.sortOn Path.display ((withRole language .source leaves).map Leaf.path) =
      Text.sortOn Path.display ((withRole language .source leaves').map Leaf.path) :=
    Text.sortOn_eq_of_perm ((hperm .source).map _) fun p hp q hq =>
      hapart p (mem_sources_ofLeaves.mpr hp) q (mem_sources_ofLeaves.mpr hq)
  rw [ofLeaves_eq, ofLeaves_eq, hsources, eq_of_perm_of_length_le_one (hperm .globalUsings) hone]

end Collection

namespace Reader
variable {read read' : Reader} {language : Language}

theorem source_congr {path : Path} (h : read' path = read path) :
    read'.source path = read.source path := by
  rw [source, source, h]

theorem sources_congr {paths : List Path} (h : ∀ p ∈ paths, read' p = read p) :
    read'.sources paths = read.sources paths := by
  unfold sources
  induction paths with
  | nil => rfl
  | cons p paths ih =>
    rw [List.forall_mem_cons] at h
    rw [List.mapM_cons, List.mapM_cons, source_congr h.1, ih h.2]

/-- A document depends on what is read at the paths of its collection. -/
theorem documentOf_congr {files : Collection} (hsources : ∀ p ∈ files.sources, read' p = read p)
    (hglobals : ∀ p, files.globalUsings = some p → read' p = read p) :
    read'.documentOf language files = read.documentOf language files := by
  have hglobal : files.globalUsings.mapM read'.source = files.globalUsings.mapM read.source := by
    cases hfile : files.globalUsings with
    | none => rfl
    | some p => rw [Option.mapM_some, Option.mapM_some, source_congr (hglobals p hfile)]
  cases language with
  | go => rw [documentOf, documentOf, sources_congr hsources]
  | csharp => rw [documentOf, documentOf, sources_congr hsources, hglobal]

end Reader

namespace FileSystem
open Directory
variable {fs fs' : FileSystem} {root : Path} {language : Language}

/-- Sources below directories whose names are UTF-8 do not look alike, whatever leads there. -/
theorem shownApart_leavesBelow {d : Directory} (hd : d.isProper = true)
    (htext : ∀ way name, d.Eligible language .source way name →
      ∀ n ∈ way, ∃ t, n = Utf8.encode t) (root : Path) :
    ShownApart (Collection.ofLeaves language (leavesBelow root d)).sources := by
  have hnames : ∀ way name, d.Eligible language .source way name →
      ∀ n ∈ way ++ [name], ∃ t, n = Utf8.encode t := by
    intro way name heligible n hn
    rcases List.mem_append.mp hn with hn | hn
    · exact htext way name heligible n hn
    · obtain ⟨t, ht, _⟩ := heligible.named
      exact ⟨t, (List.mem_singleton.mp hn).trans ht⟩
  intro p hp q hq heq
  rw [Collection.mem_sources_ofLeaves, Collection.withRole,
    mem_leavesBelow_role_iff (by decide)] at hp hq
  obtain ⟨way, name, heligible, rfl⟩ := hp
  obtain ⟨others, other, heligible', rfl⟩ := hq
  obtain ⟨node, hholds, _⟩ := heligible.entry
  obtain ⟨node', hholds', _⟩ := heligible'.entry
  exact Path.eq_of_display_eq (hholds.isEntry hd) (hholds'.isEntry hd) (hnames _ _ heligible)
    (hnames _ _ heligible') heq

theorem shownApart_sources {d : Directory} (h : fs.find .entry root = .ok (.directory d))
    (hd : d.isProper = true)
    (htext : ∀ way name, d.Eligible language .source way name →
      ∀ n ∈ way, ∃ t, n = Utf8.encode t) :
    ShownApart (fs.collection root language).sources := by
  rw [collection, leaves_of_find h]
  exact shownApart_leavesBelow hd htext root

theorem mergedText_congr (h : fs'.collection root language = fs.collection root language)
    (hsources : ∀ p ∈ (fs.collection root language).sources, fs'.read p = fs.read p)
    (hglobals : ∀ p, (fs.collection root language).globalUsings = some p →
      fs'.read p = fs.read p) :
    fs'.mergedText root language = fs.mergedText root language := by
  rw [mergedText, mergedText, document, document, h, Reader.documentOf_congr hsources hglobals]

end FileSystem
end SourceMerge
