import SourceMerge.Collection
import SourceMerge.Proofs.FileSystem.Places
import SourceMerge.Proofs.FileSystem.Walk

/-! Which files are collected. The leaves below a directory are its entries that are not directories
and have no directory for build products on their way, each of them once. The names among them
decide what is collected, and nothing else is. -/
namespace SourceMerge

/-- A leaf takes a role if its name is a text that has the role. -/
theorem Leaf.role_eq_iff {language : Language} {role : Role} {leaf : Leaf}
    (hrole : role ≠ .ignored) : leaf.role language = role ↔
      ∃ text, leaf.name = Utf8.encode text ∧ Role.ofName language text = role := by
  rw [Leaf.role]
  constructor
  · intro h
    cases htext : Utf8.decode? leaf.name with
    | none =>
      rw [htext] at h
      exact absurd h.symm hrole
    | some text =>
      rw [htext] at h
      exact ⟨text, Utf8.decode?_eq_some_iff.mp htext, h⟩
  · rintro ⟨text, hname, h⟩
    rw [Utf8.decode?_eq_some_iff.mpr hname]
    exact h

namespace Directory

/-- An entry below a directory that takes a role in a merge: it is no directory, no directory for
build products stands on the way to it, and its name is a text that has the role. -/
structure Eligible (d : Directory) (language : Language) (role : Role) (way : List Name)
    (name : Name) : Prop where
  entry : ∃ node, d.Holds way name node ∧ node.isLeaf = true
  unpruned : buildDirectory ∉ way
  named : ∃ text, name = Utf8.encode text ∧ Role.ofName language text = role

section Leaves
variable {d : Directory} {path : Path} {leaf : Leaf}

theorem mem_leaves_iff {node : Node} {name : Name} : leaf ∈ node.leaves path name ↔
    (node.isLeaf = true ∧ leaf = ⟨path, name⟩) ∨
      ∃ inner, node = .directory inner ∧ name ≠ buildDirectory ∧ leaf ∈ leavesBelow path inner := by
  cases node with
  | file content => simp [Node.leaves, Node.isLeaf]
  | link target => simp [Node.leaves, Node.isLeaf]
  | directory inner =>
    by_cases hbuild : name = buildDirectory <;> simp [Node.leaves, Node.isLeaf, hbuild]

/-- The leaves below a directory are the entries that no build directory hides. -/
theorem mem_leavesBelow_iff : leaf ∈ leavesBelow path d ↔
    ∃ way node, d.Holds way leaf.name node ∧ node.isLeaf = true ∧ buildDirectory ∉ way ∧
      leaf.path = (path.below way).child leaf.name := by
  rw [leavesBelow_eq_map, List.mem_map]
  constructor
  · rintro ⟨place, hplace, rfl⟩
    obtain ⟨node, hholds, hnode, hway⟩ := mem_placesBelow_iff.mp hplace
    exact ⟨place.1, node, hholds, hnode, hway, rfl⟩
  · rintro ⟨way, node, hholds, hnode, hway, hpath⟩
    refine ⟨(way, leaf.name), mem_placesBelow_iff.mpr ⟨node, hholds, hnode, hway⟩, ?_⟩
    rw [Path.leafAt, Path.reach, ← hpath]

/-- The paths of the leaves of one entry go on with its name. -/
theorem exists_names_of_mem_leaves {e : Name × Node} (hd : d.isProper = true) (he : e ∈ d)
    (h : leaf ∈ e.2.leaves (path.child e.1) e.1) :
    ∃ rest, leaf.path.names = path.names ++ e.1 :: rest := by
  obtain ⟨_, hentry, hbelow⟩ := isProper_iff.mp hd
  rcases mem_leaves_iff.mp h with ⟨_, rfl⟩ | ⟨inner, hinner, _, h⟩
  · exact ⟨[], Path.names_child (hentry e he)⟩
  · obtain ⟨way, node, hholds, _, _, hpath⟩ := mem_leavesBelow_iff.mp h
    have hproper : isProper inner = true := by
      have := hbelow e he
      rwa [hinner] at this
    refine ⟨way ++ [leaf.name], ?_⟩
    rw [hpath, Path.names_child_below (hholds.isEntry hproper), Path.names_child (hentry e he),
      List.append_assoc]
    rfl

/-- No two leaves below a directory have the same path. -/
theorem nodup_leavesBelow (hd : d.isProper = true) (path : Path) :
    ((leavesBelow path d).map Leaf.path).Nodup := by
  induction d using induction_inner generalizing path with
  | step d ih =>
    obtain ⟨hnames, _, hbelow⟩ := isProper_iff.mp hd
    rw [leavesBelow_eq_flatMap, List.map_flatMap, List.nodup_flatMap]
    refine ⟨?_, ?_⟩
    · rintro ⟨name, node⟩ he
      cases node with
      | file content => exact List.nodup_singleton _
      | link target => exact List.nodup_singleton _
      | directory inner =>
        rw [Node.leaves]
        split
        · exact List.nodup_nil
        · exact ih _ _ he (hbelow _ he) _
    · have hne : d.Pairwise fun e e' => e.1 ≠ e'.1 := List.pairwise_map.mp hnames
      refine hne.imp_of_mem fun {e e'} he he' hdiffer => ?_
      refine List.disjoint_left.mpr fun p hp hp' => ?_
      obtain ⟨leaf, hleaf, rfl⟩ := List.mem_map.mp hp
      obtain ⟨leaf', hleaf', hpath⟩ := List.mem_map.mp hp'
      obtain ⟨rest, hrest⟩ := exists_names_of_mem_leaves hd he hleaf
      obtain ⟨rest', hrest'⟩ := exists_names_of_mem_leaves hd he' hleaf'
      rw [← hpath, hrest'] at hrest
      exact hdiffer (List.cons.inj (List.append_cancel_left hrest)).1.symm

end Leaves

section Roles
variable {language : Language} {role : Role}

/-- The leaves that take a role are the entries eligible for it. -/
theorem mem_leavesBelow_role_iff {d : Directory} {path p : Path} (hrole : role ≠ .ignored) :
    p ∈ ((leavesBelow path d).filter fun leaf => leaf.role language = role).map Leaf.path ↔
      ∃ way name, d.Eligible language role way name ∧ p = (path.below way).child name := by
  rw [List.mem_map]
  constructor
  · rintro ⟨leaf, hleaf, rfl⟩
    rw [List.mem_filter, decide_eq_true_eq, Leaf.role_eq_iff hrole] at hleaf
    obtain ⟨way, node, hholds, hnode, hway, hpath⟩ := mem_leavesBelow_iff.mp hleaf.1
    exact ⟨way, leaf.name, ⟨⟨node, hholds, hnode⟩, hway, hleaf.2⟩, hpath⟩
  · rintro ⟨way, name, ⟨⟨node, hholds, hnode⟩, hway, hnamed⟩, rfl⟩
    refine ⟨⟨(path.below way).child name, name⟩, ?_, rfl⟩
    rw [List.mem_filter, decide_eq_true_eq, Leaf.role_eq_iff hrole]
    exact ⟨mem_leavesBelow_iff.mpr ⟨way, node, hholds, hnode, hway, rfl⟩, hnamed⟩

end Roles
end Directory

namespace FileSystem
open Directory
variable {fs : FileSystem} {root : Path} {d : Directory}

theorem leaves_of_find (h : fs.find .entry root = .ok (.directory d)) :
    fs.leaves root = leavesBelow root d := by
  rw [leaves, h]

theorem mem_sources_iff (h : fs.find .entry root = .ok (.directory d)) {language : Language}
    {p : Path} : p ∈ (fs.collection root language).sources ↔
      ∃ way name, d.Eligible language .source way name ∧ p = (root.below way).child name := by
  rw [collection, Collection.ofLeaves, leaves_of_find h, (Text.sortOn_perm _ _).mem_iff,
    mem_leavesBelow_role_iff (by decide)]

theorem nodup_sources (h : fs.find .entry root = .ok (.directory d)) (hd : d.isProper = true)
    (language : Language) : (fs.collection root language).sources.Nodup := by
  rw [collection, Collection.ofLeaves, leaves_of_find h, (Text.sortOn_perm _ _).nodup_iff]
  exact (List.filter_sublist.map _).nodup (nodup_leavesBelow hd root)

/-- The last path of a list in which all are the same is any of them. -/
theorem getLast?_eq_some_iff_mem {ps : List Path} (h : ∀ p ∈ ps, ∀ q ∈ ps, p = q) {p : Path} :
    ps.getLast? = some p ↔ p ∈ ps := by
  constructor
  · exact List.mem_of_getLast?
  · intro hp
    cases hlast : ps.getLast? with
    | none =>
      rw [List.getLast?_eq_none_iff.mp hlast] at hp
      contradiction
    | some q => rw [h q (List.mem_of_getLast? hlast) p hp]

/-- Below a directory exactly the eligible files are collected. Each of them is collected once, in
the order of the bytes of the paths as they are shown, and the file for global usings, if there is
no second one, is set apart. -/
theorem collection_eligible (h : fs.find .entry root = .ok (.directory d))
    (hd : d.isProper = true) (language : Language) :
    (fs.collection root language).sources.Nodup ∧
      (∀ p, p ∈ (fs.collection root language).sources ↔
        ∃ way name, d.Eligible language .source way name ∧ p = (root.below way).child name) ∧
      ((fs.collection root language).sources.Pairwise fun p q =>
        Utf8.encode p.display ≤ Utf8.encode q.display) ∧
      ((∀ way name way' name', d.Eligible language .globalUsings way name →
          d.Eligible language .globalUsings way' name' → way = way' ∧ name = name') →
        ∀ p, (fs.collection root language).globalUsings = some p ↔
          ∃ way name, d.Eligible language .globalUsings way name ∧
            p = (root.below way).child name) := by
  refine ⟨nodup_sources h hd language, fun p => mem_sources_iff h, ?_, ?_⟩
  · exact (Text.sortOn_sorted Path.display _).imp of_decide_eq_true
  · intro hunique p
    have hall : ∀ p ∈ ((leavesBelow root d).filter
          fun leaf => leaf.role language = .globalUsings).map Leaf.path,
        ∀ q ∈ ((leavesBelow root d).filter
          fun leaf => leaf.role language = .globalUsings).map Leaf.path, p = q := by
      intro p hp q hq
      obtain ⟨way, name, hname, rfl⟩ := (mem_leavesBelow_role_iff (by decide)).mp hp
      obtain ⟨way', name', hname', rfl⟩ := (mem_leavesBelow_role_iff (by decide)).mp hq
      obtain ⟨rfl, rfl⟩ := hunique way name way' name' hname hname'
      rfl
    rw [collection, Collection.ofLeaves, leaves_of_find h, getLast?_eq_some_iff_mem hall,
      mem_leavesBelow_role_iff (by decide)]

/-- A project with a file for global usings at the top and another one below a directory for build
products, which is no part of it. -/
def sampleProject : FileSystem where
  top := [(buildDirectory, .directory [(Utf8.encode "GlobalUsings.cs".toList, .file (.ok []))]),
    (Utf8.encode "GlobalUsings.cs".toList, .file (.ok [])),
    (Utf8.encode "A.cs".toList, .file (.ok []))]
  working := []

/-- The only directory of the project is passed over. -/
theorem eligible_sampleProject {language : Language} {role : Role} {way : List Name} {name : Name}
    (h : sampleProject.top.Eligible language role way name) :
    way = [] ∧ name ∈ sampleProject.top.map Prod.fst := by
  obtain ⟨⟨node, hholds, hnode⟩, hway, _⟩ := h
  cases hholds with
  | here hmem => exact ⟨rfl, List.mem_map_of_mem hmem⟩
  | deeper hmem _ =>
    simp only [sampleProject, List.mem_cons, Prod.mk.injEq] at hmem
    simp_all

theorem eligible_globalUsings_sampleProject {way : List Name} {name : Name}
    (h : sampleProject.top.Eligible .csharp .globalUsings way name) :
    way = [] ∧ name = Utf8.encode "GlobalUsings.cs".toList := by
  obtain ⟨hway, hname⟩ := eligible_sampleProject h
  have hrole : (Leaf.mk ⟨[]⟩ name).role .csharp = .globalUsings :=
    (Leaf.role_eq_iff (by decide)).mpr h.named
  refine ⟨hway, ?_⟩
  revert hrole
  simp only [sampleProject, List.map_cons, List.map_nil, List.mem_cons, List.not_mem_nil,
    or_false] at hname
  rcases hname with rfl | rfl | rfl <;> decide

theorem find_sampleProject :
    sampleProject.find .entry (.ofText ['.']) = .ok (.directory sampleProject.top) :=
  find_eq_ok.mpr ⟨sampleProject.working, locate_dot _ _, rfl⟩

theorem collection_eligible_sampleProject :
    sampleProject.find .entry (.ofText ['.']) = .ok (.directory sampleProject.top) ∧
      sampleProject.top.isProper = true ∧
      (sampleProject.collection (.ofText ['.']) .csharp).globalUsings =
        some (.ofText "./GlobalUsings.cs".toList) := by
  have hproper : sampleProject.top.isProper = true := by decide
  have heligible : sampleProject.top.Eligible .csharp .globalUsings []
      (Utf8.encode "GlobalUsings.cs".toList) :=
    ⟨⟨.file (.ok []), .here (List.mem_cons_of_mem _ List.mem_cons_self), rfl⟩, List.not_mem_nil,
      _, rfl, by decide⟩
  refine ⟨find_sampleProject, hproper, ?_⟩
  obtain ⟨_, _, _, hglobal⟩ := collection_eligible find_sampleProject hproper .csharp
  refine (hglobal ?_ _).mpr ⟨[], _, heligible, by decide⟩
  intro way name way' name' h h'
  obtain ⟨rfl, rfl⟩ := eligible_globalUsings_sampleProject h
  obtain ⟨rfl, rfl⟩ := eligible_globalUsings_sampleProject h'
  exact ⟨rfl, rfl⟩

end FileSystem
end SourceMerge
