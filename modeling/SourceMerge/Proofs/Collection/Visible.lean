import SourceMerge.Proofs.Collection.Determined
import SourceMerge.Proofs.FileSystem.Relisted

/-! What a merge sees of a directory. Files whose names are ignored, and all that stands below a
directory for build products, are out of its sight; what is left decides what is collected and
what is read. -/
namespace SourceMerge

/-- The role of a leaf of some name. -/
def Name.role (language : Language) (name : Name) : Role :=
  (Utf8.decode? name).elim .ignored (Role.ofName language)

theorem Leaf.role_eq (language : Language) (leaf : Leaf) :
    leaf.role language = Name.role language leaf.name := rfl

/-- A name takes a role if it is a text that has the role. -/
theorem Name.role_eq_iff {language : Language} {role : Role} {name : Name}
    (hrole : role ≠ .ignored) : Name.role language name = role ↔
      ∃ text, name = Utf8.encode text ∧ Role.ofName language text = role := by
  rw [← Leaf.role_eq language ⟨⟨[]⟩, name⟩]
  exact Leaf.role_eq_iff hrole

mutual

/-- What a merge sees of an entry: nothing of a leaf that is ignored, and of a directory for build
products no more than that it is there. -/
def Node.visible (language : Language) (name : Name) : Node → List (Name × Node)
  | .file content => if Name.role language name = .ignored then [] else [(name, .file content)]
  | .link target => if Name.role language name = .ignored then [] else [(name, .link target)]
  | .directory entries =>
    [(name, .directory
      (if name = buildDirectory then [] else Directory.visible language entries))]

/-- What a merge sees of a directory. -/
def Directory.visible (language : Language) : List (Name × Node) → List (Name × Node)
  | [] => []
  | (name, node) :: rest => node.visible language name ++ Directory.visible language rest

end

namespace Directory
variable {d d' : Directory} {language : Language} {name : Name} {way : List Name}

theorem visible_eq_flatMap (language : Language) (d : Directory) :
    visible language d = d.flatMap fun e => e.2.visible language e.1 := by
  induction d with
  | nil => rfl
  | cons e d ih => rw [visible, ih, List.flatMap_cons]

/-- The leaves of what a merge sees are those that it does not ignore. -/
theorem leavesBelow_visible (language : Language) (path : Path) (d : Directory) :
    leavesBelow path (visible language d) =
      (leavesBelow path d).filter fun leaf => leaf.role language ≠ .ignored := by
  induction d using induction_inner generalizing path with
  | step d ih =>
    rw [visible_eq_flatMap, leavesBelow_eq_flatMap, leavesBelow_eq_flatMap, List.flatMap_assoc,
      List.filter_flatMap]
    refine List.flatMap_congr fun e he => ?_
    obtain ⟨name, node⟩ := e
    cases node with
    | file content =>
      by_cases hrole : Name.role language name = .ignored <;>
        simp [Node.visible, Node.leaves, Leaf.role_eq, hrole]
    | link target =>
      by_cases hrole : Name.role language name = .ignored <;>
        simp [Node.visible, Node.leaves, Leaf.role_eq, hrole]
    | directory inner =>
      rw [Node.visible, List.flatMap_singleton, Node.leaves, Node.leaves]
      split
      · rfl
      · exact ih name inner he _

theorem mem_visible_iff {e : Name × Node} : e ∈ visible language d ↔
    ∃ old, (e.1, old) ∈ d ∧ e ∈ old.visible language e.1 := by
  rw [visible_eq_flatMap, List.mem_flatMap]
  constructor
  · rintro ⟨⟨name, old⟩, hmem, he⟩
    have hname : e.1 = name := by
      cases old with
      | file content => simp_all [Node.visible]
      | link target => simp_all [Node.visible]
      | directory inner => simp_all [Node.visible]
    rw [hname]
    exact ⟨old, hmem, he⟩
  · rintro ⟨old, hmem, he⟩
    exact ⟨_, hmem, he⟩

theorem file_mem_visible {content : Except OsError Bytes} :
    (name, Node.file content) ∈ visible language d ↔
      (name, Node.file content) ∈ d ∧ Name.role language name ≠ .ignored := by
  rw [mem_visible_iff]
  constructor
  · rintro ⟨old, hmem, he⟩
    cases old <;> simp_all [Node.visible]
  · rintro ⟨hmem, hrole⟩
    exact ⟨_, hmem, by simp [Node.visible, hrole]⟩

theorem directory_mem_visible {inner : Directory} :
    (name, Node.directory inner) ∈ visible language d ↔
      ∃ old, (name, Node.directory old) ∈ d ∧
        inner = if name = buildDirectory then [] else visible language old := by
  rw [mem_visible_iff]
  constructor
  · rintro ⟨old, hmem, he⟩
    cases old with
    | file content => simp [Node.visible] at he
    | link target => simp [Node.visible] at he
    | directory old => exact ⟨old, hmem, by simpa [Node.visible] using he⟩
  · rintro ⟨old, hmem, rfl⟩
    exact ⟨_, hmem, by simp [Node.visible]⟩

/-- A merge sees the files that it does not ignore and that no build directory hides. -/
theorem holds_visible_iff {content : Except OsError Bytes} :
    Holds (visible language d) way name (.file content) ↔
      d.Holds way name (.file content) ∧ buildDirectory ∉ way ∧
        Name.role language name ≠ .ignored := by
  constructor
  · intro h
    induction way generalizing d with
    | nil =>
      cases h with
      | here h =>
        obtain ⟨hmem, hrole⟩ := file_mem_visible.mp h
        exact ⟨.here hmem, List.not_mem_nil, hrole⟩
    | cons first way ih =>
      cases h with
      | deeper h hinner =>
        obtain ⟨old, hold, rfl⟩ := directory_mem_visible.mp h
        split at hinner
        · cases hinner <;> contradiction
        · obtain ⟨hholds, hway, hrole⟩ := ih hinner
          exact ⟨.deeper hold hholds, by simp_all [eq_comm], hrole⟩
  · rintro ⟨h, hway, hrole⟩
    induction way generalizing d with
    | nil =>
      cases h with
      | here h => exact .here (file_mem_visible.mpr ⟨h, hrole⟩)
    | cons first way ih =>
      rw [List.mem_cons, not_or] at hway
      cases h with
      | deeper h hinner =>
        refine .deeper (directory_mem_visible.mpr ⟨_, h, rfl⟩) ?_
        rw [if_neg (Ne.symm hway.1)]
        exact ih hinner hway.2

/-- In a tree without links, what is no directory is a file. -/
theorem Holds.exists_file {node : Node} (h : d.Holds way name node) (hlink : d.isLinkFree = true)
    (hleaf : node.isLeaf = true) : ∃ content, node = .file content := by
  have hnode := Node.of_every (h.every hlink)
  cases node with
  | file content => exact ⟨content, rfl⟩
  | link target => contradiction
  | directory inner => contradiction

theorem mem_leavesBelow_visible_iff (hlink : d.isLinkFree = true) {path : Path} {leaf : Leaf} :
    leaf ∈ leavesBelow path (visible language d) ↔
      ∃ way content, Holds (visible language d) way leaf.name (.file content) ∧
        leaf.path = (path.below way).child leaf.name := by
  rw [leavesBelow_visible, List.mem_filter, mem_leavesBelow_iff, decide_eq_true_eq, Leaf.role_eq]
  constructor
  · rintro ⟨⟨way, node, hholds, hleaf, hway, hpath⟩, hrole⟩
    obtain ⟨content, rfl⟩ := hholds.exists_file hlink hleaf
    exact ⟨way, content, holds_visible_iff.mpr ⟨hholds, hway, hrole⟩, hpath⟩
  · rintro ⟨way, content, hholds, hpath⟩
    obtain ⟨hholds, hway, hrole⟩ := holds_visible_iff.mp hholds
    exact ⟨⟨way, _, hholds, rfl, hway, hpath⟩, hrole⟩

/-- A directory after changes that no merge sees, in it and in the directories below it: leaves that
are ignored are added and removed, and below a directory for build products anything may change. -/
inductive EditedUnseen (language : Language) : Directory → Directory → Prop
  | nil : EditedUnseen language [] []
  | keep {d d' : Directory} (e : Name × Node) (h : EditedUnseen language d d') :
      EditedUnseen language (e :: d) (e :: d')
  | inner {d d' inner inner' : Directory} (name : Name)
      (hinner : EditedUnseen language inner inner') (h : EditedUnseen language d d') :
      EditedUnseen language ((name, .directory inner) :: d) ((name, .directory inner') :: d')
  | build {d d' : Directory} (inner inner' : Directory) (h : EditedUnseen language d d') :
      EditedUnseen language ((buildDirectory, .directory inner) :: d)
        ((buildDirectory, .directory inner') :: d')
  | add {d d' : Directory} {name : Name} {leaf : Node} (hleaf : leaf.isLeaf = true)
      (hname : Name.role language name = .ignored) (h : EditedUnseen language d d') :
      EditedUnseen language d ((name, leaf) :: d')
  | remove {d d' : Directory} {name : Name} {leaf : Node} (hleaf : leaf.isLeaf = true)
      (hname : Name.role language name = .ignored) (h : EditedUnseen language d d') :
      EditedUnseen language ((name, leaf) :: d) d'

theorem visible_ignored {leaf : Node} (hleaf : leaf.isLeaf = true)
    (hname : Name.role language name = .ignored) : leaf.visible language name = [] := by
  cases leaf with
  | file content => exact if_pos hname
  | link target => exact if_pos hname
  | directory inner => contradiction

theorem EditedUnseen.visible_eq (h : EditedUnseen language d d') :
    visible language d' = visible language d := by
  induction h with
  | nil => rfl
  | keep e _ ih => rw [visible, visible, ih]
  | inner name _ _ ihinner ih => rw [visible, visible, Node.visible, Node.visible, ihinner, ih]
  | build inner inner' _ ih =>
    rw [visible, visible, Node.visible, Node.visible, if_pos rfl, if_pos rfl, ih]
  | add hleaf hname _ ih => rw [visible, visible_ignored hleaf hname, ih, List.nil_append]
  | remove hleaf hname _ ih => rw [visible, visible_ignored hleaf hname, ih, List.nil_append]

/-- Two directories that hold the same files with the same contents, in any order of listing, but
for files that are ignored or have a directory for build products on their way. -/
def SameFiles (language : Language) (d d' : Directory) : Prop :=
  ∀ way name content, buildDirectory ∉ way → Name.role language name ≠ .ignored →
    (d.Holds way name (.file content) ↔ d'.Holds way name (.file content))

theorem SameFiles.holds_visible_iff (h : SameFiles language d d') {content : Except OsError Bytes} :
    Holds (visible language d) way name (.file content) ↔
      Holds (visible language d') way name (.file content) := by
  rw [Directory.holds_visible_iff, Directory.holds_visible_iff]
  exact and_congr_left fun hseen => h way name content hseen.1 hseen.2

theorem SameFiles.of_visible_eq (h : visible language d' = visible language d) :
    SameFiles language d d' := by
  intro way name content hway hrole
  have hseen : Holds (visible language d') way name (.file content) ↔
      Holds (visible language d) way name (.file content) := by rw [h]
  rw [Directory.holds_visible_iff, Directory.holds_visible_iff] at hseen
  simpa [hway, hrole] using hseen.symm

theorem SameFiles.trans {d'' : Directory} (h : SameFiles language d d')
    (h' : SameFiles language d' d'') : SameFiles language d d'' :=
  fun way name content hway hrole =>
    (h way name content hway hrole).trans (h' way name content hway hrole)

/-- Listing entries in another order keeps all files. -/
theorem SameFiles.of_relisted (h : d.Relisted d') (hd : d.isProper = true)
    (hd' : d'.isProper = true) : SameFiles language d d' := by
  intro way name content _ _
  rw [holds_iff hd, holds_iff hd']
  have hanswer := h.at? hd (way ++ [name])
  generalize (Node.directory d).at? (way ++ [name]) = found at *
  generalize (Node.directory d').at? (way ++ [name]) = found' at *
  cases hanswer with
  | none => rfl
  | some hnode => cases hnode <;> simp

/-- The same files give the same leaves. -/
theorem SameFiles.leavesBelow_perm (h : SameFiles language d d') (hd : d.isProper = true)
    (hd' : d'.isProper = true) (hlink : d.isLinkFree = true) (hlink' : d'.isLinkFree = true)
    (path : Path) :
    (leavesBelow path (visible language d)).Perm (leavesBelow path (visible language d')) := by
  have hnodup : ∀ d : Directory, d.isProper = true →
      (leavesBelow path (visible language d)).Nodup := by
    intro d hd
    rw [leavesBelow_visible]
    exact ((nodup_leavesBelow hd path).of_map Leaf.path).filter _
  refine (List.perm_ext_iff_of_nodup (hnodup d hd) (hnodup d' hd')).mpr fun leaf => ?_
  rw [mem_leavesBelow_visible_iff hlink, mem_leavesBelow_visible_iff hlink']
  constructor
  · rintro ⟨way, content, hholds, hpath⟩
    exact ⟨way, content, h.holds_visible_iff.mp hholds, hpath⟩
  · rintro ⟨way, content, hholds, hpath⟩
    exact ⟨way, content, h.holds_visible_iff.mpr hholds, hpath⟩

/-- Where directories have names that are UTF-8 and there are no two files for global usings, the
same files give the same collection. -/
theorem SameFiles.ofLeaves_eq (h : SameFiles language d d') (hd : d.isProper = true)
    (hd' : d'.isProper = true) (hlink : d.isLinkFree = true) (hlink' : d'.isLinkFree = true)
    (htext : ∀ way name, d.Eligible language .source way name → ∀ n ∈ way, ∃ t, n = Utf8.encode t)
    (path : Path)
    (hone : (Collection.withRole language .globalUsings (leavesBelow path d)).length ≤ 1) :
    Collection.ofLeaves language (leavesBelow path d') =
      Collection.ofLeaves language (leavesBelow path d) := by
  have hperm := h.leavesBelow_perm hd hd' hlink hlink' path
  rw [leavesBelow_visible, leavesBelow_visible] at hperm
  rw [← Collection.ofLeaves_filter, ← Collection.ofLeaves_filter language (leavesBelow path d)]
  refine Collection.ofLeaves_eq_of_perm hperm ?_ ?_
  · rw [Collection.ofLeaves_filter]
    exact FileSystem.shownApart_leavesBelow hd htext path
  · rwa [Collection.withRole_filter (by decide)]

end Directory

namespace FileSystem
open Directory Collection

/-- A root leads to a directory, in which all names are proper and no links stand. -/
structure HasProject (fs : FileSystem) (root : Path) (d : Directory) : Prop where
  found : fs.find .entry root = .ok (.directory d)
  proper : d.isProper = true
  linkFree : d.isLinkFree = true

namespace HasProject
variable {fs fs' : FileSystem} {root p : Path} {d d' : Directory} {language : Language}

theorem collection_eq (h : fs.HasProject root d) (language : Language) :
    fs.collection root language = .ofLeaves language (leavesBelow root (visible language d)) := by
  rw [collection, leaves_of_find h.found, leavesBelow_visible, ofLeaves_filter]

/-- What is collected is a file that a merge sees. -/
theorem exists_visible (h : fs.HasProject root d)
    (hp : p ∈ (fs.collection root language).sources ∨
      (fs.collection root language).globalUsings = some p) :
    ∃ way name content, Holds (visible language d) way name (.file content) ∧
      p = (root.below way).child name := by
  have hmem : ∃ role, p ∈ (withRole language role (leavesBelow root (visible language d))).map
      Leaf.path := by
    rw [h.collection_eq] at hp
    rcases hp with hp | hp
    · exact ⟨.source, mem_sources_ofLeaves.mp hp⟩
    · exact ⟨.globalUsings, List.mem_of_getLast? hp⟩
  obtain ⟨role, hmem⟩ := hmem
  obtain ⟨leaf, hleaf, rfl⟩ := List.mem_map.mp hmem
  obtain ⟨way, content, hholds, hpath⟩ :=
    (mem_leavesBelow_visible_iff h.linkFree).mp (List.mem_filter.mp hleaf).1
  exact ⟨way, leaf.name, content, hholds, hpath⟩

theorem read_eq (h : fs.HasProject root d) {way : List Name} {name : Name}
    {content : Except OsError Bytes}
    (hholds : Holds (visible language d) way name (.file content)) :
    fs.read ((root.below way).child name) = content := by
  obtain ⟨hholds, _, _⟩ := holds_visible_iff.mp hholds
  exact read_child_below h.found (hholds.isEntry h.proper) ((holds_iff h.proper).mp hholds)

/-- The same collection of the same files is merged into the same text. -/
theorem mergedText_eq (h : fs.HasProject root d) (h' : fs'.HasProject root d')
    (hfiles : SameFiles language d d')
    (hcollection : fs'.collection root language = fs.collection root language) :
    fs'.mergedText root language = fs.mergedText root language := by
  have hread : ∀ p, (p ∈ (fs.collection root language).sources ∨
      (fs.collection root language).globalUsings = some p) → fs'.read p = fs.read p := by
    intro p hp
    obtain ⟨way, name, content, hholds, rfl⟩ := h.exists_visible hp
    rw [h.read_eq hholds, h'.read_eq (hfiles.holds_visible_iff.mp hholds)]
  exact mergedText_congr hcollection (fun p hp => hread p (.inl hp)) fun p hp => hread p (.inr hp)

/-- Where a merge sees the same, it collects the same files and gives the same text. -/
theorem merge_eq_of_visible_eq (h : fs.HasProject root d) (h' : fs'.HasProject root d')
    (hvisible : visible language d' = visible language d) :
    fs'.collection root language = fs.collection root language ∧
      fs'.mergedText root language = fs.mergedText root language := by
  have hcollection : fs'.collection root language = fs.collection root language := by
    rw [h.collection_eq, h'.collection_eq, hvisible]
  exact ⟨hcollection, h.mergedText_eq h' (.of_visible_eq hvisible) hcollection⟩

/-- Where directories have names that are UTF-8 and there are no two files for global usings, the
order of the listing does not count either. -/
theorem merge_eq_of_sameFiles (h : fs.HasProject root d) (h' : fs'.HasProject root d')
    (hfiles : SameFiles language d d')
    (htext : ∀ way name, d.Eligible language .source way name → ∀ n ∈ way, ∃ t, n = Utf8.encode t)
    (hone : (withRole language .globalUsings (fs.leaves root)).length ≤ 1) :
    fs'.collection root language = fs.collection root language ∧
      fs'.mergedText root language = fs.mergedText root language := by
  rw [leaves_of_find h.found] at hone
  have hcollection : fs'.collection root language = fs.collection root language := by
    rw [collection, collection, leaves_of_find h.found, leaves_of_find h'.found]
    exact hfiles.ofLeaves_eq h.proper h'.proper h.linkFree h'.linkFree htext root hone
  exact ⟨hcollection, h.mergedText_eq h' hfiles hcollection⟩

end HasProject
end FileSystem
end SourceMerge
