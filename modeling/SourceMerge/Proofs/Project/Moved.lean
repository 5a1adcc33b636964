import SourceMerge.Project
import SourceMerge.Proofs.Collection.Moved
import SourceMerge.Proofs.FileSystem.Mirrored
import SourceMerge.Proofs.Project.Reading

/-! Merging a project at another path. The document is made of the places in the tree and of what is
written there, so the path that leads to the tree is met again only in front of the paths of the
bodies. -/
namespace SourceMerge

/-- Two documents that differ at most in a root, which stands before the places of their bodies. -/
structure Document.Moved (places : List Place) (root root' : Path) (m m' : Document) : Prop where
  language : m'.language = m.language
  declarations : m'.declarations = m.declarations
  enclosure : m'.enclosure = m.enclosure
  lines : m'.bodies.map Body.lines = m.bodies.map Body.lines
  paths : m.bodies.map Body.path = places.map root.reach
  paths' : m'.bodies.map Body.path = places.map root'.reach

namespace Directory

/-- A tree that is merged alike from anywhere. It has no links and at most one file for global
usings, and all names on the way to its files are UTF-8 without a zero byte. -/
structure Portable (language : Language) (d : Directory) : Prop where
  proper : d.isProper = true
  linkFree : d.isLinkFree = true
  names : ∀ role way name, role ≠ .ignored → d.Eligible language role way name →
    ∀ n ∈ way ++ [name], 0 ∉ n ∧ ∃ t, n = Utf8.encode t
  seed : (placesOf language .globalUsings d).length ≤ 1

/-- The file at a place can be read. -/
def ReadableAt (d : Directory) (place : Place) : Prop :=
  ∃ bytes, d.Holds place.1 place.2 (.file (.ok bytes))

/-- The text of the file at a place. -/
def textAt (d : Directory) (place : Place) : Text :=
  match (Node.directory d).at? (place.1 ++ [place.2]) with
  | some (.file (.ok bytes)) => (Source.ofContent ⟨[]⟩ (Utf8.decodeLossy bytes)).content
  | _ => []

/-- The source at a place below a root. -/
def sourceAt (d : Directory) (root : Path) (place : Place) : Source :=
  ⟨root.reach place, d.textAt place⟩

/-- The places of the files of a project, that of the file for global usings first. -/
def filePlaces (language : Language) (d : Directory) : List Place :=
  (seedPlace? language d).toList ++ sourcePlaces language d

theorem exists_role_of_mem_filePlaces {language : Language} {d : Directory} {place : Place}
    (h : place ∈ filePlaces language d) :
    ∃ role, role ≠ .ignored ∧ place ∈ placesOf language role d := by
  rcases List.mem_append.mp h with hseed | hsource
  · exact ⟨.globalUsings, by decide, List.mem_of_getLast? (Option.mem_toList.mp hseed)⟩
  · exact ⟨.source, by decide, (Text.sortOn_perm _ _).mem_iff.mp hsource⟩

/-- In a project with packages no file holds global usings. -/
theorem seedPlace?_go (d : Directory) : seedPlace? .go d = none := by
  rw [seedPlace?, List.getLast?_eq_none_iff, List.eq_nil_iff_forall_not_mem]
  intro place hplace
  obtain ⟨t, _, hrole⟩ := ((mem_placesOf_iff (by decide)).mp hplace).named
  rw [Role.ofName] at hrole
  split at hrole <;> contradiction

theorem readBy_filePlaces (language : Language) (d : Directory) (root : Path) :
    Collection.readBy
        ⟨(sourcePlaces language d).map root.reach, (seedPlace? language d).map root.reach⟩
        language = (filePlaces language d).map root.reach := by
  cases language with
  | go => simp [Collection.readBy, filePlaces, seedPlace?_go]
  | csharp => simp [Collection.readBy, filePlaces, Option.toList_map]

/-- The document of the files below a directory that a root leads to. -/
def merged (language : Language) (d : Directory) (root : Path) : Document :=
  match language with
  | .go => .ofPackaged ((sourcePlaces .go d).map (d.sourceAt root))
  | .csharp => .ofNamespaced ((seedPlace? .csharp d).map (d.sourceAt root))
      ((sourcePlaces .csharp d).map (d.sourceAt root))

section Documents
variable (d : Directory) (root root' : Path)

theorem ofPackaged_moved (places : List Place) :
    Document.Moved places root root' (.ofPackaged (places.map (d.sourceAt root)))
      (.ofPackaged (places.map (d.sourceAt root'))) := by
  have hitems : (places.map (d.sourceAt root')).flatMap Source.items =
      (places.map (d.sourceAt root)).flatMap Source.items := by
    rw [List.flatMap_map, List.flatMap_map]
    rfl
  refine ⟨rfl, ?_, ?_, ?_, ?_, ?_⟩
  · rw [Document.ofPackaged, Document.ofPackaged, hitems]
  · rw [Document.ofPackaged, Document.ofPackaged, Package.first?, Package.first?, hitems]
  all_goals
    simp only [Document.ofPackaged, List.map_map]
    rfl

theorem first?_moved (places : List Place) :
    Namespace.first? (places.map (d.sourceAt root')) =
      Namespace.first? (places.map (d.sourceAt root)) := by
  rw [Namespace.first?, Namespace.first?, List.findSome?_map, List.findSome?_map]
  rfl

theorem chosen?_moved (places : List Place) :
    Namespace.chosen? (places.map (d.sourceAt root')) =
      Namespace.chosen? (places.map (d.sourceAt root)) := by
  have hentry : Namespace.ofEntryPoint? (places.map (d.sourceAt root')) =
      Namespace.ofEntryPoint? (places.map (d.sourceAt root)) := by
    rw [Namespace.ofEntryPoint?, Namespace.ofEntryPoint?, List.filter_map, List.filter_map]
    exact d.first?_moved root root' _
  rw [Namespace.chosen?, Namespace.chosen?, hentry, first?_moved d root root']

theorem ofNamespaced_moved (seed : Option Place) (places : List Place) :
    Document.Moved places root root'
      (.ofNamespaced (seed.map (d.sourceAt root)) (places.map (d.sourceAt root)))
      (.ofNamespaced (seed.map (d.sourceAt root')) (places.map (d.sourceAt root'))) := by
  have husings : (places.map (d.sourceAt root')).flatMap Source.usings =
      (places.map (d.sourceAt root)).flatMap Source.usings := by
    rw [List.flatMap_map, List.flatMap_map]
    rfl
  have hglobals : (seed.map (d.sourceAt root')).toList.flatMap Source.globalUsings =
      (seed.map (d.sourceAt root)).toList.flatMap Source.globalUsings := by
    cases seed <;> rfl
  refine ⟨rfl, ?_, ?_, ?_, ?_, ?_⟩
  · rw [Document.ofNamespaced, Document.ofNamespaced, husings, hglobals]
  · rw [Document.ofNamespaced, Document.ofNamespaced, chosen?_moved d root root']
  all_goals
    simp only [Document.ofNamespaced, List.map_map]
    rfl

/-- Where a root leads to a directory shows only in front of the places. -/
theorem merged_moved (language : Language) : Document.Moved (sourcePlaces language d) root root'
    (d.merged language root) (d.merged language root') := by
  cases language with
  | go => exact d.ofPackaged_moved root root' _
  | csharp => exact d.ofNamespaced_moved root root' _ _

end Documents
end Directory

namespace FileSystem
open Directory Collection
variable {fs fs' : FileSystem} {root root' : Path} {d d' : Directory} {language : Language}
  {places : List Place} {seed : Option Place} {place : Place} {role : Role}

theorem sources_map {f : Place → Path} {g : Place → Source}
    (h : ∀ place ∈ places, fs.read.source (f place) = .ok (g place)) :
    fs.read.sources (places.map f) = .ok (places.map g) := by
  unfold Reader.sources
  induction places with
  | nil => rfl
  | cons place places ih =>
    rw [List.forall_mem_cons] at h
    rw [List.map_cons, List.mapM_cons, h.1, ih h.2]
    rfl

theorem zero_not_mem_reach (hroot : 0 ∉ root.bytes)
    (hentry : ∀ n ∈ place.1 ++ [place.2], Name.isEntry n = true)
    (hnames : ∀ n ∈ place.1 ++ [place.2], 0 ∉ n) : 0 ∉ (root.reach place).bytes := by
  have hbase : 0 ∉ root.base := by
    rw [Path.base]
    split
    · exact hroot
    · simp [hroot, Path.slash]
  have hway : 0 ∉ place.1.flatMap (· ++ [Path.slash]) := by
    intro hzero
    obtain ⟨n, hn, hzero⟩ := List.mem_flatMap.mp hzero
    rcases List.mem_append.mp hzero with hzero | hzero
    · exact hnames n (List.mem_append_left _ hn) hzero
    · exact absurd (List.mem_singleton.mp hzero) (by decide)
  rw [Path.bytes_reach hentry, Place.bytes, List.mem_append, List.mem_append, not_or, not_or]
  exact ⟨hbase, hway, hnames _ (by simp)⟩

namespace HasProject

/-- What is read at the path of a place is what the tree holds there. -/
theorem read_reach (h : fs.HasProject root d') (hfiles : SameFiles language d d')
    (hd : d.Portable language) (hroot : 0 ∉ root.bytes) (hplace : place ∈ filePlaces language d) :
    0 ∉ (root.reach place).bytes ∧ ∃ content, d.Holds place.1 place.2 (.file content) ∧
      fs.read (root.reach place) = content := by
  obtain ⟨role, hrole, hplace⟩ := exists_role_of_mem_filePlaces hplace
  have heligible := (mem_placesOf_iff hrole).mp hplace
  have hnames := hd.names role place.1 place.2 hrole heligible
  have hseen : Name.role language place.2 = role :=
    (Name.role_eq_iff hrole).mpr heligible.named
  obtain ⟨⟨node, hholds, hleaf⟩, hway, _⟩ := heligible
  obtain ⟨content, rfl⟩ := hholds.exists_file hd.linkFree hleaf
  have hholds' := (hfiles _ _ _ hway (hseen ▸ hrole)).mp hholds
  exact ⟨zero_not_mem_reach hroot (hholds.isEntry hd.proper) fun n hn => (hnames n hn).1,
    content, hholds, read_child_below h.found (hholds'.isEntry h.proper)
      ((holds_iff h.proper).mp hholds')⟩

theorem readable_reach (h : fs.HasProject root d') (hfiles : SameFiles language d d')
    (hd : d.Portable language) (hroot : 0 ∉ root.bytes) (hplace : place ∈ filePlaces language d) :
    fs.read.Readable (root.reach place) ↔ d.ReadableAt place := by
  obtain ⟨hzero, content, hholds, hread⟩ := h.read_reach hfiles hd hroot hplace
  rw [Reader.Readable, hread]
  constructor
  · rintro ⟨_, bytes, rfl⟩
    exact ⟨bytes, hholds⟩
  · rintro ⟨bytes, hbytes⟩
    rw [holds_iff hd.proper] at hholds hbytes
    rw [hholds, Option.some.injEq, Node.file.injEq] at hbytes
    exact ⟨hzero, bytes, hbytes⟩

theorem source_reach (h : fs.HasProject root d') (hfiles : SameFiles language d d')
    (hd : d.Portable language) (hroot : 0 ∉ root.bytes) (hplace : place ∈ filePlaces language d)
    (hreadable : d.ReadableAt place) :
    fs.read.source (root.reach place) = .ok (d.sourceAt root place) := by
  obtain ⟨bytes, hbytes⟩ := hreadable
  obtain ⟨hzero, content, hholds, hread⟩ := h.read_reach hfiles hd hroot hplace
  rw [holds_iff hd.proper] at hholds hbytes
  obtain rfl := Node.file.inj (Option.some.inj (hholds.symm.trans hbytes))
  rw [sourceAt, textAt, hbytes]
  simp [Reader.source, hread, hzero, Source.ofContent]

theorem collection_reach (h : fs.HasProject root d') (hfiles : SameFiles language d d')
    (hd : d.Portable language) : fs.collection root language =
      ⟨(sourcePlaces language d).map root.reach, (seedPlace? language d).map root.reach⟩ := by
  have htext : ∀ way name, d.Eligible language .source way name →
      ∀ n ∈ way, ∃ t, n = Utf8.encode t := fun way name heligible n hn =>
    (hd.names .source way name (by decide) heligible n (List.mem_append_left _ hn)).2
  have hone : (withRole language .globalUsings (leavesBelow root d)).length ≤ 1 := by
    rw [withRole_leavesBelow, List.length_map]
    exact hd.seed
  rw [collection, leaves_of_find h.found, hfiles.ofLeaves_eq hd.proper h.proper hd.linkFree
    h.linkFree htext root hone, ofLeaves_leavesBelow hd.proper]

/-- If its files can be read, the document of a project is made of the places in the tree and what
it holds there. -/
theorem document_reach (h : fs.HasProject root d') (hfiles : SameFiles language d d')
    (hd : d.Portable language) (hroot : 0 ∉ root.bytes)
    (hreadable : ∀ place ∈ filePlaces language d, d.ReadableAt place) :
    fs.document root language = .ok (d.merged language root) := by
  have hsource : ∀ place ∈ filePlaces language d,
      fs.read.source (root.reach place) = .ok (d.sourceAt root place) := fun place hplace =>
    h.source_reach hfiles hd hroot hplace (hreadable place hplace)
  have hsources : fs.read.sources ((sourcePlaces language d).map root.reach) =
      .ok ((sourcePlaces language d).map (d.sourceAt root)) :=
    sources_map fun place hplace => hsource place (List.mem_append_right _ hplace)
  rw [document, h.collection_reach hfiles hd]
  cases language with
  | go =>
    rw [Reader.documentOf, hsources]
    rfl
  | csharp =>
    have hseed : ((seedPlace? .csharp d).map root.reach).mapM fs.read.source =
        .ok ((seedPlace? .csharp d).map (d.sourceAt root)) := by
      cases hplace : seedPlace? .csharp d with
      | none => rfl
      | some place =>
        rw [Option.map_some, Option.mapM_some, hsource place (by simp [filePlaces, hplace])]
        rfl
    rw [Reader.documentOf, hseed, hsources]
    rfl

/-- The merges of one tree at two roots fail at the same place, with the same error. -/
theorem mergedText_error_reach (h : fs.HasProject root d) (h' : fs'.HasProject root' d')
    (hfiles : SameFiles language d d') (hd : d.Portable language) (hroot : 0 ∉ root.bytes)
    (hroot' : 0 ∉ root'.bytes) (hrefused : ¬ ∀ place ∈ filePlaces language d, d.ReadableAt place) :
    ∃ place ∈ filePlaces language d, ∃ error,
      fs.mergedText root language = .error (.unreadable (root.reach place) (.os error)) ∧
      fs'.mergedText root' language = .error (.unreadable (root'.reach place) (.os error)) := by
  have hsame : SameFiles language d d := .of_visible_eq rfl
  have hread : ∀ place ∈ filePlaces language d, 0 ∉ (root.reach place).bytes ∧
      0 ∉ (root'.reach place).bytes ∧
        fs'.read (root'.reach place) = fs.read (root.reach place) := by
    intro place hplace
    obtain ⟨hzero, content, hholds, hread⟩ := h.read_reach hsame hd hroot hplace
    obtain ⟨hzero', content', hholds', hread'⟩ := h'.read_reach hfiles hd hroot' hplace
    rw [holds_iff hd.proper] at hholds hholds'
    obtain rfl := Node.file.inj (Option.some.inj (hholds.symm.trans hholds'))
    exact ⟨hzero, hzero', hread'.trans hread.symm⟩
  have hnot : ¬ ∀ place ∈ filePlaces language d, fs.read.Readable (root.reach place) := fun hall =>
    hrefused fun place hplace =>
      (h.readable_reach hsame hd hroot hplace).mp (hall place hplace)
  obtain ⟨place, hplace, error, hfirst, hfirst'⟩ := Reader.exists_firstRefusal_map hread hnot
  rw [← readBy_filePlaces] at hfirst hfirst'
  refine ⟨place, hplace, error, ?_, ?_⟩
  · rw [mergedText, document, h.collection_reach hsame hd, hfirst.documentOf]
    rfl
  · rw [mergedText, document, h'.collection_reach hfiles hd, hfirst'.documentOf]
    rfl

end HasProject

/-- Where a project lives shows only in the markers. Two roots that lead to the same files give the
same places in the same order, and documents that have the root in front of the places of their
bodies and are otherwise the same. If some file cannot be read, both merges end at the same place
and with the same error. A path with a zero byte is none that leads anywhere. -/
theorem merge_moved (hd : d.Portable language) (h : fs.HasProject root d)
    (h' : fs'.HasProject root' d') (hfiles : SameFiles language d d') (hroot : 0 ∉ root.bytes)
    (hroot' : 0 ∉ root'.bytes) :
    ∃ (places : List Place) (seed : Option Place),
      fs.collection root language = ⟨places.map root.reach, seed.map root.reach⟩ ∧
      fs'.collection root' language = ⟨places.map root'.reach, seed.map root'.reach⟩ ∧
      ((∀ place ∈ filePlaces language d, d.ReadableAt place) → ∃ m m' : Document,
        fs.document root language = .ok m ∧ fs.mergedText root language = .ok m.render ∧
        fs'.document root' language = .ok m' ∧ fs'.mergedText root' language = .ok m'.render ∧
        Document.Moved places root root' m m') ∧
      ((¬ ∀ place ∈ filePlaces language d, d.ReadableAt place) →
        ∃ place ∈ filePlaces language d, ∃ error,
          fs.mergedText root language = .error (.unreadable (root.reach place) (.os error)) ∧
          fs'.mergedText root' language =
            .error (.unreadable (root'.reach place) (.os error))) ∧
      ∀ place ∈ places,
        (root.reach place).display = Utf8.decodeLossy root.base ++ place.shown ∧
        (root'.reach place).display = Utf8.decodeLossy root'.base ++ place.shown := by
  refine ⟨sourcePlaces language d, seedPlace? language d,
    h.collection_reach (.of_visible_eq rfl) hd, h'.collection_reach hfiles hd,
    fun hreadable => ?_,
    h.mergedText_error_reach h' hfiles hd hroot hroot', fun place hplace => ?_⟩
  · have hm := h.document_reach (.of_visible_eq rfl) hd hroot hreadable
    have hm' := h'.document_reach hfiles hd hroot' hreadable
    exact ⟨d.merged language root, d.merged language root', hm, by rw [mergedText, hm]; rfl, hm',
      by rw [mergedText, hm']; rfl, d.merged_moved root root' language⟩
  · obtain ⟨⟨node, hholds, _⟩, _⟩ :=
      (mem_placesOf_iff (by decide)).mp ((Text.sortOn_perm _ _).mem_iff.mp hplace)
    have hentry := hholds.isEntry hd.proper
    exact ⟨Path.display_reach hentry, Path.display_reach hentry⟩

/-- The sample project in a directory that is itself named for build products, and listed in another
order. -/
def nestedProject : FileSystem where
  top := [(buildDirectory, .directory sampleProject.mirrored.top)]
  working := []

theorem locate_nestedProject :
    nestedProject.locate .entry (.ofText "obj/".toList) = .ok [buildDirectory] := by
  have hsteps : (Path.ofText "obj/".toList).steps = [.entry buildDirectory, .stay] := by decide
  have hstart : nestedProject.startOf (.ofText "obj/".toList) = [] := by decide
  have hkind : (nestedProject.node? ([] ++ [buildDirectory])).map Node.kind = some .directory := rfl
  rw [locate_eq_ok, hsteps, hstart, walk_entry, hkind]
  simp only [walk]
  exact ⟨by decide, rfl⟩

theorem merge_moved_nestedProject :
    ∃ m m', sampleProject.document (.ofText ['.']) .csharp = .ok m ∧
      nestedProject.document (.ofText "obj/".toList) .csharp = .ok m' ∧
      m'.declarations = m.declarations ∧
      m'.bodies.map Body.lines = m.bodies.map Body.lines := by
  have hsample : sampleProject.HasProject (.ofText ['.']) sampleProject.top :=
    ⟨find_sampleProject, by decide, by decide⟩
  have hnested :
      nestedProject.HasProject (.ofText "obj/".toList) sampleProject.mirrored.top :=
    ⟨find_eq_ok.mpr ⟨_, locate_nestedProject, rfl⟩, by decide, by decide⟩
  have hfiles : SameFiles .csharp sampleProject.top sampleProject.mirrored.top :=
    .of_relisted (relisted_mirror _) hsample.proper hnested.proper
  have hportable : sampleProject.top.Portable .csharp := by
    refine ⟨hsample.proper, hsample.linkFree, ?_, by decide⟩
    intro role way name _ heligible n hn
    obtain ⟨rfl, hname⟩ := eligible_sampleProject heligible
    obtain ⟨t, rfl, _⟩ := heligible.named
    obtain rfl := List.mem_singleton.mp hn
    refine ⟨?_, t, rfl⟩
    have hzero : ∀ n ∈ sampleProject.top.map Prod.fst, 0 ∉ n := by decide
    exact hzero _ hname
  have hreadable : ∀ place ∈ filePlaces .csharp sampleProject.top,
      sampleProject.top.ReadableAt place := by
    intro ⟨way, name⟩ hplace
    obtain ⟨role, hrole, hplace⟩ := exists_role_of_mem_filePlaces hplace
    have heligible := (mem_placesOf_iff hrole).mp hplace
    obtain ⟨rfl, _⟩ := eligible_sampleProject heligible
    obtain ⟨⟨node, hholds, hleaf⟩, _⟩ := heligible
    have hfiles : ∀ e ∈ sampleProject.top, e.2.isLeaf = true → e.2 = .file (.ok []) := by
      simp [sampleProject, Node.isLeaf]
    cases hholds with
    | here hmem => exact ⟨[], .here (hfiles _ hmem hleaf ▸ hmem)⟩
  obtain ⟨_, _, _, _, hmerge, _⟩ :=
    merge_moved hportable hsample hnested hfiles (by decide) (by decide)
  obtain ⟨m, m', hm, _, hm', _, hmoved⟩ := hmerge hreadable
  exact ⟨m, m', hm, hm', hmoved.declarations, hmoved.lines⟩

end FileSystem
end SourceMerge
