import Mathlib
import SourceMerge.Proofs.Collection.Determined

/-! Reading the files of a project. They are read one after the other until one cannot be read, and
that one alone is named in the error. There is a document only if all of them can be read, and
then it has one body for each source. -/
namespace SourceMerge

/-- The paths that a merge reads, in the order in which it reads them. -/
def Collection.readBy (files : Collection) : Language → List Path
  | .go => files.sources
  | .csharp => files.globalUsings.toList ++ files.sources

namespace Reader

/-- A path can be read if it has no zero byte and the system gives its bytes. -/
def Readable (read : Reader) (path : Path) : Prop :=
  0 ∉ path.bytes ∧ ∃ bytes, read path = .ok bytes

/-- Why a path cannot be read: the system is not asked for it, or answers with an error. -/
inductive Refuses (read : Reader) (path : Path) : Cause → Prop
  | zeroByte : 0 ∈ path.bytes →
      Refuses read path (.other "file name contained an unexpected NUL byte".toList)
  | system {error} : 0 ∉ path.bytes → read path = .error error → Refuses read path (.os error)

/-- The first of some paths that cannot be read, and why. -/
inductive FirstRefusal (read : Reader) : List Path → Path → Cause → Prop
  | here {path cause rest} : read.Refuses path cause → FirstRefusal read (path :: rest) path cause
  | later {first rest path cause} : read.Readable first → FirstRefusal read rest path cause →
      FirstRefusal read (first :: rest) path cause

variable {read : Reader} {path : Path} {paths : List Path} {cause : Cause} {files : Collection}
  {language : Language}

theorem readable_or_refuses (read : Reader) (path : Path) :
    read.Readable path ∨ ∃ cause, read.Refuses path cause := by
  by_cases hzero : 0 ∈ path.bytes
  · exact .inr ⟨_, .zeroByte hzero⟩
  cases hread : read path with
  | ok bytes => exact .inl ⟨hzero, bytes, hread⟩
  | error error => exact .inr ⟨_, .system hzero hread⟩

theorem Readable.source (h : read.Readable path) :
    ∃ source, read.source path = .ok source ∧ source.path = path := by
  obtain ⟨hzero, bytes, hread⟩ := h
  refine ⟨.ofContent path (Utf8.decodeLossy bytes), ?_, rfl⟩
  simp [Reader.source, hzero, hread]

theorem Refuses.source (h : read.Refuses path cause) :
    read.source path = .error (.unreadable path cause) := by
  cases h with
  | zeroByte hzero => simp [Reader.source, hzero]
  | system hzero hread => simp [Reader.source, hzero, hread]

theorem Refuses.not_readable (h : read.Refuses path cause) : ¬ read.Readable path := by
  intro hreadable
  obtain ⟨source, hsource, _⟩ := hreadable.source
  rw [h.source] at hsource
  contradiction

theorem readable_or_firstRefusal (read : Reader) (paths : List Path) :
    (∀ p ∈ paths, read.Readable p) ∨ ∃ path cause, read.FirstRefusal paths path cause := by
  induction paths with
  | nil => exact .inl fun p hp => by contradiction
  | cons first rest ih =>
    rcases read.readable_or_refuses first with hfirst | ⟨cause, hfirst⟩
    · rcases ih with hrest | ⟨path, cause, hrest⟩
      · exact .inl (List.forall_mem_cons.mpr ⟨hfirst, hrest⟩)
      · exact .inr ⟨path, cause, .later hfirst hrest⟩
    · exact .inr ⟨first, cause, .here hfirst⟩

theorem FirstRefusal.not_readable (h : read.FirstRefusal paths path cause) :
    ¬ ∀ p ∈ paths, read.Readable p := by
  intro hall
  induction h with
  | here hrefuses => exact hrefuses.not_readable (hall _ List.mem_cons_self)
  | later _ _ ih => exact ih fun p hp => hall p (List.mem_cons_of_mem _ hp)

theorem sources_of_readable (h : ∀ p ∈ paths, read.Readable p) :
    ∃ sources, read.sources paths = .ok sources ∧ sources.map Source.path = paths := by
  induction paths with
  | nil => exact ⟨[], rfl, rfl⟩
  | cons first rest ih =>
    rw [List.forall_mem_cons] at h
    obtain ⟨source, hsource, rfl⟩ := h.1.source
    obtain ⟨sources, hsources, hpaths⟩ := ih h.2
    refine ⟨source :: sources, ?_, by rw [List.map_cons, hpaths]⟩
    rw [Reader.sources] at hsources ⊢
    rw [List.mapM_cons, hsource, hsources]
    rfl

theorem FirstRefusal.sources (h : read.FirstRefusal paths path cause) :
    read.sources paths = .error (.unreadable path cause) := by
  induction h with
  | here hrefuses =>
    rw [Reader.sources, List.mapM_cons, hrefuses.source]
    rfl
  | later hfirst _ ih =>
    obtain ⟨source, hsource, _⟩ := hfirst.source
    rw [Reader.sources] at ih ⊢
    rw [List.mapM_cons, hsource, ih]
    rfl

theorem documentOf_of_readable (h : ∀ p ∈ files.readBy language, read.Readable p) :
    ∃ d, read.documentOf language files = .ok d ∧ d.bodies.map Body.path = files.sources := by
  cases language with
  | go =>
    have hfiles : ∀ p ∈ files.sources, read.Readable p := h
    obtain ⟨sources, hsources, hpaths⟩ := sources_of_readable hfiles
    refine ⟨.ofPackaged sources, by rw [documentOf, hsources]; rfl, ?_⟩
    rw [← hpaths, Document.ofPackaged, List.map_map]
    rfl
  | csharp =>
    obtain ⟨hglobals, hfiles⟩ := List.forall_mem_append.mp h
    obtain ⟨sources, hsources, hpaths⟩ := sources_of_readable hfiles
    obtain ⟨globals, hglobals⟩ :
        ∃ globals, files.globalUsings.mapM read.source = .ok globals := by
      cases hfile : files.globalUsings with
      | none => exact ⟨none, rfl⟩
      | some p =>
        rw [hfile] at hglobals
        obtain ⟨source, hsource, _⟩ := (hglobals p (by simp)).source
        exact ⟨some source, by rw [Option.mapM_some, hsource]; rfl⟩
    refine ⟨.ofNamespaced globals sources, by rw [documentOf, hglobals, hsources]; rfl, ?_⟩
    rw [← hpaths, Document.ofNamespaced, List.map_map]
    rfl

theorem FirstRefusal.documentOf (h : read.FirstRefusal (files.readBy language) path cause) :
    read.documentOf language files = .error (.unreadable path cause) := by
  cases language with
  | go =>
    have hsources : read.sources files.sources = _ := h.sources
    rw [Reader.documentOf, hsources]
    rfl
  | csharp =>
    rw [Collection.readBy] at h
    cases hfile : files.globalUsings with
    | none =>
      rw [hfile] at h
      have hsources : read.sources files.sources = _ := h.sources
      rw [Reader.documentOf, hfile, hsources]
      rfl
    | some p =>
      rw [hfile] at h
      -- the file for global usings is the first of the list, and is read before the others
      cases h with
      | here hrefuses =>
        rw [Reader.documentOf, hfile, Option.mapM_some, hrefuses.source]
        rfl
      | later hfirst hrest =>
        obtain ⟨source, hsource, _⟩ := hfirst.source
        have hsources : read.sources files.sources = _ := hrest.sources
        rw [Reader.documentOf, hfile, Option.mapM_some, hsource, hsources]
        rfl

/-- Of two readers that answer alike at the paths of the same things, both refuse the same thing
first and with the same error. -/
theorem exists_firstRefusal_map {α : Type} {read' : Reader} {f f' : α → Path} {xs : List α}
    (hsame : ∀ x ∈ xs, 0 ∉ (f x).bytes ∧ 0 ∉ (f' x).bytes ∧ read' (f' x) = read (f x))
    (h : ¬ ∀ x ∈ xs, read.Readable (f x)) :
    ∃ x ∈ xs, ∃ error, read.FirstRefusal (xs.map f) (f x) (.os error) ∧
      read'.FirstRefusal (xs.map f') (f' x) (.os error) := by
  induction xs with
  | nil => exact absurd (fun x hx => by contradiction) h
  | cons x xs ih =>
    rw [List.forall_mem_cons] at hsame h
    obtain ⟨⟨hzero, hzero', heq⟩, hrest⟩ := hsame
    cases hread : read (f x) with
    | error error =>
      exact ⟨x, List.mem_cons_self, error, .here (.system hzero hread),
        .here (.system hzero' (heq.trans hread))⟩
    | ok bytes =>
      have hx : read.Readable (f x) := ⟨hzero, bytes, hread⟩
      obtain ⟨y, hy, error, hfirst, hfirst'⟩ := ih hrest fun hall => h ⟨hx, hall⟩
      exact ⟨y, List.mem_cons_of_mem _ hy, error, .later hx hfirst,
        .later ⟨hzero', bytes, heq.trans hread⟩ hfirst'⟩

/-- A merge is all or nothing. There is a document exactly if all paths can be read, it has a body
for each source in their order, and otherwise the error is that of the first path that cannot be
read. A merge of packages looks at no file but the sources. -/
theorem documentOf_allOrNothing (read : Reader) (language : Language) (files : Collection) :
    ((∃ d, read.documentOf language files = .ok d) ↔
        ∀ p ∈ files.readBy language, read.Readable p) ∧
      (∀ d, read.documentOf language files = .ok d → d.bodies.map Body.path = files.sources) ∧
      (∀ e, read.documentOf language files = .error e ↔
        ∃ path cause, read.FirstRefusal (files.readBy language) path cause ∧
          e = .unreadable path cause) ∧
      ∀ (read' : Reader) globals, (∀ p ∈ files.sources, read' p = read p) →
        read'.documentOf .go ⟨files.sources, globals⟩ = read.documentOf .go files := by
  have hsources : ∀ (read' : Reader) globals, (∀ p ∈ files.sources, read' p = read p) →
      read'.documentOf .go ⟨files.sources, globals⟩ = read.documentOf .go files := by
    intro read' globals h
    rw [Reader.documentOf, Reader.documentOf, sources_congr h]
  rcases read.readable_or_firstRefusal (files.readBy language) with hall | ⟨path, cause, hfirst⟩
  · obtain ⟨d, hd, hbodies⟩ := documentOf_of_readable hall
    refine ⟨iff_of_true ⟨d, hd⟩ hall, fun d' hd' => ?_, fun e => iff_of_false ?_ ?_, hsources⟩
    · obtain rfl := Except.ok.inj (hd.symm.trans hd')
      exact hbodies
    · rw [hd]
      simp
    · rintro ⟨path, cause, hfirst, -⟩
      exact hfirst.not_readable hall
  · have herror := hfirst.documentOf
    refine ⟨iff_of_false ?_ hfirst.not_readable, fun d hd => ?_, fun e => ⟨fun he => ?_, ?_⟩,
      hsources⟩
    · simp [herror]
    · rw [herror] at hd
      contradiction
    · exact ⟨path, cause, hfirst, Except.error.inj (he.symm.trans herror)⟩
    · rintro ⟨path', cause', hfirst', rfl⟩
      exact hfirst'.documentOf

end Reader

namespace FileSystem

/-- In a file system a path can be read if it leads to a file that is not refused. -/
theorem readable_iff {fs : FileSystem} {path : Path} : fs.read.Readable path ↔
    0 ∉ path.bytes ∧ ∃ bytes, fs.find .target path = .ok (.file (.ok bytes)) := by
  refine and_congr_right fun _ => ?_
  rw [read]
  rcases fs.find .target path with e | ⟨_ | _ | _⟩ <;> simp [bind, Except.bind]

/-- A file, one that may not be read, a directory, and a link that leads to itself. -/
def knottedProject : FileSystem where
  top :=
    [(Utf8.encode "a.go".toList, .file (.ok [])),
      (Utf8.encode "b.go".toList, .file (.error .permissionDenied)),
      (Utf8.encode "d.go".toList, .directory []),
      (Utf8.encode "l.go".toList, .link (.ofText "l.go".toList))]
  working := []

end FileSystem

namespace Reader
open FileSystem

theorem documentOf_allOrNothing_knottedProject :
    (∃ d, knottedProject.read.documentOf .go
          ⟨[.ofText "a.go".toList], some (.ofText "d.go".toList)⟩ = .ok d ∧
        d.bodies.map Body.path = [.ofText "a.go".toList]) ∧
      knottedProject.read.documentOf .go
          ⟨[.ofText "a.go".toList, .ofText "b.go".toList, .ofText "d.go".toList], none⟩ =
        .error (.unreadable (.ofText "b.go".toList) (.os .permissionDenied)) ∧
      knottedProject.read.documentOf .go
          ⟨[.ofText "a.go".toList, .ofText "l.go".toList, .ofText "d.go".toList], none⟩ =
        .error (.unreadable (.ofText "l.go".toList) (.os .tooManyLinks)) ∧
      knottedProject.read.documentOf .csharp
          ⟨[.ofText "l.go".toList], some (.ofText "d.go".toList)⟩ =
        .error (.unreadable (.ofText "d.go".toList) (.os .isDirectory)) := by
  have hfile : knottedProject.read.Readable (.ofText "a.go".toList) :=
    readable_iff.mpr ⟨by decide, [], by cbv⟩
  have hlocked : knottedProject.read (.ofText "b.go".toList) = .error .permissionDenied := by cbv
  have hlink : knottedProject.read (.ofText "l.go".toList) = .error .tooManyLinks := by cbv
  have hdirectory : knottedProject.read (.ofText "d.go".toList) = .error .isDirectory := by cbv
  refine ⟨?_, ?_, ?_, ?_⟩
  · obtain ⟨hok, hbodies, _⟩ := documentOf_allOrNothing knottedProject.read .go
      ⟨[.ofText "a.go".toList], some (.ofText "d.go".toList)⟩
    obtain ⟨d, hd⟩ := hok.mpr fun p hp => List.mem_singleton.mp hp ▸ hfile
    exact ⟨d, hd, hbodies d hd⟩
  · exact ((documentOf_allOrNothing _ _ _).2.2.1 _).mpr
      ⟨_, _, .later hfile (.here (.system (by decide) hlocked)), rfl⟩
  · exact ((documentOf_allOrNothing _ _ _).2.2.1 _).mpr
      ⟨_, _, .later hfile (.here (.system (by decide) hlink)), rfl⟩
  · exact ((documentOf_allOrNothing _ _ _).2.2.1 _).mpr
      ⟨_, _, .here (.system (by decide) hdirectory), rfl⟩

end Reader
end SourceMerge
