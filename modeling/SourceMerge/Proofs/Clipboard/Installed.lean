import SourceMerge.Clipboard
import SourceMerge.Proofs.FileSystem.Walk
import SourceMerge.Proofs.Text.Bytes
import SourceMerge.Proofs.Text.Order

/-! Programs that are installed and programs that can be started. A command counts as installed
where a file of its name is found, and starts where one is found that may be run. The two differ
just where every file of a name is locked: such a command is tried, and is refused. -/
namespace SourceMerge

theorem Mechanism.isEntry_program (m : Mechanism) :
    Name.isEntry (Utf8.encode m.program) = true := by
  cases m <;> decide

namespace SearchPath
variable {s : SearchPath} {name : Text} {tools : List (Text × Tool)} {n : Nat}

/-- A file of a name that may be run stands in one of some directories. -/
def Offers (directories : List (List (Text × Tool))) (name : Text) : Prop :=
  ∃ tools ∈ directories, ∃ conduct, tools.lookup name = some (.program conduct)

/-- A file of a name that may be run stands in one of the directories, or, if there are none, in
the working directory. -/
def Runs (s : SearchPath) (fs : FileSystem) (name : Text) : Prop :=
  Offers s.directories name ∨
    s.directories = [] ∧ fs.isFile (.ofText name) = true ∧
      ∃ conduct, s.here.lookup name = some conduct

/-- A file of a name that may not be run stands in one of the directories, or, if there are none,
in the working directory. -/
def Locks (s : SearchPath) (fs : FileSystem) (name : Text) : Prop :=
  (∃ tools ∈ s.directories, tools.lookup name = some .lockedFile) ∨
    s.directories = [] ∧ fs.isFile (.ofText name) = true ∧ s.here.lookup name = none

section Entries

theorem directoryName_eq (n : Nat) : directoryName n = Utf8.encode (Nat.toDigits 10 n) := by
  rw [directoryName, Nat.toList_repr]

theorem directoryName_injective : Function.Injective directoryName := by
  intro m n h
  rw [directoryName_eq, directoryName_eq] at h
  have hdigits := Text.encode_injective h
  calc
    m = Nat.ofDigitChars 10 (Nat.toDigits 10 m) 0 := Nat.ofDigitChars_ten_toDigits.symm
    _ = Nat.ofDigitChars 10 (Nat.toDigits 10 n) 0 := by rw [hdigits]
    _ = n := Nat.ofDigitChars_ten_toDigits

/-- The bytes of a number are those of its digits, and so neither slashes nor dots. -/
theorem le_of_mem_directoryName {b : UInt8} (h : b ∈ directoryName n) : 0x30 ≤ b := by
  rw [directoryName_eq, Utf8.encode, List.mem_flatMap] at h
  obtain ⟨c, hc, hb⟩ := h
  have hdigit := Nat.isDigit_of_mem_toDigits (by decide) (by decide) hc
  have hbounds : 0x30 ≤ c.toNat ∧ c.toNat ≤ 0x39 := by
    simpa [Char.isDigit, UInt32.le_iff_toNat_le] using hdigit
  rw [Utf8.encodeChar_of_lt (by omega), List.mem_singleton] at hb
  rw [hb, UInt8.le_iff_toNat_le]
  simp
  omega

theorem isEntry_directoryName (n : Nat) : Name.isEntry (directoryName n) = true := by
  have hne : directoryName n ≠ [] := fun h =>
    Nat.toDigits_ne_nil (Text.encode_injective ((directoryName_eq n).symm.trans h))
  have hslash : Path.slash ∉ directoryName n := fun h =>
    absurd (le_of_mem_directoryName h) (by decide)
  have hdot {rest : Text} : directoryName n ≠ Utf8.encode ('.' :: rest) := fun h => by
    have hmem : (0x2E : UInt8) ∈ directoryName n := h ▸ List.mem_cons_self
    exact absurd (le_of_mem_directoryName hmem) (by decide)
  rw [Name.isEntry_iff, Path.Step.ofName, if_neg hdot, if_neg hdot]
  exact ⟨hne, hslash, rfl⟩

theorem child?_toolEntries (tools : List (Text × Tool)) (name : Text) :
    Directory.child? (toolEntries tools) (Utf8.encode name) =
      (tools.lookup name).map Tool.node := by
  induction tools with
  | nil => rfl
  | cons first rest ih =>
    obtain ⟨other, tool⟩ := first
    rw [toolEntries, List.map_cons, Directory.child?_cons, List.lookup_cons]
    by_cases h : name = other
    · simp [h]
    · rw [if_neg fun heq => h (Text.encode_injective heq), beq_eq_false_iff_ne.mpr h]
      exact ih

/-- The directories as they lie side by side. -/
def shelf (s : SearchPath) : Directory :=
  s.directories.zipIdx.map fun (tools, n) => (directoryName n, .directory (toolEntries tools))

theorem child?_shelf (h : s.directories[n]? = some tools) :
    s.shelf.child? (directoryName n) = some (.directory (toolEntries tools)) := by
  have hnames : s.shelf.map Prod.fst =
      (List.range' 0 s.directories.length).map directoryName := by
    rw [← List.zipIdx_map_snd, shelf, List.map_map, List.map_map]
    rfl
  refine Directory.child?_of_mem ?_ ?_
  · rw [hnames]
    exact List.Nodup.map directoryName_injective List.nodup_range'
  · exact List.mem_map.mpr ⟨(tools, n), List.mem_zipIdx_iff_getElem?.mpr h, rfl⟩

theorem find_home (s : SearchPath) : s.fileSystem.find .target home = .ok (.directory s.shelf) := by
  have hsteps : home.steps = [.entry home.bytes] := by decide
  have hstart : s.fileSystem.startOf home = [] := if_neg (by decide)
  have hnode : s.fileSystem.node? ([] ++ [home.bytes]) = some (.directory s.shelf) := by
    simp [FileSystem.node?, fileSystem, Node.at?_cons, Directory.child?, shelf]
  have hwalk : s.fileSystem.walk .target FileSystem.maxLinks [] ([home.bytes].map .entry) =
      .ok ([] ++ [home.bytes]) := FileSystem.walk_entries rfl hnode
  refine FileSystem.find_eq_ok.mpr ⟨[home.bytes], ?_, hnode⟩
  rw [FileSystem.locate_eq_ok, hsteps, hstart]
  exact ⟨by decide, hwalk⟩

theorem join_ofText (p : Path) (h : Name.isEntry (Utf8.encode name) = true) :
    p.join (.ofText name) = p.child (Utf8.encode name) := by
  obtain ⟨_, hslash, _⟩ := Name.isEntry_iff.mp h
  refine if_neg fun habsolute => hslash ?_
  exact List.mem_of_head? (beq_iff_eq.mp habsolute)

/-- A command leads to a file from a directory if the directory has a program or a locked file of
that name. -/
theorem isFile_iff (htools : s.directories[n]? = some tools)
    (hname : Name.isEntry (Utf8.encode name) = true) :
    s.fileSystem.isFile ((home.child (directoryName n)).join (.ofText name)) = true ↔
      (∃ conduct, tools.lookup name = some (.program conduct)) ∨
        tools.lookup name = some .lockedFile := by
  have hbelow : home.child (directoryName n) = home.below [directoryName n] := rfl
  have hnames : ∀ m ∈ [directoryName n] ++ [Utf8.encode name], Name.isEntry m = true := by
    simpa using ⟨isEntry_directoryName n, hname⟩
  have hway : (Node.directory s.shelf).at? [directoryName n] =
      some (.directory (toolEntries tools)) := by
    rw [Node.at?_cons, child?_shelf htools, Option.bind_some, Node.at?_nil]
  have hentry := child?_toolEntries tools name
  rw [join_ofText _ hname, hbelow, FileSystem.isFile]
  cases htool : tools.lookup name with
  | none =>
    rw [htool] at hentry
    rw [FileSystem.find_child_below_absent (find_home s) hnames hway hentry]
    simp
  | some tool =>
    have hat : (Node.directory s.shelf).at? ([directoryName n] ++ [Utf8.encode name]) =
        some tool.node := by
      rw [Node.at?_append, hway, Option.bind_some, Node.at?_cons, hentry, htool]
      exact Node.at?_nil _
    rw [FileSystem.find_child_below (find_home s) hnames hat (by cases tool <;> rfl)]
    cases tool <;> simp [Tool.node]

end Entries

theorem hasCommand_iff (fs : FileSystem) (hname : Name.isEntry (Utf8.encode name) = true) :
    s.hasCommand fs name = true ↔ s.Runs fs name ∨ s.Locks fs name := by
  rw [hasCommand]
  split
  · rename_i hnone
    rw [List.isEmpty_iff] at hnone
    cases hconduct : s.here.lookup name <;> simp [Runs, Locks, Offers, hnone, hconduct]
  · rename_i hsome
    rw [List.isEmpty_iff] at hsome
    rw [List.any_eq_true]
    constructor
    · rintro ⟨n, hn, hfile⟩
      have htools := List.getElem?_eq_getElem (List.mem_range.mp hn)
      have hmem := List.mem_of_getElem? htools
      rcases (isFile_iff htools hname).mp hfile with hrun | hlock
      · exact .inl (.inl ⟨_, hmem, hrun⟩)
      · exact .inr (.inl ⟨_, hmem, hlock⟩)
    · intro h
      have hplace : ∃ tools ∈ s.directories,
          (∃ conduct, tools.lookup name = some (.program conduct)) ∨
            tools.lookup name = some .lockedFile := by
        rcases h with (⟨tools, hmem, hrun⟩ | ⟨hnone, _⟩) | ⟨tools, hmem, hlock⟩ | ⟨hnone, _⟩
        · exact ⟨tools, hmem, .inl hrun⟩
        · contradiction
        · exact ⟨tools, hmem, .inr hlock⟩
        · contradiction
      obtain ⟨tools, hmem, hfile⟩ := hplace
      obtain ⟨n, hn⟩ := List.mem_iff_getElem?.mp hmem
      obtain ⟨hlt, _⟩ := List.getElem?_eq_some_iff.mp hn
      exact ⟨n, List.mem_range.mpr hlt, (isFile_iff hn hname).mpr hfile⟩

section Start
variable {directories : List (List (Text × Tool))} {refused : Bool}

theorem offers_cons : Offers (tools :: directories) name ↔
    (∃ conduct, tools.lookup name = some (.program conduct)) ∨ Offers directories name :=
  List.exists_mem_cons_iff _ _ _

/-- A program of a name is started from whichever directory has it. -/
theorem startFrom_of_offers (h : Offers directories name) :
    ∃ conduct, startFrom name refused directories = .ok conduct := by
  induction directories generalizing refused with
  | nil => simp [Offers] at h
  | cons tools rest ih =>
    rw [startFrom]
    cases htool : tools.lookup name with
    | none => exact ih (by simpa [offers_cons, htool] using h)
    | some tool =>
      cases tool with
      | program conduct => exact ⟨conduct, rfl⟩
      | lockedFile | directory => exact ih (by simpa [offers_cons, htool] using h)

/-- Without a program of a name, whatever has the name is remembered and refused at the end. -/
theorem startFrom_of_not_offers (h : ¬ Offers directories name) :
    startFrom name refused directories =
      .error (if refused || directories.any fun tools => (tools.lookup name).isSome
        then .permissionDenied else .notFound) := by
  induction directories generalizing refused with
  | nil => simp [startFrom]
  | cons tools rest ih =>
    rw [offers_cons, not_or] at h
    rw [startFrom, List.any_cons]
    cases htool : tools.lookup name with
    | none => exact ih h.2
    | some tool =>
      cases tool with
      | program conduct => exact absurd ⟨conduct, htool⟩ h.1
      | lockedFile | directory => simp [ih h.2]

/-- In the working directory a file is started exactly if it may be run. Anything else of its name
is refused. -/
theorem startInWorking_of_isFile {fs : FileSystem} (h : fs.isFile (.ofText name) = true) :
    s.startInWorking fs name = (s.here.lookup name).elim (.error .permissionDenied) .ok := by
  rw [FileSystem.isFile] at h
  rw [startInWorking]
  split at h
  · rename_i content hfind
    rw [hfind]
    cases s.here.lookup name <;> rfl
  · contradiction

theorem startInWorking_of_not_isFile {fs : FileSystem} (h : fs.isFile (.ofText name) = false) :
    ∃ e, s.startInWorking fs name = .error e := by
  rw [FileSystem.isFile] at h
  rw [startInWorking]
  cases hfind : fs.find .target (.ofText name) with
  | error e => exact ⟨e, rfl⟩
  | ok node =>
    cases node with
    | file content => simp [hfind] at h
    | directory | link => exact ⟨.permissionDenied, rfl⟩

theorem start_of_runs {fs : FileSystem} (h : s.Runs fs name) :
    ∃ conduct, s.start fs name = .ok conduct := by
  rw [start]
  rcases h with hoffers | ⟨hnone, hfile, conduct, hconduct⟩
  · have hsome : s.directories ≠ [] := by
      obtain ⟨tools, htools, _⟩ := hoffers
      exact List.ne_nil_of_mem htools
    rw [if_neg (by simpa using hsome)]
    exact startFrom_of_offers hoffers
  · rw [if_pos (List.isEmpty_iff.mpr hnone), startInWorking_of_isFile hfile, hconduct]
    exact ⟨conduct, rfl⟩

theorem start_of_not_runs {fs : FileSystem} (h : ¬ s.Runs fs name) :
    ∃ e, s.start fs name = .error e ∧ (s.Locks fs name → e = .permissionDenied) := by
  rw [Runs, not_or] at h
  rw [start]
  split
  · rename_i hnone
    rw [List.isEmpty_iff] at hnone
    cases hfile : fs.isFile (.ofText name) with
    | false =>
      obtain ⟨e, he⟩ := s.startInWorking_of_not_isFile hfile
      exact ⟨e, he, fun hlock => by simp [Locks, hnone, hfile] at hlock⟩
    | true =>
      rw [startInWorking_of_isFile hfile]
      cases hconduct : s.here.lookup name with
      | none => exact ⟨_, rfl, fun _ => rfl⟩
      | some conduct => exact absurd ⟨hnone, hfile, conduct, hconduct⟩ h.2
  · rename_i hsome
    rw [List.isEmpty_iff] at hsome
    refine ⟨_, startFrom_of_not_offers h.1, fun hlock => if_pos ?_⟩
    obtain ⟨tools, htools, htool⟩ | ⟨hnone, _⟩ := hlock
    · exact List.any_eq_true.mpr ⟨tools, htools, by rw [htool]; rfl⟩
    · contradiction

end Start

end SearchPath

namespace Mechanism
variable {p : SearchPath} {fs : FileSystem} {m : Mechanism}

/-- A program that has been started is not reported as one that was not. -/
theorem verdict_ne_notStarted (m : Mechanism) (ending : Except OsError Status) (program : Text)
    (e : OsError) : m.verdict ending ≠ .error (.command (.notStarted program e)) := by
  cases ending with
  | error e => simp [verdict]
  | ok status =>
    rw [verdict]
    split <;> simp

theorem deliver_of_runs (text : Text) (h : p.Runs fs m.program) :
    (m.deliver p fs text).started = some m ∧
      ∀ program e, (m.deliver p fs text).result ≠
        some (.error (.command (.notStarted program e))) := by
  obtain ⟨conduct, hstart⟩ := p.start_of_runs h
  rw [deliver, hstart]
  refine ⟨rfl, fun program e hresult => ?_⟩
  obtain ⟨ending, _, hending⟩ := Option.map_eq_some_iff.mp hresult
  exact m.verdict_ne_notStarted ending program e hending

theorem deliver_of_not_runs (text : Text) (h : ¬ p.Runs fs m.program) :
    ∃ e, m.deliver p fs text =
        ⟨some (.error (.command (.notStarted m.program e))), none, none⟩ ∧
      (p.Locks fs m.program → e = .permissionDenied) := by
  obtain ⟨e, hstart, he⟩ := p.start_of_not_runs h
  exact ⟨e, by rw [deliver, hstart], he⟩

theorem started_iff (p : SearchPath) (fs : FileSystem) (m : Mechanism) (text : Text) :
    (m.deliver p fs text).started = some m ↔ p.Runs fs m.program := by
  by_cases h : p.Runs fs m.program
  · exact iff_of_true (deliver_of_runs text h).1 h
  · obtain ⟨e, hdeliver, _⟩ := deliver_of_not_runs text h
    simp [hdeliver, h]

end Mechanism

namespace Surroundings
variable {s : Surroundings} {fs : FileSystem} {m : Mechanism}

theorem mem_installed : m ∈ s.installed fs ↔
    m ∈ s.candidates ∧ (s.searchPath.Runs fs m.program ∨ s.searchPath.Locks fs m.program) := by
  rw [installed, List.mem_filter, SearchPath.hasCommand_iff fs m.isEntry_program]

theorem head?_installed {rest : List Mechanism} (hcandidates : s.candidates = m :: rest)
    (h : s.searchPath.Runs fs m.program ∨ s.searchPath.Locks fs m.program) :
    (s.installed fs).head? = some m := by
  rw [installed, hcandidates, List.filter_cons,
    if_pos ((SearchPath.hasCommand_iff fs m.isEntry_program).mpr h)]
  rfl

/-- A copy fails at the start of a program exactly if the first one that is installed is locked. -/
theorem copy_notStarted_iff (s : Surroundings) (fs : FileSystem) (text program : Text)
    (e : OsError) :
    (s.copy fs text).result = some (.error (.command (.notStarted program e))) ↔
      e = .permissionDenied ∧ ∃ m, (s.installed fs).head? = some m ∧ m.program = program ∧
        ¬ s.searchPath.Runs fs m.program := by
  rw [copy]
  cases hhead : (s.installed fs).head? with
  | none => simp
  | some m =>
    by_cases hrun : s.searchPath.Runs fs m.program
    · have hresult := (m.deliver_of_runs text hrun).2 program e
      simp [hresult, hrun]
    · have hlock := (mem_installed.mp (List.mem_of_head? hhead)).2.resolve_left hrun
      obtain ⟨e', hdeliver, he'⟩ := m.deliver_of_not_runs text hrun
      simp [hdeliver, he' hlock, hrun, and_comm, eq_comm]

/-- Looking for programs and starting them agree. What is installed can be started, a copy does not
fail at the start of a program while some candidate can be run, and no such candidate is missing. -/
structure Agrees (s : Surroundings) (fs : FileSystem) : Prop where
  startable : ∀ m ∈ s.installed fs, ∀ text, (m.deliver s.searchPath fs text).started = some m
  refused : ∀ text program e,
    (s.copy fs text).result = some (.error (.command (.notStarted program e))) →
      ∀ m ∈ s.candidates, ¬ s.searchPath.Runs fs m.program
  complete : ∀ m ∈ s.candidates, s.searchPath.Runs fs m.program → m ∈ s.installed fs

/-- The two agree exactly if every candidate that is locked somewhere may be run from elsewhere.
What may be run is never missing, but a locked program counts as installed as well. Where it comes
first, the copy ends with it, even if a candidate behind it may be run. -/
theorem agrees_iff (s : Surroundings) (fs : FileSystem) :
    (s.Agrees fs ↔
        ∀ m ∈ s.candidates, s.searchPath.Locks fs m.program → s.searchPath.Runs fs m.program) ∧
      (∀ m, m ∈ s.installed fs ↔ m ∈ s.candidates ∧
        (s.searchPath.Runs fs m.program ∨ s.searchPath.Locks fs m.program)) ∧
      (∀ (m : Mechanism) text, (m.deliver s.searchPath fs text).started = some m ↔
        s.searchPath.Runs fs m.program) ∧
      ∀ text program e,
        (s.copy fs text).result = some (.error (.command (.notStarted program e))) ↔
          e = .permissionDenied ∧ ∃ m, (s.installed fs).head? = some m ∧ m.program = program ∧
            ¬ s.searchPath.Runs fs m.program := by
  refine ⟨⟨?_, ?_⟩, fun m => mem_installed, fun m => m.started_iff s.searchPath fs,
    s.copy_notStarted_iff fs⟩
  · intro h m hm hlock
    have hstart := h.startable m (mem_installed.mpr ⟨hm, .inr hlock⟩) []
    exact (m.started_iff s.searchPath fs []).mp hstart
  · intro h
    have hruns : ∀ m ∈ s.installed fs, s.searchPath.Runs fs m.program := by
      intro m hm
      obtain ⟨hcandidate, hrun | hlock⟩ := mem_installed.mp hm
      · exact hrun
      · exact h m hcandidate hlock
    refine ⟨?_, ?_, ?_⟩
    · intro m hm text
      exact (m.started_iff s.searchPath fs text).mpr (hruns m hm)
    · intro text program e hresult
      obtain ⟨_, m, hhead, _, hrun⟩ := (s.copy_notStarted_iff fs text program e).mp hresult
      exact absurd (hruns m (List.mem_of_head? hhead)) hrun
    · intro m hm hrun
      exact mem_installed.mpr ⟨hm, .inl hrun⟩

/-- A directory in which wl-copy is locked and xsel may be run. -/
def sampleTools : List (Text × Tool) :=
  [("wl-copy".toList, .lockedFile), ("xsel".toList, .program ⟨.whole, some (.exited 0)⟩)]

def lockedFirst : Surroundings := ⟨false, false, ⟨[sampleTools], []⟩⟩

theorem lookup_sampleTools : sampleTools.lookup Mechanism.wayland.program = some .lockedFile := by
  decide

theorem lockedFirst_locks (fs : FileSystem) :
    lockedFirst.searchPath.Locks fs Mechanism.wayland.program :=
  .inl ⟨sampleTools, List.mem_singleton_self _, lookup_sampleTools⟩

theorem lockedFirst_not_runs (fs : FileSystem) :
    ¬ lockedFirst.searchPath.Runs fs Mechanism.wayland.program := by
  rintro (⟨tools, htools, conduct, htool⟩ | ⟨hnone, _⟩)
  · rw [List.mem_singleton.mp htools, lookup_sampleTools] at htool
    cases htool
  · cases hnone

theorem agrees_iff_lockedFirst :
    (lockedFirst.copy ⟨[], []⟩ []).result =
        some (.error (.command (.notStarted "wl-copy".toList .permissionDenied))) ∧
      Mechanism.xsel ∈ lockedFirst.installed ⟨[], []⟩ ∧
      (Mechanism.xsel.deliver lockedFirst.searchPath ⟨[], []⟩ []).started = some .xsel := by
  obtain ⟨_, hinstalled, hstarted, hcopy⟩ := agrees_iff lockedFirst ⟨[], []⟩
  have hrun : lockedFirst.searchPath.Runs ⟨[], []⟩ Mechanism.xsel.program :=
    .inl ⟨sampleTools, List.mem_singleton_self _, ⟨.whole, some (.exited 0)⟩, by decide⟩
  have hhead : (lockedFirst.installed ⟨[], []⟩).head? = some .wayland :=
    head?_installed rfl (.inr (lockedFirst_locks _))
  refine ⟨?_, ?_, ?_⟩
  · exact (hcopy _ _ _).mpr ⟨rfl, .wayland, hhead, rfl, lockedFirst_not_runs _⟩
  · exact (hinstalled _).mpr ⟨by decide, .inl hrun⟩
  · exact (hstarted _ _).mpr hrun

theorem not_forall_agrees : ¬ ∀ (s : Surroundings) (fs : FileSystem), s.Agrees fs := by
  intro h
  have hinstalled : Mechanism.wayland ∈ lockedFirst.installed ⟨[], []⟩ :=
    mem_installed.mpr ⟨by decide, .inr (lockedFirst_locks _)⟩
  have hstart := (h lockedFirst ⟨[], []⟩).startable _ hinstalled []
  exact lockedFirst_not_runs _ ((Mechanism.started_iff _ _ _ _).mp hstart)

end Surroundings
end SourceMerge
