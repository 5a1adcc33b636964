import SourceMerge.CommandLine

/-! The log of a run. It tells the declarations of the document, each when it is first seen, and the
numbers that sum the document up; without a document nothing is told of it. What is shown of the log
has no influence on anything else. -/
namespace SourceMerge

namespace Declarations

/-- Inserting some declarations adds those that are new, trimmed. -/
theorem items_insertAll_added (s : Declarations) (ds : List Text) :
    (s.insertAll ds).items = s.items ++ (s.added ds).map Text.trim := by
  induction ds generalizing s with
  | nil => simp [insertAll, added]
  | cons d ds ih =>
    have hstep : s.insertAll (d :: ds) = (s.insert d).insertAll ds := rfl
    rw [hstep, ih, added]
    cases hnew : s.isNew d with
    | true => simp [items_insert, hnew]
    | false => simp [insert_of_not_isNew hnew]

theorem items_ofList_append (ds es : List Text) : (ofList (ds ++ es)).items =
    (empty.added ds).map Text.trim ++ ((ofList ds).added es).map Text.trim := by
  rw [ofList, insertAll_append, items_insertAll_added, items_insertAll_added]
  rfl

theorem map_trim_items (s : Declarations) : s.items.map Text.trim = s.items := by
  have hid : s.items.map Text.trim = s.items.map id :=
    List.map_congr_left fun d hd => (s.trimmed d hd).1
  rw [hid, List.map_id]

end Declarations

theorem Event.filterMap_declaration? (language : Language) (texts : List Text) :
    (texts.map (declaration language)).filterMap declaration? = texts := by
  rw [List.filterMap_map]
  exact List.filterMap_some

namespace Document
open Declarations

theorem exists_packagedEvents (sources : List Source) : ∃ told,
    packagedEvents sources = told ++ [.merged .go (ofPackaged sources).summary] ∧
      (told.filterMap Event.declaration?).map Text.trim =
        (ofPackaged sources).declarations.items := by
  refine ⟨_, rfl, ?_⟩
  rw [Event.filterMap_declaration?]
  exact (items_insertAll_added empty _).symm

theorem exists_namespacedEvents (globals : Option Source) (sources : List Source) : ∃ told,
    namespacedEvents globals sources =
        told ++ [.merged .csharp (ofNamespaced globals sources).summary] ∧
      (told.filterMap Event.declaration?).map Text.trim =
        (ofNamespaced globals sources).declarations.items := by
  have hchoice : [Namespace.choice sources].filterMap Event.declaration? = [] := by
    rw [Namespace.choice]
    split <;> rfl
  have hitems : (ofNamespaced globals sources).declarations.items = _ :=
    items_ofList_append (globals.toList.flatMap Source.globalUsings)
      (sources.flatMap Source.usings)
  refine ⟨_, rfl, ?_⟩
  rw [List.filterMap_append, List.filterMap_append, Event.filterMap_declaration?, hchoice,
    List.append_nil, Event.filterMap_declaration?, ← hitems, map_trim_items]

end Document

namespace Reader
variable {read : Reader} {language : Language} {files : Collection} {d : Document}
  {e : MergeFailure}

/-- Of a document each declaration is told when it is first seen, and at the end its summary. -/
theorem exists_eventsOf (h : read.documentOf language files = .ok d) : ∃ told,
    read.eventsOf language files = told ++ [.merged language d.summary] ∧
      (told.filterMap Event.declaration?).map Text.trim = d.declarations.items := by
  cases language with
  | go =>
    rw [documentOf] at h
    cases hsources : read.sources files.sources with
    | error e => simp [hsources, bind, Except.bind] at h
    | ok sources =>
      have htold : read.eventsOf .go files = Document.packagedEvents sources := by
        simp only [eventsOf, hsources]
        rfl
      rw [hsources] at h
      obtain rfl := Except.ok.inj h
      exact htold ▸ Document.exists_packagedEvents sources
  | csharp =>
    rw [documentOf] at h
    cases hglobals : files.globalUsings.mapM read.source with
    | error e => simp [hglobals, bind, Except.bind] at h
    | ok globals =>
      cases hsources : read.sources files.sources with
      | error e => simp [hglobals, hsources, bind, Except.bind] at h
      | ok sources =>
        have htold : read.eventsOf .csharp files = Document.namespacedEvents globals sources := by
          simp only [eventsOf, hglobals, hsources]
          rfl
        rw [hglobals, hsources] at h
        obtain rfl := Except.ok.inj h
        exact htold ▸ Document.exists_namespacedEvents globals sources

/-- If a file cannot be read, nothing is told of the others. -/
theorem eventsOf_of_error (h : read.documentOf language files = .error e) :
    read.eventsOf language files = [] := by
  cases language with
  | go =>
    rw [documentOf] at h
    cases hsources : read.sources files.sources with
    | error e => simp [eventsOf, hsources, bind, Except.bind, Except.toOption]
    | ok sources => simp [hsources, bind, Except.bind, pure, Except.pure] at h
  | csharp =>
    rw [documentOf] at h
    cases hglobals : files.globalUsings.mapM read.source with
    | error e => simp [eventsOf, hglobals, bind, Except.bind, Except.toOption]
    | ok globals =>
      cases hsources : read.sources files.sources with
      | error e => simp [eventsOf, hglobals, hsources, bind, Except.bind, Except.toOption]
      | ok sources => simp [hglobals, hsources, bind, Except.bind, pure, Except.pure] at h

end Reader

namespace CommandLine
variable {fs : FileSystem} {surroundings : Surroundings} {console console' : Console} {o : Options}

/-- A greater verbosity shows more. -/
theorem shows_mono {event : Event} {v v' : Nat} (hv : v ≤ v')
    (h : console.shows v event = true) : console.shows v' event = true := by
  have hdepth : (Level.ofVerbosity v).depth ≤ (Level.ofVerbosity v').depth := by
    rw [Level.depth_ofVerbosity, Level.depth_ofVerbosity]
    omega
  rw [Console.shows] at h ⊢
  cases hfilter : console.filter? with
  | some passes => simpa [hfilter] using h
  | none =>
    rw [hfilter, decide_eq_true_eq] at h
    exact decide_eq_true (Nat.le_trans h hdepth)

/-- Without a filter of the environment nothing is shown unless it is asked for. -/
theorem logged_zero (h : console.filter? = none) (events : List Event) :
    logged console 0 events = [] := by
  refine List.map_eq_nil_iff.mpr (List.filter_eq_nil_iff.mpr fun event _ => ?_)
  have hdepth : 0 < event.level.depth := by cases event <;> exact Nat.succ_pos _
  rw [Console.shows, h, decide_eq_true_eq]
  exact Nat.not_le.mpr hdepth

/-- Two outcomes that differ at most in what is shown of the log. -/
structure Outcome.Alike (a b : Outcome) : Prop where
  code : b.code = a.code
  stdout : b.stdout = a.stdout
  messages : b.messages = a.messages
  started : b.started = a.started
  received : b.received = a.received

@[simp] theorem filterMap_message?_logged (console : Console) (v : Nat) (events : List Event) :
    (logged console v events).filterMap Report.message? = [] := by
  rw [logged, List.filterMap_map]
  exact List.filterMap_eq_nil_iff.mpr fun _ _ => rfl

theorem Outcome.alike_of_stderr {code : Option Nat} {stdout : Bytes} {stderr stderr' : List Report}
    {started : Option Mechanism} {received : Option Receipt}
    (h : stderr'.filterMap Report.message? = stderr.filterMap Report.message?) :
    Outcome.Alike ⟨code, stdout, stderr, started, received⟩
      ⟨code, stdout, stderr', started, received⟩ :=
  ⟨rfl, rfl, h, rfl, rfl⟩

theorem finish_alike (fs : FileSystem) (surroundings : Surroundings) (console console' : Console)
    (settings : Settings) (v : Nat) (text : Text) (events events' : List Event) :
    (finish fs surroundings console settings text (logged console settings.verbosity events)).Alike
      (finish fs surroundings console' { settings with verbosity := v } text
        (logged console' v events')) := by
  simp only [finish]
  split
  · exact Outcome.alike_of_stderr (by simp)
  · exact Outcome.alike_of_stderr (by simp)

theorem runProject_alike (h : console'.output = console.output) (fs : FileSystem)
    (surroundings : Surroundings) (settings : Settings) (v : Nat) :
    (runProject fs surroundings console settings).Alike
      (runProject fs surroundings console' { settings with verbosity := v }) := by
  have hmerged : fs.mergedProject { settings with verbosity := v } =
      fs.mergedProject settings := rfl
  simp only [runProject, hmerged, h]
  cases fs.mergedProject settings with
  | error e => exact Outcome.alike_of_stderr (by simp)
  | ok text =>
    dsimp only
    generalize console.output.put (Utf8.encode text) = written
    obtain ⟨taken, e | _⟩ := written
    · exact Outcome.alike_of_stderr (by simp)
    · exact finish_alike fs surroundings console console' settings v text _ _

/-- What is shown of the log changes nothing else. -/
theorem runOptions_alike (h : console'.output = console.output) (fs : FileSystem)
    (surroundings : Surroundings) (o : Options) (v : Nat) :
    (runOptions fs surroundings console o).Alike
      (runOptions fs surroundings console' { o with verbosity := v }) := by
  simp only [runOptions, h]
  cases o.completions with
  | some shell => exact ⟨rfl, rfl, rfl, rfl, rfl⟩
  | none =>
    simp only [Settings.ofOptions]
    cases Language.ofName? o.language.trim with
    | none => exact ⟨rfl, rfl, rfl, rfl, rfl⟩
    | some language => exact runProject_alike h fs surroundings _ v

/-- Unless the log is asked for, a run puts nothing but messages on standard error. -/
theorem stderr_runProject_quiet (h : console.filter? = none) (fs : FileSystem)
    (surroundings : Surroundings) {settings : Settings} (hv : settings.verbosity = 0) :
    (runProject fs surroundings console settings).stderr =
      (runProject fs surroundings console settings).messages.map .message := by
  have hmessages (delivered : Option (Except CopyFailure Unit)) :
      delivered.toList.map deliveryReport =
        ((delivered.toList.map deliveryReport).filterMap Report.message?).map .message := by
    rcases delivered with _ | e | _ <;> rfl
  simp only [runProject, hv, logged_zero h, List.nil_append]
  cases fs.mergedProject settings with
  | error e => rfl
  | ok text =>
    dsimp only
    generalize console.output.put (Utf8.encode text) = written
    obtain ⟨taken, e | _⟩ := written
    · rfl
    · simp only [finish, hv, logged_zero h, List.nil_append]
      split
      · exact hmessages _
      · rfl

end CommandLine
end SourceMerge
