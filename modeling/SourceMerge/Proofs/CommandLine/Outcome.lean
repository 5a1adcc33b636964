import Mathlib
import SourceMerge.CommandLine
import SourceMerge.Proofs.Text.Utf8

/-! What a run leaves when its arguments ask for a merge. The whole text is on standard output or
nothing is. The clipboard comes after that: it changes neither the output nor the exit code, and a
program for it is given the text that was put out. -/
namespace SourceMerge

namespace FileSystem

/-- The options name a language and a directory, and the files below it are merged into a text. -/
def Merges (fs : FileSystem) (o : Options) (text : Text) : Prop :=
  ∃ language : Language, o.language.trim.lower ∈ language.names ∧
    fs.isDirectory (.ofText o.directory) = true ∧
    fs.mergedText (.ofText o.directory) language = .ok text

/-- The first thing that stands in the way of a merge: the language, then the directory, then the
files below it. -/
inductive Fails (fs : FileSystem) (o : Options) : MergeFailure → Prop
  | language : (∀ language : Language, o.language.trim.lower ∉ language.names) →
      Fails fs o (.unknownLanguage o.language)
  | target {language : Language} : o.language.trim.lower ∈ language.names →
      fs.isDirectory (.ofText o.directory) = false →
      Fails fs o (.noDirectory (.ofText o.directory))
  | files {language : Language} {e} : o.language.trim.lower ∈ language.names →
      fs.isDirectory (.ofText o.directory) = true →
      fs.mergedText (.ofText o.directory) language = .error e → Fails fs o e

variable {fs : FileSystem} {o : Options} {text : Text} {e : MergeFailure}

theorem merges_or_fails (fs : FileSystem) (o : Options) :
    (∃ text, fs.Merges o text) ∨ ∃ e, fs.Fails o e := by
  cases hname : Language.ofName? o.language.trim with
  | none => exact .inr ⟨_, .language (Language.ofName?_eq_none_iff.mp hname)⟩
  | some language =>
    have hlanguage := Language.ofName?_eq_some_iff.mp hname
    cases htarget : fs.isDirectory (.ofText o.directory) with
    | false => exact .inr ⟨_, .target hlanguage htarget⟩
    | true =>
      cases htext : fs.mergedText (.ofText o.directory) language with
      | ok text => exact .inl ⟨text, language, hlanguage, htarget, htext⟩
      | error e => exact .inr ⟨e, .files hlanguage htarget htext⟩

theorem ofOptions_eq {language : Language} (h : o.language.trim.lower ∈ language.names) :
    Settings.ofOptions o = .ok ⟨.ofText o.directory, language, o.clipboard, o.verbosity⟩ := by
  rw [Settings.ofOptions, Language.ofName?_eq_some_iff.mpr h]

theorem Merges.mergedProject (h : fs.Merges o text) : ∃ settings,
    Settings.ofOptions o = .ok settings ∧ settings.clipboard = o.clipboard ∧
      settings.verbosity = o.verbosity ∧ fs.mergedProject settings = .ok text := by
  obtain ⟨language, hlanguage, htarget, htext⟩ := h
  refine ⟨_, ofOptions_eq hlanguage, rfl, rfl, ?_⟩
  simp [FileSystem.mergedProject, checkTarget, htarget, htext, bind, Except.bind]

theorem Fails.ofOptions_or_mergedProject (h : fs.Fails o e) :
    Settings.ofOptions o = .error e ∨ ∃ settings, Settings.ofOptions o = .ok settings ∧
      fs.mergedProject settings = .error e := by
  cases h with
  | language hlanguage =>
    left
    rw [Settings.ofOptions, Language.ofName?_eq_none_iff.mpr hlanguage]
  | target hlanguage htarget =>
    refine .inr ⟨_, ofOptions_eq hlanguage, ?_⟩
    simp [mergedProject, checkTarget, htarget, bind, Except.bind]
  | files hlanguage htarget htext =>
    refine .inr ⟨_, ofOptions_eq hlanguage, ?_⟩
    simp [mergedProject, checkTarget, htarget, htext, bind, Except.bind]

/-- Options are merged into no two texts. -/
theorem Merges.text_eq {text' : Text} (h : fs.Merges o text) (h' : fs.Merges o text') :
    text = text' := by
  obtain ⟨settings, hsettings, _, _, hmerged⟩ := h.mergedProject
  obtain ⟨settings', hsettings', _, _, hmerged'⟩ := h'.mergedProject
  obtain rfl := Except.ok.inj (hsettings.symm.trans hsettings')
  exact Except.ok.inj (hmerged.symm.trans hmerged')

theorem Fails.not_merges (h : fs.Fails o e) : ¬ fs.Merges o text := by
  intro hmerges
  obtain ⟨settings, hsettings, _, _, hmerged⟩ := hmerges.mergedProject
  rcases h.ofOptions_or_mergedProject with hfails | ⟨settings', hsettings', hfails⟩
  · rw [hsettings] at hfails
    contradiction
  · obtain rfl := Except.ok.inj (hsettings.symm.trans hsettings')
    rw [hmerged] at hfails
    contradiction

theorem Merges.withClipboard (h : fs.Merges o text) (wanted : Bool) :
    fs.Merges { o with clipboard := wanted } text := h

theorem Fails.withClipboard (h : fs.Fails o e) (wanted : Bool) :
    fs.Fails { o with clipboard := wanted } e := by
  cases h with
  | language hlanguage => exact .language hlanguage
  | target hlanguage htarget => exact .target hlanguage htarget
  | files hlanguage htarget htext => exact .files hlanguage htarget htext

end FileSystem

/-- What can have happened in an attempt to copy: no program was started, or one for a candidate,
with what it does to the text. -/
inductive Delivery.Of (s : Surroundings) (fs : FileSystem) (text : Text) : Delivery → Prop
  | idle {result} : Of s fs text ⟨some result, none, none⟩
  | started {m conduct} : m ∈ s.candidates → s.searchPath.start fs m.program = .ok conduct →
      Of s fs text ⟨(conduct.run? (Utf8.encode text)).map m.verdict, some m,
        (conduct.intake.read? (Utf8.encode text)).map (⟨m, ·⟩)⟩

namespace Surroundings

theorem of_copy (s : Surroundings) (fs : FileSystem) (text : Text) :
    Delivery.Of s fs text (s.copy fs text) := by
  rw [copy]
  cases hhead : (s.installed fs).head? with
  | none => exact .idle
  | some m =>
    have hcandidate : m ∈ s.candidates := (List.mem_filter.mp (List.mem_of_head? hhead)).1
    simp only [Mechanism.deliver]
    cases hstart : s.searchPath.start fs m.program with
    | error e => exact .idle
    | ok conduct => exact .started hcandidate hstart

/-- All programs end that can be started for the clipboard. -/
def ProgramsEnd (s : Surroundings) (fs : FileSystem) : Prop :=
  ∀ m ∈ s.candidates, ∀ conduct, s.searchPath.start fs m.program = .ok conduct →
    conduct.ends = true

end Surroundings

theorem Delivery.Of.result_isSome {s : Surroundings} {fs : FileSystem} {text : Text}
    {delivery : Delivery} (h : Of s fs text delivery) (hends : s.ProgramsEnd fs) :
    delivery.result.isSome = true := by
  cases h with
  | idle => rfl
  | started hcandidate hstart =>
    rw [Option.isSome_map]
    exact Program.run?_isSome (hends _ hcandidate _ hstart) _

namespace CommandLine

/-- The ends of a run that is asked for a merge. There is no text; or the text is refused by
standard output after a part of it; or it has been put out, and no copy is wanted or one is
attempted. -/
inductive Ends (fs : FileSystem) (surroundings : Surroundings) (console : Console) (o : Options) :
    Outcome → Prop
  | failed {e} {events : List Event} : fs.Fails o e →
      Ends fs surroundings console o
        ⟨some 1, [], events.map .event ++ [failureReport e], none, none⟩
  | cut {text taken cause} {events : List Event} : fs.Merges o text →
      console.output.put (Utf8.encode text) = (taken, .error cause) →
      Ends fs surroundings console o ⟨some 1, taken,
        events.map .event ++ [failureReport (.transfer cause)], none, none⟩
  | plain {text stderr} : fs.Merges o text → console.output.takes (Utf8.encode text) = true →
      o.clipboard = false →
      Ends fs surroundings console o ⟨some 0, Utf8.encode text, stderr, none, none⟩
  | copied {text delivery stderr} : fs.Merges o text →
      console.output.takes (Utf8.encode text) = true → o.clipboard = true →
      surroundings.copy fs text = delivery →
      Ends fs surroundings console o ⟨delivery.result.map fun _ => 0, Utf8.encode text, stderr,
        delivery.started, delivery.received⟩

variable {fs : FileSystem} {surroundings : Surroundings} {console : Console} {o : Options}
  {arguments : List Text} {text : Text} {e : MergeFailure} {outcome : Outcome}

theorem ends_run (h : Options.ofArguments arguments = .ok o) (hmerge : o.completions = none)
    (fs : FileSystem) (surroundings : Surroundings) (console : Console) :
    Ends fs surroundings console o (run fs surroundings console arguments) := by
  simp only [run, h, runOptions, hmerge]
  rcases fs.merges_or_fails o with ⟨text, hmerges⟩ | ⟨e, hfails⟩
  · obtain ⟨settings, hsettings, hclipboard, _, hmerged⟩ := hmerges.mergedProject
    simp only [hsettings, runProject, hmerged]
    cases htakes : console.output.takes (Utf8.encode text) with
    | false =>
      obtain ⟨taken, cause, hput, _⟩ := Sink.put_of_not_takes htakes
      simp only [hput]
      exact .cut hmerges hput
    | true =>
      simp only [Sink.put_of_takes htakes, finish, hclipboard]
      cases hwanted : o.clipboard with
      | false => exact .plain hmerges htakes hwanted
      | true => exact .copied hmerges htakes hwanted rfl
  · rcases hfails.ofOptions_or_mergedProject with hsettings | ⟨settings, hsettings, hmerged⟩
    · simp only [hsettings]
      exact @Ends.failed fs surroundings console o e [] hfails
    · simp only [hsettings, runProject, hmerged]
      exact .failed hfails

/-- Standard output has what it takes of the text, if there is a text. The clipboard has no part in
this. -/
theorem Ends.stdout (h : Ends fs surroundings console o outcome) (hmerges : fs.Merges o text) :
    outcome.stdout = (console.output.put (Utf8.encode text)).1 := by
  cases h with
  | failed hfails => exact absurd hmerges hfails.not_merges
  | cut htext hput => rw [hmerges.text_eq htext, hput]
  | plain htext htakes _ => rw [hmerges.text_eq htext, Sink.put_of_takes htakes]
  | copied htext htakes _ _ => rw [hmerges.text_eq htext, Sink.put_of_takes htakes]

theorem Ends.eq_of_fails (h : Ends fs surroundings console o outcome) (hfails : fs.Fails o e) :
    outcome.code = some 1 ∧ outcome.stdout = [] ∧ outcome.started = none ∧
      outcome.received = none := by
  cases h with
  | failed _ => exact ⟨rfl, rfl, rfl, rfl⟩
  | cut hmerges _ => exact absurd hmerges hfails.not_merges
  | plain hmerges _ _ => exact absurd hmerges hfails.not_merges
  | copied hmerges _ _ _ => exact absurd hmerges hfails.not_merges

/-- A run that comes to an end fails if standard output refuses a part of the text. -/
theorem Ends.code (h : Ends fs surroundings console o outcome) (hmerges : fs.Merges o text)
    (hcode : outcome.code ≠ none) :
    outcome.code = if console.output.takes (Utf8.encode text) then some 0 else some 1 := by
  cases h with
  | failed hfails => exact absurd hmerges hfails.not_merges
  | cut htext hput =>
    obtain rfl := hmerges.text_eq htext
    cases htakes : console.output.takes (Utf8.encode text) with
    | false => rfl
    | true =>
      rw [Sink.put_of_takes htakes] at hput
      simp at hput
  | plain htext htakes _ =>
    obtain rfl := hmerges.text_eq htext
    rw [if_pos htakes]
  | @copied _ delivery _ htext htakes _ _ =>
    obtain rfl := hmerges.text_eq htext
    rw [if_pos htakes]
    cases hresult : delivery.result with
    | none => exact absurd (by rw [hresult]; rfl) hcode
    | some result => rfl

/-- Whether a copy is wanted, and what programs for the clipboard there are, does not show on
standard output, nor in the exit codes of runs that come to an end. -/
theorem run_clipboard {arguments' : List Text} {wanted : Bool}
    (h : Options.ofArguments arguments = .ok o)
    (h' : Options.ofArguments arguments' = .ok { o with clipboard := wanted })
    (hmerge : o.completions = none) (fs : FileSystem) (surroundings surroundings' : Surroundings)
    (console : Console) :
    (run fs surroundings' console arguments').stdout =
        (run fs surroundings console arguments).stdout ∧
      ((run fs surroundings console arguments).code ≠ none →
        (run fs surroundings' console arguments').code ≠ none →
        (run fs surroundings' console arguments').code =
          (run fs surroundings console arguments).code) := by
  have hrun := ends_run h hmerge fs surroundings console
  have hrun' := ends_run h' hmerge fs surroundings' console
  rcases fs.merges_or_fails o with ⟨text, hmerges⟩ | ⟨e, hfails⟩
  · have hmerges' := hmerges.withClipboard wanted
    exact ⟨(hrun'.stdout hmerges').trans (hrun.stdout hmerges).symm, fun hcode hcode' =>
      (hrun'.code hmerges' hcode').trans (hrun.code hmerges hcode).symm⟩
  · obtain ⟨hcode, hstdout, _⟩ := hrun.eq_of_fails hfails
    obtain ⟨hcode', hstdout', _⟩ := hrun'.eq_of_fails (hfails.withClipboard wanted)
    exact ⟨hstdout'.trans hstdout.symm, fun _ _ => hcode'.trans hcode.symm⟩

/-- If standard output refuses a part of the text, the run fails with the error of the write, and
the clipboard is left alone. -/
theorem run_cut (h : Options.ofArguments arguments = .ok o) (hmerge : o.completions = none)
    (hmerges : fs.Merges o text) (hfull : console.output.takes (Utf8.encode text) = false)
    (surroundings : Surroundings) (hrun : run fs surroundings console arguments = outcome) :
    outcome.code = some 1 ∧ outcome.stdout <+: Utf8.encode text ∧
      outcome.stdout.length < (Utf8.encode text).length ∧ outcome.started = none ∧
      ∃ (events : List Event) (cause : Cause), outcome.stderr =
        events.map .event ++ [failureReport (.transfer cause)] := by
  obtain ⟨taken, cause, hput, hprefix, hlt⟩ := Sink.put_of_not_takes hfull
  have hends := ends_run h hmerge fs surroundings console
  rw [hrun] at hends
  cases hends with
  | failed hfails => exact absurd hmerges hfails.not_merges
  | cut htext hcut =>
    obtain rfl := hmerges.text_eq htext
    rw [hput] at hcut
    obtain ⟨rfl, _⟩ := Prod.mk.inj hcut
    exact ⟨rfl, hprefix, hlt, rfl, _, _, rfl⟩
  | plain htext htakes _ | copied htext htakes _ _ =>
    rw [hmerges.text_eq htext, htakes] at hfull
    contradiction

/-- If standard output takes all that is written to it, a run that is asked for a merge puts out the
whole text and succeeds, or puts out nothing and fails with the first error. Neither depends on the
clipboard, but a run waits for the program that it started, and has no exit code if that one does
not end. A program is started only after a merge and if a copy is wanted, and if it reads, it is
given what was put out. -/
theorem run_allOrNothing (h : Options.ofArguments arguments = .ok o)
    (hmerge : o.completions = none) (fs : FileSystem) (surroundings : Surroundings)
    (htakes : ∀ text, fs.Merges o text → console.output.takes (Utf8.encode text) = true)
    (hrun : run fs surroundings console arguments = outcome) :
    ((∃ text, fs.Merges o text ∧ outcome.stdout = Utf8.encode text ∧
          (outcome.code = some 0 ∨ outcome.code = none ∧ ¬ surroundings.ProgramsEnd fs)) ∨
        outcome.code = some 1 ∧ outcome.stdout = [] ∧ ∃ e, fs.Fails o e ∧
          ∃ events : List Event, outcome.stderr = events.map .event ++ [failureReport e]) ∧
      (outcome.code = some 1 ↔ ∃ e, fs.Fails o e) ∧
      (∀ surroundings' arguments' wanted,
        Options.ofArguments arguments' = .ok { o with clipboard := wanted } →
          (run fs surroundings' console arguments').stdout = outcome.stdout ∧
            (outcome.code ≠ none → (run fs surroundings' console arguments').code ≠ none →
              (run fs surroundings' console arguments').code = outcome.code)) ∧
      (∀ m, outcome.started = some m → o.clipboard = true ∧ (∃ text, fs.Merges o text) ∧
        ∃ conduct, surroundings.searchPath.start fs m.program = .ok conduct ∧
          (conduct.ends = true → outcome.code = some 0) ∧
          (conduct.intake = .whole → outcome.received = some ⟨m, outcome.stdout⟩) ∧
          ∀ receipt, outcome.received = some receipt →
            receipt.mechanism = m ∧ receipt.input <+: outcome.stdout) ∧
      (outcome.started = none → outcome.received = none ∧ outcome.code ≠ none) := by
  have hsame (surroundings' : Surroundings) (arguments' : List Text) (wanted : Bool)
      (h' : Options.ofArguments arguments' = .ok { o with clipboard := wanted }) :=
    hrun ▸ run_clipboard h h' hmerge fs surroundings surroundings' console
  have hends := ends_run h hmerge fs surroundings console
  rw [hrun] at hends
  have hfails {text : Text} (hmerges : fs.Merges o text) : ¬ ∃ e, fs.Fails o e :=
    fun ⟨e, hfails⟩ => hfails.not_merges hmerges
  cases hends with
  | failed hfails =>
    exact ⟨.inr ⟨rfl, rfl, _, hfails, _, rfl⟩, iff_of_true rfl ⟨_, hfails⟩, hsame,
      fun m hm => by contradiction, fun _ => ⟨rfl, by simp⟩⟩
  | cut hmerges hput =>
    rw [Sink.put_of_takes (htakes _ hmerges)] at hput
    simp at hput
  | plain hmerges _ _ =>
    exact ⟨.inl ⟨_, hmerges, rfl, .inl rfl⟩, iff_of_false (by simp) (hfails hmerges), hsame,
      fun m hm => by contradiction, fun _ => ⟨rfl, by simp⟩⟩
  | @copied text delivery stderr hmerges _ hwanted hcopy =>
    have hdelivery := hcopy ▸ surroundings.of_copy fs text
    refine ⟨.inl ⟨text, hmerges, rfl, ?_⟩, iff_of_false ?_ (hfails hmerges), hsame, ?_, ?_⟩
    · cases hresult : delivery.result with
      | some result => exact .inl rfl
      | none =>
        refine .inr ⟨rfl, fun hall => ?_⟩
        have hsome := hdelivery.result_isSome hall
        rw [hresult] at hsome
        contradiction
    · cases delivery.result <;> simp
    · intro m hm
      cases hdelivery with
      | idle => contradiction
      | @started m' conduct _ hstart =>
        obtain rfl := Option.some.inj hm
        refine ⟨hwanted, ⟨text, hmerges⟩, conduct, hstart, fun hend => ?_, fun hwhole => ?_, ?_⟩
        · obtain ⟨ending, hending⟩ := Option.isSome_iff_exists.mp (conduct.run?_isSome hend _)
          rw [hending]
          rfl
        · rw [hwhole]
          rfl
        · intro receipt hreceipt
          obtain ⟨input, hinput, rfl⟩ := Option.map_eq_some_iff.mp hreceipt
          exact ⟨rfl, Intake.isPrefix_of_read? hinput⟩
    · intro hnone
      cases hdelivery with
      | idle => exact ⟨rfl, by simp⟩
      | started => contradiction

/-- A working directory with one file. -/
def smallProject : FileSystem where
  top := [(Utf8.encode "a.go".toList, .file (.ok (Utf8.encode "package p".toList)))]
  working := []

/-- The one program for a clipboard is installed. It reads its input and fails. -/
def failingClipboard : Surroundings where
  insideTmux := false
  insideWsl := true
  searchPath := ⟨[[("clip.exe".toList, .program ⟨.whole, some (.exited 1)⟩)]], []⟩

def openConsole : Console := ⟨.endless, none⟩

theorem merges_smallProject : smallProject.Merges ⟨['.'], "GO".toList, true, 0, none⟩
    "package p\n\n// --- ./a.go ---".toList := by
  have hcollection : smallProject.collection (.ofText ['.']) .go =
      ⟨[.ofText "./a.go".toList], none⟩ := by cbv
  have hread : smallProject.read (.ofText "./a.go".toList) =
      .ok (Utf8.encode "package p".toList) := by cbv
  have hsource : smallProject.read.source (.ofText "./a.go".toList) =
      .ok ⟨.ofText "./a.go".toList, "package p".toList⟩ := by
    rw [Reader.source, if_neg (by decide), hread]
    simp only [Utf8.decodeLossy_encode]
    rfl
  refine ⟨.go, by decide, by cbv, ?_⟩
  rw [FileSystem.mergedText, FileSystem.document, hcollection, Reader.documentOf,
    Reader.sources, List.mapM_cons, hsource]
  exact congrArg Except.ok (by decide +kernel)

theorem start_failingClipboard :
    failingClipboard.searchPath.start smallProject Mechanism.windows.program =
      .ok ⟨.whole, some (.exited 1)⟩ := rfl

theorem hasCommand_failingClipboard :
    failingClipboard.searchPath.hasCommand smallProject "clip.exe".toList = true := by
  cbv

theorem started_copy_smallProject (text : Text) :
    (failingClipboard.copy smallProject text).started = some .windows := by
  have hinstalled : failingClipboard.installed smallProject = [.windows] := by
    refine List.filter_eq_self.mpr fun m hm => ?_
    obtain rfl := List.mem_singleton.mp hm
    exact hasCommand_failingClipboard
  simp only [Surroundings.copy, hinstalled, List.head?_cons, Mechanism.deliver,
    start_failingClipboard]

theorem run_allOrNothing_smallProject :
    ∃ outcome, run smallProject failingClipboard openConsole ["-cl".toList, "GO".toList] = outcome ∧
      outcome.code = some 0 ∧
      outcome.stdout = Utf8.encode "package p\n\n// --- ./a.go ---".toList ∧
      outcome.started = some .windows ∧ outcome.received = some ⟨.windows, outcome.stdout⟩ ∧
      (run smallProject failingClipboard openConsole ["--lang".toList, "GO".toList]).stdout =
        outcome.stdout := by
  have hoptions : Options.ofArguments ["-cl".toList, "GO".toList] =
      .ok ⟨['.'], "GO".toList, true, 0, none⟩ := rfl
  have hother : Options.ofArguments ["--lang".toList, "GO".toList] =
      .ok ⟨['.'], "GO".toList, false, 0, none⟩ := rfl
  have hends := ends_run hoptions rfl smallProject failingClipboard openConsole
  generalize hrun : run smallProject failingClipboard openConsole ["-cl".toList, "GO".toList] =
    outcome at hends
  obtain ⟨_, _, hsame, hstarted, _⟩ :=
    run_allOrNothing hoptions rfl smallProject failingClipboard (fun _ _ => by rfl) hrun
  have hstdout := hends.stdout merges_smallProject
  have hstart : outcome.started = some .windows := by
    cases hends with
    | failed hfails => exact absurd merges_smallProject hfails.not_merges
    | cut _ hput => cases hput
    | plain _ _ hwanted => cases hwanted
    | copied _ _ _ hcopy =>
      rw [← hcopy]
      exact started_copy_smallProject _
  obtain ⟨_, _, conduct, hconduct, hcode, hreceived, _⟩ := hstarted .windows hstart
  rw [start_failingClipboard] at hconduct
  obtain rfl := Except.ok.inj hconduct
  exact ⟨outcome, rfl, hcode rfl, hstdout, hstart, hreceived rfl, (hsame _ _ false hother).1⟩

end CommandLine
end SourceMerge
