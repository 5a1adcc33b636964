import SourceMerge.Document.Namespaced
import SourceMerge.Proofs.Text.Blanks

/-! The grammar of entry points. The reader of a signature takes the word for an asynchronous method and
the argument of a task wherever they stand and never goes back on them, and the search tries every
place of a file. A signature is found exactly where one of the grammar stands. -/
namespace SourceMerge
open Text

namespace EntryPoint

/-- The type of an entry point. -/
inductive IsType : Text → Prop
  | void : IsType "void".toList
  | int : IsType "int".toList
  | task : IsType "Task".toList
  | taskOfInt {ws ws' ws'' : Text} (hws : AllBlank ws) (hws' : AllBlank ws')
      (hws'' : AllBlank ws'') :
      IsType ("Task".toList ++ (ws ++ '<' :: (ws' ++ ("int".toList ++ (ws'' ++ ['>'])))))

/-- The word for an asynchronous method with the blanks behind it, or nothing. -/
inductive IsModifier : Text → Prop
  | synchronous : IsModifier []
  | asynchronous {ws : Text} (hne : ws ≠ []) (hws : AllBlank ws) :
      IsModifier ("async".toList ++ ws)

/-- The signature of an entry point, up to the parenthesis that opens its parameters. -/
inductive IsSignature : Text → Prop
  | intro {ws modifier type ws' ws'' : Text} (hne : ws ≠ []) (hws : AllBlank ws)
      (hmodifier : IsModifier modifier) (htype : IsType type) (hne' : ws' ≠ [])
      (hws' : AllBlank ws') (hws'' : AllBlank ws'') :
      IsSignature ("static".toList ++ (ws ++ (modifier ++ (type ++ (ws' ++
        ("Main".toList ++ (ws'' ++ ['('])))))))

section Readers
variable {t rest type modifier : Text}

/-- A character that is no blank is read behind any blanks. -/
theorem after?_trimStart_eq_some_iff {c : Char} (hc : isBlank c = false) :
    after? [c] t.trimStart = some rest ↔ ∃ ws, AllBlank ws ∧ t = ws ++ c :: rest := by
  rw [after?_eq_some_iff]
  constructor
  · intro h
    obtain ⟨ws, hws, ht⟩ := exists_trimStart t
    exact ⟨ws, hws, by rw [h] at ht; exact ht⟩
  · rintro ⟨ws, hws, rfl⟩
    rw [trimStart_append hws, trimStart_cons hc]
    rfl

theorem afterIntArgument?_eq_some_iff : afterIntArgument? t = some rest ↔
    ∃ ws ws' ws'', AllBlank ws ∧ AllBlank ws' ∧ AllBlank ws'' ∧
      t = ws ++ '<' :: (ws' ++ ("int".toList ++ (ws'' ++ '>' :: rest))) := by
  simp only [afterIntArgument?, Option.bind_eq_bind, Option.bind_eq_some_iff]
  constructor
  · rintro ⟨t', hopen, t'', hint, hclose⟩
    obtain ⟨ws, hws, rfl⟩ := (after?_trimStart_eq_some_iff (by decide)).mp hopen
    obtain ⟨ws', hws', ht'⟩ := exists_trimStart t'
    obtain ⟨ws'', hws'', rfl⟩ := (after?_trimStart_eq_some_iff (by decide)).mp hclose
    refine ⟨ws, ws', ws'', hws, hws', hws'', ?_⟩
    rw [← after?_eq_some_iff.mp hint, ← ht']
  · rintro ⟨ws, ws', ws'', hws, hws', hws'', rfl⟩
    refine ⟨_, (after?_trimStart_eq_some_iff (by decide)).mpr ⟨ws, hws, rfl⟩, _, ?_,
      (after?_trimStart_eq_some_iff (by decide)).mpr ⟨ws'', hws'', rfl⟩⟩
    rw [trimStart_keyword hws' (by decide), after?_append]

theorem afterType?_eq (t : Text) : afterType? t =
    (after? "void".toList t).or ((after? "int".toList t).or
      ((after? "Task".toList t).map fun rest => (afterIntArgument? rest).getD rest)) := by
  simp only [afterType?, Option.orElse_eq_orElse, Option.orElse_eq_or]

/-- What is taken for a type is one. -/
theorem exists_type (h : afterType? t = some rest) : ∃ type, IsType type ∧ t = type ++ rest := by
  rw [afterType?_eq, Option.or_eq_some_iff, Option.or_eq_some_iff, Option.map_eq_some_iff] at h
  rcases h with h | ⟨_, h | ⟨_, behind, htask, h⟩⟩
  · exact ⟨_, .void, after?_eq_some_iff.mp h⟩
  · exact ⟨_, .int, after?_eq_some_iff.mp h⟩
  · obtain rfl := after?_eq_some_iff.mp htask
    cases hargument : afterIntArgument? behind with
    | none =>
      rw [hargument] at h
      exact ⟨_, .task, by rw [show behind = rest from h]⟩
    | some r =>
      rw [hargument] at h
      obtain rfl : r = rest := h
      obtain ⟨ws, ws', ws'', hws, hws', hws'', rfl⟩ := afterIntArgument?_eq_some_iff.mp hargument
      exact ⟨_, .taskOfInt hws hws' hws'', by simp⟩

/-- A type is taken whole, if what follows it is no argument. -/
theorem afterType?_append (h : IsType type) (hrest : rest.trimStart.head? ≠ some '<') :
    afterType? (type ++ rest) = some rest := by
  rw [afterType?_eq]
  cases h with
  | void => rw [after?_append]; rfl
  | int =>
    have hvoid : after? "void".toList ("int".toList ++ rest) = none := rfl
    rw [hvoid, after?_append]
    rfl
  | task =>
    have hvoid : after? "void".toList ("Task".toList ++ rest) = none := rfl
    have hint : after? "int".toList ("Task".toList ++ rest) = none := rfl
    have hargument : afterIntArgument? rest = none := by
      by_contra hsome
      obtain ⟨r, hr⟩ := Option.ne_none_iff_exists'.mp hsome
      obtain ⟨ws, _, _, hws, _, _, rfl⟩ := afterIntArgument?_eq_some_iff.mp hr
      rw [trimStart_append hws, trimStart_cons (by decide)] at hrest
      exact hrest rfl
    rw [hvoid, hint, after?_append, Option.map_some, hargument]
    rfl
  | @taskOfInt ws ws' ws'' hws hws' hws'' =>
    have hargument : afterIntArgument?
        ((ws ++ '<' :: (ws' ++ ("int".toList ++ (ws'' ++ ['>'])))) ++ rest) = some rest :=
      afterIntArgument?_eq_some_iff.mpr ⟨ws, ws', ws'', hws, hws', hws'', by simp⟩
    rw [List.append_assoc, after?_append, Option.map_some, hargument]
    rfl

/-- No type begins like the word for an asynchronous method. -/
theorem IsType.eq_cons (h : IsType type) :
    ∃ c rest, type = c :: rest ∧ isBlank c = false ∧ c ≠ 'a' := by
  cases h with
  | void => exact ⟨'v', _, rfl, by decide, by decide⟩
  | int => exact ⟨'i', _, rfl, by decide, by decide⟩
  | task => exact ⟨'T', _, rfl, by decide, by decide⟩
  | taskOfInt => exact ⟨'T', _, rfl, by decide, by decide⟩

theorem IsModifier.head?_append (h : IsModifier modifier) (htype : IsType type) (rest : Text) :
    ∀ c ∈ (modifier ++ (type ++ rest)).head?, isBlank c = false := by
  intro d hd
  cases h with
  | synchronous =>
    obtain ⟨c, _, rfl, hc, _⟩ := htype.eq_cons
    cases hd
    exact hc
  | asynchronous =>
    cases hd
    decide

/-- The text behind the word for an asynchronous method, if that word stands in front. -/
def afterModifier (t : Text) : Text := (afterKeyword? "async".toList t).getD t

theorem exists_modifier (t : Text) :
    ∃ modifier, IsModifier modifier ∧ t = modifier ++ afterModifier t := by
  unfold afterModifier
  cases h : afterKeyword? "async".toList t with
  | none => exact ⟨[], .synchronous, rfl⟩
  | some rest =>
    obtain ⟨ws, hne, hws, rfl, _⟩ := afterKeyword?_eq_some_iff.mp h
    exact ⟨_, .asynchronous hne hws, (List.append_assoc ..).symm⟩

theorem afterModifier_append (h : IsModifier modifier) (htype : IsType type) (rest : Text) :
    afterModifier (modifier ++ (type ++ rest)) = type ++ rest := by
  unfold afterModifier
  cases h with
  | synchronous =>
    obtain ⟨c, behind, rfl, _, hne⟩ := htype.eq_cons
    have hnone : after? "async".toList (c :: behind ++ rest) = none := if_neg (Ne.symm hne)
    rw [List.nil_append, afterKeyword?, hnone]
    rfl
  | @asynchronous ws hblank hws =>
    have hkeyword : afterKeyword? "async".toList ("async".toList ++ (ws ++ (type ++ rest))) =
        some (type ++ rest) :=
      afterKeyword?_eq_some_iff.mpr
        ⟨ws, hblank, hws, rfl, IsModifier.synchronous.head?_append htype rest⟩
    rw [List.append_assoc, hkeyword]
    rfl

/-- The reader of a signature goes from its keyword over the modifier to the type, and from there
to the name and the parenthesis. -/
theorem isSignature_iff_reads : isSignature t = true ↔
    ∃ behindStatic behindType name behindName post,
      afterKeyword? "static".toList t = some behindStatic ∧
      afterType? (afterModifier behindStatic) = some behindType ∧
      afterBlanks? behindType = some name ∧ after? "Main".toList name = some behindName ∧
      after? ['('] behindName.trimStart = some post := by
  simp only [isSignature, Option.bind_eq_bind, Option.isSome_iff_exists, Option.bind_eq_some_iff,
    afterModifier]
  constructor
  · rintro ⟨post, t₁, h₁, t₂, ⟨t₃, h₃, h₂⟩, t₄, h₄, h₅⟩
    exact ⟨t₁, t₃, t₂, t₄, post, h₁, h₃, h₂, h₄, h₅⟩
  · rintro ⟨t₁, t₃, t₂, t₄, post, h₁, h₃, h₂, h₄, h₅⟩
    exact ⟨post, t₁, h₁, t₂, ⟨t₃, h₃, h₂⟩, t₄, h₄, h₅⟩

/-- A text is read as a signature if it begins with one of the grammar. -/
theorem isSignature_iff : isSignature t = true ↔
    ∃ signature post, IsSignature signature ∧ t = signature ++ post := by
  rw [isSignature_iff_reads]
  constructor
  · rintro ⟨behindStatic, behindType, name, behindName, post, hstatic, htype, hblanks, hmain, hopen⟩
    obtain ⟨ws, hne, hws, rfl, _⟩ := afterKeyword?_eq_some_iff.mp hstatic
    obtain ⟨modifier, hmodifier, hbehind⟩ := exists_modifier behindStatic
    obtain ⟨type, hgrammar, htaken⟩ := exists_type htype
    obtain ⟨ws', hne', hws', rfl, _⟩ := afterBlanks?_eq_some_iff.mp hblanks
    obtain rfl := after?_eq_some_iff.mp hmain
    obtain ⟨ws'', hws'', rfl⟩ := (after?_trimStart_eq_some_iff (by decide)).mp hopen
    refine ⟨_, post, .intro hne hws hmodifier hgrammar hne' hws' hws'', ?_⟩
    rw [hbehind, htaken]
    simp
  · rintro ⟨_, post, @⟨ws, modifier, type, ws', ws'', hne, hws, hmodifier, htype, hne', hws',
      hws''⟩, rfl⟩
    have hname : ∀ c ∈ ("Main".toList ++ (ws'' ++ '(' :: post)).head?, isBlank c = false :=
      head?_keyword (by decide) _
    have hargument : (ws' ++ ("Main".toList ++ (ws'' ++ '(' :: post))).trimStart.head? ≠
        some '<' := by
      rw [trimStart_keyword hws' (by decide)]
      intro hhead
      cases hhead
    refine ⟨modifier ++ (type ++ (ws' ++ ("Main".toList ++ (ws'' ++ '(' :: post)))),
      ws' ++ ("Main".toList ++ (ws'' ++ '(' :: post)), "Main".toList ++ (ws'' ++ '(' :: post),
      ws'' ++ '(' :: post, post, ?_, ?_, ?_, ?_, ?_⟩
    · exact afterKeyword?_eq_some_iff.mpr
        ⟨ws, hne, hws, by simp, hmodifier.head?_append htype _⟩
    · rw [afterModifier_append hmodifier htype, afterType?_append htype hargument]
    · exact afterBlanks?_eq_some_iff.mpr ⟨ws', hne', hws', rfl, hname⟩
    · exact after?_append _ _
    · exact (after?_trimStart_eq_some_iff (by decide)).mpr ⟨ws'', hws'', rfl⟩

end Readers

theorem getLast?_cons_or (c : Char) (pre : Text) (previous : Option Char) :
    (c :: pre).getLast?.or previous = pre.getLast?.or (some c) := by
  rw [List.getLast?_cons]
  cases pre.getLast? <;> rfl

/-- The search finds a signature at any place that is not within a word. -/
theorem occursAfter_iff (previous : Option Char) (t : Text) : occursAfter previous t = true ↔
    ∃ pre rest, t = pre ++ rest ∧ isSignature rest = true ∧
      ∀ c ∈ pre.getLast?.or previous, isWord c = false := by
  induction t generalizing previous with
  | nil =>
    refine iff_of_false (by simp [occursAfter]) ?_
    rintro ⟨pre, rest, hnil, hsignature, _⟩
    rw [(List.append_eq_nil_iff.mp hnil.symm).2] at hsignature
    contradiction
  | cons c t ih =>
    have hfirst : (!previous.any isWord) = true ↔ ∀ d ∈ previous, isWord d = false := by
      cases previous <;> simp
    rw [occursAfter, Bool.or_eq_true, Bool.and_eq_true, ih, hfirst]
    constructor
    · rintro (⟨hsignature, hword⟩ | ⟨pre, rest, rfl, hsignature, hword⟩)
      · exact ⟨[], c :: t, rfl, hsignature, hword⟩
      · exact ⟨c :: pre, rest, rfl, hsignature, by rwa [getLast?_cons_or]⟩
    · rintro ⟨pre, rest, hsplit, hsignature, hword⟩
      cases pre with
      | nil =>
        obtain rfl : c :: t = rest := hsplit
        exact .inl ⟨hsignature, hword⟩
      | cons d pre =>
        obtain ⟨rfl, rfl⟩ := List.cons.inj hsplit
        rw [getLast?_cons_or] at hword
        exact .inr ⟨pre, rest, rfl, hsignature, hword⟩

theorem occursIn_iff {t : Text} : occursIn t = true ↔ ∃ pre signature post,
    t = pre ++ (signature ++ post) ∧ IsSignature signature ∧
      ∀ c ∈ pre.getLast?, isWord c = false := by
  rw [occursIn, occursAfter_iff]
  simp only [Option.or_none, isSignature_iff]
  constructor
  · rintro ⟨pre, _, hsplit, ⟨signature, post, hsignature, rfl⟩, hword⟩
    exact ⟨pre, signature, post, hsplit, hsignature, hword⟩
  · rintro ⟨pre, signature, post, hsplit, hsignature, hword⟩
    exact ⟨pre, _, hsplit, ⟨signature, post, hsignature, rfl⟩, hword⟩

end EntryPoint

open EntryPoint

/-- A file holds the entry point exactly if a signature of the grammar stands somewhere in it, over as
many lines as it takes, at the start of the file or behind a character that is no part of a word.
Nothing that stands before it hides it, be it the start of another signature. -/
theorem Source.holdsEntryPoint_iff (source : Source) :
    (source.holdsEntryPoint = true ↔ ∃ pre signature post,
      source.content = pre ++ (signature ++ post) ∧ IsSignature signature ∧
        ∀ c ∈ pre.getLast?, isWord c = false) ∧
    ∀ front back, source.content = front ++ back → (∀ c ∈ front.getLast?, isWord c = false) →
      occursIn back = true → source.holdsEntryPoint = true := by
  refine ⟨occursIn_iff, fun front back hcontent hfront hback => ?_⟩
  obtain ⟨pre, signature, post, rfl, hsignature, hword⟩ := occursIn_iff.mp hback
  refine occursIn_iff.mpr ⟨front ++ pre, signature, post, ?_, hsignature, fun c hc => ?_⟩
  · rw [hcontent, List.append_assoc]
  · rw [List.getLast?_append, Option.mem_def, Option.or_eq_some_iff] at hc
    rcases hc with hc | ⟨_, hc⟩
    · exact hword c hc
    · exact hfront c hc

example : occursIn "static static\n async\n Task < int\n >\n Main (".toList = true := by decide

end SourceMerge
