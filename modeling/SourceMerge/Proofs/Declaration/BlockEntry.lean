import SourceMerge.Proofs.Declaration.ImportPath
import SourceMerge.Proofs.Text.Words

/-! The entries of an import block and the comments beside them. An entry is read from the first word
of its line, so that whatever is attached to that word becomes part of the path. -/
namespace SourceMerge
namespace Import
open Text

/-- An entry depends on nothing but the first word of its line. -/
theorem entryPath?_eq_some_iff_firstWord {line path : Text} :
    entryPath? line = some path ↔ beginsWith "//".toList line.firstWord = false ∧
      path = trimQuotes line.firstWord ∧ path ≠ [] := by
  have hslashes : ∀ c ∈ "//".toList, isBlank c = false := by simp [isBlank]
  have hcomment : beginsWith "//".toList line.firstWord = beginsWith "//".toList line.trim := by
    rw [← firstWord_trim, beginsWith_firstWord hslashes, trimStart_trim]
  rw [entryPath?_eq_some_iff, firstWord_trim, hcomment]

theorem entryPath?_congr {line line' : Text} (h : line.firstWord = line'.firstWord) :
    entryPath? line = entryPath? line' := by
  apply Option.ext
  intro path
  rw [entryPath?_eq_some_iff_firstWord, entryPath?_eq_some_iff_firstWord, h]

/-- Blanks around an entry do not matter. -/
theorem entryPath?_padded {a b : Text} (ha : AllBlank a) (hb : AllBlank b) (t : Text) :
    entryPath? (a ++ t ++ b) = entryPath? t := by
  apply entryPath?_congr
  rw [firstWord_append_of_allBlank hb, firstWord_allBlank_append ha]

/-- The path of an entry is one word. -/
theorem trim_of_entryPath? {line path : Text} (h : entryPath? line = some path) :
    path.trim = path ∧ path ≠ [] := by
  obtain ⟨_, rfl, hne⟩ := entryPath?_eq_some_iff_firstWord.mp h
  exact ⟨trim_eq_self fun c hc => isBlank_of_mem_firstWord (mem_of_mem_trimQuotes hc), hne⟩

theorem filterMap_singleton (line : Text) :
    [line].filterMap entryPath? = Option.toList (entryPath? line) := by
  cases hline : entryPath? line <;> simp [hline]

theorem trim_of_filterMap {lines : List Text} {o : Option Text}
    (h : lines.filterMap entryPath? = o.toList) : ∀ path ∈ o, path.trim = path ∧ path ≠ [] := by
  intro path hpath
  have hmem : path ∈ lines.filterMap entryPath? := by
    rw [h]
    exact Option.mem_toList.mpr hpath
  obtain ⟨line, _, hline⟩ := List.mem_filterMap.mp hmem
  exact trim_of_entryPath? hline

theorem closesBlock_iff {line : Text} :
    closesBlock line = true ↔ line.trimStart.head? = some ')' := by
  rw [closesBlock, beginsWith_iff]
  cases line.trimStart <;> simp [eq_comm]

theorem beginsWith_eq_false {c d : Char} {word t : Text} (h : t.head? = some d) (hne : d ≠ c) :
    beginsWith (c :: word) t = false := by
  by_contra hbegins
  obtain ⟨rest, rfl⟩ := beginsWith_iff.mp (by simpa using hbegins)
  exact hne (Option.some.inj h).symm

theorem head?_firstWord (t : Text) : t.firstWord.head? = t.trimStart.head? := by
  have hhead := head?_trimStart t
  rw [firstWord]
  cases ht : t.trimStart with
  | nil => rfl
  | cons c rest =>
    rw [ht] at hhead
    simp [hhead c rfl]

/-- A line whose first character is no slash is no comment, and its entry is its first word. -/
theorem entryPath?_eq_some_iff_of_head? {line path : Text} {c : Char}
    (h : line.trimStart.head? = some c) (hc : c ≠ '/') :
    entryPath? line = some path ↔ path = trimQuotes line.firstWord ∧ path ≠ [] := by
  have hplain : beginsWith "//".toList line.firstWord = false :=
    beginsWith_eq_false ((head?_firstWord line).trans h) hc
  rw [entryPath?_eq_some_iff_firstWord, hplain]
  simp

/-- Only quotes are taken off the ends of a word. -/
theorem count_trimQuotes {c : Char} (hc : c ≠ '"') (t : Text) :
    (trimQuotes t).count c = t.count c := by
  have hdrop (u : Text) : (u.dropWhile (· == '"')).count c = u.count c := by
    have hsplit := congrArg (List.count c)
      (List.takeWhile_append_dropWhile (p := (· == '"')) (l := u))
    have hquotes : (u.takeWhile (· == '"')).count c = 0 := by
      rw [List.count_eq_zero]
      intro hmem
      exact hc (by simpa using List.mem_takeWhile_imp hmem)
    rw [List.count_append, hquotes, Nat.zero_add] at hsplit
    exact hsplit
  rw [trimQuotes, List.count_reverse, hdrop, List.count_reverse, hdrop]

theorem trimQuotes_ne_nil {c : Char} {t : Text} (hmem : c ∈ t) (hc : c ≠ '"') :
    trimQuotes t ≠ [] := by
  intro hnil
  have hcount := count_trimQuotes hc t
  rw [hnil, List.count_nil] at hcount
  exact List.count_eq_zero.mp hcount.symm hmem

/-- A line has an entry unless it is blank or starts with a slash or a quote. -/
theorem exists_entryPath?_of_head? {line : Text} {c : Char} (h : line.trimStart.head? = some c)
    (hc : c ≠ '/') (hquote : c ≠ '"') : ∃ path, entryPath? line = some path := by
  have hmem : c ∈ line.firstWord := List.mem_of_head? ((head?_firstWord line).trans h)
  exact ⟨_, (entryPath?_eq_some_iff_of_head? h hc).mpr ⟨rfl, trimQuotes_ne_nil hmem hquote⟩⟩

/-- A comment: one that reaches up to the end of its line, or one that is closed on it. -/
inductive IsComment : Text → Prop
  | toLineEnd (t : Text) : IsComment ("//".toList ++ t)
  | closed {t : Text} : includes "*/".toList t = false →
      IsComment ("/*".toList ++ (t ++ "*/".toList))

theorem IsComment.exists_cons {c : Text} (h : IsComment c) : ∃ rest, c = '/' :: rest := by
  cases h with
  | toLineEnd t => exact ⟨'/' :: t, rfl⟩
  | closed => exact ⟨_, rfl⟩

theorem IsComment.closesBlock_padded {c : Text} (hc : IsComment c) {a : Text} (ha : AllBlank a)
    (b : Text) : closesBlock (a ++ c ++ b) = false := by
  obtain ⟨rest, rfl⟩ := hc.exists_cons
  rw [List.append_assoc, closesBlock, trimStart_append ha, List.cons_append,
    trimStart_cons (by decide)]
  rfl

/-- A comment that reaches up to the end of its line has no entry. Of any other the first word is
taken for one. -/
theorem IsComment.entryPath? {c : Text} (h : IsComment c) :
    Import.entryPath? c =
      if beginsWith "//".toList c then none else some (trimQuotes c.firstWord) := by
  obtain ⟨rest, rfl⟩ := h.exists_cons
  have htrim : trimStart ('/' :: rest) = '/' :: rest := trimStart_cons (by decide) rest
  have hword : beginsWith "//".toList (firstWord ('/' :: rest)) =
      beginsWith "//".toList ('/' :: rest) := by
    rw [beginsWith_firstWord (by simp [isBlank]), htrim]
  have hhead : (firstWord ('/' :: rest)).head? = some '/' := by
    rw [head?_firstWord, htrim]
    rfl
  have hne := trimQuotes_ne_nil (List.mem_of_head? hhead) (by decide)
  split
  · rename_i hcomment
    rw [← hword] at hcomment
    apply Option.eq_none_iff_forall_ne_some.mpr
    intro path hpath
    rw [(entryPath?_eq_some_iff_firstWord.mp hpath).1] at hcomment
    contradiction
  · rename_i hcomment
    rw [← hword, Bool.not_eq_true] at hcomment
    exact entryPath?_eq_some_iff_firstWord.mpr ⟨hcomment, rfl, hne⟩

/-- A line with a path between quotes, behind its indentation and perhaps another name for what is
imported. -/
inductive QuotedEntry : Text → Prop
  | intro {name path b : Text} : (∀ c ∈ name, c ≠ '"' ∧ c ≠ '/' ∧ c ≠ ')') → '"' ∉ path →
      AllBlank b → QuotedEntry (name ++ '"' :: (path ++ '"' :: b))

/-- The line on which a path is printed is a quoted entry. -/
theorem quotedEntry_importLine {path : Text} (h : '"' ∉ path) :
    QuotedEntry (Document.importLine path) := by
  have hline : Document.importLine path = ['\t'] ++ '"' :: (path ++ '"' :: []) := by
    simp [Document.importLine]
  rw [hline]
  exact .intro (by simp) h allBlank_nil

namespace QuotedEntry
variable {e : Text}

theorem append_blanks (h : QuotedEntry e) {gap : Text} (hgap : AllBlank gap) :
    QuotedEntry (e ++ gap) := by
  cases h with
  | intro hname hpath hb => simpa using QuotedEntry.intro hname hpath (hb.append hgap)

/-- The line starts with its name or with its opening quote. -/
theorem exists_head? (h : QuotedEntry e) (s : Text) :
    ∃ c, (e ++ s).trimStart.head? = some c ∧ c ≠ '/' ∧ c ≠ ')' := by
  cases h with
  | @intro name path b hname =>
    have hquote : isBlank '"' = false := by decide
    have hmem : '"' ∈ name ++ ['"'] := by simp
    have hne : trimStart (name ++ ['"']) ≠ [] := by
      intro hnil
      rw [trimStart_eq_nil.mp hnil '"' hmem] at hquote
      contradiction
    obtain ⟨c, hc⟩ : ∃ c, (trimStart (name ++ ['"'])).head? = some c :=
      Option.isSome_iff_exists.mp (List.isSome_head?.mpr hne)
    have hsplit : name ++ '"' :: (path ++ '"' :: b) ++ s =
        (name ++ ['"']) ++ (path ++ '"' :: b ++ s) := by simp
    refine ⟨c, ?_, ?_⟩
    · rw [hsplit, trimStart_append_of_mem hmem hquote, List.head?_append, hc]
      rfl
    · have hfirst : c ∈ name ++ ['"'] :=
        (List.dropWhile_sublist _).subset (List.mem_of_head? hc)
      rcases List.mem_append.mp hfirst with hfirst | hfirst
      · exact (hname c hfirst).2
      · rw [List.mem_singleton.mp hfirst]
        decide

theorem trimStart_ne_nil (h : QuotedEntry e) : e.trimStart ≠ [] := by
  obtain ⟨c, hc, _⟩ := h.exists_head? []
  rw [List.append_nil] at hc
  exact List.ne_nil_of_mem (List.mem_of_head? hc)

/-- A quoted entry closes no block, whatever stands behind it. -/
theorem closesBlock_append (h : QuotedEntry e) (s : Text) : closesBlock (e ++ s) = false := by
  obtain ⟨c, hc, _, hparen⟩ := h.exists_head? s
  by_contra hclose
  rw [Bool.not_eq_false, closesBlock_iff, hc] at hclose
  exact hparen (Option.some.inj hclose)

/-- What is attached to the first word of a quoted entry becomes part of its path. -/
theorem entryPath?_attached (h : QuotedEntry e) {c : Char} (hc : isBlank c = false) (hquote : c ≠ '"')
    (hword : ∀ d ∈ e.trimStart, isBlank d = false) (s : Text) :
    ∃ path, entryPath? (e ++ c :: s) = some path ∧ entryPath? e ≠ some path := by
  have hlonger := firstWord_append_of_word h.trimStart_ne_nil hword (c :: s)
  rw [List.takeWhile_cons, hc] at hlonger
  have hmem : c ∈ (e ++ c :: s).firstWord := by simp [hlonger]
  obtain ⟨d, hd, hslash, _⟩ := h.exists_head? (c :: s)
  refine ⟨_, (entryPath?_eq_some_iff_of_head? hd hslash).mpr ⟨rfl, trimQuotes_ne_nil hmem hquote⟩, ?_⟩
  intro hsame
  -- The character that is attached occurs once more in the longer word.
  have hcount := congrArg (List.count c) (entryPath?_eq_some_iff_firstWord.mp hsame).2.1
  rw [count_trimQuotes hquote, count_trimQuotes hquote, hlonger, List.count_append] at hcount
  simp at hcount

/-- What stands directly behind the first word of a quoted entry changes the entry, and what stands
behind a blank does not. -/
theorem entryPath?_append_iff (h : QuotedEntry e) {c : Char} {s : Text} (hc : isBlank c = false)
    (hquote : c ≠ '"') :
    entryPath? (e ++ c :: s) = entryPath? e ↔ ∃ d ∈ e.trimStart, isBlank d = true := by
  constructor
  · intro hsame
    by_contra hblank
    obtain ⟨path, hnew, hold⟩ := h.entryPath?_attached hc hquote (by simpa using hblank) s
    exact hold (hsame ▸ hnew)
  · intro hblank
    exact entryPath?_congr (firstWord_append_of_blank hblank _)

/-- Nothing that is read behind an entry makes up for a change of the entry. -/
theorem entryPath?_append_paths_iff (h : QuotedEntry e) {c : Char} {s : Text} (hc : isBlank c = false)
    (hquote : c ≠ '"') {paths : List Text} :
    Option.toList (entryPath? (e ++ c :: s)) ++ paths = Option.toList (entryPath? e) ↔
      paths = [] ∧ ∃ d ∈ e.trimStart, isBlank d = true := by
  by_cases hblank : ∃ d ∈ e.trimStart, isBlank d = true
  · rw [(h.entryPath?_append_iff hc hquote).mpr hblank]
    simp [hblank]
  · obtain ⟨path, hnew, hold⟩ := h.entryPath?_attached hc hquote (by simpa using hblank) s
    have hne : Option.toList (some path) ++ paths ≠ Option.toList (entryPath? e) := by
      cases hentry : entryPath? e with
      | none => simp
      | some old =>
        rw [hentry] at hold
        intro hsame
        exact hold (congrArg some (List.cons.inj hsame).1.symm)
    rw [hnew]
    exact iff_of_false hne fun hboth => hblank hboth.2

end QuotedEntry
end Import
end SourceMerge
