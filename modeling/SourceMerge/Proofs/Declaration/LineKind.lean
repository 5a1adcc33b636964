import SourceMerge.Document.Packaged
import SourceMerge.Proofs.Declaration.Recognition
import SourceMerge.Proofs.Text.Runs

/-! What a line of a file with packages is where no import block is open: a package clause, the
opener of a block, a single import, or code. No line matches two of the first three patterns, so
that the order in which they are tried does not matter. -/
namespace SourceMerge
open Text

namespace Package

theorem name?_eq_some_iff {line name : Text} :
    name? line = some name ↔
      ∃ rest, afterKeyword? "package".toList line.trimStart = some (name ++ rest) ∧ name ≠ [] ∧
        (∀ c ∈ name, isWord c = true) ∧ ∀ c ∈ rest.head?, isWord c = false := by
  constructor
  · intro h
    obtain ⟨t, ht, h⟩ := Option.bind_eq_some_iff.mp h
    simp only at h
    split at h
    · contradiction
    · rename_i hempty
      obtain rfl := Option.some.inj h
      refine ⟨t.dropWhile isWord, ?_, by simpa using hempty, ?_, not_of_mem_head?_dropWhile t⟩
      · rw [List.takeWhile_append_dropWhile, ht]
      · intro c hc
        exact List.mem_takeWhile_imp hc
  · rintro ⟨rest, hkeyword, hne, hname, hrest⟩
    rw [name?, hkeyword]
    simp only [Option.bind_eq_bind, Option.bind_some, takeWhile_run hname hrest]
    rw [if_neg (by simpa using hne)]

theorem head?_of_name? {line name : Text} (h : name? line = some name) :
    line.trimStart.head? = some 'p' := by
  obtain ⟨_, hkeyword, _⟩ := name?_eq_some_iff.mp h
  exact head?_of_afterKeyword? hkeyword

theorem name?_eq_none_of_head? {line : Text} (h : line.trimStart.head? ≠ some 'p') :
    name? line = none := by
  cases hname : name? line with
  | none => rfl
  | some name => exact absurd (head?_of_name? hname) h

end Package

namespace Import

theorem opensBlock_iff {line : Text} :
    opensBlock line = true ↔ ∃ ws rest, AllBlank ws ∧
      line.trimStart = "import".toList ++ (ws ++ '(' :: rest) ∧ isLineEnd rest = true := by
  simp only [opensBlock, Option.any_eq_true, Option.bind_eq_bind, Option.bind_eq_some_iff,
    after?_eq_some_iff]
  constructor
  · rintro ⟨rest, ⟨t, ht, hrest⟩, hend⟩
    obtain ⟨ws, hws, hsplit⟩ := exists_trimStart t
    rw [hrest] at hsplit
    exact ⟨ws, rest, hws, by rw [ht, hsplit]; rfl, hend⟩
  · rintro ⟨ws, rest, hws, ht, hend⟩
    refine ⟨rest, ⟨ws ++ '(' :: rest, ht, ?_⟩, hend⟩
    rw [trimStart_append hws, trimStart_cons (by decide)]
    rfl

theorem single?_eq_some_iff {line path : Text} :
    single? line = some path ↔ ∃ ws rest, ws ≠ [] ∧ AllBlank ws ∧
      line.trimStart = "import".toList ++ (ws ++ '"' :: (path ++ '"' :: rest)) ∧ path ≠ [] ∧
        '"' ∉ path := by
  constructor
  · intro h
    obtain ⟨t, ht, h⟩ := Option.bind_eq_some_iff.mp h
    obtain ⟨u, hu, h⟩ := Option.bind_eq_some_iff.mp h
    obtain ⟨ws, hne, hws, hline, _⟩ := afterKeyword?_eq_some_iff.mp ht
    rw [after?_eq_some_iff.mp hu] at hline
    simp only at h
    split at h
    · contradiction
    · rename_i hcond
      obtain rfl := Option.some.inj h
      simp only [Bool.or_eq_true, List.isEmpty_iff, decide_eq_true_eq, not_or] at hcond
      have hquote : '"' ∈ u := by
        by_contra hmem
        exact hcond.2 (by rw [List.takeWhile_eq_self_iff.mpr (ne_of_not_mem hmem)])
      obtain ⟨path, rest, rfl, hpath⟩ := List.eq_append_cons_of_mem hquote
      rw [takeWhile_ne hpath] at hcond ⊢
      exact ⟨ws, rest, hne, hws, hline, hcond.1, hpath⟩
  · rintro ⟨ws, rest, hne, hws, hline, hpath, hquote⟩
    have hkeyword : afterKeyword? "import".toList line.trimStart =
        some ('"' :: (path ++ '"' :: rest)) := by
      refine afterKeyword?_eq_some_iff.mpr ⟨ws, hne, hws, hline, ?_⟩
      intro c hc
      cases hc
      decide
    have hafter : after? ['"'] ('"' :: (path ++ '"' :: rest)) = some (path ++ '"' :: rest) :=
      after?_append ['"'] _
    simp only [single?, hkeyword, hafter, Option.bind_eq_bind, Option.bind_some,
      takeWhile_ne hquote]
    simp [hpath]

theorem head?_of_opensBlock {line : Text} (h : opensBlock line = true) :
    line.trimStart.head? = some 'i' := by
  obtain ⟨_, _, _, hline, _⟩ := opensBlock_iff.mp h
  rw [hline]
  rfl

theorem head?_of_single? {line path : Text} (h : single? line = some path) :
    line.trimStart.head? = some 'i' := by
  obtain ⟨_, _, _, _, hline, _⟩ := single?_eq_some_iff.mp h
  rw [hline]
  rfl

/-- The first character after the keyword and its blanks is a quote, and so no parenthesis. -/
theorem opensBlock_of_single? {line path : Text} (h : single? line = some path) :
    opensBlock line = false := by
  by_contra hopen
  obtain ⟨ws, _, _, hws, hline, _⟩ := single?_eq_some_iff.mp h
  obtain ⟨vs, _, hvs, hsame, _⟩ := opensBlock_iff.mp (by simpa using hopen)
  have hrest := congrArg trimStart (List.append_cancel_left (hline.symm.trans hsame))
  rw [trimStart_append hws, trimStart_append hvs, trimStart_cons (by decide),
    trimStart_cons (by decide)] at hrest
  exact absurd (List.cons.inj hrest).1 (by decide)

end Import

/-- What a line is outside of import blocks. -/
inductive LineKind
  | clause (name : Text)
  | opener
  | single (path : Text)
  | code
  deriving DecidableEq

namespace LineKind

def ofLine (line : Text) : LineKind :=
  match Package.name? line with
  | some name => .clause name
  | none =>
    if Import.opensBlock line then .opener
    else match Import.single? line with
      | some path => .single path
      | none => .code

/-- A line is of a kind if it matches the pattern of that kind, and is code if it matches none. -/
inductive Of (line : Text) : LineKind → Prop
  | clause {name} : Package.name? line = some name → Of line (.clause name)
  | opener : Import.opensBlock line = true → Of line .opener
  | single {path} : Import.single? line = some path → Of line (.single path)
  | code : Package.name? line = none → Import.opensBlock line = false →
      Import.single? line = none → Of line .code

theorem of_ofLine (line : Text) : Of line (ofLine line) := by
  unfold ofLine
  split
  · exact .clause ‹_›
  · split
    · exact .opener ‹_›
    · rename_i hopen
      split
      · exact .single ‹_›
      · exact .code ‹_› (by simpa using hopen) ‹_›

/-- The patterns exclude each other: every line is of exactly one kind. -/
theorem of_iff {line : Text} {kind : LineKind} : Of line kind ↔ ofLine line = kind := by
  constructor
  · intro h
    cases h with
    | clause h => simp [ofLine, h]
    | opener h =>
      have hname : Package.name? line = none :=
        Package.name?_eq_none_of_head? (by rw [Import.head?_of_opensBlock h]; decide)
      simp [ofLine, hname, h]
    | single h =>
      have hname : Package.name? line = none :=
        Package.name?_eq_none_of_head? (by rw [Import.head?_of_single? h]; decide)
      simp [ofLine, hname, Import.opensBlock_of_single? h, h]
    | code hname hopen hsingle => simp [ofLine, hname, hopen, hsingle]
  · rintro rfl
    exact of_ofLine line

theorem of_code_of_head? {line : Text} (hp : line.trimStart.head? ≠ some 'p')
    (hi : line.trimStart.head? ≠ some 'i') : Of line .code := by
  refine .code (Package.name?_eq_none_of_head? hp) ?_ ?_
  · by_contra hopen
    exact hi (Import.head?_of_opensBlock (by simpa using hopen))
  · cases hsingle : Import.single? line with
    | none => rfl
    | some path => exact absurd (Import.head?_of_single? hsingle) hi

end LineKind

namespace Item

/-- The items of a file are found by the kind of its first line. -/
theorem ofLines_cons (line : Text) (rest : List Text) :
    ofLines (line :: rest) =
      match LineKind.ofLine line with
      | .clause name => .clause name :: ofLines rest
      | .opener =>
        .imports ((rest.takeWhile (!Import.closesBlock ·)).filterMap Import.entryPath?) ::
          ofLines ((rest.dropWhile (!Import.closesBlock ·)).drop 1)
      | .single path => .imports [path] :: ofLines rest
      | .code => .code line :: ofLines rest := by
  rw [ofLines, LineKind.ofLine]
  cases Package.name? line with
  | some name => rfl
  | none =>
    cases hopen : Import.opensBlock line with
    | true => rfl
    | false => cases hsingle : Import.single? line <;> simp [ofLine, hsingle]

theorem ofLines_cons_of_code {line : Text} (h : LineKind.Of line .code) (rest : List Text) :
    ofLines (line :: rest) = .code line :: ofLines rest := by
  rw [ofLines_cons, LineKind.of_iff.mp h]

end Item
end SourceMerge
