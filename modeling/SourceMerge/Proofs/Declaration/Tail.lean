import SourceMerge.Proofs.Declaration.LineKind
import SourceMerge.Proofs.Declaration.NamespaceLine

/-! What follows a declaration on its line, which is read up to the declaration's own end: a
semicolon, a closing quote, a name, or the brace that opens a block. -/
namespace SourceMerge
open Text Braces

/-- A text from its first character on that is neither blank nor in a comment. -/
def Text.codeStart : Text → Text
  | [] => []
  | '/' :: '/' :: _ => []
  | '/' :: '*' :: t => codeStart (afterBlockComment t)
  | c :: t => if isBlank c then codeStart t else c :: t
termination_by t => t.length
decreasing_by
  · have := length_afterBlockComment_le t; simp; omega
  · simp

theorem Text.codeStart_suffix (t : Text) : codeStart t <:+ t := by
  fun_induction codeStart t with
  | case1 => exact List.suffix_rfl
  | case2 t => exact List.nil_suffix
  | case3 t ih => exact ih.trans ((afterBlockComment_suffix t).trans ⟨['/', '*'], rfl⟩)
  | case4 c t _ _ _ ih => exact ih.trans (List.suffix_cons c t)
  | case5 c t => exact List.suffix_rfl

/-- What follows a mark that is the next character of code, or the whole text if another one is. -/
def Text.past (mark : Char) (t : Text) : Text :=
  match codeStart t with
  | [] => t
  | c :: rest => if c = mark then rest else t

theorem Text.past_suffix (mark : Char) (t : Text) : past mark t <:+ t := by
  unfold past
  split
  · exact List.suffix_rfl
  · rename_i c rest h
    split
    · have hsuffix := codeStart_suffix t
      rw [h] at hsuffix
      exact (List.suffix_cons c rest).trans hsuffix
    · exact List.suffix_rfl

/-- A line is read up to the end of a keyword and the blanks after it in the same way whatever
follows them, if it begins with the same character. -/
theorem Text.exists_front {word line rest : Text}
    (hword : ∀ t : Text, trimStart (word ++ t) = word ++ t)
    (h : afterKeyword? word line.trimStart = some rest) :
    ∃ front, line = front ++ rest ∧ (∀ c, isBlank c = false → c ∉ word → c ∉ front) ∧
      ∀ rest' : Text, rest'.head? = rest.head? →
        afterKeyword? word (front ++ rest').trimStart = some rest' := by
  obtain ⟨ws, hne, hws, ht, hrest⟩ := afterKeyword?_eq_some_iff.mp h
  obtain ⟨a, ha, hline⟩ := exists_trimStart line
  rw [ht] at hline
  refine ⟨a ++ (word ++ ws), by simpa using hline, ?_, fun rest' hhead => ?_⟩
  · intro c hc hmem
    simp [ha.not_mem hc, hws.not_mem hc, hmem]
  · have htrim : trimStart (a ++ (word ++ ws) ++ rest') = word ++ (ws ++ rest') := by
      rw [List.append_assoc, trimStart_append ha, List.append_assoc, hword]
    rw [htrim]
    exact afterKeyword?_eq_some_iff.mpr ⟨ws, hne, hws, rfl, hhead ▸ hrest⟩

theorem Text.head?_append_cons (s : Text) (c : Char) (t t' : Text) :
    (s ++ c :: t).head? = (s ++ c :: t').head? := by
  cases s <;> rfl

namespace Using

/-- The clause of a using declaration that a text begins with, and what follows its semicolon. -/
def cut? (t : Text) : Option (Text × Text) :=
  (any? t).map fun clause => (clause, (t.dropWhile (· != ';')).tail)

/-- Whatever follows the semicolon, the clause is read. -/
theorem exists_clauseEnd {t clause : Text} (h : clause? t = some clause) :
    ∃ region tail, ';' ∉ region ∧ t = region ++ ';' :: tail ∧
      ∀ tail', clause? (region ++ ';' :: tail') = some clause := by
  obtain ⟨region, tail, ht, hregion, hform⟩ := clause?_eq_some_iff.mp h
  exact ⟨region, tail, hregion, ht, fun tail' =>
    clause?_eq_some_iff.mpr ⟨region, tail', rfl, hregion, hform⟩⟩

theorem exists_own_of_local? {line clause : Text} (h : local? line = some clause) :
    ∃ own tail, ';' ∉ own ∧ line = own ++ ';' :: tail ∧
      ∀ tail', local? (own ++ ';' :: tail') = some clause := by
  obtain ⟨rest, hrest, hclause⟩ := Option.bind_eq_some_iff.mp h
  obtain ⟨region, tail, hregion, rfl, hread⟩ := exists_clauseEnd hclause
  obtain ⟨front, rfl, hfront, hkeyword⟩ := exists_front (fun _ => rfl) hrest
  refine ⟨front ++ region, tail, ?_, by simp, fun tail' => ?_⟩
  · simp [hregion, hfront ';' (by decide) (by decide)]
  · rw [List.append_assoc, local?, hkeyword _ (head?_append_cons region ';' tail' tail)]
    exact hread tail'

theorem exists_own_of_global? {line clause : Text} (h : global? line = some clause) :
    ∃ own tail, ';' ∉ own ∧ line = own ++ ';' :: tail ∧
      ∀ tail', global? (own ++ ';' :: tail') = some clause := by
  obtain ⟨mid, hmid, h⟩ := Option.bind_eq_some_iff.mp h
  obtain ⟨rest, hrest, hclause⟩ := Option.bind_eq_some_iff.mp h
  obtain ⟨region, tail, hregion, rfl, hread⟩ := exists_clauseEnd hclause
  obtain ⟨front, rfl, hfront, hkeyword⟩ := exists_front (fun _ => rfl) hmid
  obtain ⟨ws, hne, hws, rfl, hhead⟩ := afterKeyword?_eq_some_iff.mp hrest
  refine ⟨front ++ ("using".toList ++ (ws ++ region)), tail, ?_, by simp, fun tail' => ?_⟩
  · have hblank : ';' ∉ ws := hws.not_mem (by decide)
    simp [hregion, hfront ';' (by decide) (by decide), hblank]
  · have husing : afterKeyword? "using".toList
        ("using".toList ++ (ws ++ (region ++ ';' :: tail'))) = some (region ++ ';' :: tail') :=
      afterKeyword?_eq_some_iff.mpr
        ⟨ws, hne, hws, rfl, head?_append_cons region ';' tail' tail ▸ hhead⟩
    have hglobal := hkeyword ("using".toList ++ (ws ++ (region ++ ';' :: tail'))) rfl
    simp only [List.append_assoc, global?, hglobal, Option.bind_eq_bind, Option.bind_some]
    rw [husing]
    exact hread tail'

/-- The clause of a using declaration is read whatever follows its semicolon. -/
theorem exists_own {line clause tail : Text} (h : cut? line = some (clause, tail)) :
    ∃ own, line = own ++ tail ∧ ∀ tail', any? (own ++ tail') = some clause := by
  obtain ⟨c, hc, hcut⟩ := Option.map_eq_some_iff.mp h
  obtain ⟨rfl, rfl⟩ := Prod.mk.inj hcut
  have hown : ∃ own tail, ';' ∉ own ∧ line = own ++ ';' :: tail ∧
      ∀ tail', any? (own ++ ';' :: tail') = some c := by
    rcases any?_eq_some_iff.mp hc with hc | ⟨_, hc⟩
    · obtain ⟨own, tail, hmem, hline, hread⟩ := exists_own_of_local? hc
      exact ⟨own, tail, hmem, hline, fun tail' => any?_eq_some_iff.mpr (.inl (hread tail'))⟩
    · obtain ⟨own, tail, hmem, hline, hread⟩ := exists_own_of_global? hc
      exact ⟨own, tail, hmem, hline, fun tail' => any?_of_global? (hread tail')⟩
  obtain ⟨own, tail, hmem, rfl, hread⟩ := hown
  refine ⟨own ++ [';'], ?_, fun tail' => ?_⟩
  · rw [dropWhile_ne hmem]
    simp
  · rw [List.append_assoc]
    exact hread tail'

end Using

namespace Namespace

/-- What follows a namespace after its name: what stands behind its semicolon, or behind its brace,
or behind both of its braces if it is closed at once. -/
def pastOpening (rest : Text) : Text :=
  match codeStart rest with
  | '{' :: t => past '}' t
  | _ => past ';' rest

theorem pastOpening_suffix (rest : Text) : pastOpening rest <:+ rest := by
  unfold pastOpening
  split
  · rename_i t h
    have hsuffix := codeStart_suffix rest
    rw [h] at hsuffix
    exact ((past_suffix '}' t).trans (List.suffix_cons '{' t)).trans hsuffix
  · exact past_suffix ';' rest

/-- The namespace that a text begins with, and what follows it. -/
def cut? (t : Text) : Option (Namespace × Text) := do
  let n ← ofLine? t
  let (_, rest) ← declared? t
  some (n, pastOpening rest)

theorem exists_own {line tail : Text} {n : Namespace} (h : cut? line = some (n, tail)) :
    ofLine? line = some n ∧ ∃ own, line = own ++ tail ∧ 'n' ∈ own := by
  obtain ⟨m, hm, h⟩ := Option.bind_eq_some_iff.mp h
  obtain ⟨a, ws, rest, _, _, hline, hdeclared⟩ := exists_line hm
  rw [hdeclared] at h
  obtain ⟨rfl, rfl⟩ := Prod.mk.inj (Option.some.inj h)
  obtain ⟨mid, hmid⟩ := pastOpening_suffix rest
  refine ⟨hm, a ++ ("namespace".toList ++ (ws ++ (m.name ++ mid))), ?_, by simp⟩
  rw [hline]
  simp [hmid]

end Namespace

namespace Package

/-- The name in the package clause that a text begins with, and what follows it. -/
def cut? (t : Text) : Option (Text × Text) := do
  let name ← name? t
  let rest ← afterKeyword? "package".toList t.trimStart
  some (name, past ';' (rest.dropWhile isWord))

theorem exists_own {line name tail : Text} (h : cut? line = some (name, tail)) :
    name? line = some name ∧ ∃ own, line = own ++ tail := by
  obtain ⟨word, hword, h⟩ := Option.bind_eq_some_iff.mp h
  obtain ⟨rest, hrest, h⟩ := Option.bind_eq_some_iff.mp h
  obtain ⟨rfl, rfl⟩ := Prod.mk.inj (Option.some.inj h)
  obtain ⟨front, hline, _⟩ := exists_front (fun _ => rfl) hrest
  obtain ⟨own, hown⟩ : past ';' (rest.dropWhile isWord) <:+ line := by
    rw [hline]
    exact ((past_suffix ';' _).trans (List.dropWhile_suffix isWord)).trans
      (List.suffix_append front rest)
  exact ⟨hword, own, hown.symm⟩

end Package

namespace Import

/-- The path of the single import that a text begins with, and what follows it. -/
def cut? (t : Text) : Option (Text × Text) :=
  (single? t).map fun path =>
    (path, past ';' ((t.dropWhile (· != '"')).tail.dropWhile (· != '"')).tail)

/-- The path of an import is read whatever follows its closing quote. -/
theorem exists_own {line path tail : Text} (h : cut? line = some (path, tail)) :
    ∃ own, line = own ++ tail ∧ ∀ tail', single? (own ++ tail') = some path := by
  obtain ⟨p, hp, hcut⟩ := Option.map_eq_some_iff.mp h
  obtain ⟨rfl, rfl⟩ := Prod.mk.inj hcut
  obtain ⟨ws, rest, hne, hws, ht, hpath, hquote⟩ := single?_eq_some_iff.mp hp
  obtain ⟨a, ha, hline⟩ := exists_trimStart line
  rw [ht] at hline
  have hfront : '"' ∉ a ++ ("import".toList ++ ws) := by
    have hblank : '"' ∉ a ∧ '"' ∉ ws := ⟨ha.not_mem (by decide), hws.not_mem (by decide)⟩
    simp [hblank]
  have hsplit : line = a ++ ("import".toList ++ ws) ++ '"' :: (p ++ '"' :: rest) := by
    simpa using hline
  have htail : ((line.dropWhile (· != '"')).tail.dropWhile (· != '"')).tail = rest := by
    rw [hsplit, dropWhile_ne hfront, List.tail_cons, dropWhile_ne hquote, List.tail_cons]
  rw [htail]
  obtain ⟨mid, hmid⟩ := past_suffix ';' rest
  refine ⟨a ++ ("import".toList ++ (ws ++ '"' :: (p ++ '"' :: mid))), ?_, fun tail' => ?_⟩
  · rw [hline]
    simp [hmid]
  · refine single?_eq_some_iff.mpr ⟨ws, mid ++ tail', hne, hws, ?_, hpath, hquote⟩
    rw [List.append_assoc, trimStart_append ha]
    simp [trimStart_cons, isBlank]

end Import

/-- What follows the declaration that a line of a file with namespaces begins with. -/
def Unwrap.tail? (line : Text) : Option Text :=
  (Using.cut? line).map Prod.snd <|> (Namespace.cut? line).map Prod.snd

/-- What follows the declaration that a line of a file with packages begins with. -/
def LineKind.tail? (line : Text) : Option Text :=
  (Package.cut? line).map Prod.snd <|> (Import.cut? line).map Prod.snd

/-- Every piece of code in a text is in a line that is kept, or is a declaration that is gathered. -/
inductive Retained (cut? : Text → Option (Text × Text)) (gathered kept : List Text) : Text → Prop
  | empty {t} : codeStart t = [] → Retained cut? gathered kept t
  | kept {t line} : line ∈ kept → codeStart t <:+: line → Retained cut? gathered kept t
  | gathered {t item rest} : cut? (codeStart t) = some (item, rest) → item.trim ∈ gathered →
      Retained cut? gathered kept rest → Retained cut? gathered kept t

/-- A line that is dropped for a using declaration or a namespace, with what follows it. -/
theorem Unwrap.exists_tail {line : Text}
    (h : (Using.any? line).isSome ∨ (Namespace.ofLine? line).isSome) :
    ∃ own tail, line = own ++ tail ∧ tail? line = some tail ∧
      ((∃ clause, ∀ tail', Using.any? (own ++ tail') = some clause) ∨
        (Namespace.ofLine? line).isSome ∧ 'n' ∈ own) := by
  cases hu : Using.any? line with
  | some clause =>
    have hcut : Using.cut? line = some (clause, (line.dropWhile (· != ';')).tail) := by
      rw [Using.cut?, hu]
      rfl
    obtain ⟨own, hline, hread⟩ := Using.exists_own hcut
    exact ⟨own, _, hline, by rw [tail?, hcut]; rfl, .inl ⟨clause, hread⟩⟩
  | none =>
    obtain ⟨n, hn⟩ := Option.isSome_iff_exists.mp (h.resolve_left (by simp [hu]))
    obtain ⟨rest, hdeclared⟩ := Namespace.exists_declared? hn
    have hcut : Namespace.cut? line = some (n, Namespace.pastOpening rest) := by
      simp [Namespace.cut?, hn, hdeclared]
    have hnone : Using.cut? line = none := by
      rw [Using.cut?, hu]
      rfl
    obtain ⟨_, own, hline, hmem⟩ := Namespace.exists_own hcut
    exact ⟨own, _, hline, by rw [tail?, hnone, hcut]; rfl, .inr ⟨by simp [hn], hmem⟩⟩

/-- A line that is dropped for a package clause or a single import, with what follows it. -/
theorem LineKind.exists_tail {line : Text}
    (h : (Package.name? line).isSome ∨ (Import.single? line).isSome) :
    ∃ own tail, line = own ++ tail ∧ tail? line = some tail ∧
      ((Package.name? line).isSome ∨
        ∃ path, ∀ tail', Import.single? (own ++ tail') = some path) := by
  cases hname : Package.name? line with
  | some name =>
    obtain ⟨rest, hkeyword, _⟩ := Package.name?_eq_some_iff.mp hname
    have hcut : Package.cut? line =
        some (name, past ';' ((name ++ rest).dropWhile isWord)) := by
      rw [Package.cut?, hname, hkeyword]
      rfl
    obtain ⟨_, own, hline⟩ := Package.exists_own hcut
    exact ⟨own, _, hline, by rw [tail?, hcut]; rfl, .inl rfl⟩
  | none =>
    obtain ⟨path, hpath⟩ := Option.isSome_iff_exists.mp (h.resolve_left (by simp [hname]))
    have hnone : Package.cut? line = none := by simp [Package.cut?, hname]
    obtain ⟨⟨_, tail⟩, hcut⟩ : ∃ found, Import.cut? line = some found := by
      rw [Import.cut?, hpath]
      exact ⟨_, rfl⟩
    obtain ⟨own, hline, hread⟩ := Import.exists_own hcut
    exact ⟨own, tail, hline, by rw [tail?, hnone, hcut]; rfl, .inr ⟨_, hread⟩⟩

end SourceMerge
