import Mathlib.Data.List.Basic
import SourceMerge.Declarations
import SourceMerge.Proofs.Declaration.UsingClause

/-! The grammar of using declarations. The reader commits itself to the first semicolon, and to static
as a modifier where a name follows it; it still accepts every text of the grammar and no other.
However a text is taken apart, the clause in it is the same but for the blanks at its end. -/
namespace SourceMerge.Using
open Text

/-- A name, or a name and what it is an alias for. -/
inductive IsNaming : Text → Prop
  | name {name : Text} (h : IsName name) : IsNaming name
  | aliased {name ws ws' target : Text} (h : IsName name) (hws : AllBlank ws) (hws' : AllBlank ws')
      (hne : target ≠ []) (hsemicolon : ';' ∉ target) :
      IsNaming (name ++ (ws ++ '=' :: (ws' ++ target)))

/-- The clause of a using declaration. -/
inductive IsClause : Text → Prop
  | plain {naming : Text} (h : IsNaming naming) : IsClause naming
  | ofStatic {ws naming : Text} (hne : ws ≠ []) (hws : AllBlank ws) (h : IsNaming naming) :
      IsClause ("static".toList ++ (ws ++ naming))

/-- The two kinds of using declarations. -/
inductive Kind
  | plain
  | global
  deriving DecidableEq

/-- The keywords of a kind, with the blanks in front of them and between them. -/
inductive IsOpening : Kind → Text → Prop
  | plain {a : Text} (ha : AllBlank a) : IsOpening .plain (a ++ "using".toList)
  | global {a ws : Text} (ha : AllBlank a) (hne : ws ≠ []) (hws : AllBlank ws) :
      IsOpening .global (a ++ ("global".toList ++ (ws ++ "using".toList)))

/-- A text begins with a using declaration of some kind and clause. -/
def Declares (kind : Kind) (t clause : Text) : Prop :=
  ∃ opening ws ws' rest, IsOpening kind opening ∧ ws ≠ [] ∧ AllBlank ws ∧ IsClause clause ∧
    AllBlank ws' ∧ t = opening ++ (ws ++ (clause ++ (ws' ++ ';' :: rest)))

/-- The reader of each kind. -/
def Kind.read? : Kind → Text → Option Text
  | .plain => local?
  | .global => global?

section Named
variable {r naming : Text}

theorem IsNaming.head?_eq (h : IsNaming naming) :
    naming ≠ [] ∧ ∀ c ∈ naming.head?, isBlank c = false := by
  cases h with
  | name h =>
    refine ⟨?_, h.head?_eq⟩
    obtain ⟨_, _⟩ := h
    exact List.cons_ne_nil _ _
  | aliased h =>
    have hhead := h.head?_eq
    obtain ⟨_, _⟩ := h
    exact ⟨List.cons_ne_nil _ _, hhead⟩

/-- An alias reaches up to the end of the region. -/
theorem isNaming_aliased (h : namedForm? r = some .aliased) (hsemicolon : ';' ∉ r) :
    IsNaming r := by
  obtain ⟨name, ws, target, hname, hws, hne, rfl⟩ := namedForm?_eq_aliased_iff.mp h
  have htarget : ';' ∉ target := fun hmem => hsemicolon (by simp [hmem])
  have hnaming : IsNaming (name ++ (ws ++ '=' :: ([] ++ target))) :=
    .aliased hname hws allBlank_nil hne htarget
  exact hnaming

/-- What is read as a name or an alias is one, with blanks behind it. -/
theorem namedForm?_isSome_iff (hsemicolon : ';' ∉ r) : (namedForm? r).isSome ↔
    ∃ naming ws, IsNaming naming ∧ AllBlank ws ∧ r = naming ++ ws := by
  constructor
  · intro h
    obtain ⟨form, hform⟩ := Option.isSome_iff_exists.mp h
    cases form with
    | name =>
      obtain ⟨name, ws, hname, hws, rfl⟩ := namedForm?_eq_name_iff.mp hform
      exact ⟨name, ws, .name hname, hws, rfl⟩
    | aliased =>
      exact ⟨r, [], isNaming_aliased hform hsemicolon, allBlank_nil, (List.append_nil r).symm⟩
  · rintro ⟨naming, ws, hnaming, hws, rfl⟩
    apply Option.isSome_iff_exists.mpr
    cases hnaming with
    | name h => exact ⟨.name, namedForm?_eq_name_iff.mpr ⟨_, ws, h, hws, rfl⟩⟩
    | @aliased name vs vs' target h hvs hvs' hne _ =>
      exact ⟨.aliased, namedForm?_eq_aliased_iff.mpr ⟨name, vs, vs' ++ (target ++ ws), h, hvs,
        by simp [hne], by simp⟩⟩

/-- A plain name ends where the blanks behind it are trimmed. -/
theorem isNaming_trimEnd (h : namedForm? r = some .name) : IsNaming (trimEnd r) := by
  obtain ⟨c, hmem, hc⟩ := exists_of_namedForm? h
  obtain ⟨name, ws, hname, hws, hcut⟩ :=
    namedForm?_eq_name_iff.mp (namedForm?_of_isPrefix h (trimEnd_isPrefix r)
      (List.ne_nil_of_mem (mem_trimEnd hmem hc)))
  have hnil : ws = [] := by
    by_contra hne
    have hlast := getLast?_trimEnd r (ws.getLast hne)
    rw [hcut, List.getLast?_append_of_ne_nil _ hne, List.getLast?_eq_some_getLast hne,
      hws _ (List.getLast_mem hne)] at hlast
    exact absurd (hlast rfl) (by decide)
  rw [hcut, hnil, List.append_nil]
  exact .name hname

end Named

section Clauses
variable {region rest t naming clause : Text}

theorem IsClause.head?_eq (h : IsClause clause) :
    clause ≠ [] ∧ ∀ c ∈ clause.head?, isBlank c = false := by
  cases h with
  | plain h => exact h.head?_eq
  | ofStatic _ _ _ =>
    refine ⟨List.cons_ne_nil _ _, fun c hc => ?_⟩
    cases hc
    decide

theorem IsNaming.semicolon_not_mem (h : IsNaming naming) : ';' ∉ naming := by
  have hblank : isBlank ';' = false := by decide
  have hname {name : Text} (h : IsName name) : ';' ∉ name := h.not_mem (by decide) (by decide)
  cases h with
  | name h => exact hname h
  | aliased h hws hws' _ htarget =>
    simp [hname h, hws.not_mem hblank, hws'.not_mem hblank, htarget]

theorem IsClause.semicolon_not_mem (h : IsClause clause) : ';' ∉ clause := by
  cases h with
  | plain h => exact h.semicolon_not_mem
  | ofStatic _ hws h => simp [h.semicolon_not_mem, hws.not_mem (c := ';') (by decide)]

/-- What stands before the first semicolon is accepted if it is a clause with blanks behind it. -/
theorem form?_isSome_iff (hsemicolon : ';' ∉ region) : (form? region).isSome ↔
    ∃ clause ws, IsClause clause ∧ AllBlank ws ∧ region = clause ++ ws := by
  rw [form?_eq, Option.isSome_or, Bool.or_eq_true, namedForm?_isSome_iff hsemicolon,
    Option.isSome_bind, Option.any_eq_true]
  constructor
  · rintro (⟨r, hkeyword, hform⟩ | ⟨naming, ws, hnaming, hws, rfl⟩)
    · obtain ⟨vs, hne, hvs, rfl, _⟩ := afterKeyword?_eq_some_iff.mp hkeyword
      obtain ⟨naming, ws, hnaming, hws, rfl⟩ :=
        (namedForm?_isSome_iff fun hmem => hsemicolon (by simp [hmem])).mp hform
      exact ⟨_, ws, .ofStatic hne hvs hnaming, hws, by simp⟩
    · exact ⟨naming, ws, .plain hnaming, hws, rfl⟩
  · rintro ⟨clause, ws, hclause, hws, rfl⟩
    cases hclause with
    | plain h => exact .inr ⟨_, ws, h, hws, rfl⟩
    | @ofStatic vs naming hne hvs h =>
      refine .inl ⟨naming ++ ws, ?_, ?_⟩
      · refine afterKeyword?_eq_some_iff.mpr ⟨vs, hne, hvs, by simp, fun c hc => ?_⟩
        rw [List.head?_append_of_ne_nil _ h.head?_eq.1] at hc
        exact h.head?_eq.2 c hc
      · refine (namedForm?_isSome_iff fun hmem => hsemicolon ?_).mpr ⟨naming, ws, h, hws, rfl⟩
        rw [List.append_assoc, List.append_assoc]
        exact List.mem_append_right _ (List.mem_append_right _ hmem)

/-- A clause that ends with a name ends where the blanks behind it are trimmed. -/
theorem isClause_trimEnd (h : form? region = some .name) : IsClause (trimEnd region) := by
  rw [form?_eq, Option.or_eq_some_iff] at h
  rcases h with h | ⟨_, h⟩
  · obtain ⟨r, hkeyword, hform⟩ := Option.bind_eq_some_iff.mp h
    obtain ⟨ws, hne, hws, rfl, _⟩ := afterKeyword?_eq_some_iff.mp hkeyword
    obtain ⟨c, hmem, hc⟩ := exists_of_namedForm? hform
    have hblank : ¬ AllBlank r := fun hr => hr.not_mem hc hmem
    rw [← List.append_assoc, trimEnd_append hblank, List.append_assoc]
    exact .ofStatic hne hws (isNaming_trimEnd hform)
  · exact .plain (isNaming_trimEnd h)

/-- A clause that ends with a target is all that stands before the semicolon. -/
theorem isClause_aliased (h : form? region = some .aliased) (hsemicolon : ';' ∉ region) :
    IsClause region := by
  rw [form?_eq, Option.or_eq_some_iff] at h
  rcases h with h | ⟨_, h⟩
  · obtain ⟨r, hkeyword, hform⟩ := Option.bind_eq_some_iff.mp h
    obtain ⟨ws, hne, hws, rfl, _⟩ := afterKeyword?_eq_some_iff.mp hkeyword
    exact .ofStatic hne hws (isNaming_aliased hform fun hmem => hsemicolon (by simp [hmem]))
  · exact .plain (isNaming_aliased h hsemicolon)

/-- What is read as a clause is one, and only blanks are left before the semicolon. -/
theorem exists_of_clause? (h : clause? t = some clause) :
    IsClause clause ∧ ∃ ws rest, AllBlank ws ∧ t = clause ++ (ws ++ ';' :: rest) := by
  obtain ⟨region, rest, rfl, hsemicolon, ⟨hform, rfl⟩ | ⟨hform, rfl⟩⟩ := clause?_eq_some_iff.mp h
  · obtain ⟨ws, hws, hregion⟩ := exists_trimEnd region
    refine ⟨isClause_trimEnd hform, ws, rest, hws, ?_⟩
    rw [← List.append_assoc, ← hregion]
  · exact ⟨isClause_aliased hform hsemicolon, [], rest, allBlank_nil, rfl⟩

theorem clause?_isSome (h : IsClause clause) {ws : Text} (hws : AllBlank ws) (rest : Text) :
    (clause? (clause ++ (ws ++ ';' :: rest))).isSome := by
  have hsemicolon : ';' ∉ clause ++ ws := by
    simp [h.semicolon_not_mem, hws.not_mem (c := ';') (by decide)]
  obtain ⟨form, hform⟩ := Option.isSome_iff_exists.mp
    ((form?_isSome_iff hsemicolon).mpr ⟨clause, ws, h, hws, rfl⟩)
  rw [← List.append_assoc, Option.isSome_iff_exists]
  cases form with
  | name => exact ⟨_, clause?_eq_some_iff.mpr ⟨_, rest, rfl, hsemicolon, .inl ⟨hform, rfl⟩⟩⟩
  | aliased => exact ⟨_, clause?_eq_some_iff.mpr ⟨_, rest, rfl, hsemicolon, .inr ⟨hform, rfl⟩⟩⟩

end Clauses

section Openings
variable {kind : Kind} {t clause opening opening' rest rest' : Text}

/-- A declaration is read behind its keywords and the blanks after them. -/
theorem Kind.read?_eq_some_iff : kind.read? t = some clause ↔
    ∃ opening ws rest, IsOpening kind opening ∧ ws ≠ [] ∧ AllBlank ws ∧
      (∀ c ∈ rest.head?, isBlank c = false) ∧ t = opening ++ (ws ++ rest) ∧
      clause? rest = some clause := by
  obtain ⟨a, ha, ht⟩ := exists_trimStart t
  cases kind with
  | plain =>
    rw [Kind.read?, local?, Option.bind_eq_some_iff]
    constructor
    · rintro ⟨rest, hkeyword, hclause⟩
      obtain ⟨ws, hne, hws, htrim, hhead⟩ := afterKeyword?_eq_some_iff.mp hkeyword
      refine ⟨_, ws, rest, .plain ha, hne, hws, hhead, ?_, hclause⟩
      rw [List.append_assoc, ← htrim, ← ht]
    · rintro ⟨_, ws, rest, ⟨ha⟩, hne, hws, hhead, rfl, hclause⟩
      refine ⟨rest, afterKeyword?_eq_some_iff.mpr ⟨ws, hne, hws, ?_, hhead⟩, hclause⟩
      rw [List.append_assoc, trimStart_keyword ha (by decide)]
  | global =>
    rw [Kind.read?, global?, Option.bind_eq_bind, Option.bind_eq_some_iff]
    constructor
    · rintro ⟨mid, hglobal, h⟩
      obtain ⟨rest, husing, hclause⟩ := Option.bind_eq_some_iff.mp h
      obtain ⟨vs, hne, hvs, htrim, _⟩ := afterKeyword?_eq_some_iff.mp hglobal
      obtain ⟨ws, hne', hws, rfl, hhead⟩ := afterKeyword?_eq_some_iff.mp husing
      refine ⟨_, ws, rest, .global ha hne hvs, hne', hws, hhead, ?_, hclause⟩
      rw [List.append_assoc, List.append_assoc, List.append_assoc, ← htrim, ← ht]
    · rintro ⟨_, ws, rest, _ | ⟨ha, hne, hvs⟩, hne', hws, hhead, rfl, hclause⟩
      have husing : afterKeyword? "using".toList ("using".toList ++ (ws ++ rest)) = some rest :=
        afterKeyword?_eq_some_iff.mpr ⟨ws, hne', hws, rfl, hhead⟩
      refine ⟨_, afterKeyword?_eq_some_iff.mpr ⟨_, hne, hvs, ?_, head?_keyword (by decide) _⟩,
        Option.bind_eq_some_iff.mpr ⟨rest, husing, hclause⟩⟩
      rw [List.append_assoc, List.append_assoc, List.append_assoc,
        trimStart_keyword ha (by decide)]

/-- The keywords at the front of a text end at one place. -/
theorem IsOpening.unique (h : IsOpening kind opening) (h' : IsOpening kind opening')
    (heq : opening ++ rest = opening' ++ rest') : opening = opening' ∧ rest = rest' := by
  have husing (rest : Text) : ∀ c ∈ ("using".toList ++ rest).head?, isBlank c = false :=
    head?_keyword (by decide) rest
  have hglobal (rest : Text) : ∀ c ∈ ("global".toList ++ rest).head?, isBlank c = false :=
    head?_keyword (by decide) rest
  cases h with
  | plain ha =>
    cases h' with
    | plain ha' =>
      rw [List.append_assoc, List.append_assoc] at heq
      obtain ⟨rfl, hrest⟩ := run_append_inj ha (husing _) ha' (husing _) heq
      exact ⟨rfl, List.append_cancel_left hrest⟩
  | global ha _ hws =>
    cases h' with
    | global ha' _ hws' =>
      simp only [List.append_assoc] at heq
      obtain ⟨rfl, hbehind⟩ := run_append_inj ha (hglobal _) ha' (hglobal _) heq
      obtain ⟨rfl, hrest⟩ := run_append_inj hws (husing _) hws' (husing _)
        (List.append_cancel_left hbehind)
      exact ⟨rfl, List.append_cancel_left hrest⟩

theorem IsOpening.semicolon_not_mem (h : IsOpening kind opening) : ';' ∉ opening := by
  have hblank : isBlank ';' = false := by decide
  cases h with
  | plain ha => simp [ha.not_mem hblank]
  | global ha _ hws => simp [ha.not_mem hblank, hws.not_mem hblank]

end Openings

section Declared
variable {kind : Kind} {t clause clause' opening mid rest : Text}

/-- What is read declares a clause, and is that clause. -/
theorem Declares.of_read? (h : kind.read? t = some clause) : Declares kind t clause := by
  obtain ⟨opening, ws, rest, hopening, hne, hws, _, rfl, hread⟩ := Kind.read?_eq_some_iff.mp h
  obtain ⟨hclause, ws', rest, hws', rfl⟩ := exists_of_clause? hread
  exact ⟨opening, ws, ws', rest, hopening, hne, hws, hclause, hws', rfl⟩

/-- What declares a clause is read. -/
theorem Declares.read?_isSome (h : Declares kind t clause) : (kind.read? t).isSome := by
  obtain ⟨opening, ws, ws', rest, hopening, hne, hws, hclause, hws', rfl⟩ := h
  obtain ⟨captured, hcaptured⟩ :=
    Option.isSome_iff_exists.mp (clause?_isSome hclause hws' rest)
  refine Option.isSome_iff_exists.mpr ⟨captured, Kind.read?_eq_some_iff.mpr
    ⟨opening, ws, _, hopening, hne, hws, fun c hc => ?_, rfl, hcaptured⟩⟩
  rw [List.head?_append_of_ne_nil _ hclause.head?_eq.1] at hc
  exact hclause.head?_eq.2 c hc

/-- The clause stands between the keywords and the first semicolon, with blanks around it. -/
theorem Declares.exists_between (h : Declares kind t clause) :
    ∃ opening mid rest, IsOpening kind opening ∧ t = opening ++ (mid ++ ';' :: rest) ∧
      ';' ∉ opening ++ mid ∧ clause.trim = mid.trim := by
  obtain ⟨opening, ws, ws', rest, hopening, _, hws, hclause, hws', rfl⟩ := h
  have hblank : isBlank ';' = false := by decide
  refine ⟨opening, ws ++ (clause ++ ws'), rest, hopening, by simp, ?_,
    (trim_padded hws hws' clause).symm⟩
  simp [hopening.semicolon_not_mem, hclause.semicolon_not_mem, hws.not_mem hblank,
    hws'.not_mem hblank]

theorem Declares.trim_eq (h : Declares kind t clause) (hopening : IsOpening kind opening)
    (ht : t = opening ++ (mid ++ ';' :: rest)) (hmid : ';' ∉ mid) : clause.trim = mid.trim := by
  obtain ⟨opening', mid', rest', hopening', ht', hmid', htrim⟩ := h.exists_between
  obtain ⟨_, hrest⟩ := hopening'.unique hopening (ht'.symm.trans ht)
  have hbetween : ';' ∉ mid' := fun hmem => hmid' (List.mem_append_right _ hmem)
  obtain ⟨rfl, _⟩ :=
    run_append_inj (ne_of_not_mem hbetween) (by simp) (ne_of_not_mem hmid) (by simp) hrest
  exact htrim

/-- All ways to take a declaration apart give one clause. -/
theorem Declares.trim_unique (h : Declares kind t clause) (h' : Declares kind t clause') :
    clause.trim = clause'.trim := by
  obtain ⟨opening, mid, rest, hopening, ht, hmid, htrim⟩ := h'.exists_between
  rw [h.trim_eq hopening ht fun hmem => hmid (List.mem_append_right _ hmem), htrim]

theorem Declares.trim_ne_nil (h : Declares kind t clause) : clause.trim ≠ [] := by
  obtain ⟨_, _, _, _, _, _, _, hclause, _⟩ := h
  obtain ⟨hne, hhead⟩ := hclause.head?_eq
  obtain ⟨c, clause, rfl⟩ := List.exists_cons_of_ne_nil hne
  exact Text.trim_ne_nil List.mem_cons_self (hhead c rfl)

/-- A clause that has been read is added to a set of declarations without the blanks around it. -/
theorem Declares.items_insert (h : Declares kind t clause) {captured : Text}
    (hcaptured : kind.read? t = some captured) (s : Declarations) :
    (s.insert captured).items =
      if clause.trim ∈ s.items then s.items else s.items ++ [clause.trim] := by
  rw [Declarations.items_insert, (Declares.of_read? hcaptured).trim_unique h]
  have hnew : s.isNew captured = true ↔ clause.trim ∉ s.items := by
    rw [Declarations.isNew_iff, (Declares.of_read? hcaptured).trim_unique h]
    exact and_iff_right h.trim_ne_nil
  by_cases hmem : clause.trim ∈ s.items
  · rw [if_pos hmem, if_neg fun hadd => hnew.mp hadd hmem]
  · rw [if_neg hmem, if_pos (hnew.mpr hmem)]

end Declared

theorem any?_eq_some_iff_read? {t clause : Text} :
    any? t = some clause ↔ ∃ kind : Kind, kind.read? t = some clause := by
  rw [any?_eq_some_iff]
  constructor
  · rintro (h | ⟨_, h⟩)
    · exact ⟨.plain, h⟩
    · exact ⟨.global, h⟩
  · rintro ⟨kind, h⟩
    cases kind with
    | plain => exact .inl h
    | global => exact .inr ⟨local?_eq_none_of_global? h, h⟩

/-- The readers of using declarations accept exactly the texts of the grammar, each kind its own. The
clause that is read is one of the grammar, and whichever way a text is taken apart, its clause is
what stands between the keywords and the first semicolon but for blanks. That text without the
blanks around it is what is declared. -/
theorem read?_grammar (t : Text) :
    (∀ kind : Kind, (kind.read? t).isSome ↔ ∃ clause, Declares kind t clause) ∧
      (∀ (kind : Kind) clause, kind.read? t = some clause → Declares kind t clause) ∧
      (∀ kind clause, Declares kind t clause → ∃ opening mid rest, IsOpening kind opening ∧
        t = opening ++ (mid ++ ';' :: rest) ∧ ';' ∉ opening ++ mid ∧ clause.trim = mid.trim) ∧
      (∀ kind clause clause', Declares kind t clause → Declares kind t clause' →
        clause.trim = clause'.trim) ∧
      (∀ kind clause captured, Declares kind t clause → kind.read? t = some captured →
        ∀ s : Declarations, (s.insert captured).items =
          if clause.trim ∈ s.items then s.items else s.items ++ [clause.trim]) ∧
      (∀ clause, any? t = some clause ↔ ∃ kind : Kind, kind.read? t = some clause) ∧
      ¬ ∀ kind : Kind, ∃ clause, Declares kind t clause := by
  refine ⟨fun kind => ⟨fun h => ?_, fun ⟨_, h⟩ => h.read?_isSome⟩,
    fun _ _ => Declares.of_read?, fun _ _ => Declares.exists_between,
    fun _ _ _ h => h.trim_unique, fun _ _ _ h => h.items_insert, fun _ => any?_eq_some_iff_read?,
    fun h => ?_⟩
  · obtain ⟨clause, hclause⟩ := Option.isSome_iff_exists.mp h
    exact ⟨clause, .of_read? hclause⟩
  · obtain ⟨_, hplain⟩ := h .plain
    obtain ⟨_, hglobal⟩ := h .global
    obtain ⟨clause, hread⟩ := Option.isSome_iff_exists.mp hglobal.read?_isSome
    have hnone : local? t = none := local?_eq_none_of_global? hread
    have hsome := hplain.read?_isSome
    rw [Kind.read?, hnone] at hsome
    contradiction

/-- An alias is read with the blanks behind its target, and declared without them. -/
theorem read?_grammar_alias :
    Kind.global.read? "global using A = b ; c;".toList = some "A = b ".toList ∧
      Declares .global "global using A = b ; c;".toList "A = b ".toList ∧
      (Declarations.empty.insert "A = b ".toList).items = ["A = b".toList] := by
  have hread : Kind.global.read? "global using A = b ; c;".toList = some "A = b ".toList := by
    decide
  obtain ⟨_, hdeclares, _, _, hitems, _⟩ := read?_grammar "global using A = b ; c;".toList
  have hclause := hdeclares .global _ hread
  exact ⟨hread, hclause, (hitems .global _ _ hclause hread Declarations.empty).trans (by decide)⟩

end SourceMerge.Using
