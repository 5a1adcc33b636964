import SourceMerge.Document.Render
import SourceMerge.Proofs.Declaration.Recognition
import SourceMerge.Proofs.Text.Runs

/-! The clause of a using declaration. A clause is printed without the blanks around it, and is read
back from the printed line as it was, unless it is an alias for nothing but blanks. -/
namespace SourceMerge

namespace Using
open Text

/-- An alias whose target is blank. -/
def IsBlankAlias (clause : Text) : Prop :=
  ∃ name target, '=' ∉ name ∧ clause = name ++ '=' :: target ∧ AllBlank target

theorem isBlankAlias_iff {clause : Text} :
    IsBlankAlias clause ↔ '=' ∈ clause ∧
      (clause.dropWhile (· != '=')).tail.all isBlank = true := by
  constructor
  · rintro ⟨name, target, hname, rfl, htarget⟩
    rw [dropWhile_ne hname]
    exact ⟨List.mem_append_right name List.mem_cons_self, List.all_eq_true.mpr htarget⟩
  · rintro ⟨hmem, htarget⟩
    obtain ⟨name, target, rfl, hname⟩ := List.eq_append_cons_of_mem hmem
    rw [dropWhile_ne hname] at htarget
    exact ⟨name, target, hname, rfl, List.all_eq_true.mp htarget⟩

instance : DecidablePred IsBlankAlias := fun _ => decidable_of_iff _ isBlankAlias_iff.symm

/-- A using declaration of either kind ends its keywords with a clause and a semicolon. -/
theorem exists_clause {line clause : Text} (h : any? line = some clause) :
    ∃ front rest, line = front ++ rest ∧ (∀ c ∈ rest.head?, isBlank c = false) ∧
      clause? rest = some clause := by
  obtain ⟨a, _, hline⟩ := exists_trimStart line
  rcases any?_eq_some_iff.mp h with h | ⟨_, h⟩
  · obtain ⟨rest, hrest, hclause⟩ := Option.bind_eq_some_iff.mp h
    obtain ⟨ws, _, _, ht, hhead⟩ := afterKeyword?_eq_some_iff.mp hrest
    refine ⟨a ++ ("using".toList ++ ws), rest, ?_, hhead, hclause⟩
    rw [List.append_assoc, List.append_assoc, ← ht, ← hline]
  · obtain ⟨mid, hmid, h⟩ := Option.bind_eq_some_iff.mp h
    obtain ⟨rest, hrest, hclause⟩ := Option.bind_eq_some_iff.mp h
    obtain ⟨vs, _, _, hs, _⟩ := afterKeyword?_eq_some_iff.mp hmid
    obtain ⟨ws, _, _, ht, hhead⟩ := afterKeyword?_eq_some_iff.mp hrest
    refine ⟨a ++ ("global".toList ++ (vs ++ ("using".toList ++ ws))), rest, ?_, hhead, hclause⟩
    rw [List.append_assoc, List.append_assoc, List.append_assoc, List.append_assoc, ← ht, ← hs,
      ← hline]

/-- A clause is what its form leaves of the text in front of the first semicolon. -/
theorem clause?_eq_some_iff {t clause : Text} :
    clause? t = some clause ↔ ∃ region rest, t = region ++ ';' :: rest ∧ ';' ∉ region ∧
      (form? region = some .name ∧ clause = trimEnd region ∨
        form? region = some .aliased ∧ clause = region) := by
  constructor
  · intro h
    by_cases hmem : ';' ∈ t
    · obtain ⟨region, rest, rfl, hregion⟩ := List.eq_append_cons_of_mem hmem
      refine ⟨region, rest, rfl, hregion, ?_⟩
      have hlength : region.length ≠ (region ++ ';' :: rest).length := by simp
      simp only [clause?, takeWhile_ne hregion, hlength, if_false] at h
      cases hform : form? region with
      | none => simp [hform] at h
      | some form =>
        cases form with
        | name => exact Or.inl ⟨rfl, by simpa [hform] using h.symm⟩
        | aliased => exact Or.inr ⟨rfl, by simpa [hform] using h.symm⟩
    · have hall : t.takeWhile (· != ';') = t :=
        List.takeWhile_eq_self_iff.mpr (ne_of_not_mem hmem)
      simp [clause?, hall] at h
  · rintro ⟨region, rest, rfl, hmem, h⟩
    have hlength : region.length ≠ (region ++ ';' :: rest).length := by simp
    simp only [clause?, takeWhile_ne hmem, hlength, if_false]
    rcases h with ⟨hform, rfl⟩ | ⟨hform, rfl⟩ <;> simp [hform]

theorem clause?_isPrefix {t clause : Text} (h : clause? t = some clause) : clause <+: t := by
  obtain ⟨region, rest, rfl, _, ⟨_, rfl⟩ | ⟨_, rfl⟩⟩ := clause?_eq_some_iff.mp h
  · exact (trimEnd_isPrefix region).trans (List.prefix_append region _)
  · exact List.prefix_append _ _

theorem mem_of_mem_clause {line clause : Text} {c : Char} (h : any? line = some clause)
    (hc : c ∈ clause) : c ∈ line := by
  obtain ⟨front, rest, rfl, _, hclause⟩ := exists_clause h
  exact List.mem_append_right front ((clause?_isPrefix hclause).subset hc)

theorem isBlank_of_isNameStart {c : Char} (h : isNameStart c = true) : isBlank c = false := by
  have halpha : c.isAlpha = (decide (65 ≤ c.val ∧ c.val ≤ 90) ||
      (decide (97 ≤ c.val) && decide (c.val ≤ 122))) := rfl
  simp only [isNameStart, halpha, Bool.or_eq_true, Bool.and_eq_true, decide_eq_true_eq, beq_iff_eq,
    UInt32.le_iff_toNat_le] at h
  rcases h with ((⟨hlow, hhigh⟩ | ⟨hlow, hhigh⟩) | rfl) | rfl
  · have hlow : 65 ≤ c.toNat := hlow
    have hhigh : c.toNat ≤ 90 := hhigh
    simp [isBlank]; omega
  · have hlow : 97 ≤ c.toNat := hlow
    have hhigh : c.toNat ≤ 122 := hhigh
    simp [isBlank]; omega
  · decide
  · decide

theorem exists_of_namedForm? {region : Text} {form : Form} (h : namedForm? region = some form) :
    ∃ c ∈ region, isBlank c = false := by
  cases region with
  | nil => contradiction
  | cons c t =>
    refine ⟨c, List.mem_cons_self, ?_⟩
    by_cases hc : isNameStart c = true
    · exact isBlank_of_isNameStart hc
    · simp [namedForm?, hc] at h

/-- An identifier, or several of them with dots and colons between. -/
inductive IsName : Text → Prop
  | intro {c : Char} {name : Text} (hstart : isNameStart c = true)
      (hname : ∀ d ∈ name, isNamePart d = true) : IsName (c :: name)

section Named
variable {r name : Text}

theorem IsName.head?_eq (h : IsName name) : ∀ c ∈ name.head?, isBlank c = false := by
  obtain ⟨hstart, _⟩ := h
  intro c hc
  cases hc
  exact isBlank_of_isNameStart hstart

/-- A plain name is a name and the blanks behind it. -/
theorem namedForm?_eq_name_iff : namedForm? r = some .name ↔
    ∃ name ws, IsName name ∧ AllBlank ws ∧ r = name ++ ws := by
  constructor
  · intro h
    cases r with
    | nil => contradiction
    | cons c t =>
      by_cases hc : isNameStart c = true
      · simp only [namedForm?, hc, if_true] at h
        have hblank : AllBlank (t.dropWhile isNamePart) := by
          rw [← trimStart_eq_nil]
          split at h
          · assumption
          · split at h <;> contradiction
          · contradiction
        refine ⟨c :: t.takeWhile isNamePart, t.dropWhile isNamePart,
          .intro hc fun d hd => List.mem_takeWhile_imp hd, hblank, ?_⟩
        rw [List.cons_append, List.takeWhile_append_dropWhile]
      · simp [namedForm?, hc] at h
  · rintro ⟨name, ws, ⟨hstart, hname⟩, hws, rfl⟩
    have hblank : AllBlank (ws.dropWhile isNamePart) := fun d hd =>
      hws d ((List.dropWhile_sublist _).subset hd)
    simp only [List.cons_append, namedForm?, hstart, if_true, List.dropWhile_append_of_pos hname,
      trimStart_eq_nil.mpr hblank]

/-- An alias is a name, an equals sign and a target. -/
theorem namedForm?_eq_aliased_iff : namedForm? r = some .aliased ↔
    ∃ name ws target, IsName name ∧ AllBlank ws ∧ target ≠ [] ∧
      r = name ++ (ws ++ '=' :: target) := by
  constructor
  · intro h
    cases r with
    | nil => contradiction
    | cons c t =>
      by_cases hc : isNameStart c = true
      · obtain ⟨ws, hws, hdrop⟩ := exists_trimStart (t.dropWhile isNamePart)
        simp only [namedForm?, hc, if_true] at h
        split at h
        · contradiction
        · rename_i target htarget
          have hne : target ≠ [] := by
            rintro rfl
            contradiction
          refine ⟨c :: t.takeWhile isNamePart, ws, target,
            .intro hc fun d hd => List.mem_takeWhile_imp hd, hws, hne, ?_⟩
          rw [← htarget, ← hdrop, List.cons_append, List.takeWhile_append_dropWhile]
        · contradiction
      · simp [namedForm?, hc] at h
  · rintro ⟨name, ws, target, ⟨hstart, hname⟩, hws, hne, rfl⟩
    -- blanks that count as parts of a name would be dropped with it, and change nothing
    obtain ⟨ws', hws', hdrop⟩ : ∃ ws', AllBlank ws' ∧
        (ws ++ '=' :: target).dropWhile isNamePart = ws' ++ '=' :: target := by
      refine ⟨ws.dropWhile isNamePart, fun d hd =>
        hws d ((List.dropWhile_sublist _).subset hd), ?_⟩
      rw [List.dropWhile_append]
      split
      · rename_i hempty
        rw [List.isEmpty_iff.mp hempty]
        exact List.dropWhile_cons_of_neg (by decide)
      · rfl
    have htrim : trimStart (ws' ++ '=' :: target) = '=' :: target := by
      rw [trimStart_append hws', trimStart_cons (by decide)]
    simp only [List.cons_append, namedForm?, hstart, if_true, List.dropWhile_append_of_pos hname,
      hdrop, htrim]
    simp [hne]

theorem IsName.not_mem (h : IsName name) {c : Char} (hstart : isNameStart c = false)
    (hpart : isNamePart c = false) : c ∉ name := by
  obtain ⟨hfirst, hname⟩ := h
  intro hmem
  rcases List.mem_cons.mp hmem with rfl | hmem
  · simp [hfirst] at hstart
  · simp [hname _ hmem] at hpart

theorem IsName.of_isPrefix (h : IsName name) (hr : r <+: name) (hne : r ≠ []) : IsName r := by
  obtain ⟨hfirst, hname⟩ := h
  cases r with
  | nil => contradiction
  | cons d r =>
    obtain ⟨rfl, hcut⟩ := List.cons_prefix_cons.mp hr
    exact .intro hfirst fun c hc => hname c (hcut.subset hc)

end Named

/-- A region that is a plain name stays one when it is cut short. -/
theorem namedForm?_of_isPrefix {r s : Text} (h : namedForm? r = some .name) (hs : s <+: r)
    (hne : s ≠ []) : namedForm? s = some .name := by
  obtain ⟨name, ws, hname, hws, rfl⟩ := namedForm?_eq_name_iff.mp h
  rw [namedForm?_eq_name_iff]
  rcases List.prefix_or_prefix_of_prefix hs (List.prefix_append name ws) with hcut | ⟨vs, rfl⟩
  · exact ⟨s, [], hname.of_isPrefix hcut hne, allBlank_nil, (List.append_nil s).symm⟩
  · have hcut := (List.prefix_append_right_inj name).mp hs
    exact ⟨name, vs, hname, fun c hc => hws c (hcut.subset hc), rfl⟩

/-- A region that is an alias stays one when its target is replaced. -/
theorem exists_target {r : Text} (h : namedForm? r = some .aliased) :
    ∃ front target, r = front ++ '=' :: target ∧ '=' ∉ front ∧
      ∀ other, other ≠ [] → namedForm? (front ++ '=' :: other) = some .aliased := by
  obtain ⟨name, ws, target, hname, hws, _, rfl⟩ := namedForm?_eq_aliased_iff.mp h
  refine ⟨name ++ ws, target, (List.append_assoc ..).symm, ?_, fun other hother => ?_⟩
  · rw [List.mem_append, not_or]
    exact ⟨hname.not_mem (by decide) (by decide), hws.not_mem (by decide)⟩
  · exact namedForm?_eq_aliased_iff.mpr
      ⟨name, ws, other, hname, hws, hother, List.append_assoc ..⟩

theorem namedForm?_trimEnd {r : Text} {form : Form} (h : namedForm? r = some form)
    (hr : ¬ IsBlankAlias r) : (namedForm? (trimEnd r)).isSome := by
  cases form with
  | name =>
    have hne : trimEnd r ≠ [] := by
      cases r with
      | nil => contradiction
      | cons c t =>
        have hc : isNameStart c = true := by
          by_contra hc
          simp [namedForm?, hc] at h
        intro hnil
        have hhead : (trimEnd (c :: t)).head? = some c := by
          apply head?_trimEnd
          intro d hd
          cases hd
          exact isBlank_of_isNameStart hc
        rw [hnil] at hhead
        contradiction
    rw [namedForm?_of_isPrefix h (trimEnd_isPrefix r) hne]
    rfl
  | aliased =>
    obtain ⟨front, target, rfl, hfront, hread⟩ := exists_target h
    have htarget : ¬ AllBlank target := fun hb => hr ⟨front, target, hfront, rfl, hb⟩
    have hnonblank : ¬ AllBlank ('=' :: target) := fun hb =>
      htarget fun c hc => hb c (List.mem_cons_of_mem '=' hc)
    have htrim : trimEnd (front ++ '=' :: target) = front ++ '=' :: trimEnd target := by
      rw [trimEnd_append hnonblank]
      exact congrArg (front ++ ·) (trimEnd_append htarget ['='])
    rw [htrim, hread]
    · rfl
    · intro hnil
      have hsplit := exists_trimEnd target
      rw [hnil] at hsplit
      obtain ⟨b, hb, rfl⟩ := hsplit
      exact htarget hb

theorem form?_eq (region : Text) :
    form? region =
      ((afterKeyword? "static".toList region).bind namedForm?).or (namedForm? region) := by
  rw [form?, Option.orElse_eq_orElse, Option.orElse_eq_or]

theorem exists_of_form? {region : Text} {form : Form} (h : form? region = some form) :
    ∃ c ∈ region, isBlank c = false := by
  rw [form?_eq, Option.or_eq_some_iff] at h
  rcases h with h | ⟨_, h⟩
  · obtain ⟨r, hkeyword, hform⟩ := Option.bind_eq_some_iff.mp h
    obtain ⟨ws, _, _, rfl, _⟩ := afterKeyword?_eq_some_iff.mp hkeyword
    obtain ⟨c, hmem, hc⟩ := exists_of_namedForm? hform
    exact ⟨c, by simp [hmem], hc⟩
  · exact exists_of_namedForm? h

/-- A region keeps a form when the blanks at its end are taken away. -/
theorem form?_trimEnd {region : Text} {form : Form} (h : form? region = some form)
    (hr : ¬ IsBlankAlias region) : (form? (trimEnd region)).isSome := by
  rw [form?_eq, Option.or_eq_some_iff] at h
  rw [form?_eq, Option.isSome_or, Bool.or_eq_true]
  rcases h with h | ⟨_, h⟩
  · left
    obtain ⟨r, hkeyword, hform⟩ := Option.bind_eq_some_iff.mp h
    obtain ⟨ws, hne, hws, rfl, hhead⟩ := afterKeyword?_eq_some_iff.mp hkeyword
    have hr' : ¬ IsBlankAlias r := by
      rintro ⟨name, target, hname, rfl, htarget⟩
      refine hr ⟨"static".toList ++ (ws ++ name), target, ?_, by simp, htarget⟩
      simp only [List.mem_append, not_or]
      exact ⟨by decide, fun hmem => absurd (hws '=' hmem) (by decide), hname⟩
    have hblank : ¬ AllBlank r := by
      cases r with
      | nil => contradiction
      | cons c t =>
        intro hb
        have hc := hhead c rfl
        rw [hb c List.mem_cons_self] at hc
        contradiction
    have htrim : trimEnd ("static".toList ++ (ws ++ r)) = "static".toList ++ (ws ++ trimEnd r) := by
      rw [← List.append_assoc, trimEnd_append hblank, List.append_assoc]
    have hread : afterKeyword? "static".toList ("static".toList ++ (ws ++ trimEnd r)) =
        some (trimEnd r) := by
      refine afterKeyword?_eq_some_iff.mpr ⟨ws, hne, hws, rfl, ?_⟩
      rwa [head?_trimEnd hhead]
    rw [htrim, hread, Option.bind_some]
    exact namedForm?_trimEnd hform hr'
  · right
    exact namedForm?_trimEnd h hr

theorem IsBlankAlias.trimEnd {region : Text} (h : IsBlankAlias region) :
    IsBlankAlias (trimEnd region) := by
  obtain ⟨name, target, hname, rfl, htarget⟩ := h
  have hblank : isBlank '=' = false := by decide
  have hsign : ¬ AllBlank ('=' :: target) := by
    intro h
    rw [h '=' List.mem_cons_self] at hblank
    contradiction
  have hhead : (Text.trimEnd ('=' :: target)).head? = some '=' := by
    apply head?_trimEnd
    intro c hc
    cases hc
    exact hblank
  obtain ⟨b, _, hsplit⟩ := exists_trimEnd ('=' :: target)
  rw [trimEnd_append hsign]
  cases hcut : Text.trimEnd ('=' :: target) with
  | nil =>
    rw [hcut] at hhead
    contradiction
  | cons c cut =>
    rw [hcut] at hhead hsplit
    cases hhead
    refine ⟨name, cut, hname, rfl, ?_⟩
    intro d hd
    apply htarget
    rw [(List.cons.inj hsplit).2]
    exact List.mem_append_left b hd

/-- A line that is nothing but a using declaration of a clause declares it. -/
theorem any?_of_clause? {clause : Text} (hhead : ∀ c ∈ clause.head?, isBlank c = false)
    (hne : clause ≠ []) (h : clause? (clause ++ [';']) = some clause) :
    any? (Document.usingLine clause) = some clause := by
  have hkeyword : afterKeyword? "using".toList ("using".toList ++ ([' '] ++ (clause ++ [';']))) =
      some (clause ++ [';']) := by
    refine afterKeyword?_eq_some_iff.mpr ⟨[' '], by simp, by simp [AllBlank, isBlank], rfl, ?_⟩
    cases clause with
    | nil => exact absurd rfl hne
    | cons c clause => exact hhead
  have htrim : trimStart (Document.usingLine clause) =
      "using".toList ++ ([' '] ++ (clause ++ [';'])) := by
    apply trimStart_eq_self
    intro c hc
    cases hc
    decide
  apply any?_eq_some_iff.mpr
  left
  rw [local?, htrim, hkeyword, Option.bind_some, h]

/-- A clause printed without the blanks around it is read back as it was printed. -/
theorem any?_usingLine {line clause : Text} (h : any? line = some clause)
    (hc : ¬ IsBlankAlias clause) : any? (Document.usingLine clause.trim) = some clause.trim := by
  obtain ⟨front, t, _, hhead, hclause⟩ := exists_clause h
  obtain ⟨region, rest, rfl, hmem, hform⟩ := clause?_eq_some_iff.mp hclause
  have hregion : ∀ c ∈ region.head?, isBlank c = false := by
    cases region with
    | nil => simp
    | cons c region => exact hhead
  have hne : region ≠ [] := by
    rintro rfl
    rcases hform with ⟨hform, _⟩ | ⟨hform, _⟩ <;> contradiction
  have hstart : ∀ c ∈ (trimEnd region).head?, isBlank c = false := by
    rwa [head?_trimEnd hregion]
  have htrim : clause.trim = trimEnd region := by
    rcases hform with ⟨_, rfl⟩ | ⟨_, rfl⟩
    · rw [trim_eq_trimEnd hstart, trimEnd_trimEnd]
    · rw [trim_eq_trimEnd hregion]
  have hsome : (form? (trimEnd region)).isSome := by
    rcases hform with ⟨hform, rfl⟩ | ⟨hform, rfl⟩
    · exact form?_trimEnd hform fun hb => hc hb.trimEnd
    · exact form?_trimEnd hform hc
  have hread : clause? (trimEnd region ++ [';']) = some (trimEnd region) := by
    refine clause?_eq_some_iff.mpr ⟨trimEnd region, [], rfl, ?_, ?_⟩
    · exact fun hsemi => hmem ((trimEnd_isPrefix region).subset hsemi)
    · obtain ⟨form, hform⟩ := Option.isSome_iff_exists.mp hsome
      cases form with
      | name => exact Or.inl ⟨hform, (trimEnd_trimEnd region).symm⟩
      | aliased => exact Or.inr ⟨hform, rfl⟩
  rw [htrim]
  refine any?_of_clause? hstart ?_ hread
  intro hnil
  rw [hnil] at hsome
  contradiction

end Using
end SourceMerge
