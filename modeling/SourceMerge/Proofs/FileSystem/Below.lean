import SourceMerge.Proofs.FileSystem.Tree
import SourceMerge.Proofs.Text.Subparts

/-! Paths of entries below a root. Adding a name to a path adds it to the names of the path, so that
entries of different names have different paths. Where the names are UTF-8, such paths are told
by the text they are shown as, whatever bytes the root has. -/
namespace SourceMerge.Path
variable {p root : Path} {name : Name} {way : List Name}

/-- The path at the end of a way of names from a root. -/
def below (root : Path) (way : List Name) : Path := way.foldl child root

/-- The bytes before the name of an entry of the directory at a path. -/
def base (p : Path) : Bytes :=
  if p.bytes.isEmpty || p.bytes.getLast? == some slash then p.bytes else p.bytes ++ [slash]

/-- The names between the slashes of a path. -/
def names (p : Path) : List Name := (p.bytes.splitOn slash).filter (!·.isEmpty)

theorem eq_of_bytes_eq {p q : Path} (h : p.bytes = q.bytes) : p = q := by
  cases p
  cases q
  exact congrArg Path.mk h

theorem steps_eq (p : Path) : p.steps =
    p.names.map Step.ofName ++ if p.bytes.getLast? == some slash then [.stay] else [] := rfl

@[simp] theorem below_nil (root : Path) : root.below [] = root := rfl

theorem below_cons (root : Path) (name : Name) (way : List Name) :
    root.below (name :: way) = (root.child name).below way := rfl

theorem bytes_child (p : Path) (name : Name) : (p.child name).bytes = p.base ++ name := by
  unfold child base
  split
  · rfl
  · rw [List.append_assoc]
    rfl

theorem base_cases (p : Path) : p.base = [] ∨ ∃ front, p.base = front ++ [slash] := by
  unfold base
  split
  · rename_i h
    rw [Bool.or_eq_true, List.isEmpty_iff, beq_iff_eq] at h
    rcases h with h | h
    · exact Or.inl h
    · exact Or.inr (List.getLast?_eq_some_iff.mp h)
  · exact Or.inr ⟨p.bytes, rfl⟩

theorem getLast?_child (h : Name.isEntry name = true) :
    (p.child name).bytes.getLast? ≠ some slash := by
  obtain ⟨hne, hslash, _⟩ := Name.isEntry_iff.mp h
  rw [bytes_child, List.getLast?_append_of_ne_nil _ hne]
  intro hlast
  exact hslash (List.mem_of_getLast? hlast)

theorem bytes_child_ne_nil (h : Name.isEntry name = true) : (p.child name).bytes ≠ [] := by
  obtain ⟨hne, _, _⟩ := Name.isEntry_iff.mp h
  rw [bytes_child]
  exact List.append_ne_nil_of_right_ne_nil _ hne

theorem base_child (h : Name.isEntry name = true) :
    (p.child name).base = p.base ++ (name ++ [slash]) := by
  have hopen : ((p.child name).bytes.isEmpty ||
      (p.child name).bytes.getLast? == some slash) = false := by
    rw [Bool.or_eq_false_iff, beq_eq_false_iff_ne, List.isEmpty_eq_false_iff]
    exact ⟨bytes_child_ne_nil h, getLast?_child h⟩
  rw [base, hopen, bytes_child, List.append_assoc]
  rfl

/-- The slash at the end of a base adds no name. -/
theorem filter_splitOn_base (p : Path) :
    (p.base.splitOn slash).filter (!·.isEmpty) = p.names := by
  unfold base
  split
  · rfl
  · rw [List.splitOn_append_cons_self, List.filter_append, names]
    simp

theorem bytes_prefix_child (p : Path) (name : Name) : p.bytes <+: (p.child name).bytes := by
  rw [bytes_child]
  refine List.IsPrefix.trans ?_ (List.prefix_append _ _)
  unfold base
  split
  · exact List.prefix_rfl
  · exact List.prefix_append _ _

theorem bytes_prefix_below (root : Path) (way : List Name) :
    root.bytes <+: (root.below way).bytes := by
  induction way generalizing root with
  | nil => exact List.prefix_rfl
  | cons name way ih => exact (bytes_prefix_child root name).trans (ih _)

theorem bytes_prefix_child_below (root : Path) (way : List Name) (name : Name) :
    root.bytes <+: ((root.below way).child name).bytes :=
  (bytes_prefix_below root way).trans (bytes_prefix_child _ name)

theorem names_child (h : Name.isEntry name = true) : (p.child name).names = p.names ++ [name] := by
  obtain ⟨hne, hslash, _⟩ := Name.isEntry_iff.mp h
  have hkeep : [name].filter (!·.isEmpty) = [name] := by simpa using hne
  have hsplit : name.splitOn slash = [name] := List.splitOn_eq_singleton hslash
  rw [names, bytes_child, ← filter_splitOn_base]
  rcases base_cases p with hbase | ⟨front, hbase⟩
  · rw [hbase, List.nil_append, hsplit, hkeep]
    rfl
  · rw [hbase, List.append_assoc, List.singleton_append, List.splitOn_append_cons_self,
      List.splitOn_append_cons_self, hsplit, List.filter_append, List.filter_append, hkeep]
    simp

theorem names_below (h : ∀ n ∈ way, Name.isEntry n = true) :
    (root.below way).names = root.names ++ way := by
  induction way generalizing root with
  | nil => simp
  | cons first way ih =>
    rw [below_cons, ih fun n hn => h n (List.mem_cons_of_mem _ hn),
      names_child (h first List.mem_cons_self), List.append_assoc]
    rfl

theorem base_below (h : ∀ n ∈ way, Name.isEntry n = true) :
    (root.below way).base = root.base ++ way.flatMap (· ++ [slash]) := by
  induction way generalizing root with
  | nil => simp
  | cons first way ih =>
    rw [below_cons, ih fun n hn => h n (List.mem_cons_of_mem _ hn),
      base_child (h first List.mem_cons_self), List.flatMap_cons, List.append_assoc]

theorem map_ofName (h : ∀ n ∈ way, Name.isEntry n = true) :
    way.map Step.ofName = way.map Step.entry := by
  apply List.map_congr_left
  intro n hn
  exact (Name.isEntry_iff.mp (h n hn)).2.2

section Entries
variable (h : ∀ n ∈ way ++ [name], Name.isEntry n = true)
include h

theorem isEntry_of_mem_way : ∀ n ∈ way, Name.isEntry n = true := fun n hn =>
  h n (List.mem_append_left _ hn)

theorem isEntry_last : Name.isEntry name = true :=
  h name (List.mem_append_right _ (List.mem_singleton_self name))

theorem names_child_below :
    ((root.below way).child name).names = root.names ++ (way ++ [name]) := by
  rw [names_child (isEntry_last h), names_below (isEntry_of_mem_way h), List.append_assoc]

theorem bytes_child_below : ((root.below way).child name).bytes =
    root.base ++ (way.flatMap (· ++ [slash]) ++ name) := by
  rw [bytes_child, base_below (isEntry_of_mem_way h), List.append_assoc]

/-- The steps to an entry are those to the root and then one for each name. -/
theorem steps_child_below : ((root.below way).child name).steps =
    root.names.map Step.ofName ++ (way ++ [name]).map Step.entry := by
  have hlast := getLast?_child (p := root.below way) (isEntry_last h)
  rw [steps_eq, if_neg (by simpa using hlast), names_child_below h, List.map_append, map_ofName h,
    List.append_nil]

end Entries

section Shown

theorem exists_flatMap_slash (h : ∀ n ∈ way, ∃ t, n = Utf8.encode t) :
    ∃ t, way.flatMap (· ++ [slash]) = Utf8.encode t := by
  induction way with
  | nil => exact ⟨[], rfl⟩
  | cons first way ih =>
    obtain ⟨s, hs⟩ := h first List.mem_cons_self
    obtain ⟨t, ht⟩ := ih fun n hn => h n (List.mem_cons_of_mem _ hn)
    refine ⟨s ++ ['/'] ++ t, ?_⟩
    rw [Utf8.encode_append, Utf8.encode_append, List.flatMap_cons, hs, ht]
    rfl

/-- Names that are UTF-8 add the bytes of one text to those of the root. -/
theorem exists_bytes_child_below (root : Path) (h : ∀ n ∈ way ++ [name], Name.isEntry n = true)
    (htext : ∀ n ∈ way ++ [name], ∃ t, n = Utf8.encode t) :
    ∃ t, ((root.below way).child name).bytes = root.base ++ Utf8.encode t := by
  obtain ⟨t, ht⟩ := exists_flatMap_slash fun n hn => htext n (List.mem_append_left _ hn)
  obtain ⟨s, hs⟩ := htext name (List.mem_append_right _ (List.mem_singleton_self name))
  refine ⟨t ++ s, ?_⟩
  rw [bytes_child_below h, ht, hs, Utf8.encode_append]

/-- What stands behind a base is read for itself. -/
theorem decodeLossy_base_append (p : Path) (bytes : Bytes) :
    Utf8.decodeLossy (p.base ++ bytes) = Utf8.decodeLossy p.base ++ Utf8.decodeLossy bytes := by
  rcases base_cases p with hbase | ⟨front, hbase⟩
  · rw [hbase]
    rfl
  · have hascii : slash.toNat < 0x80 := by decide
    rw [hbase, List.append_assoc, List.singleton_append, Utf8.decodeLossy_append_ascii hascii,
      Utf8.decodeLossy_append_ascii hascii, List.append_assoc]
    rfl

/-- A base is shown as its path and what is added to it. -/
theorem exists_decodeLossy_base (p : Path) : ∃ t, Utf8.decodeLossy p.base = p.display ++ t := by
  unfold base
  split
  · exact ⟨[], (List.append_nil _).symm⟩
  · exact ⟨_, Utf8.decodeLossy_append_ascii (by decide) p.bytes []⟩

/-- A path below a root is shown as a longer text than the root. -/
theorem display_child_below_ne (h : ∀ n ∈ way ++ [name], Name.isEntry n = true) :
    ((root.below way).child name).display ≠ root.display := by
  obtain ⟨hne, _, _⟩ := Name.isEntry_iff.mp (isEntry_last h)
  obtain ⟨t, ht⟩ := exists_decodeLossy_base root
  rw [display, bytes_child_below h, decodeLossy_base_append, ht, List.append_assoc]
  intro heq
  have hrest := List.append_right_eq_self.mp heq
  exact Utf8.decodeLossy_ne_nil (List.append_ne_nil_of_right_ne_nil _ hne)
    (List.append_eq_nil_iff.mp hrest).2

/-- Below one root, paths of names that are UTF-8 are shown as different texts. -/
theorem eq_of_display_eq {other : Name} {others : List Name}
    (h : ∀ n ∈ way ++ [name], Name.isEntry n = true)
    (hothers : ∀ n ∈ others ++ [other], Name.isEntry n = true)
    (htext : ∀ n ∈ way ++ [name], ∃ t, n = Utf8.encode t)
    (htexts : ∀ n ∈ others ++ [other], ∃ t, n = Utf8.encode t)
    (heq : ((root.below way).child name).display = ((root.below others).child other).display) :
    (root.below way).child name = (root.below others).child other := by
  obtain ⟨t, ht⟩ := root.exists_bytes_child_below h htext
  obtain ⟨u, hu⟩ := root.exists_bytes_child_below hothers htexts
  rw [display, display, ht, hu, decodeLossy_base_append, decodeLossy_base_append,
    Utf8.decodeLossy_encode, Utf8.decodeLossy_encode] at heq
  exact eq_of_bytes_eq (by rw [ht, hu, List.append_cancel_left heq])

end Shown
end SourceMerge.Path
