import SourceMerge.FileSystem.Edit
import SourceMerge.Proofs.FileSystem.Walk

/-! Writing a file into a tree. The places of all other entries keep their kinds, and the tree stays
proper and free of links. -/
namespace SourceMerge

/-- The kind of the entry at the end of some names. -/
def Node.kindAt? (node : Node) (names : List Name) : Option Node.Kind :=
  (node.at? names).map Node.kind

theorem Node.kindAt?_nil (node : Node) : node.kindAt? [] = some node.kind := by
  rw [kindAt?, at?_nil]
  rfl

theorem Node.kindAt?_cons (d : Directory) (name : Name) (names : List Name) :
    (Node.directory d).kindAt? (name :: names) =
      (d.child? name).bind (·.kindAt? names) := by
  rw [kindAt?, at?_cons, Option.map_bind]
  rfl

namespace Directory
variable {d inner : Directory} {name : Name} {node : Node} {way : List Name}

section Put

theorem child?_put (d : Directory) (name other : Name) (node : Node) :
    child? (d.put name node) other = if other = name then some node else d.child? other := by
  induction d with
  | nil => exact child?_cons name node [] other
  | cons e d ih =>
    obtain ⟨first, old⟩ := e
    rw [put]
    split
    · rename_i heq
      rw [child?_cons, child?_cons, heq]
      split <;> rfl
    · rename_i hne
      rw [child?_cons, child?_cons, ih]
      split
      · rename_i heq
        rw [if_neg (by rw [heq]; exact hne)]
      · rfl

theorem mem_put {e : Name × Node} (h : e ∈ d.put name node) : e = (name, node) ∨ e ∈ d := by
  induction d with
  | nil => exact .inl (List.mem_singleton.mp h)
  | cons first d ih =>
    rw [put] at h
    split at h
    · rcases List.mem_cons.mp h with rfl | h
      · exact .inl rfl
      · exact .inr (List.mem_cons_of_mem _ h)
    · rcases List.mem_cons.mp h with rfl | h
      · exact .inr List.mem_cons_self
      · rcases ih h with h | h
        · exact .inl h
        · exact .inr (List.mem_cons_of_mem _ h)

theorem nodup_names_put (h : (d.map Prod.fst).Nodup) (name : Name) (node : Node) :
    ((d.put name node).map Prod.fst).Nodup := by
  induction d with
  | nil => exact List.nodup_singleton _
  | cons first d ih =>
    obtain ⟨hnew, hrest⟩ := List.nodup_cons.mp h
    rw [put]
    split
    · rename_i heq
      rw [List.map_cons, ← heq]
      exact h
    · rename_i hne
      refine List.nodup_cons.mpr ⟨fun hmem => ?_, ih hrest⟩
      obtain ⟨e, he, heq⟩ := List.mem_map.mp hmem
      rcases mem_put he with rfl | he
      · exact hne heq.symm
      · exact hnew (heq ▸ List.mem_map_of_mem he)

theorem isProper_put (hd : d.isProper = true) (hname : Name.isEntry name = true)
    (hnode : node.every hasProperNames = true) : (d.put name node).isProper = true := by
  obtain ⟨hnames, hentry, hbelow⟩ := isProper_iff.mp hd
  refine isProper_iff.mpr ⟨nodup_names_put hnames name node, fun e he => ?_, fun e he => ?_⟩
  · rcases mem_put he with rfl | he
    · exact hname
    · exact hentry e he
  · rcases mem_put he with rfl | he
    · exact hnode
    · exact hbelow e he

theorem isLinkFree_iff : d.isLinkFree = true ↔ ∀ e ∈ d, e.2.every (!·.isLink) = true := by
  rw [isLinkFree, Node.every_directory]
  exact and_iff_right rfl

theorem isLinkFree_put (hd : d.isLinkFree = true) (hnode : node.every (!·.isLink) = true) :
    (d.put name node).isLinkFree = true := by
  rw [isLinkFree_iff] at hd ⊢
  intro e he
  rcases mem_put he with rfl | he
  · exact hnode
  · exact hd e he

end Put

section Insert

/-- Some names lead to a directory. -/
def HasDirectory (d : Directory) (way : List Name) : Prop :=
  ∃ inner, (Node.directory d).at? way = some (.directory inner)

theorem HasDirectory.refl (d : Directory) : d.HasDirectory [] := ⟨d, Node.at?_nil _⟩

theorem HasDirectory.cons_iff {first : Name} : d.HasDirectory (first :: way) ↔
    ∃ inner, d.child? first = some (.directory inner) ∧ HasDirectory inner way := by
  unfold HasDirectory
  rw [Node.at?_cons]
  constructor
  · rintro ⟨found, h⟩
    obtain ⟨node, hfirst, hnode⟩ := Option.bind_eq_some_iff.mp h
    obtain ⟨inner, rfl⟩ := Node.exists_directory_of_at?_directory hnode
    exact ⟨inner, hfirst, found, hnode⟩
  · rintro ⟨inner, hfirst, found, hfound⟩
    rw [hfirst]
    exact ⟨found, hfound⟩

theorem HasDirectory.isEntry (h : d.HasDirectory way) (hd : d.isProper = true) :
    ∀ n ∈ way, Name.isEntry n = true := by
  induction way generalizing d with
  | nil => exact List.forall_mem_nil _
  | cons first way ih =>
    obtain ⟨inner, hfirst, hinner⟩ := HasDirectory.cons_iff.mp h
    have hmem := mem_of_child? hfirst
    obtain ⟨_, hentry, hbelow⟩ := isProper_iff.mp hd
    rw [List.forall_mem_cons]
    exact ⟨hentry _ hmem, ih hinner (hbelow _ hmem)⟩

theorem hasDirectory_iff :
    d.HasDirectory way ↔ (Node.directory d).kindAt? way = some .directory := by
  unfold HasDirectory Node.kindAt?
  constructor
  · rintro ⟨inner, h⟩
    rw [h]
    rfl
  · intro h
    obtain ⟨node, hnode, hkind⟩ := Option.map_eq_some_iff.mp h
    cases node with
    | file content => contradiction
    | link target => contradiction
    | directory inner => exact ⟨inner, hnode⟩

/-- A file can be written in a directory: its name is proper, the directory is there, and nothing
but a file stands in the place. -/
structure TakesFile (d : Directory) (way : List Name) (name : Name) : Prop where
  named : Name.isEntry name = true
  parent : d.HasDirectory way
  place : ∀ kind, (Node.directory d).kindAt? (way ++ [name]) = some kind → kind = .file

theorem TakesFile.not_hasDirectory (h : d.TakesFile way name) :
    ¬ d.HasDirectory (way ++ [name]) := by
  intro hplace
  have := h.place _ (hasDirectory_iff.mp hplace)
  contradiction

theorem kindAt?_below {location : List Name}
    (h : (Node.directory d).at? location = some (.directory inner)) (names : List Name) :
    (Node.directory d).kindAt? (location ++ names) = (Node.directory inner).kindAt? names := by
  rw [Node.kindAt?, Node.at?_append, h]
  rfl

/-- Room for a file in a directory is room in every tree that the directory stands in. -/
theorem TakesFile.below {location : List Name}
    (h : (Node.directory d).at? location = some (.directory inner))
    (hfile : inner.TakesFile way name) : d.TakesFile (location ++ way) name := by
  refine ⟨hfile.named, ?_, fun kind hplace => hfile.place kind ?_⟩
  · rw [hasDirectory_iff, kindAt?_below h]
    exact hasDirectory_iff.mp hfile.parent
  · rw [← kindAt?_below h, ← List.append_assoc]
    exact hplace

theorem TakesFile.of_cons {first : Name} (hfirst : d.child? first = some (.directory inner))
    (h : d.TakesFile (first :: way) name) : inner.TakesFile way name := by
  have hat : (Node.directory d).at? [first] = some (.directory inner) := by
    rw [Node.at?_cons, hfirst]
    exact Node.at?_nil _
  refine ⟨h.named, ?_, fun kind hplace => h.place kind ?_⟩
  · rw [hasDirectory_iff, ← kindAt?_below hat]
    exact hasDirectory_iff.mp h.parent
  · rw [← kindAt?_below hat] at hplace
    exact hplace

/-- On its way an insertion goes into the directories that are there. -/
theorem insert_below {first : Name} (hfirst : d.child? first = some (.directory inner))
    (way : List Name) (name : Name) (node : Node) :
    d.insert node (first :: (way ++ [name])) =
      d.put first (.directory (insert node (way ++ [name]) inner)) := by
  cases way <;> simp [insert, hfirst]

theorem isProper_insert (hd : d.isProper = true) (hway : d.HasDirectory way)
    (hname : Name.isEntry name = true) (hnode : node.every hasProperNames = true) :
    (d.insert node (way ++ [name])).isProper = true := by
  induction way generalizing d with
  | nil => exact isProper_put hd hname hnode
  | cons first way ih =>
    obtain ⟨inner, hfirst, hway⟩ := HasDirectory.cons_iff.mp hway
    have hmem := mem_of_child? hfirst
    obtain ⟨_, hentry, hbelow⟩ := isProper_iff.mp hd
    rw [List.cons_append, insert_below hfirst]
    exact isProper_put hd (hentry _ hmem) (ih (hbelow _ hmem) hway)

theorem isLinkFree_insert (hd : d.isLinkFree = true) (hway : d.HasDirectory way)
    (hnode : node.every (!·.isLink) = true) :
    (d.insert node (way ++ [name])).isLinkFree = true := by
  induction way generalizing d with
  | nil => exact isLinkFree_put hd hnode
  | cons first way ih =>
    obtain ⟨inner, hfirst, hway⟩ := HasDirectory.cons_iff.mp hway
    rw [List.cons_append, insert_below hfirst]
    exact isLinkFree_put hd (ih (isLinkFree_iff.mp hd _ (mem_of_child? hfirst)) hway)

/-- Writing a file where there is no directory changes the kind of no other place. -/
theorem kindAt?_insert (content : Except OsError Bytes) (hway : d.HasDirectory way)
    (hplace : ¬ d.HasDirectory (way ++ [name])) (names : List Name) :
    (Node.directory (d.insert (.file content) (way ++ [name]))).kindAt? names =
      if names = way ++ [name] then some .file else (Node.directory d).kindAt? names := by
  induction way generalizing d names with
  | nil =>
    -- a file hides nothing that was below its place, for there was no directory
    cases names with
    | nil => rw [Node.kindAt?_nil, Node.kindAt?_nil, if_neg (by simp)]; rfl
    | cons other names =>
      rw [List.nil_append, insert, Node.kindAt?_cons, Node.kindAt?_cons, child?_put]
      by_cases hother : other = name
      · rw [if_pos hother, hother, Option.bind_some]
        cases names with
        | nil => rw [Node.kindAt?_nil, if_pos rfl]; rfl
        | cons next names =>
          rw [if_neg (by simp)]
          cases hfound : d.child? name with
          | none => rfl
          | some node =>
            cases node with
            | file content => rfl
            | link target => rfl
            | directory inner =>
              exact absurd (HasDirectory.cons_iff.mpr ⟨inner, hfound, .refl inner⟩) hplace
      · rw [if_neg hother, if_neg (by simp [hother])]
  | cons first way ih =>
    obtain ⟨inner, hfirst, hinner⟩ := HasDirectory.cons_iff.mp hway
    have hplace' : ¬ HasDirectory inner (way ++ [name]) := fun h =>
      hplace (HasDirectory.cons_iff.mpr ⟨inner, hfirst, h⟩)
    rw [List.cons_append, insert_below hfirst]
    cases names with
    | nil => rw [Node.kindAt?_nil, Node.kindAt?_nil, if_neg (by simp)]; rfl
    | cons other names =>
      rw [Node.kindAt?_cons, Node.kindAt?_cons, child?_put]
      by_cases hother : other = first
      · rw [if_pos hother, hother, hfirst, Option.bind_some, ih hinner hplace', Option.bind_some]
        simp
      · rw [if_neg hother, if_neg (by simp [hother])]

/-- Writing a file leaves room for all files that had room before. -/
theorem TakesFile.insert (h : d.TakesFile way name) (content : Except OsError Bytes)
    {others : List Name} {other : Name} (hother : d.TakesFile others other) :
    (d.insert (.file content) (way ++ [name])).TakesFile others other := by
  have hkind := kindAt?_insert content h.parent h.not_hasDirectory
  refine ⟨hother.named, ?_, fun kind hplace => ?_⟩
  · have hne : others ≠ way ++ [name] := by
      rintro rfl
      exact h.not_hasDirectory hother.parent
    rw [hasDirectory_iff, hkind, if_neg hne]
    exact hasDirectory_iff.mp hother.parent
  · rw [hkind] at hplace
    split at hplace
    · exact (Option.some.inj hplace).symm
    · exact hother.place kind hplace

/-- An insertion below a directory is one into that directory. -/
theorem at?_insert_append {location : List Name}
    (hlocation : (Node.directory d).at? location = some (.directory inner)) (way : List Name)
    (name : Name) (node : Node) :
    (Node.directory (d.insert node (location ++ (way ++ [name])))).at? location =
      some (.directory (inner.insert node (way ++ [name]))) := by
  induction location generalizing d with
  | nil =>
    rw [Node.at?_nil] at hlocation
    obtain rfl := Node.directory.inj (Option.some.inj hlocation)
    exact Node.at?_nil _
  | cons first location ih =>
    rw [Node.at?_cons] at hlocation
    obtain ⟨found, hfirst, hfound⟩ := Option.bind_eq_some_iff.mp hlocation
    obtain ⟨next, rfl⟩ := Node.exists_directory_of_at?_directory hfound
    have hbelow : d.insert node (first :: location ++ (way ++ [name])) =
        d.put first (.directory (insert node (location ++ (way ++ [name])) next)) := by
      rw [List.cons_append, ← List.append_assoc, insert_below hfirst]
    rw [hbelow, Node.at?_cons, child?_put, if_pos rfl]
    exact ih hfound

end Insert
end Directory
end SourceMerge
