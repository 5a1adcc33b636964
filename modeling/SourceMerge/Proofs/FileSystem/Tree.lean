import Mathlib.Data.List.Nodup
import SourceMerge.FileSystem

/-! Trees of entries. In a proper tree the names in a directory differ and can stand in a path, so
that looking names up one after the other finds the entries that the directories hold. -/
namespace SourceMerge

namespace Node

def isLeaf : Node → Bool
  | .directory _ => false
  | _ => true

def isLink : Node → Bool
  | .link _ => true
  | _ => false

mutual

/-- Whether a condition holds of a node and of every node below it. -/
def every (p : Node → Bool) : Node → Bool
  | .file content => p (.file content)
  | .link target => p (.link target)
  | .directory entries => p (.directory entries) && everyBelow p entries

def everyBelow (p : Node → Bool) : List (Name × Node) → Bool
  | [] => true
  | (_, node) :: rest => node.every p && everyBelow p rest

end

theorem everyBelow_iff {p : Node → Bool} {d : Directory} :
    everyBelow p d = true ↔ ∀ e ∈ d, e.2.every p = true := by
  induction d with
  | nil => simp [everyBelow]
  | cons e d ih => simp [everyBelow, ih]

theorem every_directory {p : Node → Bool} {d : Directory} :
    (Node.directory d).every p = true ↔
      p (.directory d) = true ∧ ∀ e ∈ d, e.2.every p = true := by
  rw [every, Bool.and_eq_true, everyBelow_iff]

theorem of_every {p : Node → Bool} {node : Node} (h : node.every p = true) : p node = true := by
  cases node with
  | file content => exact h
  | link target => exact h
  | directory d => exact (every_directory.mp h).1

@[simp] theorem at?_nil (node : Node) : node.at? [] = some node := by
  cases node <;> rfl

theorem at?_cons (d : Directory) (name : Name) (names : List Name) :
    (Node.directory d).at? (name :: names) =
      (d.child? name).bind (·.at? names) := rfl

/-- Nothing stands below what is not a directory. -/
theorem exists_directory_of_at? {node found : Node} {names : List Name} (hne : names ≠ [])
    (h : node.at? names = some found) : ∃ d, node = .directory d := by
  obtain ⟨name, names, rfl⟩ := List.exists_cons_of_ne_nil hne
  cases node with
  | file content => contradiction
  | link target => contradiction
  | directory d => exact ⟨d, rfl⟩

/-- What leads to a directory is one. -/
theorem exists_directory_of_at?_directory {node : Node} {names : List Name} {d : Directory}
    (h : node.at? names = some (.directory d)) : ∃ inner, node = .directory inner := by
  cases names with
  | nil =>
    rw [at?_nil] at h
    exact ⟨d, Option.some.inj h⟩
  | cons name names => exact exists_directory_of_at? (by simp) h

theorem at?_append (node : Node) (names others : List Name) :
    node.at? (names ++ others) = (node.at? names).bind (·.at? others) := by
  induction names generalizing node with
  | nil => simp
  | cons name names ih =>
    cases node with
    | file content => rfl
    | link target => rfl
    | directory d =>
      rw [List.cons_append, at?_cons, at?_cons]
      cases Directory.child? d name with
      | none => rfl
      | some inner => exact ih inner

theorem every_of_at? {p : Node → Bool} {node found : Node} {names : List Name}
    (h : node.every p = true) (hat : node.at? names = some found) : found.every p = true := by
  induction names generalizing node with
  | nil =>
    rw [at?_nil] at hat
    exact Option.some.inj hat ▸ h
  | cons name names ih =>
    obtain ⟨d, rfl⟩ := exists_directory_of_at? (by simp) hat
    rw [at?_cons] at hat
    obtain ⟨inner, hinner, hbelow⟩ := Option.bind_eq_some_iff.mp hat
    obtain ⟨_, _, rfl, _⟩ := List.lookup_eq_some_iff.mp hinner
    exact ih ((every_directory.mp h).2 _ (List.mem_append_right _ List.mem_cons_self)) hbelow

end Node

/-- Whether bytes can be the name of an entry. -/
def Name.isEntry (name : Name) : Bool :=
  !name.isEmpty && !name.contains Path.slash && name != Utf8.encode ['.'] &&
    name != Utf8.encode ['.', '.']

theorem Name.isEntry_iff {name : Name} :
    name.isEntry = true ↔ name ≠ [] ∧ Path.slash ∉ name ∧ Path.Step.ofName name = .entry name := by
  simp only [Name.isEntry, Path.Step.ofName, Bool.and_eq_true, Bool.not_eq_true', bne_iff_ne]
  split_ifs <;> simp_all

namespace Directory

/-- Proves a property of a directory from that of the directories in it. -/
theorem induction_inner {P : Directory → Prop}
    (step : ∀ d : Directory, (∀ name inner, (name, Node.directory inner) ∈ d → P inner) → P d)
    (d : Directory) : P d := by
  have h : ∀ node : Node, ∀ d, node = .directory d → P d := by
    intro node
    refine Node.rec (motive_1 := fun node => ∀ d, node = .directory d → P d)
      (motive_2 := fun d => ∀ e ∈ d, ∀ inner, e.2 = .directory inner → P inner)
      (motive_3 := fun e => ∀ inner, e.2 = .directory inner → P inner) ?_ ?_ ?_ ?_ ?_ ?_ node
    · intro content d hd
      contradiction
    · rintro entries hentries d hd
      obtain rfl := Node.directory.inj hd
      exact step _ fun name inner he => hentries _ he inner rfl
    · intro target d hd
      contradiction
    · intro e he
      contradiction
    · intro first rest hfirst hrest e he
      rcases List.mem_cons.mp he with rfl | he
      · exact hfirst
      · exact hrest e he
    · intro name node hnode
      exact hnode
  exact h _ d rfl

/-- An entry stands in a directory at the end of a way through directories. -/
inductive Holds : Directory → List Name → Name → Node → Prop
  | here {d : Directory} {name : Name} {node : Node} (h : (name, node) ∈ d) : Holds d [] name node
  | deeper {d inner : Directory} {first name : Name} {way : List Name} {node : Node}
      (h : (first, .directory inner) ∈ d) (hinner : Holds inner way name node) :
      Holds d (first :: way) name node

/-- Whether the entries of a directory have names of their own that can stand in a path. -/
def hasProperNames : Node → Bool
  | .directory d => decide (d.map Prod.fst).Nodup && d.all (Name.isEntry ·.1)
  | _ => true

def isProper (d : Directory) : Bool := (Node.directory d).every hasProperNames

def isLinkFree (d : Directory) : Bool := (Node.directory d).every (!·.isLink)

section Lookup
variable {d inner : Directory} {name : Name} {node : Node} {way : List Name}

theorem isProper_iff : d.isProper = true ↔
    (d.map Prod.fst).Nodup ∧ (∀ e ∈ d, Name.isEntry e.1 = true) ∧
      ∀ e ∈ d, e.2.every hasProperNames = true := by
  rw [isProper, Node.every_directory, hasProperNames, Bool.and_eq_true, decide_eq_true_eq,
    List.all_eq_true, and_assoc]

/-- What holds of all nodes of a tree holds of all nodes of each of its entries. -/
theorem Holds.every {p : Node → Bool} (h : d.Holds way name node)
    (hd : (Node.directory d).every p = true) : node.every p = true := by
  induction h with
  | here h => exact (Node.every_directory.mp hd).2 _ h
  | deeper h _ ih => exact ih ((Node.every_directory.mp hd).2 _ h)

theorem Holds.isEntry (h : d.Holds way name node) (hd : d.isProper = true) :
    ∀ n ∈ way ++ [name], Name.isEntry n = true := by
  induction h with
  | here h =>
    intro n hn
    rw [List.nil_append, List.mem_singleton] at hn
    rw [hn]
    exact (isProper_iff.mp hd).2.1 _ h
  | deeper h _ ih =>
    intro n hn
    rcases List.mem_cons.mp hn with rfl | hn
    · exact (isProper_iff.mp hd).2.1 _ h
    · exact ih ((isProper_iff.mp hd).2.2 _ h) n hn

theorem mem_of_child? (h : d.child? name = some node) : (name, node) ∈ d := by
  obtain ⟨before, rest, rfl, _⟩ := List.lookup_eq_some_iff.mp h
  exact List.mem_append_right _ List.mem_cons_self

theorem child?_cons (other : Name) (old : Node) (d : Directory) (name : Name) :
    child? ((other, old) :: d) name = if name = other then some old else d.child? name := by
  unfold child?
  rw [List.lookup_cons]
  by_cases h : name = other
  · rw [if_pos h, beq_iff_eq.mpr h]
  · rw [if_neg h, beq_eq_false_iff_ne.mpr h]

theorem child?_of_mem (hd : (d.map Prod.fst).Nodup) (h : (name, node) ∈ d) :
    d.child? name = some node := by
  induction d with
  | nil => contradiction
  | cons e d ih =>
    obtain ⟨other, old⟩ := e
    rw [List.map_cons, List.nodup_cons] at hd
    rcases List.mem_cons.mp h with heq | hrest
    · obtain ⟨rfl, rfl⟩ := Prod.mk.inj heq
      rw [child?_cons, if_pos rfl]
    · have hne : name ≠ other := by
        rintro rfl
        exact hd.1 (List.mem_map.mpr ⟨(name, node), hrest, rfl⟩)
      rw [child?_cons, if_neg hne]
      exact ih hd.2 hrest

/-- Looking up the names of a way finds what a directory holds. -/
theorem holds_iff (hd : d.isProper = true) :
    d.Holds way name node ↔ (Node.directory d).at? (way ++ [name]) = some node := by
  constructor
  · intro h
    induction h with
    | here h =>
      rw [List.nil_append, Node.at?_cons, child?_of_mem (isProper_iff.mp hd).1 h]
      exact Node.at?_nil _
    | deeper h _ ih =>
      rw [List.cons_append, Node.at?_cons, child?_of_mem (isProper_iff.mp hd).1 h]
      exact ih ((isProper_iff.mp hd).2.2 _ h)
  · intro h
    induction way generalizing d with
    | nil =>
      rw [List.nil_append, Node.at?_cons] at h
      obtain ⟨found, hfound, h⟩ := Option.bind_eq_some_iff.mp h
      rw [Node.at?_nil] at h
      exact .here (Option.some.inj h ▸ mem_of_child? hfound)
    | cons first way ih =>
      rw [List.cons_append, Node.at?_cons] at h
      obtain ⟨found, hfound, h⟩ := Option.bind_eq_some_iff.mp h
      have hmem := mem_of_child? hfound
      obtain ⟨inner, rfl⟩ := Node.exists_directory_of_at? (by simp) h
      exact .deeper hmem (ih ((isProper_iff.mp hd).2.2 _ hmem) h)

end Lookup
end Directory
end SourceMerge
