import SourceMerge.FileSystem.Leaves
import SourceMerge.Proofs.FileSystem.Walk

/-! Listing the entries of directories in another order. Every path leads to the same place then and
every file has the same content; what is below a directory is the same up to the order. -/
namespace SourceMerge

namespace Directory

/-- The same entries, in this directory and in those below it, in any order of listing. -/
inductive Relisted : Directory → Directory → Prop
  | nil : Relisted [] []
  | keep {d d' : Directory} (e : Name × Node) (h : Relisted d d') : Relisted (e :: d) (e :: d')
  | inner {d d' inner inner' : Directory} (name : Name) (hinner : Relisted inner inner')
      (h : Relisted d d') :
      Relisted ((name, .directory inner) :: d) ((name, .directory inner') :: d')
  | swap (e e' : Name × Node) (d : Directory) : Relisted (e :: e' :: d) (e' :: e :: d)
  | trans {d d' d'' : Directory} (h : Relisted d d') (h' : Relisted d' d'') : Relisted d d''

namespace Relisted
variable {d d' : Directory}

theorem refl (d : Directory) : Relisted d d := by
  induction d with
  | nil => exact .nil
  | cons e d ih => exact .keep e ih

/-- The first entry may as well be listed last. -/
theorem rotate (e : Name × Node) (d : Directory) : Relisted (e :: d) (d ++ [e]) := by
  induction d with
  | nil => exact refl [e]
  | cons first d ih => exact .trans (.swap e first d) (.keep first ih)

theorem names_perm (h : Relisted d d') : (d.map Prod.fst).Perm (d'.map Prod.fst) := by
  induction h with
  | nil => exact .nil
  | keep e _ ih => exact ih.cons _
  | inner name _ _ _ ih => exact ih.cons _
  | swap e e' d => exact .swap _ _ _
  | trans _ _ ih ih' => exact ih.trans ih'

end Relisted
end Directory

/-- The same entry, with what is below it in any order of listing. -/
inductive Node.Relisted : Node → Node → Prop
  | same (node : Node) : Relisted node node
  | inner {d d' : Directory} (h : d.Relisted d') : Relisted (.directory d) (.directory d')

namespace Node.Relisted
variable {node node' node'' : Node}

theorem trans (h : node.Relisted node') (h' : node'.Relisted node'') : node.Relisted node'' := by
  cases h with
  | same => exact h'
  | inner h =>
    cases h' with
    | same => exact .inner h
    | inner h' => exact .inner (h.trans h')

theorem kind_eq (h : node.Relisted node') : node.kind = node'.kind := by
  cases h <;> rfl

end Node.Relisted

/-- Nothing both times, or the same entry. -/
inductive Node.SameAnswer : Option Node → Option Node → Prop
  | none : SameAnswer none none
  | some {node node' : Node} (h : node.Relisted node') : SameAnswer (some node) (some node')

namespace Node.SameAnswer
variable {a b c : Option Node}

theorem refl (a : Option Node) : SameAnswer a a := by
  cases a with
  | none => exact .none
  | some node => exact .some (.same node)

theorem trans (h : SameAnswer a b) (h' : SameAnswer b c) : SameAnswer a c := by
  cases h with
  | none => exact h'
  | some h =>
    cases h' with
    | some h' => exact .some (h.trans h')

theorem kind_eq (h : SameAnswer a b) : a.map Node.kind = b.map Node.kind := by
  cases h with
  | none => rfl
  | some h => exact congrArg Option.some h.kind_eq

theorem bind {f g : Node → Option Node} (h : SameAnswer a b)
    (hfg : ∀ node node', a = Option.some node → node.Relisted node' →
      SameAnswer (f node) (g node')) : SameAnswer (a.bind f) (b.bind g) := by
  cases h with
  | none => exact .none
  | some h => exact hfg _ _ rfl h

end Node.SameAnswer

namespace Directory.Relisted
variable {d d' : Directory}

/-- A name leads from both directories to nothing, or to the same entry. -/
theorem child? (h : d.Relisted d') (hd : (d.map Prod.fst).Nodup) (name : Name) :
    Node.SameAnswer (d.child? name) (d'.child? name) := by
  induction h with
  | nil => exact .none
  | keep e _ ih =>
    rw [child?_cons, child?_cons]
    split
    · exact .some (.same _)
    · exact ih (List.nodup_cons.mp hd).2
  | inner n hinner _ _ ih =>
    rw [child?_cons, child?_cons]
    split
    · exact .some (.inner hinner)
    · exact ih (List.nodup_cons.mp hd).2
  | swap e e' d =>
    -- the names differ, so at most one of the two entries answers
    have hne : e.1 ≠ e'.1 := fun heq => (List.nodup_cons.mp hd).1 (by simp [heq])
    rw [child?_cons, child?_cons, child?_cons, child?_cons]
    split_ifs with hfirst hsecond
    · exact absurd (hfirst.symm.trans hsecond) hne
    all_goals exact .refl _
  | trans h _ ih ih' => exact (ih hd).trans (ih' (h.names_perm.nodup_iff.mp hd))

theorem at? (h : d.Relisted d') (hd : d.isProper = true) (names : List Name) :
    Node.SameAnswer ((Node.directory d).at? names) ((Node.directory d').at? names) := by
  induction names generalizing d d' with
  | nil =>
    rw [Node.at?_nil, Node.at?_nil]
    exact .some (.inner h)
  | cons name names ih =>
    rw [Node.at?_cons, Node.at?_cons]
    obtain ⟨hnames, _, hbelow⟩ := isProper_iff.mp hd
    refine (h.child? hnames name).bind fun node node' hfound hnode => ?_
    cases hnode with
    | same => exact .refl _
    | inner hinner => exact ih hinner (hbelow _ (mem_of_child? hfound))

/-- The leaves below a directory are the same, in some other order. -/
theorem leavesBelow_perm (h : d.Relisted d') (path : Path) :
    (leavesBelow path d).Perm (leavesBelow path d') := by
  induction h generalizing path with
  | nil => exact .nil
  | keep e _ ih => exact (ih path).append_left _
  | inner name _ _ ihinner ih =>
    refine .append ?_ (ih path)
    rw [Node.leaves, Node.leaves]
    split
    · exact .nil
    · exact ihinner _
  | swap e e' d =>
    simp only [leavesBelow, ← List.append_assoc]
    exact List.perm_append_comm.append_right _
  | trans _ _ ih ih' => exact (ih path).trans (ih' path)

end Directory.Relisted

/-- A file system in which directories list their entries in another order. -/
structure FileSystem.Relisted (fs fs' : FileSystem) : Prop where
  top : fs.top.Relisted fs'.top
  working : fs'.working = fs.working

namespace FileSystem.Relisted
variable {fs fs' : FileSystem}

section Proper
variable (h : fs.Relisted fs') (hproper : fs.top.isProper = true)
include h hproper

theorem locate_eq (goal : Goal) (path : Path) : fs'.locate goal path = fs.locate goal path := by
  have hkind : ∀ l, (fs.node? l).map Node.kind = (fs'.node? l).map Node.kind := fun l =>
    (h.top.at? hproper l).kind_eq
  have hstart : fs'.startOf path = fs.startOf path := by rw [startOf, startOf, h.working]
  rw [locate, locate, hstart, walk_congr hkind]

/-- A path leads to the same entry, or nowhere for the same reason. -/
theorem find_cases (goal : Goal) (path : Path) :
    (∃ e, fs.find goal path = .error e ∧ fs'.find goal path = .error e) ∨
      ∃ node node', fs.find goal path = .ok node ∧ fs'.find goal path = .ok node' ∧
        node.Relisted node' := by
  rw [find, find, h.locate_eq hproper]
  cases fs.locate goal path with
  | error e => exact .inl ⟨e, rfl, rfl⟩
  | ok location =>
    have hanswer : Node.SameAnswer (fs.node? location) (fs'.node? location) :=
      h.top.at? hproper location
    simp only [bind, Except.bind]
    generalize fs.node? location = found at *
    generalize fs'.node? location = found' at *
    cases hanswer with
    | none => exact .inl ⟨.notFound, rfl, rfl⟩
    | some hnode => exact .inr ⟨_, _, rfl, rfl, hnode⟩

theorem read_eq (path : Path) : fs'.read path = fs.read path := by
  rw [read, read]
  rcases h.find_cases hproper .target path with ⟨e, h, h'⟩ | ⟨node, node', h, h', hnode⟩
  · rw [h, h']
  · rw [h, h']
    cases hnode <;> rfl

theorem leaves_perm (root : Path) : (fs.leaves root).Perm (fs'.leaves root) := by
  rw [leaves, leaves]
  rcases h.find_cases hproper .entry root with ⟨e, he, he'⟩ | ⟨node, node', he, he', hnode⟩
  · rw [he, he']
  · rw [he, he']
    cases hnode with
    | inner hinner => exact hinner.leavesBelow_perm root
    | same =>
      cases node with
      | file content => exact .refl _
      | directory d => exact .refl _
      | link target =>
        rcases h.find_cases hproper .target root with ⟨e, ht, ht'⟩ | ⟨node, node', ht, ht', hnode⟩
        · simp only [ht, ht']
          exact .refl _
        · simp only [ht, ht']
          cases hnode with
          | inner hinner => exact (hinner.leavesBelow_perm root).cons _
          | same => exact .refl _

end Proper
end FileSystem.Relisted
end SourceMerge
