import SourceMerge.Proofs.FileSystem.Relisted

/-! A file system that lists the entries of every directory backwards. -/
namespace SourceMerge

mutual

/-- An entry with all directories listed backwards. -/
def Node.mirror : Node → Node
  | .file content => .file content
  | .link target => .link target
  | .directory entries => .directory (Directory.mirror entries)

/-- A directory and those below it, listed backwards. -/
def Directory.mirror : List (Name × Node) → List (Name × Node)
  | [] => []
  | (name, node) :: rest => Directory.mirror rest ++ [(name, node.mirror)]

end

namespace Directory
variable {d : Directory} {name : Name}

theorem mirror_eq (d : Directory) : mirror d = (d.map fun e => (e.1, e.2.mirror)).reverse := by
  induction d with
  | nil => rfl
  | cons e d ih => rw [mirror, ih, List.map_cons, List.reverse_cons]

theorem relisted_mirror (d : Directory) : d.Relisted (mirror d) := by
  induction d using induction_inner with
  | step d ih =>
    induction d with
    | nil => exact .nil
    | cons e d ihrest =>
      have hrest := ihrest fun name inner he => ih name inner (List.mem_cons_of_mem _ he)
      have hfirst : Relisted (e :: d) ((e.1, e.2.mirror) :: mirror d) := by
        obtain ⟨name, node⟩ := e
        cases node with
        | file content => exact .keep _ hrest
        | link target => exact .keep _ hrest
        | directory inner => exact .inner name (ih name inner List.mem_cons_self) hrest
      exact hfirst.trans (.rotate _ _)

/-- The leaves below come in reverse order. -/
theorem leavesBelow_mirror (path : Path) (d : Directory) :
    leavesBelow path (mirror d) = (leavesBelow path d).reverse := by
  induction d using induction_inner generalizing path with
  | step d ih =>
    rw [leavesBelow_eq_flatMap, leavesBelow_eq_flatMap, mirror_eq, ← List.map_reverse,
      List.flatMap_map, List.reverse_flatMap]
    refine List.flatMap_congr fun e he => ?_
    obtain ⟨name, node⟩ := e
    rw [List.mem_reverse] at he
    cases node with
    | file content => rfl
    | link target => rfl
    | directory inner =>
      simp only [Function.comp_apply, Node.mirror, Node.leaves]
      split
      · rfl
      · exact ih name inner he _

theorem child?_append_singleton (d : Directory) (other : Name) (node : Node) (name : Name) :
    child? (d ++ [(other, node)]) name =
      (d.child? name).or (if name = other then some node else none) := by
  unfold child?
  rw [List.lookup_append]
  congr 1
  exact child?_cons other node [] name

theorem child?_eq_none (h : name ∉ d.map Prod.fst) : d.child? name = none := by
  refine List.lookup_eq_none_iff.mpr fun e he => bne_iff_ne.mpr fun heq => h ?_
  rw [heq]
  exact List.mem_map_of_mem he

theorem child?_mirror (hd : (d.map Prod.fst).Nodup) (name : Name) :
    child? (mirror d) name = (d.child? name).map Node.mirror := by
  induction d with
  | nil => rfl
  | cons e d ih =>
    obtain ⟨hnew, hrest⟩ := List.nodup_cons.mp hd
    rw [mirror, child?_append_singleton, ih hrest, child?_cons]
    split
    · rename_i heq
      rw [heq, child?_eq_none hnew]
      rfl
    · rw [Option.or_none]

end Directory

namespace Node

theorem at?_mirror {node : Node} (h : node.every Directory.hasProperNames = true)
    (names : List Name) : node.mirror.at? names = (node.at? names).map mirror := by
  induction names generalizing node with
  | nil => rw [at?_nil, at?_nil]; rfl
  | cons name names ih =>
    cases node with
    | file content => rfl
    | link target => rfl
    | directory d =>
      obtain ⟨hnames, _, hbelow⟩ := Directory.isProper_iff.mp h
      rw [mirror, at?_cons, at?_cons, Directory.child?_mirror hnames]
      cases hfound : Directory.child? d name with
      | none => rfl
      | some inner => exact ih (hbelow _ (Directory.mem_of_child? hfound))

end Node

namespace FileSystem
variable {fs : FileSystem} {root : Path}

def mirrored (fs : FileSystem) : FileSystem := { fs with top := Directory.mirror fs.top }

theorem relisted_mirrored (fs : FileSystem) : fs.Relisted fs.mirrored :=
  ⟨Directory.relisted_mirror fs.top, rfl⟩

theorem find_mirrored (hproper : fs.top.isProper = true) (goal : Goal) (path : Path) :
    fs.mirrored.find goal path = (fs.find goal path).map Node.mirror := by
  rw [find, find, (relisted_mirrored fs).locate_eq hproper]
  cases fs.locate goal path with
  | error e => rfl
  | ok location =>
    have hnode : fs.mirrored.node? location = (fs.node? location).map Node.mirror :=
      Node.at?_mirror hproper location
    simp only [bind, Except.bind, hnode]
    cases fs.node? location <;> rfl

/-- What a root gives is the root itself, or nothing, and then what is below it; of that the mirror
image gives the reverse. -/
theorem leaves_mirrored (hproper : fs.top.isProper = true) (root : Path) :
    ∃ front d, (front = [] ∨ front = [⟨root, root.lastName⟩]) ∧ Directory.isProper d = true ∧
      fs.leaves root = front ++ leavesBelow root d ∧
      fs.mirrored.leaves root = front ++ (leavesBelow root d).reverse := by
  rw [leaves, leaves, find_mirrored hproper]
  cases hentry : fs.find .entry root with
  | error e => exact ⟨[], [], .inl rfl, rfl, rfl, rfl⟩
  | ok node =>
    cases node with
    | file content => exact ⟨[⟨root, root.lastName⟩], [], .inr rfl, rfl, rfl, rfl⟩
    | directory d =>
      exact ⟨[], d, .inl rfl, isProper_of_find hproper hentry, rfl,
        Directory.leavesBelow_mirror root d⟩
    | link target =>
      simp only [Except.map, Node.mirror, find_mirrored hproper]
      cases htarget : fs.find .target root with
      | error e => exact ⟨[], [], .inl rfl, rfl, rfl, rfl⟩
      | ok node =>
        cases node with
        | file content => exact ⟨[⟨root, root.lastName⟩], [], .inr rfl, rfl, rfl, rfl⟩
        | link target => exact ⟨[⟨root, root.lastName⟩], [], .inr rfl, rfl, rfl, rfl⟩
        | directory d =>
          exact ⟨[⟨root, root.lastName⟩], d, .inr rfl, isProper_of_find hproper htarget, rfl,
            congrArg (List.cons _) (Directory.leavesBelow_mirror root d)⟩

end FileSystem
end SourceMerge
