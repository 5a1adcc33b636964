import SourceMerge.FileSystem

/-! The entries at or below a root that are not directories. Links below the root are not
followed, and a directory for build products is passed over with all below it. -/
namespace SourceMerge

/-- The name of directories that hold build products. -/
def buildDirectory : Name := Utf8.encode "obj".toList

/-- An entry that is not a directory: its path, and its name as the last part of it. -/
structure Leaf where
  path : Path
  name : Name
  deriving DecidableEq

mutual

/-- The leaves of an entry that has a name and a path. -/
def Node.leaves (path : Path) (name : Name) : Node → List Leaf
  | .file _ => [⟨path, name⟩]
  | .link _ => [⟨path, name⟩]
  | .directory entries => if name = buildDirectory then [] else leavesBelow path entries

/-- The leaves below the directory at a path. -/
def leavesBelow (path : Path) : List (Name × Node) → List Leaf
  | [] => []
  | (name, node) :: rest => node.leaves (path.child name) name ++ leavesBelow path rest

end

theorem leavesBelow_eq_flatMap (path : Path) (d : Directory) :
    leavesBelow path d = d.flatMap fun e => e.2.leaves (path.child e.1) e.1 := by
  induction d with
  | nil => simp [leavesBelow]
  | cons e d ih => simp [leavesBelow, ih]

namespace FileSystem

/-- The leaves that a root gives. A root that is a link counts as a leaf, and what it leads to is
searched as well; a root that leads nowhere gives nothing. -/
def leaves (fs : FileSystem) (root : Path) : List Leaf :=
  match fs.find .entry root with
  | .error _ => []
  | .ok (.file _) => [⟨root, root.lastName⟩]
  | .ok (.directory entries) => leavesBelow root entries
  | .ok (.link _) =>
    match fs.find .target root with
    | .error _ => []
    | .ok (.directory entries) => ⟨root, root.lastName⟩ :: leavesBelow root entries
    | .ok _ => [⟨root, root.lastName⟩]

end FileSystem
end SourceMerge
