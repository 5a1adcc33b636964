import SourceMerge.FileSystem.Leaves
import SourceMerge.Proofs.FileSystem.Below

/-! Where the leaves below a directory stand in it. A place is a way of names and a last name, and
says nothing of the path that leads to the directory. -/
namespace SourceMerge

/-- A way of names from a directory, and the name at the end of it. -/
abbrev Place := List Name × Name

/-- The bytes of a place behind the path that leads to it. -/
def Place.bytes (place : Place) : Bytes := place.1.flatMap (· ++ [Path.slash]) ++ place.2

/-- The text that a place adds to the path that leads to it. -/
def Place.shown (place : Place) : Text := Utf8.decodeLossy place.bytes

namespace Path
variable {root : Path} {place : Place}

/-- The path of a place below a root. -/
def reach (root : Path) (place : Place) : Path := (root.below place.1).child place.2

/-- The leaf at a place below a root. -/
def leafAt (root : Path) (place : Place) : Leaf := ⟨root.reach place, place.2⟩

theorem bytes_reach (h : ∀ n ∈ place.1 ++ [place.2], Name.isEntry n = true) :
    (root.reach place).bytes = root.base ++ place.bytes := bytes_child_below h

/-- A path below a root is shown as the root, and behind it as its place. -/
theorem display_reach (h : ∀ n ∈ place.1 ++ [place.2], Name.isEntry n = true) :
    (root.reach place).display = Utf8.decodeLossy root.base ++ place.shown := by
  rw [display, bytes_reach h, decodeLossy_base_append, Place.shown]

end Path

mutual

/-- The places of the leaves of an entry, in the directory that holds it. -/
def Node.places (name : Name) : Node → List Place
  | .file _ => [([], name)]
  | .link _ => [([], name)]
  | .directory entries =>
    if name = buildDirectory then []
    else (placesBelow entries).map fun place => (name :: place.1, place.2)

/-- The places of the leaves below a directory. -/
def placesBelow : List (Name × Node) → List Place
  | [] => []
  | (name, node) :: rest => node.places name ++ placesBelow rest

end

namespace Directory
variable {d : Directory} {place : Place}

theorem placesBelow_eq_flatMap (d : Directory) :
    placesBelow d = d.flatMap fun e => e.2.places e.1 := by
  induction d with
  | nil => rfl
  | cons e d ih => rw [placesBelow, ih, List.flatMap_cons]

/-- The leaves below a directory stand at their places, whatever path leads to the directory. -/
theorem leavesBelow_eq_map (root : Path) (d : Directory) :
    leavesBelow root d = (placesBelow d).map root.leafAt := by
  induction d using induction_inner generalizing root with
  | step d ih =>
    rw [leavesBelow_eq_flatMap, placesBelow_eq_flatMap, List.map_flatMap]
    refine List.flatMap_congr fun e he => ?_
    obtain ⟨name, node⟩ := e
    cases node with
    | file content => rfl
    | link target => rfl
    | directory inner =>
      rw [Node.leaves, Node.places]
      split
      · rfl
      · rw [ih name inner he, List.map_map]
        rfl

theorem mem_places_iff {node : Node} {name : Name} : place ∈ node.places name ↔
    (node.isLeaf = true ∧ place = ([], name)) ∨
      ∃ inner rest, node = .directory inner ∧ name ≠ buildDirectory ∧
        rest ∈ placesBelow inner ∧ place = (name :: rest.1, rest.2) := by
  cases node with
  | file content => simp [Node.places, Node.isLeaf]
  | link target => simp [Node.places, Node.isLeaf]
  | directory inner =>
    by_cases hbuild : name = buildDirectory <;> simp [Node.places, Node.isLeaf, hbuild, eq_comm]

/-- The places of leaves are those of the entries that no build directory hides. -/
theorem mem_placesBelow_iff : place ∈ placesBelow d ↔
    ∃ node, d.Holds place.1 place.2 node ∧ node.isLeaf = true ∧ buildDirectory ∉ place.1 := by
  constructor
  · -- along the tree: a leaf of an entry is a leaf of the directory, one name further down
    intro hplace
    induction d using induction_inner generalizing place with
    | step d ih =>
      rw [placesBelow_eq_flatMap] at hplace
      obtain ⟨⟨name, node⟩, he, hplace⟩ := List.mem_flatMap.mp hplace
      rcases mem_places_iff.mp hplace with ⟨hnode, rfl⟩ | ⟨inner, rest, rfl, hname, hrest, rfl⟩
      · exact ⟨node, .here he, hnode, List.not_mem_nil⟩
      · obtain ⟨found, hfound, hleaf, hway⟩ := ih _ _ he hrest
        refine ⟨found, .deeper he hfound, hleaf, ?_⟩
        rw [List.mem_cons, not_or]
        exact ⟨Ne.symm hname, hway⟩
  · rintro ⟨node, hholds, hnode, hway⟩
    obtain ⟨way, last⟩ := place
    simp only at hholds hway
    induction hholds with
    | here h =>
      rw [placesBelow_eq_flatMap]
      exact List.mem_flatMap.mpr ⟨_, h, mem_places_iff.mpr (.inl ⟨hnode, rfl⟩)⟩
    | deeper h _ ih =>
      rw [List.mem_cons, not_or] at hway
      rw [placesBelow_eq_flatMap]
      exact List.mem_flatMap.mpr ⟨_, h, mem_places_iff.mpr
        (.inr ⟨_, _, rfl, Ne.symm hway.1, ih hnode hway.2, rfl⟩)⟩

end Directory
end SourceMerge
