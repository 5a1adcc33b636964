import SourceMerge.Proofs.Collection.Visible

/-! What is collected at another path. The places in a tree decide which files are taken and in which
order; the path that leads to the tree is only put in front of them. -/
namespace SourceMerge

namespace Directory
open Collection
variable {d : Directory} {language : Language} {role : Role} {place : Place} {root : Path}

/-- The places below a directory that take a role. -/
def placesOf (language : Language) (role : Role) (d : Directory) : List Place :=
  (placesBelow d).filter fun place => Name.role language place.2 = role

/-- The places of the sources in the order in which they are merged. -/
def sourcePlaces (language : Language) (d : Directory) : List Place :=
  Text.sortOn Place.shown (placesOf language .source d)

/-- The place of the file for global usings. -/
def seedPlace? (language : Language) (d : Directory) : Option Place :=
  (placesOf language .globalUsings d).getLast?

theorem mem_placesOf_iff (hrole : role ≠ .ignored) :
    place ∈ placesOf language role d ↔ d.Eligible language role place.1 place.2 := by
  rw [placesOf, List.mem_filter, decide_eq_true_eq, mem_placesBelow_iff, Name.role_eq_iff hrole]
  constructor
  · rintro ⟨⟨node, hholds, hnode, hway⟩, hnamed⟩
    exact ⟨⟨node, hholds, hnode⟩, hway, hnamed⟩
  · rintro ⟨⟨node, hholds, hnode⟩, hway, hnamed⟩
    exact ⟨⟨node, hholds, hnode, hway⟩, hnamed⟩

theorem withRole_leavesBelow (language : Language) (role : Role) (root : Path) (d : Directory) :
    withRole language role (leavesBelow root d) = (placesOf language role d).map root.leafAt := by
  rw [leavesBelow_eq_map, withRole, List.filter_map]
  rfl

/-- The path that leads to a directory stands in front of all that is collected below it, and
changes neither the choice nor the order. -/
theorem ofLeaves_leavesBelow (hd : d.isProper = true) (language : Language) (root : Path) :
    ofLeaves language (leavesBelow root d) =
      ⟨(sourcePlaces language d).map root.reach, (seedPlace? language d).map root.reach⟩ := by
  have hshown : ∀ place ∈ placesOf language .source d,
      (root.reach place).display = Utf8.decodeLossy root.base ++ place.shown := by
    intro place hplace
    obtain ⟨⟨node, hholds, _⟩, _⟩ := (mem_placesOf_iff (by decide)).mp hplace
    exact Path.display_reach (hholds.isEntry hd)
  rw [ofLeaves_eq, withRole_leavesBelow, withRole_leavesBelow, List.map_map, List.map_map,
    List.getLast?_map]
  exact congrArg (Collection.mk · _) (Text.sortOn_map hshown)

end Directory
end SourceMerge
