import SourceMerge.Proofs.FileSystem.Below

/-! Following paths. Where a path leads depends only on which places hold files, directories and
links, and a path below a root goes where the root leads and from there along the names. -/
namespace SourceMerge

/-- What an entry is to the resolution of a path. -/
inductive Node.Kind
  | file
  | directory
  | link (target : Path)

def Node.kind : Node → Kind
  | .file _ => .file
  | .directory _ => .directory
  | .link target => .link target

namespace FileSystem
open SourceMerge.Path (Step)
variable {fs fs' : FileSystem} {goal : Goal} {links : Nat} {here location : List Name}

theorem node?_append (fs : FileSystem) (names others : List Name) :
    fs.node? (names ++ others) = (fs.node? names).bind (·.at? others) :=
  Node.at?_append _ _ _

/-- A step depends on what kind of entry it meets. -/
theorem walk_entry (fs : FileSystem) (goal : Goal) (links : Nat) (here : List Name) (name : Name)
    (rest : List Step) : fs.walk goal links here (.entry name :: rest) =
      match (fs.node? (here ++ [name])).map Node.kind with
      | none => if rest.isEmpty && goal == .site then .ok (here ++ [name]) else .error .notFound
      | some .directory => fs.walk goal links (here ++ [name]) rest
      | some .file => if rest.isEmpty then .ok (here ++ [name]) else .error .notDirectory
      | some (.link target) =>
        if rest.isEmpty && goal == .entry then .ok (here ++ [name])
        else match links with
          | 0 => .error .tooManyLinks
          | links + 1 =>
            fs.walk goal links (if target.isAbsolute then [] else here) (target.steps ++ rest) := by
  rw [walk]
  rcases fs.node? (here ++ [name]) with _ | _ | _ | _ <;> rfl

theorem walk_target_link {name : Name} {target : Path}
    (h : fs.node? (here ++ [name]) = some (.link target)) (rest : List Step) :
    fs.walk .target (links + 1) here (.entry name :: rest) =
      fs.walk .target links (if target.isAbsolute then [] else here) (target.steps ++ rest) := by
  rw [walk_entry, h]
  simp [Node.kind]

/-- A walk ends at an entry: there is nothing, a file, or a link when no more may be followed. -/
def StopsAt (fs : FileSystem) (links : Nat) (place : List Name) : Prop :=
  (fs.node? place).map Node.kind = none ∨ (fs.node? place).map Node.kind = some .file ∨
    links = 0 ∧ ∃ target, (fs.node? place).map Node.kind = some (.link target)

/-- Proves a property of all walks: of one that is over, of each step from which a walk goes on, and
of a step to an entry where it ends. -/
theorem walk_induction (fs : FileSystem) {P : Nat → List Name → List Step → Prop}
    (done : ∀ links here, P links here [])
    (stay : ∀ links here rest, P links here rest → P links here (.stay :: rest))
    (parent : ∀ links here rest, P links here.dropLast rest → P links here (.parent :: rest))
    (enter : ∀ links here name rest d, fs.node? (here ++ [name]) = some (.directory d) →
      P links (here ++ [name]) rest → P links here (.entry name :: rest))
    (follow : ∀ links here name rest target, fs.node? (here ++ [name]) = some (.link target) →
      P links (if target.isAbsolute then [] else here) (target.steps ++ rest) →
      P (links + 1) here (.entry name :: rest))
    (stop : ∀ links here name rest, fs.StopsAt links (here ++ [name]) →
      P links here (.entry name :: rest))
    (links : Nat) (here : List Name) (steps : List Step) : P links here steps := by
  induction links, here, steps using walk.induct fs .target with
  | case1 links here => exact done links here
  | case2 links here rest ih => exact stay links here rest ih
  | case3 links here rest ih => exact parent links here rest ih
  | case6 links here name rest d hentry ih => exact enter links here name rest d hentry ih
  | case11 here name rest target hentry _ links ih =>
    exact follow links here name rest target hentry ih
  | case4 | case5 | case7 | case8 | case9 | case10 =>
    apply stop
    simp_all [StopsAt, Node.kind]

/-- Paths lead to the same places where the same places hold files, directories and links. -/
theorem walk_congr (h : ∀ l, (fs.node? l).map Node.kind = (fs'.node? l).map Node.kind)
    (goal : Goal) (links : Nat) (here : List Name) (steps : List Step) :
    fs'.walk goal links here steps = fs.walk goal links here steps := by
  induction links, here, steps using fs.walk_induction with
  | done links here => rw [walk, walk]
  | stay links here rest ih => rw [walk, walk, ih]
  | parent links here rest ih => rw [walk, walk, ih]
  | enter links here name rest d hentry ih =>
    rw [walk_entry, walk_entry, ← h, hentry]
    exact ih
  | follow links here name rest target hentry ih =>
    rw [walk_entry, walk_entry, ← h, hentry]
    simp only [Option.map_some, Node.kind, ih]
  | stop links here name rest hstop =>
    rw [walk_entry, walk_entry, ← h]
    rcases hstop with hkind | hkind | ⟨rfl, target, hkind⟩ <;> rw [hkind]

/-- A step that stays asks for a directory, and so does a step after it. -/
theorem walk_stay_append (fs : FileSystem) (links : Nat) (here : List Name) (first : List Step)
    {rest : List Step} (hne : rest ≠ []) :
    fs.walk .target links here (first ++ .stay :: rest) =
      fs.walk .target links here (first ++ rest) := by
  induction links, here, first using fs.walk_induction with
  | done => rw [List.nil_append, List.nil_append, walk]
  | stay links here steps ih => rw [List.cons_append, List.cons_append, walk, walk, ih]
  | parent links here steps ih => rw [List.cons_append, List.cons_append, walk, walk, ih]
  | enter links here name steps d hentry ih =>
    rw [List.cons_append, List.cons_append, walk_entry, walk_entry, hentry]
    exact ih
  | follow links here name steps target hentry ih =>
    rw [List.cons_append, List.cons_append, walk_target_link hentry, walk_target_link hentry,
      ← List.append_assoc, ← List.append_assoc]
    exact ih
  | stop links here name steps hstop =>
    rw [List.cons_append, List.cons_append, walk_entry, walk_entry]
    rcases hstop with hkind | hkind | ⟨rfl, target, hkind⟩ <;> simp [hkind, hne]

/-- A walk that leads to a directory does not stop on its way, nor end at a link. -/
theorem not_stopsAt {name : Name} {steps : List Step} {d : Directory}
    (hwalk : fs.walk goal links here (.entry name :: steps) = .ok location)
    (hnode : fs.node? location = some (.directory d)) :
    ¬ fs.StopsAt links (here ++ [name]) := by
  intro hstop
  rw [walk_entry] at hwalk
  rcases hstop with hkind | hkind | ⟨rfl, target, hkind⟩ <;>
    simp_all [ite_eq_iff, Node.kind]

/-- A link on a walk to a directory is followed. -/
theorem walk_link {name : Name} {steps : List Step} {d : Directory} {target : Path}
    (hwalk : fs.walk goal (links + 1) here (.entry name :: steps) = .ok location)
    (hnode : fs.node? location = some (.directory d))
    (hentry : fs.node? (here ++ [name]) = some (.link target)) :
    (steps.isEmpty && goal == .entry) = false ∧
      fs.walk goal links (if target.isAbsolute then [] else here) (target.steps ++ steps) =
        .ok location := by
  rw [walk_entry, hentry] at hwalk
  simp only [Option.map_some, Node.kind] at hwalk
  split at hwalk
  · simp_all
  · rename_i hfollow
    exact ⟨Bool.eq_false_iff.mpr hfollow, hwalk⟩

/-- Where steps lead to a directory, further steps go on from there. -/
theorem walk_append {first : List Step} {d : Directory}
    (hwalk : fs.walk goal links here first = .ok location)
    (hnode : fs.node? location = some (.directory d)) (rest : List Step) :
    ∃ left, fs.walk .target links here (first ++ rest) = fs.walk .target left location rest := by
  induction links, here, first using fs.walk_induction with
  | done links here =>
    rw [walk] at hwalk
    exact ⟨links, by rw [Except.ok.inj hwalk, List.nil_append]⟩
  | stay links here steps ih | parent links here steps ih =>
    rw [walk] at hwalk
    rw [List.cons_append, walk]
    exact ih hwalk
  | enter links here name steps d hentry ih =>
    rw [walk_entry, hentry] at hwalk
    rw [List.cons_append, walk_entry, hentry]
    exact ih hwalk
  | follow links here name steps target hentry ih =>
    rw [List.cons_append, walk_target_link hentry, ← List.append_assoc]
    exact ih (walk_link hwalk hnode hentry).2
  | stop links here name steps hstop => exact absurd hstop (not_stopsAt hwalk hnode)

/-- Names of a tree lead to what the tree holds there. -/
theorem walk_entries {names : List Name} {node : Node} (hlink : node.isLink = false)
    (hnode : fs.node? (here ++ names) = some node) :
    fs.walk .target links here (names.map .entry) = .ok (here ++ names) := by
  induction names generalizing here with
  | nil => rw [List.map_nil, walk, List.append_nil]
  | cons name names ih =>
    have hassoc : here ++ name :: names = (here ++ [name]) ++ names := by simp
    rw [hassoc] at hnode ⊢
    rw [node?_append] at hnode
    obtain ⟨inner, hinner, hbelow⟩ := Option.bind_eq_some_iff.mp hnode
    rw [List.map_cons, walk_entry, hinner]
    cases inner with
    | file content =>
      cases names with
      | nil => simp [Node.kind]
      | cons => contradiction
    | link target =>
      cases names with
      | nil => cases hbelow; contradiction
      | cons => contradiction
    | directory d => exact ih (by rw [node?_append, hinner]; exact hbelow)

/-- Names of a tree lead nowhere if the directory at which they end lacks the last one. -/
theorem walk_absent {names : List Name} {name : Name} {d : Directory}
    (hnode : fs.node? (here ++ names) = some (.directory d)) (habsent : d.child? name = none) :
    fs.walk .target links here ((names ++ [name]).map .entry) = .error .notFound := by
  obtain ⟨left, hleft⟩ := walk_append (walk_entries rfl hnode) hnode [.entry name]
  have hnone : fs.node? (here ++ names ++ [name]) = none := by
    rw [node?_append, hnode, Option.bind_some, Node.at?_cons, habsent]
    rfl
  rw [List.map_append, List.map_singleton, hleft, walk_entry, hnone]
  rfl

section Paths
variable {root path : Path} {d : Directory} {node : Node} {way : List Name} {name : Name}

theorem locate_eq_ok : fs.locate goal path = .ok location ↔
    path.bytes ≠ [] ∧ fs.walk goal maxLinks (fs.startOf path) path.steps = .ok location := by
  rw [locate]
  split <;> simp_all

theorem find_eq_ok : fs.find goal path = .ok node ↔
    ∃ location, fs.locate goal path = .ok location ∧ fs.node? location = some node := by
  rw [find]
  cases fs.locate goal path with
  | error e => simp [bind, Except.bind]
  | ok location => cases h : fs.node? location <;> simp [bind, Except.bind, h]

theorem isProper_of_find (hproper : fs.top.isProper = true)
    (h : fs.find goal path = .ok (.directory d)) : d.isProper = true := by
  obtain ⟨location, _, hnode⟩ := find_eq_ok.mp h
  exact Node.every_of_at? hproper hnode

/-- The path that stays where it is leads to the working directory. -/
theorem locate_dot (fs : FileSystem) (goal : Goal) :
    fs.locate goal (.ofText ['.']) = .ok fs.working := by
  have hsteps : (Path.ofText ['.']).steps = [.stay] := by decide
  have hrelative : (Path.ofText ['.']).isAbsolute = false := by decide
  rw [locate_eq_ok, hsteps, startOf, hrelative, walk, walk]
  exact ⟨by decide, rfl⟩

/-- A path below a root starts where the root starts. -/
theorem startOf_child_below (hne : root.bytes ≠ []) :
    fs.startOf ((root.below way).child name) = fs.startOf root := by
  obtain ⟨rest, hrest⟩ := Path.bytes_prefix_child_below root way name
  obtain ⟨first, bytes, hbytes⟩ := List.exists_cons_of_ne_nil hne
  rw [startOf, startOf, Path.isAbsolute, Path.isAbsolute, ← hrest, hbytes]
  rfl

/-- A path below a directory leads there first and then along its names. -/
theorem walk_child_below (hroot : fs.locate goal root = .ok location)
    (hnode : fs.node? location = some (.directory d))
    (hnames : ∀ n ∈ way ++ [name], Name.isEntry n = true) :
    ∃ left, fs.walk .target maxLinks (fs.startOf ((root.below way).child name))
        ((root.below way).child name).steps =
      fs.walk .target left location ((way ++ [name]).map .entry) := by
  obtain ⟨hne, hwalk⟩ := locate_eq_ok.mp hroot
  obtain ⟨left, hleft⟩ := walk_append hwalk hnode ((way ++ [name]).map .entry)
  refine ⟨left, ?_⟩
  rw [startOf_child_below hne, Path.steps_child_below hnames, ← hleft, Path.steps_eq]
  split
  · -- a slash at the end of the root asks for the directory that the names ask for as well
    rw [List.append_assoc, List.singleton_append, walk_stay_append]
    simp
  · rw [List.append_nil]

/-- What a directory holds is found at the path of its entry. -/
theorem find_child_below (hroot : fs.find goal root = .ok (.directory d))
    (hnames : ∀ n ∈ way ++ [name], Name.isEntry n = true)
    (hnode : (Node.directory d).at? (way ++ [name]) = some node) (hlink : node.isLink = false) :
    fs.find .target ((root.below way).child name) = .ok node := by
  obtain ⟨location, hlocate, hd⟩ := find_eq_ok.mp hroot
  have hfound : fs.node? (location ++ (way ++ [name])) = some node := by
    rw [node?_append, hd]
    exact hnode
  obtain ⟨left, hleft⟩ := walk_child_below hlocate hd hnames
  refine find_eq_ok.mpr ⟨location ++ (way ++ [name]), ?_, hfound⟩
  rw [locate_eq_ok, hleft]
  exact ⟨Path.bytes_child_ne_nil (Path.isEntry_last hnames), walk_entries hlink hfound⟩

/-- What a directory on the way lacks is not found at the path that its entry would have. -/
theorem find_child_below_absent {inner : Directory} (hroot : fs.find goal root = .ok (.directory d))
    (hnames : ∀ n ∈ way ++ [name], Name.isEntry n = true)
    (hway : (Node.directory d).at? way = some (.directory inner))
    (habsent : inner.child? name = none) :
    fs.find .target ((root.below way).child name) = .error .notFound := by
  obtain ⟨location, hlocate, hd⟩ := find_eq_ok.mp hroot
  obtain ⟨left, hleft⟩ := walk_child_below hlocate hd hnames
  have hend : fs.node? (location ++ way) = some (.directory inner) := by
    rw [node?_append, hd]
    exact hway
  have hne : ((root.below way).child name).bytes.isEmpty = false :=
    List.isEmpty_eq_false_iff.mpr (Path.bytes_child_ne_nil (Path.isEntry_last hnames))
  rw [find, locate, hne, if_neg Bool.false_ne_true, hleft, walk_absent hend habsent]
  rfl

theorem read_child_below {content : Except OsError Bytes}
    (hroot : fs.find goal root = .ok (.directory d))
    (hnames : ∀ n ∈ way ++ [name], Name.isEntry n = true)
    (hfile : (Node.directory d).at? (way ++ [name]) = some (.file content)) :
    fs.read ((root.below way).child name) = content := by
  rw [read, find_child_below hroot hnames hfile rfl]
  rfl

end Paths

end FileSystem
end SourceMerge
