import SourceMerge.Proofs.FileSystem.Inserting

/-! Writing a file below a root. The way to a directory that is there is opened without a change,
the file is put into the tree below the root, and the root still leads to that tree. -/
namespace SourceMerge.FileSystem
open SourceMerge.Path (Step)
variable {fs fs' : FileSystem} {goal : Goal} {links : Nat} {here location : List Name}

section Walks

/-- A walk to a directory passes through the place where its first steps end, and with no fewer
links those steps lead there by themselves. -/
theorem walk_split {first rest : List Step} {d : Directory}
    (hwalk : fs.walk goal links here (first ++ rest) = .ok location)
    (hnode : fs.node? location = some (.directory d)) :
    ∃ middle left, left ≤ links ∧ fs.walk goal left middle rest = .ok location ∧
      ∀ more, links ≤ more → fs.walk .target more here first = .ok middle := by
  induction links, here, first using fs.walk_induction with
  | done links here =>
    refine ⟨here, links, Nat.le_refl _, hwalk, fun more _ => ?_⟩
    rw [walk]
  | stay links here steps ih | parent links here steps ih =>
    rw [List.cons_append, walk] at hwalk
    simpa only [walk] using ih hwalk
  | enter links here name steps d hentry ih =>
    rw [List.cons_append, walk_entry, hentry] at hwalk
    simpa only [walk_entry, hentry, Option.map_some, Node.kind] using ih hwalk
  | follow links here name steps target hentry ih =>
    rw [List.cons_append] at hwalk
    obtain ⟨_, hfollow⟩ := walk_link hwalk hnode hentry
    rw [← List.append_assoc] at hfollow
    obtain ⟨middle, left, hleft, hrest, hfirst⟩ := ih hfollow
    refine ⟨middle, left, Nat.le_succ_of_le hleft, hrest, fun more hmore => ?_⟩
    obtain ⟨more, rfl⟩ := Nat.exists_eq_add_of_le' (Nat.le_trans (Nat.le_add_left 1 _) hmore)
    rw [walk_target_link hentry]
    exact hfirst more (Nat.le_of_succ_le_succ hmore)
  | stop links here name steps hstop => exact absurd hstop (not_stopsAt hwalk hnode)

/-- A walk to a directory goes the same way where more places hold entries. -/
theorem walk_mono (hkind : ∀ l kind, (fs.node? l).map Node.kind = some kind →
      (fs'.node? l).map Node.kind = some kind) {steps : List Step} {d : Directory}
    (hwalk : fs.walk goal links here steps = .ok location)
    (hnode : fs.node? location = some (.directory d)) :
    fs'.walk goal links here steps = .ok location := by
  induction links, here, steps using fs.walk_induction with
  | done links here =>
    rw [walk] at hwalk ⊢
    exact hwalk
  | stay links here steps ih | parent links here steps ih =>
    rw [walk] at hwalk ⊢
    exact ih hwalk
  | enter links here name steps d hentry ih =>
    rw [walk_entry, hentry] at hwalk
    rw [walk_entry, hkind _ _ (congrArg (Option.map Node.kind) hentry)]
    exact ih hwalk
  | follow links here name steps target hentry ih =>
    obtain ⟨hgoes, hfollow⟩ := walk_link hwalk hnode hentry
    rw [walk_entry, hkind _ _ (congrArg (Option.map Node.kind) hentry)]
    simp only [Node.kind, hgoes, Bool.false_eq_true, if_false]
    exact ih hfollow
  | stop links here name steps hstop => exact absurd hstop (not_stopsAt hwalk hnode)

end Walks

section Ways
variable {d : Directory} {root : Path} {way : List Name} {name : Name}

theorem openWay_cons {step : Step} {rest : List Step}
    (h : fs.walk .target maxLinks here [step] = .ok location) :
    fs.openWay here (step :: rest) = fs.openWay location rest := by
  simp only [openWay, h]

theorem openWay_append (fs : FileSystem) (here : List Name) (first rest : List Step) :
    fs.openWay here (first ++ rest) =
      (fs.openWay here first).1.openWay (fs.openWay here first).2 rest := by
  induction first generalizing fs here with
  | nil => rfl
  | cons step first ih =>
    rw [List.cons_append]
    cases hwalk : fs.walk .target maxLinks here [step] with
    | ok location =>
      rw [openWay_cons hwalk, openWay_cons hwalk]
      exact ih _ _
    | error e => cases step <;> simp only [openWay, hwalk] <;> exact ih _ _

/-- A way that leads to a directory is open. -/
theorem openWay_of_walk {steps : List Step} (hlinks : links ≤ maxLinks)
    (hwalk : fs.walk goal links here steps = .ok location)
    (hnode : fs.node? location = some (.directory d)) :
    fs.openWay here steps = (fs, location) := by
  induction steps generalizing links here with
  | nil =>
    rw [walk] at hwalk
    rw [openWay, Except.ok.inj hwalk]
  | cons step rest ih =>
    have hstep : fs.walk goal links here ([step] ++ rest) = .ok location := hwalk
    obtain ⟨middle, left, hleft, hrest, hfirst⟩ := walk_split hstep hnode
    rw [openWay_cons (hfirst maxLinks hlinks)]
    exact ih (Nat.le_trans hleft hlinks) hrest

/-- The names of a path to a directory lead there. -/
theorem exists_walk_names (hlocate : fs.locate goal root = .ok location)
    (hnode : fs.node? location = some (.directory d)) :
    ∃ goal, fs.walk goal maxLinks (fs.startOf root) (root.names.map Step.ofName) =
      .ok location := by
  obtain ⟨_, hwalk⟩ := locate_eq_ok.mp hlocate
  rw [Path.steps_eq] at hwalk
  split at hwalk
  · obtain ⟨middle, left, _, hrest, hfirst⟩ := walk_split hwalk hnode
    rw [walk, walk] at hrest
    rw [← Except.ok.inj hrest]
    exact ⟨.target, hfirst maxLinks (Nat.le_refl _)⟩
  · rw [List.append_nil] at hwalk
    exact ⟨goal, hwalk⟩

/-- A file that can be written below a root is put into the tree there. -/
theorem writeFile_child_below (hlocate : fs.locate goal root = .ok location)
    (hnode : fs.node? location = some (.directory d)) (hway : ∀ n ∈ way, Name.isEntry n = true)
    (hfile : d.TakesFile way name) (content : Bytes) :
    fs.writeFile ((root.below way).child name) content =
      fs.insertAt (location ++ (way ++ [name])) (.file (.ok content)) := by
  have hnames : ∀ n ∈ way ++ [name], Name.isEntry n = true := by
    rw [List.forall_mem_append, List.forall_mem_singleton]
    exact ⟨hway, hfile.named⟩
  have hsteps : ((root.below way).child name).steps =
      (root.names.map Step.ofName ++ way.map .entry) ++ [.entry name] := by
    rw [Path.steps_child_below hnames, List.map_append, List.append_assoc]
    rfl
  have hstart : fs.startOf ((root.below way).child name) = fs.startOf root :=
    startOf_child_below (locate_eq_ok.mp hlocate).1
  obtain ⟨inner, hparent⟩ := hfile.parent
  have hinner : fs.node? (location ++ way) = some (.directory inner) := by
    rw [node?_append, hnode]
    exact hparent
  obtain ⟨first, hfirst⟩ := exists_walk_names hlocate hnode
  have hroot := openWay_of_walk (Nat.le_refl _) hfirst hnode
  have hdown := openWay_of_walk (Nat.le_refl _) (walk_entries rfl hinner) hinner
  have hopen : fs.openParent ((root.below way).child name) = (fs, location ++ way, some name) := by
    simp only [openParent, hstart, hsteps, List.dropLast_concat, List.getLast?_concat,
      openWay_append, hroot, hdown]
  have hplace := (hfile.below hnode).place
  have hsite : fs.walk .site maxLinks (location ++ way) [.entry name] =
      .ok (location ++ way ++ [name]) := by
    rw [walk_entry]
    cases hkind : (fs.node? (location ++ way ++ [name])).map Node.kind with
    | none => rfl
    | some kind =>
      rw [hplace kind hkind]
      rfl
  rw [writeFile, hopen]
  simp only [hsite, List.append_assoc]

/-- The root of a tree in which a file is written leads to the tree with that file. -/
theorem find_insertAt (hlocate : fs.locate goal root = .ok location)
    (hnode : fs.node? location = some (.directory d)) (hfile : d.TakesFile way name)
    (content : Except OsError Bytes) :
    (fs.insertAt (location ++ (way ++ [name])) (.file content)).find goal root =
      .ok (.directory (d.insert (.file content) (way ++ [name]))) := by
  have htop := hfile.below hnode
  have hkind := Directory.kindAt?_insert content htop.parent htop.not_hasDirectory
  obtain ⟨hne, hwalk⟩ := locate_eq_ok.mp hlocate
  rw [List.append_assoc] at hkind
  refine find_eq_ok.mpr ⟨location, locate_eq_ok.mpr ⟨hne, walk_mono ?_ hwalk hnode⟩, ?_⟩
  · intro l kind hl
    refine (hkind l).trans ?_
    split
    · rename_i heq
      rw [heq, ← List.append_assoc] at hl
      rw [htop.place kind hl]
    · exact hl
  · exact Directory.at?_insert_append hnode way name _

end Ways

end SourceMerge.FileSystem
