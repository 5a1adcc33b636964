import SourceMerge.Proofs.Collection.Visible
import SourceMerge.Proofs.FileSystem.Mirrored
import SourceMerge.Proofs.FileSystem.Writing

/-! Saving merged texts in the project. Files that are ignored, or that stand below a directory for
build products, can be added, removed and changed with no effect on a merge; so a merged text that
is saved under such a name is not merged again. -/
namespace SourceMerge

namespace Directory
variable {d : Directory} {language : Language} {name : Name} {node : Node} {way : List Name}

/-- A place below a directory where a file can be saved that no merge sees. -/
structure TakesUnseen (d : Directory) (language : Language) (way : List Name) (name : Name) :
    Prop extends d.TakesFile way name where
  unseen : Name.role language name = .ignored ∨ buildDirectory ∈ way

/-- Putting an entry is not seen if it looks like what was there before. -/
theorem visible_put (h : node.visible language name =
      (d.child? name).elim [] (·.visible language name)) :
    visible language (d.put name node) = visible language d := by
  induction d with
  | nil => exact (List.append_nil _).trans h
  | cons e d ih =>
    obtain ⟨first, old⟩ := e
    rw [child?_cons] at h
    rw [put]
    split
    · rename_i heq
      rw [if_pos heq.symm] at h
      rw [visible, visible, h, heq]
      rfl
    · rename_i hne
      rw [if_neg (Ne.symm hne)] at h
      rw [visible, visible, ih h]

/-- A file that is ignored, or has a build directory on its way, is written unseen. -/
theorem visible_insert (h : d.TakesUnseen language way name) (content : Except OsError Bytes) :
    visible language (d.insert (.file content) (way ++ [name])) = visible language d := by
  obtain ⟨hfile, hout⟩ := h
  induction way generalizing d with
  | nil =>
    have hrole : Name.role language name = .ignored := by simpa using hout
    refine visible_put ?_
    cases hfound : d.child? name with
    | none => simp [Node.visible, hrole]
    | some node =>
      have hkind : (Node.directory d).kindAt? [name] = some node.kind := by
        rw [Node.kindAt?_cons, hfound, Option.bind_some, Node.kindAt?_nil]
      have hnode := hfile.place _ hkind
      cases node with
      | file old => simp [Node.visible, hrole]
      | link target => contradiction
      | directory inner => contradiction
  | cons first way ih =>
    -- the directory that changes looks the same, since nothing is seen of it or by induction
    obtain ⟨inner, hfirst, _⟩ := HasDirectory.cons_iff.mp hfile.parent
    rw [List.cons_append, insert_below hfirst]
    refine visible_put ?_
    rw [hfirst, Option.elim_some, Node.visible, Node.visible]
    split
    · rfl
    · rename_i hne
      rw [ih (hfile.of_cons hfirst) (by simpa [Ne.symm hne] using hout)]

end Directory

namespace FileSystem
open Directory Collection
variable {fs : FileSystem} {root : Path} {d : Directory} {language : Language} {way : List Name}
  {name : Name}

theorem HasProject.writeFile (h : fs.HasProject root d) (hfile : d.TakesFile way name)
    (content : Bytes) : (fs.writeFile ((root.below way).child name) content).HasProject root
      (d.insert (.file (.ok content)) (way ++ [name])) := by
  obtain ⟨location, hlocate, hnode⟩ := find_eq_ok.mp h.found
  have hway := hfile.parent.isEntry h.proper
  rw [writeFile_child_below hlocate hnode hway hfile]
  exact ⟨find_insertAt hlocate hnode hfile (.ok content),
    isProper_insert h.proper hfile.parent hfile.named rfl,
    isLinkFree_insert h.linkFree hfile.parent rfl⟩

/-- Merges what a root leads to and saves the text at a path. There is nothing to save if the merge
fails. -/
def saveMerged (fs : FileSystem) (root : Path) (language : Language) (path : Path) : FileSystem :=
  match fs.mergedText root language with
  | .ok text => fs.writeText path text
  | .error _ => fs

/-- Saving a merged text unseen leaves what a merge sees as it was, and all places that took a
file. -/
theorem HasProject.saveMerged (h : fs.HasProject root d)
    (hplace : d.TakesUnseen language way name) :
    ∃ d', (fs.saveMerged root language ((root.below way).child name)).HasProject root d' ∧
      visible language d' = visible language d ∧
      ∀ others other, d.TakesFile others other → d'.TakesFile others other := by
  unfold FileSystem.saveMerged
  cases fs.mergedText root language with
  | error e => exact ⟨d, h, rfl, fun _ _ hother => hother⟩
  | ok text =>
    exact ⟨_, h.writeFile hplace.toTakesFile _, visible_insert hplace _,
      fun _ _ hother => hplace.toTakesFile.insert _ hother⟩

/-- Merges below a root and saves the text at one place after the other, each a way from the root
and a name. -/
def saveAll (fs : FileSystem) (root : Path) (language : Language)
    (places : List (List Name × Name)) : FileSystem :=
  places.foldl (fun fs place => fs.saveMerged root language ((root.below place.1).child place.2)) fs

theorem HasProject.saveAll (h : fs.HasProject root d) {places : List (List Name × Name)}
    (hplaces : ∀ place ∈ places, d.TakesUnseen language place.1 place.2) :
    ∃ d', (fs.saveAll root language places).HasProject root d' ∧
      visible language d' = visible language d := by
  induction places generalizing fs d with
  | nil => exact ⟨d, h, rfl⟩
  | cons place places ih =>
    rw [List.forall_mem_cons] at hplaces
    obtain ⟨next, hnext, hseen, htakes⟩ := h.saveMerged hplaces.1
    have hrest : ∀ place ∈ places, next.TakesUnseen language place.1 place.2 := fun place hmem =>
      ⟨htakes _ _ (hplaces.2 place hmem).toTakesFile, (hplaces.2 place hmem).unseen⟩
    obtain ⟨last, hlast, hseen'⟩ := ih hnext hrest
    exact ⟨last, hlast, hseen'.trans hseen⟩

theorem role_encode (language : Language) (t : Text) :
    Name.role language (Utf8.encode t) = Role.ofName language t := by
  rw [Name.role, Utf8.decode?_eq_some_iff.mpr rfl]
  rfl

/-- The names under which merged texts are saved are ignored. -/
theorem role_merged (t : Text) :
    Name.role .go (Utf8.encode ("_merged".toList ++ t)) = .ignored ∧
      Name.role .csharp (Utf8.encode (t ++ "merged.cs".toList)) = .ignored := by
  have hgo : Role.isPackagedSource ("_merged".toList ++ t) = false := by
    simp only [Role.isPackagedSource, Text.beginsWith_iff.mpr ⟨t, rfl⟩, Bool.not_true,
      Bool.and_false]
  have hcsharp : Role.isNamespacedSource (t ++ "merged.cs".toList) = false := by
    simp only [Role.isNamespacedSource, Text.endsIn_iff.mpr ⟨t, rfl⟩, Bool.not_true,
      Bool.and_false, Bool.false_and]
  rw [role_encode, role_encode, Role.ofName, Role.ofName, hgo, hcsharp]
  exact ⟨rfl, rfl⟩

/-- What a merge does not see has no influence on it. Changes that are not seen leave the collection
and the merged text as they were; where the names of directories are UTF-8 and there are no two
files for global usings, they may change the order of the listing as well. So a merged text can be
saved unseen below the root any number of times, and under the names for merged texts it always
is. -/
theorem merge_editedUnseen (h : fs.HasProject root d) (language : Language) :
    (∀ (fs' : FileSystem) d', fs'.HasProject root d' → EditedUnseen language d d' →
      fs'.collection root language = fs.collection root language ∧
        fs'.mergedText root language = fs.mergedText root language) ∧
    (∀ (fs' : FileSystem) d', fs'.HasProject root d' → SameFiles language d d' →
      (∀ way name, Eligible d language .source way name → ∀ n ∈ way, ∃ t, n = Utf8.encode t) →
      (withRole language .globalUsings (fs.leaves root)).length ≤ 1 →
      fs'.collection root language = fs.collection root language ∧
        fs'.mergedText root language = fs.mergedText root language) ∧
    (∀ places : List (List Name × Name),
      (∀ place ∈ places, d.TakesUnseen language place.1 place.2) →
      (fs.saveAll root language places).mergedText root language =
        fs.mergedText root language) ∧
    ∀ t, Name.role .go (Utf8.encode ("_merged".toList ++ t)) = .ignored ∧
      Name.role .csharp (Utf8.encode (t ++ "merged.cs".toList)) = .ignored := by
  refine ⟨fun fs' d' h' hedited => h.merge_eq_of_visible_eq h' hedited.visible_eq,
    fun fs' d' h' hfiles htext hone => h.merge_eq_of_sameFiles h' hfiles htext hone, ?_,
    role_merged⟩
  intro places hplaces
  obtain ⟨d', h', hseen⟩ := h.saveAll hplaces
  exact (h.merge_eq_of_visible_eq h' hseen).2

/-- The sample project without its build products, and with a note at the top. -/
def tidiedProject : FileSystem where
  top := [(buildDirectory, .directory []),
    (Utf8.encode "GlobalUsings.cs".toList, .file (.ok [])),
    (Utf8.encode "notes".toList, .file (.ok [0x21])), (Utf8.encode "A.cs".toList, .file (.ok []))]
  working := []

theorem merge_editedUnseen_sampleProject :
    sampleProject.HasProject (.ofText ['.']) sampleProject.top ∧
      tidiedProject.mergedText (.ofText ['.']) .csharp =
        sampleProject.mergedText (.ofText ['.']) .csharp ∧
      tidiedProject.mirrored.mergedText (.ofText ['.']) .csharp =
        sampleProject.mergedText (.ofText ['.']) .csharp ∧
      (sampleProject.saveAll (.ofText ['.']) .csharp
          [([], Utf8.encode "merged.cs".toList), ([], Utf8.encode "merged.cs".toList)]).mergedText
            (.ofText ['.']) .csharp = sampleProject.mergedText (.ofText ['.']) .csharp := by
  have hsample : sampleProject.HasProject (.ofText ['.']) sampleProject.top :=
    ⟨find_sampleProject, by decide, by decide⟩
  have htidied : tidiedProject.HasProject (.ofText ['.']) tidiedProject.top :=
    ⟨find_eq_ok.mpr ⟨[], locate_dot _ _, rfl⟩, by decide, by decide⟩
  have hmirrored : tidiedProject.mirrored.HasProject (.ofText ['.']) tidiedProject.mirrored.top :=
    ⟨find_eq_ok.mpr ⟨[], locate_dot _ _, rfl⟩, by decide, by decide⟩
  have hedited : EditedUnseen .csharp sampleProject.top tidiedProject.top :=
    .build _ _ (.keep _ (.add rfl (by decide) (.keep _ .nil)))
  have hfiles : SameFiles .csharp sampleProject.top tidiedProject.mirrored.top :=
    .trans (.of_visible_eq hedited.visible_eq)
      (.of_relisted (relisted_mirror _) htidied.proper hmirrored.proper)
  have htext : ∀ way name, sampleProject.top.Eligible .csharp .source way name →
      ∀ n ∈ way, ∃ t, n = Utf8.encode t := by
    intro way name h n hn
    rw [(eligible_sampleProject h).1] at hn
    contradiction
  have hone :
      (withRole .csharp .globalUsings (sampleProject.leaves (.ofText ['.']))).length ≤ 1 := by
    rw [leaves_of_find find_sampleProject]
    decide
  have hplace : sampleProject.top.TakesUnseen .csharp [] (Utf8.encode "merged.cs".toList) :=
    ⟨⟨by decide, .refl _, fun kind hkind => by contradiction⟩, .inl (by decide)⟩
  obtain ⟨hedit, hlist, hsave, _⟩ := merge_editedUnseen hsample .csharp
  refine ⟨hsample, (hedit _ _ htidied hedited).2, (hlist _ _ hmirrored hfiles htext hone).2,
    hsave _ ?_⟩
  rw [List.forall_mem_cons, List.forall_mem_singleton]
  exact ⟨hplace, hplace⟩

end FileSystem
end SourceMerge
