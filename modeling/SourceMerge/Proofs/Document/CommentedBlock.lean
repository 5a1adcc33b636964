import SourceMerge.Proofs.Declaration.BlockEntry
import SourceMerge.Proofs.Document.Readings

/-! Comments in import blocks. A block is read by the first words of its lines, and so a comment is
ignored only if it reaches up to the end of a line of its own or if a blank stands before it. Any
other comment declares an import, which shows in the merged document unless the same import is seen
there anyway. -/
namespace SourceMerge
open Text

namespace Document
open Import

/-- The import paths that are read before some place in a file. -/
def pathsBefore (front : List Source) (before : List Text) : List Text :=
  front.flatMap (fun source => source.record.paths) ++ (Mode.outside.read .blank before).paths

/-- The import paths that are read behind some place in a block. -/
def pathsBehind (rest : List Text) (back : List Source) : List Text :=
  (Mode.inBlock.read .blank rest).paths ++ back.flatMap fun source => source.record.paths

section Exchange
variable {before rest : List Text} {source source' : Source}
  (hbefore : Mode.outside.after before = .inBlock)
include hbefore

theorem record_inBlock {lines : List Text} (hlines : source.lines = before ++ (lines ++ rest))
    (hopen : ∀ line ∈ lines, closesBlock line = false) :
    source.record = Mode.outside.read .blank before ++
      (.ofPaths (lines.filterMap entryPath?) ++ Mode.inBlock.read .blank rest) := by
  rw [Source.record, hlines, Mode.read_append, hbefore, Mode.read_entries hopen]

theorem items_inBlock (front back : List Source) {lines : List Text}
    (hlines : source.lines = before ++ (lines ++ rest))
    (hopen : ∀ line ∈ lines, closesBlock line = false) :
    (ofPackaged (front ++ source :: back)).declarations.items =
      firstSeen (pathsBefore front before ++
        (lines.filterMap entryPath? ++ pathsBehind rest back)) := by
  rw [items_ofPackaged, List.flatMap_append, List.flatMap_cons, record_inBlock hbefore hlines hopen]
  simp [pathsBefore, pathsBehind, Record.ofPaths, List.append_assoc]

/-- Lines in a block may stand in for others if they declare the same, or if what they declare is
seen anyway. -/
theorem ofPackaged_exchanged (front back : List Source) {old new : List Text}
    (hold : ∀ line ∈ old, closesBlock line = false)
    (hnew : ∀ line ∈ new, closesBlock line = false) {o n : Option Text}
    (ho : old.filterMap entryPath? = o.toList) (hn : new.filterMap entryPath? = n.toList)
    (hlines : source.lines = before ++ (old ++ rest))
    (hlines' : source'.lines = before ++ (new ++ rest)) (hpath : source'.path = source.path) :
    (ofPackaged (front ++ source' :: back)).enclosure =
        (ofPackaged (front ++ source :: back)).enclosure ∧
      (ofPackaged (front ++ source' :: back)).bodies =
        (ofPackaged (front ++ source :: back)).bodies ∧
      (ofPackaged (front ++ source' :: back) = ofPackaged (front ++ source :: back) ↔
        o = n ∨ ∀ path, o = some path ∨ n = some path →
          SeenAnyway (pathsBefore front before) (pathsBehind rest back) path) := by
  have hrecord := record_inBlock hbefore hlines hold
  have hrecord' := record_inBlock hbefore hlines' hnew
  obtain ⟨henclosure, hbodies, hiff⟩ := ofPackaged_replaced front back hpath
    (by rw [hrecord, hrecord']; rfl) (by rw [hrecord, hrecord']; rfl)
  refine ⟨henclosure, hbodies, hiff.trans ?_⟩
  have htrim : ∀ path, o = some path ∨ n = some path → path.trim = path ∧ path ≠ [] :=
    fun path hpath => hpath.elim (trim_of_filterMap ho path) (trim_of_filterMap hn path)
  rw [items_inBlock hbefore front back hlines hold, items_inBlock hbefore front back hlines' hnew,
    ho, hn, eq_comm]
  exact firstSeen_exchange_iff htrim

section Comment
variable (front back : List Source) (hpath : source'.path = source.path)
include hpath

/-- A comment on a line of its own is ignored if it reaches up to the end of the line; otherwise its
first word is an import path. -/
theorem ofPackaged_ownComment_iff {a c b : Text} (ha : AllBlank a) (hc : IsComment c)
    (hb : AllBlank b) (hlines : source.lines = before ++ rest)
    (hlines' : source'.lines = before ++ (a ++ c ++ b) :: rest) :
    (ofPackaged (front ++ source' :: back)).enclosure =
        (ofPackaged (front ++ source :: back)).enclosure ∧
      (ofPackaged (front ++ source' :: back)).bodies =
        (ofPackaged (front ++ source :: back)).bodies ∧
      (ofPackaged (front ++ source' :: back) = ofPackaged (front ++ source :: back) ↔
        beginsWith "//".toList c = true ∨
          SeenAnyway (pathsBefore front before) (pathsBehind rest back)
            (trimQuotes c.firstWord)) := by
  have hnone : [].filterMap entryPath? = (none : Option Text).toList := rfl
  have hentry : [a ++ c ++ b].filterMap entryPath? =
      (if beginsWith "//".toList c then none else some (trimQuotes c.firstWord)).toList := by
    rw [filterMap_singleton, entryPath?_padded ha hb, hc.entryPath?]
  obtain ⟨henclosure, hbodies, hiff⟩ := ofPackaged_exchanged hbefore front back
    (List.forall_mem_nil _) (List.forall_mem_singleton.mpr (hc.closesBlock_padded ha b)) hnone
    hentry hlines hlines' hpath
  refine ⟨henclosure, hbodies, hiff.trans ?_⟩
  cases beginsWith "//".toList c with
  | true => simp
  | false => simp

/-- A comment behind an entry is ignored if a blank stands before it; otherwise it is attached to
the path. -/
theorem ofPackaged_trailingComment_iff {e gap c : Text} (he : QuotedEntry e) (hgap : AllBlank gap)
    (hc : IsComment c) (hlines : source.lines = before ++ e :: rest)
    (hlines' : source'.lines = before ++ (e ++ gap ++ c) :: rest) :
    (ofPackaged (front ++ source' :: back)).enclosure =
        (ofPackaged (front ++ source :: back)).enclosure ∧
      (ofPackaged (front ++ source' :: back)).bodies =
        (ofPackaged (front ++ source :: back)).bodies ∧
      (ofPackaged (front ++ source' :: back) = ofPackaged (front ++ source :: back) ↔
        (∃ k ∈ (e ++ gap).trimStart, isBlank k = true) ∨
          ∀ path, entryPath? e = some path ∨ entryPath? (e ++ gap ++ c) = some path →
            SeenAnyway (pathsBefore front before) (pathsBehind rest back) path) := by
  obtain ⟨s, rfl⟩ := hc.exists_cons
  have hclosed : closesBlock e = false := by simpa using he.closesBlock_append []
  have hclosed' : closesBlock (e ++ gap ++ '/' :: s) = false :=
    (he.append_blanks hgap).closesBlock_append _
  obtain ⟨henclosure, hbodies, hiff⟩ := ofPackaged_exchanged hbefore front back
    (List.forall_mem_singleton.mpr hclosed) (List.forall_mem_singleton.mpr hclosed')
    (filterMap_singleton e) (filterMap_singleton (e ++ gap ++ '/' :: s)) hlines hlines' hpath
  refine ⟨henclosure, hbodies, hiff.trans ?_⟩
  have hslash : isBlank '/' = false := by decide
  have hblanks : entryPath? (e ++ gap) = entryPath? e := by simpa using entryPath?_padded allBlank_nil hgap e
  rw [← (he.append_blanks hgap).entryPath?_append_iff (s := s) hslash (by decide), hblanks,
    eq_comm (a := entryPath? e)]

/-- A comment in an import block never changes the package or the bodies. The declarations stay the
same exactly if the comment is ignored, or if what is read on its line, with the comment and without
it, is seen anyway. -/
theorem ofPackaged_commented_iff {d d' : Document} (hd : d = ofPackaged (front ++ source :: back))
    (hd' : d' = ofPackaged (front ++ source' :: back)) :
    (∀ a c b, AllBlank a → IsComment c → AllBlank b → source.lines = before ++ rest →
        source'.lines = before ++ (a ++ c ++ b) :: rest →
          d'.enclosure = d.enclosure ∧ d'.bodies = d.bodies ∧
            (d' = d ↔ beginsWith "//".toList c = true ∨
              SeenAnyway (pathsBefore front before) (pathsBehind rest back)
                (trimQuotes c.firstWord))) ∧
      (∀ e gap c, QuotedEntry e → AllBlank gap → IsComment c →
        source.lines = before ++ e :: rest → source'.lines = before ++ (e ++ gap ++ c) :: rest →
          d'.enclosure = d.enclosure ∧ d'.bodies = d.bodies ∧
            (d' = d ↔ (∃ k ∈ (e ++ gap).trimStart, isBlank k = true) ∨
              ∀ path, entryPath? e = some path ∨ entryPath? (e ++ gap ++ c) = some path →
                SeenAnyway (pathsBefore front before) (pathsBehind rest back) path)) := by
  subst hd hd'
  constructor
  · intro a c b ha hc hb hlines hlines'
    exact ofPackaged_ownComment_iff hbefore front back hpath ha hc hb hlines hlines'
  · intro e gap c he hgap hc hlines hlines'
    exact ofPackaged_trailingComment_iff hbefore front back hpath he hgap hc hlines hlines'

end Comment
end Exchange

/-- A file that imports one package in a block. -/
def importFile (lines : List Text) : Source :=
  ⟨.ofText ['f'], unlines ("import (".toList :: lines ++ [[')'], []])⟩

theorem lines_importFile : (importFile ["\t\"fmt\"".toList]).lines = ["import (".toList] ++
    ["\t\"fmt\"".toList, [')'], []] := by decide

def closedComment : Text := "/* std */".toList

theorem isComment_closedComment : IsComment closedComment :=
  .closed (by decide : includes "*/".toList " std ".toList = false)

theorem quotedEntry_fmt : QuotedEntry "\t\"fmt\"".toList :=
  quotedEntry_importLine (by decide : '"' ∉ "fmt".toList)

/-- The opening of a comment shows as an import, on a line of its own and directly behind an entry,
but not behind a blank. -/
theorem ofPackaged_commented_iff_importFile :
    ofPackaged [importFile ['\t' :: closedComment, "\t\"fmt\"".toList]] ≠
        ofPackaged [importFile ["\t\"fmt\"".toList]] ∧
      ofPackaged [importFile ["\t\"fmt\"".toList ++ closedComment]] ≠
        ofPackaged [importFile ["\t\"fmt\"".toList]] ∧
      ofPackaged [importFile ["\t\"fmt\" ".toList ++ closedComment]] =
        ofPackaged [importFile ["\t\"fmt\"".toList]] := by
  have hbefore : Mode.outside.after ["import (".toList] = .inBlock := by decide
  have htab : AllBlank ['\t'] := by simp [AllBlank, isBlank]
  have hspace : AllBlank [' '] := by simp [AllBlank, isBlank]
  have hpath (lines : List Text) :
      (importFile lines).path = (importFile ["\t\"fmt\"".toList]).path := rfl
  obtain ⟨_, _, hown⟩ := (ofPackaged_commented_iff hbefore [] []
    (hpath ['\t' :: closedComment, "\t\"fmt\"".toList]) rfl rfl).1 ['\t'] closedComment [] htab
    isComment_closedComment allBlank_nil lines_importFile (by decide)
  obtain ⟨_, _, hattached⟩ := (ofPackaged_commented_iff hbefore [] []
    (hpath ["\t\"fmt\"".toList ++ closedComment]) rfl rfl).2 _ [] closedComment quotedEntry_fmt
    allBlank_nil isComment_closedComment lines_importFile (by decide)
  obtain ⟨_, _, hapart⟩ := (ofPackaged_commented_iff hbefore [] []
    (hpath ["\t\"fmt\" ".toList ++ closedComment]) rfl rfl).2 _ [' '] closedComment
    quotedEntry_fmt hspace isComment_closedComment lines_importFile (by decide)
  refine ⟨?_, ?_, hapart.mpr (.inl ⟨' ', by decide, by decide⟩)⟩
  · intro hsame
    exact absurd (hown.mp hsame) (by decide +kernel)
  · intro hsame
    rcases hattached.mp hsame with ⟨k, hk, hblank⟩ | hseen
    · have hword : (trimStart ("\t\"fmt\"".toList ++ [])).all (!isBlank ·) = true := by decide
      have hk := List.all_eq_true.mp hword k hk
      simp [hblank] at hk
    · have hfmt := hseen "fmt".toList (.inl (by decide))
      revert hfmt
      decide +kernel

theorem not_forall_ofPackaged_commented :
    (¬ ∀ before rest (source source' : Source) front back a c b,
        Mode.outside.after before = .inBlock → source'.path = source.path → AllBlank a →
          IsComment c → AllBlank b → source.lines = before ++ rest →
            source'.lines = before ++ (a ++ c ++ b) :: rest →
              ofPackaged (front ++ source' :: back) = ofPackaged (front ++ source :: back)) ∧
      ¬ ∀ before rest (source source' : Source) front back e gap c,
        Mode.outside.after before = .inBlock → source'.path = source.path → QuotedEntry e →
          AllBlank gap → IsComment c → source.lines = before ++ e :: rest →
            source'.lines = before ++ (e ++ gap ++ c) :: rest →
              ofPackaged (front ++ source' :: back) = ofPackaged (front ++ source :: back) := by
  have hfmt : (ofPackaged [importFile ["\t\"fmt\"".toList]]).declarations.items =
      ["fmt".toList] := by decide +kernel
  constructor
  · intro h
    have hsame := h ["import (".toList] _ (importFile ["\t\"fmt\"".toList])
      (importFile [closedComment, "\t\"fmt\"".toList]) [] [] [] closedComment [] (by decide) rfl
      allBlank_nil isComment_closedComment allBlank_nil lines_importFile (by decide)
    have hitems := (congrArg (fun d => d.declarations.items) hsame).trans hfmt
    revert hitems
    decide +kernel
  · intro h
    have hsame := h ["import (".toList] _ (importFile ["\t\"fmt\"".toList])
      (importFile ["\t\"fmt\"".toList ++ closedComment]) [] [] _ [] closedComment (by decide) rfl
      quotedEntry_fmt allBlank_nil isComment_closedComment lines_importFile (by decide)
    have hitems := (congrArg (fun d => d.declarations.items) hsame).trans hfmt
    revert hitems
    decide +kernel

end Document
end SourceMerge
