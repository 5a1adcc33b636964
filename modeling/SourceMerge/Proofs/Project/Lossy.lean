import SourceMerge.Project
import SourceMerge.Proofs.Document.LineEndings
import SourceMerge.Proofs.FileSystem.Walk
import SourceMerge.Proofs.Text.RawLines

/-! Source files that are not UTF-8. The bytes of a file fall into lines before they are read, so that
bytes that make up no character are lost within their own line. -/
namespace SourceMerge

namespace Utf8

/-- The bytes of a byte-order mark. -/
def markBytes : Bytes := [0xEF, 0xBB, 0xBF]

theorem encodeChar_byteOrderMark : encodeChar byteOrderMark = markBytes := by decide

/-- A line is what is read of a piece: its characters, and one replacement character for each
maximal subpart between them. -/
def ReadsAs (piece : Bytes) (line : Text) : Prop :=
  ∃ units, Decodes piece units ∧ line = units.map (·.getD replacement)

theorem readsAs_iff {piece : Bytes} {line : Text} :
    ReadsAs piece line ↔ decodeLossy piece = line := by
  constructor
  · rintro ⟨units, hunits, rfl⟩
    rw [decodeLossy, decodes_iff.mp hunits]
  · rintro rfl
    exact ⟨_, decodes_units piece, rfl⟩

/-- The lines of bytes with a newline among them are those before it and those behind it. -/
theorem rawLines_append (front back : Bytes) :
    rawLines (front ++ 0x0A :: back) = rawLines front ++ rawLines back := by
  rw [rawLines, List.splitOn_append_cons_self, List.map_append, rawLines, rawLines]

end Utf8

namespace Source
open Utf8
variable {path : Path} {bytes : Bytes}

theorem content_decodeLossy (h : ¬ markBytes <+: bytes) :
    (ofContent path (decodeLossy bytes)).content = decodeLossy bytes := by
  apply content_ofContent
  intro hmark
  have hfront := isPrefix_of_head?_decodeLossy (by decide) hmark
  exact h (encodeChar_byteOrderMark ▸ hfront)

theorem content_decodeLossy_mark (path : Path) (bytes : Bytes) :
    (ofContent path (decodeLossy (markBytes ++ bytes))).content = decodeLossy bytes := by
  rw [← encodeChar_byteOrderMark, decodeLossy_encodeChar_append]
  rfl

end Source

namespace FileSystem
open Utf8
variable {fs : FileSystem} {path : Path} {bytes : Bytes}

/-- A file that can be read has the lines of its bytes without a byte-order mark in front, each read
for itself. Valid UTF-8 is read as the text it was written for. -/
theorem source_lines_eq (hzero : 0 ∉ path.bytes) (hread : fs.read path = .ok bytes) :
    ∃ source, fs.read.source path = .ok source ∧ source.path = path ∧
      (¬ markBytes <+: bytes → source.lines = (rawLines bytes).map decodeLossy) ∧
      (∀ rest, bytes = markBytes ++ rest → source.lines = (rawLines rest).map decodeLossy) ∧
      (∀ front back, rawLines (front ++ 0x0A :: back) = rawLines front ++ rawLines back) ∧
      (∀ piece line, decodeLossy piece = line ↔ ReadsAs piece line) ∧
      (∀ t, ¬ markBytes <+: bytes → bytes = encode t → source.content = t) ∧
      ∀ t, bytes = markBytes ++ encode t → source.content = t := by
  refine ⟨.ofContent path (decodeLossy bytes), by simp [Reader.source, hzero, hread], rfl, ?_, ?_,
    rawLines_append, fun _ _ => readsAs_iff.symm, ?_, ?_⟩
  · intro hmark
    rw [Source.lines, Source.content_decodeLossy hmark, lines_decodeLossy]
  · rintro rest rfl
    rw [Source.lines, Source.content_decodeLossy_mark, lines_decodeLossy]
  · rintro t hmark rfl
    rw [Source.content_decodeLossy hmark, decodeLossy_encode]
  · rintro t rfl
    rw [Source.content_decodeLossy_mark, decodeLossy_encode]

/-- A file in which characters are cut off before a return, a newline and the end. -/
def truncated : FileSystem where
  top := [(encode ['a'], .file (.ok [0x61, 0xC3, 0x0D, 0x0A, 0xE2, 0x82, 0x0A, 0x62, 0xF0, 0x9F]))]
  working := []

theorem source_lines_eq_truncated :
    ∃ source, truncated.read.source ((Path.ofText ['.']).child (encode ['a'])) = .ok source ∧
      source.lines = [['a', replacement], [replacement], ['b', replacement]] := by
  have hroot : truncated.find .entry (.ofText ['.']) = .ok (.directory truncated.top) :=
    find_eq_ok.mpr ⟨[], locate_dot _ _, rfl⟩
  have hname : ∀ n ∈ ([] : List Name) ++ [encode ['a']], Name.isEntry n = true := by decide
  have hread : truncated.read ((Path.ofText ['.']).child (encode ['a'])) =
      .ok [0x61, 0xC3, 0x0D, 0x0A, 0xE2, 0x82, 0x0A, 0x62, 0xF0, 0x9F] :=
    read_child_below hroot hname rfl
  obtain ⟨source, hsource, _, hlines, _⟩ := source_lines_eq (by decide) hread
  exact ⟨source, hsource, (hlines (by decide)).trans (by decide)⟩

end FileSystem
end SourceMerge
