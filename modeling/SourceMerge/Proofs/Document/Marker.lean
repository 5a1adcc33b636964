import SourceMerge.Document.Render
import SourceMerge.Proofs.Declaration.LineKind
import SourceMerge.Proofs.Text.Lines
import SourceMerge.Proofs.Text.Utf8

/-! Marker lines. A marker is a comment and so declares nothing in either kind of file, and where no
line of a body looks like one, the markers show where each body begins and what file it is of. -/
namespace SourceMerge
namespace Document
open Text

theorem head?_trimStart_marker (p : Path) : p.marker.trimStart.head? = some '/' := by
  have h : p.marker = '/' :: ("/ --- ".toList ++ p.display ++ " ---".toList) := rfl
  rw [h, trimStart_cons (by decide)]
  rfl

theorem any?_marker (p : Path) : Using.any? p.marker = none := by
  apply Using.any?_eq_none_of_head? <;> rw [head?_trimStart_marker] <;> decide

theorem ofLine?_marker (p : Path) : Namespace.ofLine? p.marker = none := by
  apply Namespace.ofLine?_eq_none_of_head?
  rw [head?_trimStart_marker]
  decide

theorem of_code_marker (p : Path) : LineKind.Of p.marker .code := by
  apply LineKind.of_code_of_head? <;> rw [head?_trimStart_marker] <;> decide

theorem isLine_marker {p : Path} (h : '\n' ∉ p.display) : IsLine p.marker :=
  .enclose (by decide) h ⟨by decide, by decide⟩ (by simp)

end Document

/-- Whether a line begins and ends as a marker does. -/
def Text.looksMarked (line : Text) : Bool :=
  beginsWith "// --- ".toList line && endsIn " ---".toList line

theorem Path.looksMarked_marker (p : Path) : p.marker.looksMarked = true := by
  rw [Text.looksMarked, Bool.and_eq_true, Text.beginsWith_iff, Text.endsIn_iff]
  exact ⟨⟨p.display ++ " ---".toList, List.append_assoc _ _ _⟩, "// --- ".toList ++ p.display, rfl⟩

/-- A path in UTF-8 can be told by its marker. -/
theorem Path.eq_of_marker_eq {s t : Text} (h : (ofText s).marker = (ofText t).marker) : s = t := by
  have hdisplay := List.append_cancel_left (List.append_cancel_right h)
  rwa [display_ofText, display_ofText] at hdisplay

namespace Body

/-- A body with a path in UTF-8 that has no newline, and with no line that looks like a marker. -/
structure IsPlain (b : Body) : Prop where
  path : ∃ t, b.path = .ofText t ∧ '\n' ∉ t
  unmarked : ∀ line ∈ b.lines, line.looksMarked = false

theorem IsPlain.isLine_marker {b : Body} (h : b.IsPlain) : Text.IsLine b.path.marker := by
  obtain ⟨t, ht, hnewline⟩ := h.path
  apply Document.isLine_marker
  rwa [ht, Path.display_ofText]

theorem exists_of_mem_head? {bodies : List Body} {line : Text}
    (h : line ∈ (bodies.flatMap render).head?) : ∃ p : Path, line = p.marker := by
  cases bodies with
  | nil => contradiction
  | cons b bodies => exact ⟨b.path, (Option.some.inj h).symm⟩

theorem looksMarked_of_mem_head? {bodies : List Body} {line : Text}
    (h : line ∈ (bodies.flatMap render).head?) : line.looksMarked = true := by
  obtain ⟨p, rfl⟩ := exists_of_mem_head? h
  exact p.looksMarked_marker

/-- Plain bodies can be told by the lines that show them, one after the other. -/
theorem eq_of_flatMap_render_eq {bodies others : List Body} (hb : ∀ b ∈ bodies, b.IsPlain)
    (ho : ∀ b ∈ others, b.IsPlain) (h : bodies.flatMap render = others.flatMap render) :
    bodies = others := by
  induction bodies generalizing others with
  | nil =>
    cases others with
    | nil => rfl
    | cons c others => contradiction
  | cons b bodies ih =>
    cases others with
    | nil => contradiction
    | cons c others =>
      obtain ⟨⟨s, hs, _⟩, hlines⟩ := hb b List.mem_cons_self
      obtain ⟨⟨t, ht, _⟩, hothers⟩ := ho c List.mem_cons_self
      obtain ⟨hmarker, hrest⟩ := List.cons.inj h
      rw [hs, ht] at hmarker
      -- The lines of the first body end where the next marker stands, or at the end.
      obtain ⟨hsame, hrest⟩ := Text.run_append_inj (p := fun line => !line.looksMarked)
        (fun line hmem => by rw [hlines line hmem]; rfl)
        (fun line hmem => by rw [looksMarked_of_mem_head? hmem]; rfl)
        (fun line hmem => by rw [hothers line hmem]; rfl)
        (fun line hmem => by rw [looksMarked_of_mem_head? hmem]; rfl) hrest
      have hbodies := ih (fun b hmem => hb b (List.mem_cons_of_mem _ hmem))
        (fun b hmem => ho b (List.mem_cons_of_mem _ hmem)) hrest
      have hpath : b.path = c.path := by rw [hs, ht, Path.eq_of_marker_eq hmarker]
      obtain ⟨path, lines⟩ := b
      obtain rfl : path = c.path := hpath
      obtain rfl : lines = c.lines := hsame
      rw [hbodies]

end Body
end SourceMerge
