/-
# All drawings are without loose ends, and their styles are written

`Dialect.drawing_of_draw` gives the diagram that the cells of a text draw.  A text decides about a
style through the colors that it writes, and no line has a form for a color with a semicolon.  So
the entries of a written style are those that the drawing put into it.

The main statements are `Dialect.connected_of_draw` and `Dialect.exists_written_of_draw`.
-/
import UmlDraw.Dialect.Basic
import UmlDraw.Proofs.Data.Outcome
import UmlDraw.Proofs.Drawing.Activity
import UmlDraw.Proofs.Drawing.Relation
import UmlDraw.Proofs.Drawing.Sequence
import UmlDraw.Proofs.Style.Class
import UmlDraw.Proofs.Style.Description
import UmlDraw.Proofs.Style.Reader.Activity
import UmlDraw.Proofs.Style.Reader.Sequence
import UmlDraw.Proofs.Style.State
import UmlDraw.Proofs.Style.Timing

namespace UmlDraw

/-- Timing diagrams are drawn from marks, which have no ends. -/
lemma Timing.Diagram.connected_draw {d : Diagram} {parent : String} {cells : List Cell}
    (h : d.draw parent = .ok cells) : Cell.Connected parent cells := by
  obtain ⟨marks, -, hcells⟩ := Fault.bind_eq_ok_iff.1 h
  cases hcells
  exact (Mark.adds_drawAll marks _).connected

namespace Dialect

/-- In the drawing of a text, whatever its dialect, the ids of the cells are the first numbered ids,
each used once; each cell lies in the cell around the drawing or in a cell of it; and a cell with an
end has two, both shapes of the drawing. -/
theorem connected_of_draw {d : Dialect} {text parent : String} {cells : List Cell}
    (h : d.draw text parent = .ok cells) : Cell.Connected parent cells := by
  cases d with
  | classes =>
    obtain ⟨diagram, -, hcells⟩ := Fault.bind_eq_ok_iff.1 h
    cases hcells
    exact diagram.connected_draw parent
  | useCases =>
    obtain ⟨diagram, -, hcells⟩ := Fault.bind_eq_ok_iff.1 h
    cases hcells
    exact diagram.connected_draw .useCases parent
  | components =>
    obtain ⟨diagram, -, hcells⟩ := Fault.bind_eq_ok_iff.1 h
    cases hcells
    exact diagram.connected_draw .components parent
  | timing =>
    obtain ⟨diagram, -, hcells⟩ := Fault.bind_eq_ok_iff.1 h
    exact Timing.Diagram.connected_draw (Fault.mapError_eq_ok_iff.1 hcells)
  | states =>
    rw [← Except.ok.inj h]
    exact State.Diagram.connected_draw _ parent
  | activity =>
    rw [← Except.ok.inj h]
    exact Activity.Diagram.connected_draw _ parent
  | sequence =>
    obtain ⟨diagram, -, hcells⟩ := Fault.bind_eq_ok_iff.1 h
    exact Sequence.Diagram.connected_draw (Fault.mapError_eq_ok_iff.1 hcells)

/-- Two classes with a row, a link with a label at its end, and a note: the drawing has cells in
cells, and connectors with ends. -/
theorem connected_of_draw_classes : ∃ cells,
    classes.draw "class A \x7b\n+x\n\x7d\nA \"1\" -- B : x\nnote left of A: u" "g" = .ok cells ∧
      Cell.Connected "g" cells := by
  obtain ⟨cells, hcells⟩ := Fault.exists_of_isOk (by decide +kernel :
    (classes.draw "class A \x7b\n+x\n\x7d\nA \"1\" -- B : x\nnote left of A: u" "g").isOk =
      true)
  exact ⟨cells, hcells, connected_of_draw hcells⟩

/-! ### The diagram behind a drawing -/

lemma key_injective : Function.Injective key := by
  intro d e h
  cases d <;> cases e <;> first | rfl | exact absurd h (by decide)

/-- The cells draw, in a parent, the diagram of the dialect that is read from the text. -/
inductive Drawing (text parent : String) : Dialect → List Cell → Prop
  | classes {d : Class.Diagram} (hread : Class.Diagram.read text = .ok d) :
    Drawing text parent .classes (d.draw parent)
  | useCases {d : Description.Diagram} (hread : Description.Diagram.read .useCases text = .ok d) :
    Drawing text parent .useCases (d.draw .useCases parent)
  | components {d : Description.Diagram}
    (hread : Description.Diagram.read .components text = .ok d) :
    Drawing text parent .components (d.draw .components parent)
  | timing {d : Timing.Diagram} {cells : List Cell} (hread : Timing.Diagram.read text = .ok d)
    (hdraw : d.draw parent = .ok cells) : Drawing text parent .timing cells
  | states : Drawing text parent .states ((State.Diagram.read text).draw parent)
  | activity : Drawing text parent .activity ((Activity.Diagram.read text).draw parent)
  | sequence {d : Sequence.Diagram} {cells : List Cell}
    (hread : Sequence.Diagram.read text = .ok d) (hdraw : d.draw parent = .ok cells) :
    Drawing text parent .sequence cells

variable {d : Dialect} {text parent : String} {cells : List Cell}

lemma drawing_of_draw (h : d.draw text parent = .ok cells) : Drawing text parent d cells := by
  cases d with
  | classes =>
    obtain ⟨diagram, hread, hcells⟩ := Fault.bind_eq_ok_iff.1 h
    cases hcells
    exact .classes (Fault.mapError_eq_ok_iff.1 hread)
  | useCases =>
    obtain ⟨diagram, hread, hcells⟩ := Fault.bind_eq_ok_iff.1 h
    cases hcells
    exact .useCases (Fault.mapError_eq_ok_iff.1 hread)
  | components =>
    obtain ⟨diagram, hread, hcells⟩ := Fault.bind_eq_ok_iff.1 h
    cases hcells
    exact .components (Fault.mapError_eq_ok_iff.1 hread)
  | timing =>
    obtain ⟨diagram, hread, hcells⟩ := Fault.bind_eq_ok_iff.1 h
    exact .timing (Fault.mapError_eq_ok_iff.1 hread) (Fault.mapError_eq_ok_iff.1 hcells)
  | states =>
    obtain rfl := Except.ok.inj h
    exact .states
  | activity =>
    obtain rfl := Except.ok.inj h
    exact .activity
  | sequence =>
    obtain ⟨diagram, hread, hcells⟩ := Fault.bind_eq_ok_iff.1 h
    exact .sequence (Fault.mapError_eq_ok_iff.1 hread) (Fault.mapError_eq_ok_iff.1 hcells)

lemma Drawing.connected (h : Drawing text parent d cells) : Cell.Connected parent cells := by
  cases h with
  | classes _ => exact Class.Diagram.connected_draw _ parent
  | useCases _ => exact Description.Diagram.connected_draw _ .useCases parent
  | components _ => exact Description.Diagram.connected_draw _ .components parent
  | timing _ hdraw => exact Timing.Diagram.connected_draw hdraw
  | states => exact State.Diagram.connected_draw _ parent
  | activity => exact Activity.Diagram.connected_draw _ parent
  | sequence _ hdraw => exact Sequence.Diagram.connected_draw hdraw

end Dialect

/-! ### The styles of all drawings -/

open Style (Unbroken Written)

/-- The written style of a cell with known entries. -/
lemma Cell.IsPainted.exists_written {c : Cell} (h : c.IsPainted Unbroken) :
    ∃ entries, Written c.style entries := by
  obtain ⟨style, hstyle, hc⟩ := h
  exact ⟨style.entries, hc ▸ Style.Knows.written hstyle⟩

namespace Dialect

variable {d : Dialect} {text parent : String} {cells : List Cell}

/-- What a diagram that is read from a text is drawn with. -/
lemma Drawing.isPainted (h : Drawing text parent d cells) : ∀ c ∈ cells, c.IsPainted Unbroken := by
  cases h with
  | classes hread =>
    exact fun _ => (Class.Diagram.built_sketch (Class.Diagram.paints_read hread)).style_of_mem
  | useCases hread =>
    exact fun _ => (Description.Diagram.built_sketch
      (Description.Diagram.paints_read hread) .useCases).style_of_mem
  | components hread =>
    exact fun _ => (Description.Diagram.built_sketch
      (Description.Diagram.paints_read hread) .components).style_of_mem
  | timing hread hdraw =>
    obtain ⟨marks, hmarks, hcells⟩ := Fault.bind_eq_ok_iff.1 hdraw
    obtain rfl := Except.ok.inj hcells
    have hstyles := Timing.Diagram.all_marks (Timing.Diagram.paints_read hread) hmarks
    exact fun _ => (Mark.built_drawAll hstyles).style_of_mem
  | states =>
    exact fun _ => (State.Diagram.built_sketch (State.Diagram.paints_read text)).style_of_mem
  | activity =>
    exact fun _ => (Activity.Diagram.built_sketch (Activity.Diagram.paints_read text)).style_of_mem
  | sequence hread hdraw =>
    exact Sequence.Diagram.isPainted_of_mem_draw (Sequence.Diagram.paints_read hread) hdraw

/-- Every cell of a drawing, whatever the dialect, the text and the cell around the drawing, has a
style whose parts between semicolons are entries with different keys of the vocabulary.  Apart from
the colors, the values are constants and computed numbers. -/
theorem exists_written_of_draw (h : d.draw text parent = .ok cells) :
    ∀ c ∈ cells, ∃ entries, Written c.style entries :=
  fun c hc => ((drawing_of_draw h).isPainted c hc).exists_written

/-- A component, a link and a note with colors and labels that look like entries of styles. -/
theorem exists_written_of_draw_components : ∃ cells,
    components.draw "component A #red;shape=cloud\nA --[#blue;opacity=0]> [B]\nnote left of A #aaf : a;b=c"
        "g" = .ok cells ∧
      ∀ c ∈ cells, ∃ entries, Written c.style entries := by
  obtain ⟨cells, hcells⟩ := Fault.exists_of_isOk (by decide +kernel :
    (components.draw
      "component A #red;shape=cloud\nA --[#blue;opacity=0]> [B]\nnote left of A #aaf : a;b=c"
      "g").isOk = true)
  exact ⟨cells, hcells, exists_written_of_draw hcells⟩

end Dialect
end UmlDraw
