/-
# State diagrams grow

A line of a state diagram adds elements and transitions at the end of their lists and takes nothing
away.  A note on a transition therefore goes on to speak of the same one.

An element is put into the open part of a composite state only if it is not there, so it can stand
in several regions but in each of them once.

The main statements are `Reader.grows_step`, for a line, `Diagram.grows_read`, for a text with more
lines behind it, `Diagram.notes_read`, and `Diagram.distinct_read` for the regions.
-/
import UmlDraw.Proofs.Data.Keyed
import UmlDraw.Proofs.Layout.Grouping
import UmlDraw.Proofs.Text.Lines
import UmlDraw.State.Reader

namespace UmlDraw
namespace State

/-- The second diagram has the elements and the transitions of the first one, in their order, and
perhaps further ones behind them. -/
structure Diagram.Grows (d d' : Diagram) : Prop where
  keys : d.elements.keys <+: d'.elements.keys
  transitions : d.transitions <+: d'.transitions

namespace Diagram

lemma Grows.refl (d : Diagram) : d.Grows d :=
  ⟨List.prefix_rfl, List.prefix_rfl⟩

lemma Grows.of_eq {d d' : Diagram} (h : d'.elements = d.elements)
    (ht : d'.transitions = d.transitions) : d.Grows d' := by
  constructor
  · exact h ▸ List.prefix_rfl
  · exact ht ▸ List.prefix_rfl

lemma Grows.trans {d d' d'' : Diagram} (h : d.Grows d') (h' : d'.Grows d'') : d.Grows d'' :=
  ⟨h.keys.trans h'.keys, h.transitions.trans h'.transitions⟩

lemma grows_mention (d : Diagram) (code display : String) (kind : ElementKind) :
    d.Grows (d.mention code display kind) := by
  refine ⟨?_, List.prefix_rfl⟩
  unfold mention
  dsimp only
  split
  · exact Keyed.keys_prefix_modify _ _ _
  · exact Keyed.keys_prefix_insert _ _ _

lemma grows_change (d : Diagram) (code : String) (f : Element → Element) :
    d.Grows (d.change code f) :=
  ⟨Keyed.keys_prefix_modify _ _ _, List.prefix_rfl⟩

lemma grows_adopt (d : Diagram) (parent code : String) : d.Grows (d.adopt parent code) := by
  unfold adopt
  split
  · exact .refl d
  · split
    · exact (grows_change d code _).trans (grows_change _ parent _)
    · exact .refl d

lemma notes_adopt (d : Diagram) (parent code : String) : (d.adopt parent code).notes = d.notes := by
  unfold adopt
  split
  · rfl
  · split <;> rfl

end Diagram

namespace Reader

/-- The diagram grows, but no note is written, opened or closed. -/
structure Grows (r r' : Reader) : Prop where
  diagram : r.diagram.Grows r'.diagram
  notes : r'.diagram.notes = r.diagram.notes
  note : r'.note = r.note

lemma Grows.refl (r : Reader) : r.Grows r :=
  ⟨.refl _, rfl, rfl⟩

lemma Grows.trans {r r' r'' : Reader} (h : r.Grows r') (h' : r'.Grows r'') : r.Grows r'' :=
  ⟨h.diagram.trans h'.diagram, h'.notes.trans h.notes, h'.note.trans h.note⟩

lemma grows_change (r : Reader) (code : String) (f : Element → Element) :
    r.Grows (r.change code f) :=
  ⟨Diagram.grows_change _ _ _, rfl, rfl⟩

lemma grows_place (r : Reader) (code : String) : r.Grows (r.place code) := by
  unfold place
  split
  · exact .refl r
  · split
    · exact .refl r
    · exact ⟨Diagram.grows_adopt _ _ _, Diagram.notes_adopt _ _ _, rfl⟩

lemma grows_mention (r : Reader) (code display : String) (kind : ElementKind) :
    r.Grows (r.mention code display kind) := by
  have hmention : r.Grows { r with diagram := r.diagram.mention code display kind } :=
    ⟨Diagram.grows_mention _ _ _ _, rfl, rfl⟩
  exact hmention.trans (grows_place _ code)

lemma grows_resolve (r : Reader) (isSource : Bool) (p : EndPoint) :
    r.Grows (r.resolve isSource p).1 := by
  cases p with
  | historyOf owner deep =>
    refine ⟨?_, Diagram.notes_adopt _ _ _, rfl⟩
    exact ((Diagram.grows_mention _ _ _ _).trans (Diagram.grows_mention _ _ _ _)).trans
      (Diagram.grows_adopt _ _ _)
  | _ => exact grows_mention r _ _ _

lemma grows_describe (r : Reader) (code display : String) (kind : ElementKind)
    (f : Element → Element) :
    r.Grows (({ r with diagram := r.diagram.mention code display kind }.change code f).place
      code) := by
  have hmention : r.Grows { r with diagram := r.diagram.mention code display kind } :=
    ⟨Diagram.grows_mention _ _ _ _, rfl, rfl⟩
  exact (hmention.trans (grows_change _ code f)).trans (grows_place _ code)

lemma grows_declare (r : Reader) (d : Declaration) (descriptions : List String) :
    r.Grows (r.declare d descriptions) :=
  grows_describe r _ _ _ _

lemma grows_addTransition (r : Reader) (t : Transition) : r.Grows (r.addTransition t) := by
  have happend : r.Grows
      { r with diagram := { r.diagram with transitions := r.diagram.transitions ++ [t] } } :=
    ⟨⟨List.prefix_rfl, List.prefix_append _ _⟩, rfl, rfl⟩
  unfold addTransition
  dsimp only
  split
  · exact happend
  · exact happend.trans (grows_change _ _ _)

lemma grows_connect (r : Reader) (source target : Mention) (head : TransitionHead) :
    r.Grows (r.connect source target head) := by
  have hboth := (grows_resolve r true source.point).trans (grows_resolve _ false target.point)
  exact ((hboth.trans (grows_change _ _ _)).trans (grows_change _ _ _)).trans
    (grows_addTransition _ _)

lemma grows_divide (r : Reader) (s : Separator) : r.Grows (r.divide s) := by
  unfold divide
  split
  · exact .refl r
  · exact grows_change r _ _

/-- What a line with a meaning adds; only a note line touches the notes. -/
lemma grows_apply (r : Reader) (l : Line) :
    r.diagram.Grows (r.apply l).diagram ∧ ((∀ n, l ≠ .note n) → r.Grows (r.apply l)) := by
  have hrest : ∀ {r' : Reader}, r.Grows r' → r.diagram.Grows r'.diagram ∧
      ((∀ n, l ≠ .note n) → r.Grows r') := fun h => ⟨h.diagram, fun _ => h⟩
  cases l with
  | title | direction | hideEmpty | nothing | blockEnd => exact hrest ⟨.of_eq rfl rfl, rfl, rfl⟩
  | composite d =>
    have h := grows_declare r d []
    exact hrest ⟨h.diagram, h.notes, h.note⟩
  | declare d description => exact hrest (grows_declare r d _)
  | describe name text => exact hrest (grows_describe r _ _ _ _)
  | separator s => exact hrest (grows_divide r s)
  | transition source target head => exact hrest (grows_connect r source target head)
  | note n => exact ⟨by cases n <;> exact .of_eq rfl rfl, fun h => absurd rfl (h n)⟩

/-- What a line adds. -/
theorem grows_step (r : Reader) (line : SourceLine) : r.diagram.Grows (r.step line).diagram := by
  unfold step
  split
  · split <;> exact .of_eq rfl rfl
  · split
    · exact .refl _
    · split
      · exact (grows_apply r _).1
      · exact .refl _

/-- What lines add. -/
theorem grows_foldl (r : Reader) (lines : List SourceLine) :
    r.diagram.Grows (lines.foldl step r).diagram := by
  induction lines generalizing r with
  | nil => exact .refl _
  | cons line rest ih => exact (grows_step r line).trans (ih _)

end Reader

/-- A text with more lines behind it has the elements and the transitions of the text, and perhaps
further ones behind them. -/
theorem Diagram.grows_read {t : String} (ht : '\r' ∉ t.toList) (u : String) :
    (read t).Grows (read (t ++ "\n" ++ u)) := by
  obtain ⟨rest, hlines⟩ := Source.lines_prefix ht u
  rw [read, read, ← hlines, List.foldl_append]
  exact Reader.grows_foldl _ _

/-! ### Notes on transitions -/

/-- If the note speaks of a transition, it is one of the first ones, as many as the number says. -/
def NoteWithin (count : Nat) (n : Note) : Prop :=
  ∀ i, n.target = .link (some i) → i < count

lemma NoteWithin.mono {count count' : Nat} {n : Note} (h : NoteWithin count n)
    (hle : count ≤ count') : NoteWithin count' n :=
  fun i hi => Nat.lt_of_lt_of_le (h i hi) hle

namespace Reader

/-- The notes speak of transitions that are there. -/
structure NotesWithin (r : Reader) : Prop where
  written : ∀ n ∈ r.diagram.notes, NoteWithin r.diagram.transitions.length n
  opened : ∀ n lines, r.note = some (n, lines) → NoteWithin r.diagram.transitions.length n

variable {r : Reader}

lemma NotesWithin.grows {r' : Reader} (hr : r.NotesWithin) (h : r.Grows r') : r'.NotesWithin where
  written := by
    rw [h.notes]
    exact fun n hn => (hr.written n hn).mono h.diagram.transitions.length_le
  opened := by
    rw [h.note]
    exact fun n lines hn => (hr.opened n lines hn).mono h.diagram.transitions.length_le

lemma NotesWithin.addNote (hr : r.NotesWithin) {n : Note}
    (hn : NoteWithin r.diagram.transitions.length n) : (r.addNote n).NotesWithin where
  written := by
    intro n' hn'
    rcases List.mem_append.1 hn' with hn' | hn'
    · exact hr.written n' hn'
    · rwa [List.mem_singleton.1 hn']
  opened := hr.opened

/-- A note on the last transition speaks of one that is there, if it speaks of one at all. -/
lemma noteWithin_settle (r : Reader) (n : Note) :
    NoteWithin r.diagram.transitions.length (r.settle n) := by
  intro i hi
  unfold settle at hi
  split at hi
  · -- the number of the last transition
    dsimp only at hi
    split at hi
    · cases hi
    · next hcount =>
      obtain rfl := Option.some.inj (NoteTarget.link.inj hi)
      omega
  · next hlink => exact absurd hi (hlink _)

lemma notesWithin_apply (hr : r.NotesWithin) (l : Line) : (r.apply l).NotesWithin := by
  by_cases hnote : ∃ n, l = .note n
  · obtain ⟨n, rfl⟩ := hnote
    cases n with
    | complete n => exact hr.addNote (noteWithin_settle r n)
    | start n =>
      refine ⟨hr.written, fun n' lines h => ?_⟩
      rw [← (Prod.mk.inj (Option.some.inj h)).1]
      exact noteWithin_settle r n
  · exact hr.grows ((grows_apply r l).2 fun n h => hnote ⟨n, h⟩)

lemma notesWithin_step (hr : r.NotesWithin) (line : SourceLine) : (r.step line).NotesWithin := by
  unfold step
  split
  · next n lines hnote =>
    have hn := hr.opened n lines hnote
    split
    · -- the note is closed
      have hclosed : NotesWithin { r with note := none } := ⟨hr.written, by simp⟩
      exact hclosed.addNote hn
    · refine ⟨hr.written, fun n' lines' h => ?_⟩
      rw [← (Prod.mk.inj (Option.some.inj h)).1]
      exact hn
  · split
    · exact hr
    · split
      · exact notesWithin_apply hr _
      · exact hr

lemma notesWithin_foldl (hr : r.NotesWithin) (lines : List SourceLine) :
    (lines.foldl step r).NotesWithin :=
  List.foldlRecOn lines step hr fun _ h line _ => notesWithin_step h line

end Reader

/-- In the diagram of a text, a note on a transition speaks of one that is there. -/
theorem Diagram.notes_read (text : String) :
    ∀ n ∈ (read text).notes, NoteWithin (read text).transitions.length n :=
  (Reader.notesWithin_foldl ⟨by simp, by simp⟩ _).written

/-! ### No region lists an element twice -/

namespace Contents

/-- No part of the contents lists an element twice. -/
def IsDistinct : Contents → Prop
  | direct ms _ => ms.Nodup
  | concurrent first middle last => ∀ r ∈ first :: middle ++ [last], r.members.Nodup

variable {cs : Contents}

lemma IsDistinct.addMember (h : cs.IsDistinct) (code : String) :
    (cs.addMember code).IsDistinct := by
  cases cs with
  | direct ms ts => exact Nesting.nodup_addOnce h code
  | concurrent first middle last =>
    have hlast := Nesting.nodup_addOnce (h last (by simp)) code
    intro r hr
    rcases List.mem_append.1 hr with hr | hr
    · exact h r (List.mem_append_left _ hr)
    · obtain rfl := List.mem_singleton.1 hr
      exact hlast

lemma IsDistinct.addTransition (h : cs.IsDistinct) (t : Transition) :
    (cs.addTransition t).IsDistinct := by
  cases cs with
  | direct ms ts => exact h
  | concurrent first middle last =>
    intro r hr
    rcases List.mem_append.1 hr with hr | hr
    · exact h r (List.mem_append_left _ hr)
    · obtain rfl := List.mem_singleton.1 hr
      exact h last (by simp)

lemma IsDistinct.divide (h : cs.IsDistinct) (s : Separator) : (cs.divide s).IsDistinct := by
  cases cs with
  | direct ms ts =>
    intro r hr
    rcases List.mem_append.1 hr with hr | hr <;> obtain rfl := List.mem_singleton.1 hr
    · exact h
    · exact List.nodup_nil
  | concurrent first middle last =>
    intro r hr
    rcases List.mem_append.1 hr with hr | hr
    · exact h r hr
    · obtain rfl := List.mem_singleton.1 hr
      exact List.nodup_nil

end Contents

/-- In no element a part of the contents lists an element twice. -/
def Diagram.IsDistinct (d : Diagram) : Prop :=
  d.elements.All fun e => e.contents.IsDistinct

namespace Diagram

variable {d : Diagram}

lemma IsDistinct.change (hd : d.IsDistinct) (code : String) {f : Element → Element}
    (hf : ∀ e : Element, e.contents.IsDistinct → (f e).contents.IsDistinct) :
    (d.change code f).IsDistinct :=
  Keyed.All.modify hd hf

lemma IsDistinct.mention (hd : d.IsDistinct) (code display : String) (kind : ElementKind) :
    (d.mention code display kind).IsDistinct := by
  unfold Diagram.mention IsDistinct
  dsimp only
  split
  · exact Keyed.All.modify hd fun _ he => he
  · exact Keyed.All.insert hd List.nodup_nil

lemma IsDistinct.adopt (hd : d.IsDistinct) (parent code : String) :
    (d.adopt parent code).IsDistinct := by
  unfold Diagram.adopt
  split
  · exact hd
  · split
    · refine IsDistinct.change ?_ parent fun _ he => he.addMember code
      exact hd.change code fun _ he => he
    · exact hd

end Diagram

namespace Reader

variable {r : Reader}

lemma isDistinct_place (hr : r.diagram.IsDistinct) (code : String) :
    (r.place code).diagram.IsDistinct := by
  unfold place
  split
  · exact hr
  · split
    · exact hr
    · exact hr.adopt _ _

lemma isDistinct_mention (hr : r.diagram.IsDistinct) (code display : String) (kind : ElementKind) :
    (r.mention code display kind).diagram.IsDistinct :=
  isDistinct_place (hr.mention _ _ _) _

lemma isDistinct_resolve (hr : r.diagram.IsDistinct) (isSource : Bool) (p : EndPoint) :
    (r.resolve isSource p).1.diagram.IsDistinct := by
  cases p with
  | historyOf owner deep => exact ((hr.mention _ _ _).mention _ _ _).adopt _ _
  | _ => exact isDistinct_mention hr _ _ _

lemma contents_annotate (m : Mention) (e : Element) : (annotate m e).contents = e.contents := by
  unfold annotate
  dsimp only
  split
  · rfl
  · split
    · rfl
    · unfold Element.addStereotype
      split <;> rfl

lemma contents_decorate (d : Declaration) (e : Element) : (decorate d e).contents = e.contents := by
  unfold decorate
  dsimp only
  split
  · rfl
  · split
    · rfl
    · unfold Element.addStereotype
      split <;> rfl

lemma isDistinct_addTransition (hr : r.diagram.IsDistinct) (t : Transition) :
    (r.addTransition t).diagram.IsDistinct := by
  unfold addTransition
  dsimp only
  split
  · exact hr
  · exact Diagram.IsDistinct.change (d := { r.diagram with
      transitions := r.diagram.transitions ++ [t] }) hr _ fun _ he => he.addTransition t

lemma isDistinct_connect (hr : r.diagram.IsDistinct) (source target : Mention)
    (head : TransitionHead) : (r.connect source target head).diagram.IsDistinct := by
  have hboth := isDistinct_resolve (isDistinct_resolve hr true source.point) false target.point
  have hannotate : ∀ (m : Mention) (e : Element), e.contents.IsDistinct →
      (annotate m e).contents.IsDistinct := by
    intro m e he
    rwa [contents_annotate]
  exact isDistinct_addTransition
    ((hboth.change _ (hannotate source)).change _ (hannotate target)) _

lemma isDistinct_declare (hr : r.diagram.IsDistinct) (d : Declaration)
    (descriptions : List String) : (r.declare d descriptions).diagram.IsDistinct := by
  refine isDistinct_place ((hr.mention _ _ _).change _ fun e he => ?_) _
  rwa [contents_decorate]

lemma isDistinct_divide (hr : r.diagram.IsDistinct) (s : Separator) :
    (r.divide s).diagram.IsDistinct := by
  unfold divide
  split
  · exact hr
  · exact hr.change _ fun _ he => he.divide s

lemma isDistinct_apply (hr : r.diagram.IsDistinct) (l : Line) :
    (r.apply l).diagram.IsDistinct := by
  cases l with
  | composite d => exact isDistinct_declare hr d []
  | declare d description => exact isDistinct_declare hr d _
  | separator s => exact isDistinct_divide hr s
  | note n => cases n <;> exact hr
  | transition source target head => exact isDistinct_connect hr source target head
  | describe name text =>
    refine isDistinct_place ?_ _
    exact (hr.mention name.code name.display .state).change name.code fun _ he => he
  | _ => exact hr

lemma isDistinct_step (hr : r.diagram.IsDistinct) (line : SourceLine) :
    (r.step line).diagram.IsDistinct := by
  unfold step
  split
  · split <;> exact hr
  · split
    · exact hr
    · split
      · exact isDistinct_apply hr _
      · exact hr

lemma isDistinct_foldl (hr : r.diagram.IsDistinct) (lines : List SourceLine) :
    (lines.foldl step r).diagram.IsDistinct := by
  induction lines generalizing r with
  | nil => exact hr
  | cons line rest ih => exact ih (isDistinct_step hr line)

end Reader

/-- In the diagram of a text, no region lists an element twice. -/
theorem Diagram.distinct_read (text : String) : (read text).IsDistinct :=
  Reader.isDistinct_foldl (r := {}) Keyed.all_empty _

end State
end UmlDraw
