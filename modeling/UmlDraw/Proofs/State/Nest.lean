/-
# The nesting of a state diagram and its changes

Of a diagram only its *nest* counts here: the composite state that holds an element, the contents of
each composite state, and the list of all transitions.  A line changes the nest in three ways: an
element is placed, a transition is written, or a new region is started.  All other things that a
line does leave the nest as it is.

The main statement is `Reader.nest_step`: the nest after a line is the nest before it, changed in the
ways that can be told from the line.
-/
import Mathlib.Logic.Function.Basic
import UmlDraw.Proofs.State.Growth
import UmlDraw.Proofs.State.Reader

namespace UmlDraw
namespace State

/-- The nesting of a diagram. -/
structure Nest where
  /-- The composite state that holds an element. -/
  parent? : String → Option String
  /-- What is in an element; an element that is not known is empty. -/
  contents : String → Contents
  /-- All transitions, in order. -/
  transitions : List Transition

/-- A change of the nesting. -/
inductive Change where
  /-- An element is to stand in a composite state. -/
  | place (q : Placement)
  /-- A transition is written, perhaps inside a composite state. -/
  | connect (holder : Option String) (t : Transition)
  /-- A region is started in a composite state. -/
  | divide (holder : String) (s : Separator)

namespace Nest

/-- The nesting with other contents of one element. -/
def change (n : Nest) (code : String) (f : Contents → Contents) : Nest :=
  { n with contents := Function.update n.contents code (f (n.contents code)) }

/-- The nesting after a change.  An element that another composite state holds is not placed. -/
def apply (n : Nest) : Change → Nest
  | .place q =>
    if n.parent? q.code = none ∨ n.parent? q.code = some q.holder then
      { n.change q.holder (Contents.addMember q.code) with
        parent? := Function.update n.parent? q.code (some q.holder) }
    else n
  | .connect holder t =>
    let n' := { n with transitions := n.transitions ++ [t] }
    match holder with
    | none => n'
    | some p => n'.change p (Contents.addTransition t)
  | .divide holder s => n.change holder (Contents.divide s)

/-- The nesting after changes, one after the other. -/
def run (n : Nest) (cs : List Change) : Nest :=
  cs.foldl apply n

lemma run_append (n : Nest) (cs cs' : List Change) : n.run (cs ++ cs') = (n.run cs).run cs' :=
  List.foldl_append

end Nest

namespace Diagram

/-- What is in an element. -/
def contentsOf (d : Diagram) (code : String) : Contents :=
  ((d.elements.get? code).map Element.contents).getD .empty

/-- The nesting of a diagram. -/
def nest (d : Diagram) : Nest :=
  ⟨d.parent?, d.contentsOf, d.transitions⟩

lemma contentsOf_of_get? {d : Diagram} {code : String} {e : Element}
    (h : d.elements.get? code = some e) : d.contentsOf code = e.contents := by
  rw [contentsOf, h, Option.map_some, Option.getD_some]

lemma nest_of_elements_eq {d d' : Diagram} (h : d'.elements = d.elements)
    (ht : d'.transitions = d.transitions) : d'.nest = d.nest := by
  have hparent : d'.parent? = d.parent? := by
    funext c
    rw [parent?, parent?, h]
  have hcontents : d'.contentsOf = d.contentsOf := by
    funext c
    rw [contentsOf, contentsOf, h]
  rw [nest, nest, hparent, hcontents, ht]

/-- A change of one element that leaves its place as it is changes the contents of the element. -/
lemma nest_change_contents {d : Diagram} {code : String} (hcode : code ∈ d.elements.keys)
    {f : Element → Element} {g : Contents → Contents} (hparent : ∀ e, (f e).parent = e.parent)
    (hcontents : ∀ e, (f e).contents = g e.contents) :
    (d.change code f).nest = d.nest.change code g := by
  have hget : ∀ k, (d.change code f).elements.get? k =
      if k = code then (d.elements.get? k).map f else d.elements.get? k :=
    fun k => Keyed.get?_modify _ _ _ _
  have hp : (d.change code f).parent? = d.parent? := by
    funext c
    rw [parent?, parent?, hget]
    split
    · cases d.elements.get? c with
      | none => rfl
      | some e => exact hparent e
    · rfl
  have hc : (d.change code f).contentsOf =
      Function.update d.contentsOf code (g (d.contentsOf code)) := by
    funext c
    rw [contentsOf, hget, Function.update_apply]
    split
    · next h =>
      obtain ⟨e, he⟩ := Keyed.mem_keys_iff.1 hcode
      rw [h, contentsOf_of_get? he, he, Option.map_some, Option.map_some, hcontents,
        Option.getD_some]
    · rfl
  rw [nest, hp, hc]
  rfl

lemma nest_change (d : Diagram) (code : String) {f : Element → Element}
    (hparent : ∀ e, (f e).parent = e.parent) (hcontents : ∀ e, (f e).contents = e.contents) :
    (d.change code f).nest = d.nest := by
  by_cases hcode : code ∈ d.elements.keys
  · rw [nest_change_contents hcode hparent (g := id) hcontents, Nest.change, id_eq,
      Function.update_eq_self]
  · -- there is nothing to change
    have helements : (d.change code f).elements.entries = d.elements.entries := by
      refine (List.map_congr_left fun entry hentry => ?_).trans (List.map_id _)
      have hne : entry.1 ≠ code := by
        rintro rfl
        exact hcode (List.mem_map_of_mem hentry)
      simp [hne]
    refine nest_of_elements_eq ?_ rfl
    cases h : d.elements
    cases h' : (d.change code f).elements
    rw [h, h'] at helements
    congr

lemma nest_insert (d : Diagram) {code : String} {e : Element} (hcode : e.code = code)
    (hparent : e.parent = none) (hcontents : e.contents = .empty)
    (hnew : d.elements.get? code = none) :
    nest { d with elements := d.elements.insert code e } = d.nest := by
  have hp := (keeps_insert d hcode hparent hcontents hnew).parent
  have hc : ∀ c, contentsOf { d with elements := d.elements.insert code e } c =
      d.contentsOf c := by
    intro c
    rw [contentsOf, contentsOf, Keyed.get?_insert]
    split
    · next hc =>
      rw [hc, hnew, Option.map_some, hcontents]
      rfl
    · rfl
  rw [nest, funext hp, funext hc]
  rfl

lemma nest_mention (d : Diagram) (code display : String) (kind : ElementKind) :
    (d.mention code display kind).nest = d.nest := by
  unfold mention
  split
  · exact nest_change d code (fun _ => rfl) fun _ => rfl
  · next h =>
    have hnew : d.elements.get? code = none := by
      rw [Keyed.get?_eq_none_iff, ← Keyed.contains_iff]
      exact h
    exact nest_insert d rfl rfl rfl hnew

lemma nest_adopt {d : Diagram} {q : Placement} (hholder : q.holder ∈ d.elements.keys)
    (hcode : q.code ∈ d.elements.keys) (hne : q.code ≠ q.holder) :
    (d.adopt q.holder q.code).nest = d.nest.apply (.place q) := by
  have hparent : (d.adopt q.holder q.code).parent? = fun c =>
      if c = q.code then (d.parent? c).or (some q.holder) else d.parent? c :=
    funext fun c => parent?_adopt hcode hne c
  have hget := get?_adopt hcode hne
  rw [Nest.apply]
  by_cases hfree : d.parent? q.code = none ∨ d.parent? q.code = some q.holder
  · have hcontents : (d.adopt q.holder q.code).contentsOf =
        Function.update d.contentsOf q.holder ((d.contentsOf q.holder).addMember q.code) := by
      funext c
      rw [contentsOf, hget, if_pos hfree, Function.update_apply]
      by_cases hc : c = q.code
      · rw [if_pos hc, if_neg (hc ▸ hne), contentsOf]
        cases d.elements.get? c <;> rfl
      · rw [if_neg hc]
        split
        · next hholder' =>
          obtain ⟨e, he⟩ := Keyed.mem_keys_iff.1 hholder
          rw [hholder', contentsOf_of_get? he, he]
          rfl
        · rfl
    have hparent' : (d.adopt q.holder q.code).parent? =
        Function.update d.parent? q.code (some q.holder) := by
      rw [hparent]
      funext c
      rw [Function.update_apply]
      split
      · next hc =>
        rw [hc]
        rcases hfree with h | h <;> rw [h] <;> rfl
      · rfl
    rw [nest, hcontents, hparent', transitions_adopt]
    exact (if_pos hfree).symm
  · have hcontents : (d.adopt q.holder q.code).contentsOf = d.contentsOf := by
      funext c
      rw [contentsOf, hget, if_neg hfree, contentsOf]
    have hparent' : (d.adopt q.holder q.code).parent? = d.parent? := by
      rw [hparent]
      funext c
      split
      · next hc =>
        rw [hc]
        cases hp : d.parent? q.code with
        | none => exact absurd (.inl hp) hfree
        | some p => rfl
      · rfl
    rw [nest, hcontents, hparent', transitions_adopt]
    exact (if_neg hfree).symm

end Diagram

/-! ### The changes of a line -/

namespace Reader

variable {r : Reader}

/-- The meaning of a line, unless it belongs to a note. -/
def meaning? (r : Reader) (line : SourceLine) : Option Line :=
  if r.note.isSome || line.text.isEmpty then none
  else Line.read? (!r.stack.isEmpty) line.text

/-- The transition that a line writes. -/
def written (r : Reader) (source target : Mention) (head : TransitionHead) : Transition :=
  { source := (r.resolve true source.point).2
    target := ((r.resolve true source.point).1.resolve false target.point).2
    label := head.label, direction := head.direction, stroke := head.stroke
    crossStart := head.crossStart, circleEnd := head.circleEnd, length := head.length }

/-- The changes of a line with a meaning, in order. -/
def formChanges (r : Reader) (l : Line) : List Change :=
  (r.formPlacements l).map .place ++
    match l with
    | .transition source target head => [.connect r.stack.head? (r.written source target head)]
    | .separator s => (r.stack.head?.map fun p => .divide p s).toList
    | _ => []

/-- The changes of a line, in order. -/
def changes (r : Reader) (line : SourceLine) : List Change :=
  ((r.meaning? line).map r.formChanges).getD []

lemma placements_eq (r : Reader) (line : SourceLine) :
    r.placements line = ((r.meaning? line).map r.formPlacements).getD [] := by
  unfold placements meaning?
  split <;> rfl

/-- A line without a meaning belongs to a note or says nothing. -/
lemma step_of_meaning?_eq_none {line : SourceLine} (h : r.meaning? line = none) :
    (r.step line).stack = r.stack ∧ (r.step line).diagram.elements = r.diagram.elements ∧
      (r.step line).diagram.transitions = r.diagram.transitions := by
  unfold meaning? at h
  unfold step
  cases hnote : r.note with
  | some n =>
    dsimp only
    split <;> exact ⟨rfl, rfl, rfl⟩
  | none =>
    rw [hnote, Option.isSome_none, Bool.false_or] at h
    dsimp only
    split
    · exact ⟨rfl, rfl, rfl⟩
    · next htext =>
      rw [if_neg htext] at h
      rw [h]
      exact ⟨rfl, rfl, rfl⟩

lemma step_of_meaning?_eq_some {line : SourceLine} {l : Line} (h : r.meaning? line = some l) :
    r.note = none ∧ r.step line = r.apply l := by
  unfold meaning? at h
  split at h
  · cases h
  · next hread =>
    rw [Bool.or_eq_true, not_or, Bool.not_eq_true, Option.isSome_eq_false_iff,
      Option.isNone_iff_eq_none] at hread
    refine ⟨hread.1, ?_⟩
    rw [step, hread.1]
    simp only [hread.2, h, Bool.false_eq_true, if_false]

/-- The nest of a reader after placements. -/
abbrev NestAfter (r : Reader) (qs : List Placement) (r' : Reader) : Prop :=
  r'.diagram.nest = r.diagram.nest.run (qs.map .place)

lemma nest_place (hr : r.Sound) {code : String} (hcode : code ∈ r.diagram.elements.keys) :
    r.NestAfter (r.inOpen code) (r.place code) := by
  unfold NestAfter
  cases hstack : r.stack with
  | nil =>
    simp only [inOpen, place, hstack]
    rfl
  | cons parent outer =>
    simp only [inOpen, place, hstack]
    split
    · rfl
    · next hclosed =>
      -- the composite state is open, so it is another element
      have hne : code ≠ parent := by
        rintro rfl
        exact hclosed (by simp)
      exact Diagram.nest_adopt (q := ⟨parent, code⟩) (hr.stack parent (by simp [hstack])) hcode hne

lemma nest_mention (hr : r.Sound) (code display : String) (kind : ElementKind) :
    r.NestAfter (r.inOpen code) (r.mention code display kind) := by
  have hmention := goes_keep (Diagram.keeps_mention r.diagram code display kind) rfl
  have h := nest_place (hmention.sound hr) (Diagram.mem_keys_mention _ _ _ _)
  unfold NestAfter at h
  rw [Diagram.nest_mention] at h
  exact h

lemma nest_resolve (hr : r.Sound) (isSource : Bool) (p : EndPoint) :
    r.NestAfter (r.endPlacements isSource p) (r.resolve isSource p).1 := by
  cases p with
  | historyOf owner deep =>
    have howner := Diagram.keeps_mention
      (r.diagram.mention (markCode (historyMark deep).1 owner) (historyMark deep).2.1
        (historyMark deep).2.2) owner owner .state
    have h := Diagram.nest_adopt (q := ⟨owner, markCode (historyMark deep).1 owner⟩)
      (Diagram.mem_keys_mention _ _ _ _) (howner.keys (Diagram.mem_keys_mention _ _ _ _))
      (markCode_ne _ _)
    rw [Diagram.nest_mention, Diagram.nest_mention] at h
    exact h
  | _ => exact nest_mention hr _ _ _

/-- What a declaration and a description do. -/
lemma nest_describe (hr : r.Sound) (code display : String) (kind : ElementKind)
    {f : Element → Element} (hf : ∀ e : Element, e.Keeps (f e))
    (hcontents : ∀ e, (f e).contents = e.contents) :
    r.NestAfter (r.inOpen code)
      (({ r with diagram := r.diagram.mention code display kind }.change code f).place code) := by
  have hmention := goes_keep (Diagram.keeps_mention r.diagram code display kind) rfl
  have hchange := hmention.trans (goes_change _ code hf)
  have hkey := (Diagram.keeps_change (r.diagram.mention code display kind) code hf).keys
    (Diagram.mem_keys_mention _ _ _ _)
  have h := nest_place (hchange.sound hr) hkey
  unfold NestAfter at h
  rw [change, Diagram.nest_change _ _ (fun e => (hf e).parent) hcontents, Diagram.nest_mention] at h
  exact h

lemma parent_annotate (m : Mention) (e : Element) : (annotate m e).parent = e.parent :=
  (keeps_annotate m e).parent

/-- A transition is written in the innermost open composite state. -/
lemma nest_addTransition (hr : r.Sound) (t : Transition) :
    (r.addTransition t).diagram.nest = r.diagram.nest.apply (.connect r.stack.head? t) := by
  unfold addTransition
  dsimp only
  split
  · next hstack =>
    rw [hstack]
    rfl
  · next parent outer hstack =>
    rw [hstack]
    exact Diagram.nest_change_contents
      (d := { r.diagram with transitions := r.diagram.transitions ++ [t] })
      (hr.stack parent (by simp [hstack])) (fun _ => rfl) fun _ => rfl

lemma nest_connect (hr : r.Sound) (source target : Mention) (head : TransitionHead) :
    (r.connect source target head).diagram.nest =
      r.diagram.nest.run (r.formChanges (.transition source target head)) := by
  have hsource := goes_resolve hr true source.point
  have htarget := goes_resolve (hsource.sound hr) false target.point
  have h₁ := (hsource.trans htarget).trans
    (goes_change _ (r.resolve true source.point).2 (keeps_annotate source))
  have h₂ := h₁.trans (goes_change _
    ((r.resolve true source.point).1.resolve false target.point).2 (keeps_annotate target))
  have hboth := nest_resolve (hsource.sound hr) false target.point
  unfold NestAfter at hboth
  rw [nest_resolve hr true source.point] at hboth
  unfold connect
  dsimp only
  rw [nest_addTransition (h₂.sound hr), h₂.stack]
  simp only [change]
  rw [Diagram.nest_change _ _ (parent_annotate target) (contents_annotate target),
    Diagram.nest_change _ _ (parent_annotate source) (contents_annotate source), hboth,
    formChanges, Nest.run_append, formPlacements, List.map_append, Nest.run_append]
  rfl

lemma nest_divide (hr : r.Sound) (s : Separator) :
    (r.divide s).diagram.nest = r.diagram.nest.run (r.formChanges (.separator s)) := by
  unfold divide formChanges
  split
  · next hstack =>
    rw [hstack]
    rfl
  · next parent outer hstack =>
    rw [hstack]
    exact Diagram.nest_change_contents (hr.stack parent (by simp [hstack])) (fun _ => rfl)
      fun _ => rfl

/-- What a line with a meaning does to the nest. -/
lemma nest_apply (hr : r.Sound) (l : Line) :
    (r.apply l).diagram.nest = r.diagram.nest.run (r.formChanges l) := by
  -- most lines place elements and do nothing else
  have hplaces : ∀ {qs : List Placement} {r' : Reader}, r.NestAfter qs r' →
      r'.diagram.nest = r.diagram.nest.run (qs.map .place ++ []) := by
    intro qs r' h
    rw [List.append_nil]
    exact h
  have hdeclare : ∀ d descriptions, r.NestAfter (r.inOpen d.name.code) (r.declare d descriptions) :=
    fun d descriptions => nest_describe hr _ _ _
      (fun e => ⟨(keeps_decorate d e).code, (keeps_decorate d e).parent,
        (keeps_decorate d e).members, (keeps_decorate d e).first⟩)
      fun e => contents_decorate d e
  cases l with
  | composite d => exact hplaces (hdeclare d [])
  | declare d description => exact hplaces (hdeclare d _)
  | describe name text =>
    exact hplaces (nest_describe hr name.code name.display .state
      (fun _ => ⟨rfl, rfl, rfl, fun _ h => h⟩) fun _ => rfl)
  | separator s => exact nest_divide hr s
  | transition source target head => exact nest_connect hr source target head
  | note n => cases n <;> rfl
  | _ => rfl

/-- What a line does to the nest. -/
theorem nest_step (hr : r.Sound) (line : SourceLine) :
    (r.step line).diagram.nest = r.diagram.nest.run (r.changes line) := by
  unfold changes
  cases h : r.meaning? line with
  | none =>
    obtain ⟨-, helements, htransitions⟩ := step_of_meaning?_eq_none h
    exact Diagram.nest_of_elements_eq helements htransitions
  | some l =>
    rw [(step_of_meaning?_eq_some h).2]
    exact nest_apply hr l

end Reader
end State
end UmlDraw
