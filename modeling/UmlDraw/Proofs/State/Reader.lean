/-
# Reading the lines of a state diagram

Every line of a text builds the diagram further by placements that can be told from the line and
from the composite states that are open.  A text asks for the placements of its lines, in order.

The main statements are

* `Reader.builds_step`: what a line does to the diagram;
* `Diagram.builds_read`: what all lines of a text do;
* `Diagram.consistent_read` and `Diagram.parent?_read`: what follows for the nesting.
-/
import UmlDraw.Proofs.State.Placement

namespace UmlDraw

namespace State

/-! ### The placements of a text -/

namespace Reader

/-- The placement of an element in the innermost open composite state.  A state that is open itself
is not placed. -/
def inOpen (r : Reader) (code : String) : List Placement :=
  match r.stack with
  | [] => []
  | parent :: outer => if (parent :: outer).contains code then [] else [⟨parent, code⟩]

/-- The placement of an end of a transition: the mark for the history of a state goes into that
state, all else into the innermost open composite state. -/
def endPlacements (r : Reader) (isSource : Bool) (p : EndPoint) : List Placement :=
  let code := (r.resolve isSource p).2
  match p with
  | .historyOf owner _ => [⟨owner, code⟩]
  | _ => r.inOpen code

/-- The placements of a line with a meaning, in order. -/
def formPlacements (r : Reader) : Line → List Placement
  | .composite d => r.inOpen d.name.code
  | .declare d _ => r.inOpen d.name.code
  | .describe name _ => r.inOpen name.code
  | .transition source target _ =>
    r.endPlacements true source.point ++
      (r.resolve true source.point).1.endPlacements false target.point
  | _ => []

/-- The placements of a line, in order. -/
def placements (r : Reader) (line : SourceLine) : List Placement :=
  if r.note.isSome || line.text.isEmpty then []
  else ((Line.read? (!r.stack.isEmpty) line.text).map r.formPlacements).getD []

/-- The placements of lines, in order. -/
def allPlacements : Reader → List SourceLine → List Placement
  | _, [] => []
  | r, line :: rest => r.placements line ++ allPlacements (r.step line) rest

/-- What is named is known: the open composite states and the ends of the transitions. -/
structure Sound (r : Reader) : Prop where
  stack : ∀ p ∈ r.stack, p ∈ r.diagram.elements.keys
  ends : ∀ t ∈ r.diagram.transitions,
    t.source ∈ r.diagram.elements.keys ∧ t.target ∈ r.diagram.elements.keys

/-- The second reader comes from the first one by the given placements; the same composite states
are open, and there are the same transitions. -/
structure Goes (r : Reader) (qs : List Placement) (r' : Reader) : Prop where
  builds : r.diagram.Builds qs r'.diagram
  stack : r'.stack = r.stack
  transitions : r'.diagram.transitions = r.diagram.transitions

variable {r r' r'' : Reader} {qs qs' : List Placement}

lemma Goes.trans (h : r.Goes qs r') (h' : r'.Goes qs' r'') : r.Goes (qs ++ qs') r'' where
  builds := h.builds.trans h'.builds
  stack := h'.stack.trans h.stack
  transitions := h'.transitions.trans h.transitions

lemma Goes.sound (h : r.Goes qs r') (hr : r.Sound) : r'.Sound where
  stack := by
    rw [h.stack]
    exact fun p hp => h.builds.keys (hr.stack p hp)
  ends := by
    rw [h.transitions]
    exact fun t ht => ⟨h.builds.keys (hr.ends t ht).1, h.builds.keys (hr.ends t ht).2⟩

lemma goes_keep {d : Diagram} (hd : r.diagram.Keeps d)
    (ht : d.transitions = r.diagram.transitions) : r.Goes [] { r with diagram := d } :=
  ⟨.keep hd, rfl, ht⟩

lemma goes_change (r : Reader) (code : String) {f : Element → Element}
    (hf : ∀ e : Element, e.Keeps (f e)) : r.Goes [] (r.change code f) :=
  goes_keep (Diagram.keeps_change _ _ hf) rfl

lemma goes_place (hr : r.Sound) {code : String} (hcode : code ∈ r.diagram.elements.keys) :
    r.Goes (r.inOpen code) (r.place code) := by
  cases hstack : r.stack with
  | nil =>
    simp only [inOpen, place, hstack]
    exact ⟨.refl _, rfl, rfl⟩
  | cons parent outer =>
    simp only [inOpen, place, hstack]
    split
    · exact ⟨.refl _, rfl, rfl⟩
    · next hclosed =>
      -- the composite state is open, so it is another element
      have hne : code ≠ parent := by
        rintro rfl
        exact hclosed (by simp)
      have hparent := hr.stack parent (by simp [hstack])
      exact ⟨.place (q := ⟨parent, code⟩) hparent hcode hne, hstack.symm,
        Diagram.transitions_adopt _ _ _⟩

lemma goes_mention (hr : r.Sound) (code display : String) (kind : ElementKind) :
    r.Goes (r.inOpen code) (r.mention code display kind) := by
  have hmention := goes_keep (Diagram.keeps_mention r.diagram code display kind) rfl
  exact hmention.trans (goes_place (hmention.sound hr) (Diagram.mem_keys_mention _ _ _ _))

lemma mem_keys_place {code other : String} (h : other ∈ r.diagram.elements.keys) :
    other ∈ (r.place code).diagram.elements.keys := by
  unfold place
  split
  · exact h
  · split
    · exact h
    · rwa [Diagram.keys_adopt]

lemma markCode_ne (word owner : String) : markCode word owner ≠ owner := by
  intro h
  have hlength := congrArg String.length h
  simp only [markCode, String.length_append] at hlength
  have hmark : "__".length = 2 := by decide
  omega

/-- An end of a transition makes an element and places it. -/
lemma goes_resolve (hr : r.Sound) (isSource : Bool) (p : EndPoint) :
    r.Goes (r.endPlacements isSource p) (r.resolve isSource p).1 := by
  cases p with
  | historyOf owner deep =>
    simp only [endPlacements, resolve]
    have hmark := Diagram.keeps_mention r.diagram (markCode (historyMark deep).1 owner)
      (historyMark deep).2.1 (historyMark deep).2.2
    have howner := Diagram.keeps_mention
      (r.diagram.mention (markCode (historyMark deep).1 owner) (historyMark deep).2.1
        (historyMark deep).2.2) owner owner .state
    have hbuilds := (Diagram.Builds.keep (hmark.trans howner)).trans
      (.place (q := ⟨owner, markCode (historyMark deep).1 owner⟩)
        (Diagram.mem_keys_mention _ _ _ _) (howner.keys (Diagram.mem_keys_mention _ _ _ _))
        (markCode_ne _ _))
    exact ⟨hbuilds, rfl, Diagram.transitions_adopt _ _ _⟩
  | _ => exact goes_mention hr _ _ _

lemma mem_keys_resolve (r : Reader) (isSource : Bool) (p : EndPoint) :
    (r.resolve isSource p).2 ∈ (r.resolve isSource p).1.diagram.elements.keys := by
  cases p with
  | historyOf owner deep =>
    simp only [resolve, Diagram.keys_adopt]
    exact (Diagram.keeps_mention _ _ _ _).keys (Diagram.mem_keys_mention _ _ _ _)
  | _ => exact mem_keys_place (Diagram.mem_keys_mention _ _ _ _)

lemma keeps_annotate (m : Mention) (e : Element) : e.Keeps (annotate m e) := by
  have hcolor : ∀ e : Element, e.Keeps { e with color := e.color.or m.color } := fun e =>
    ⟨rfl, rfl, rfl, fun _ h => h⟩
  unfold annotate
  dsimp only
  cases m.stereotype with
  | none => exact hcolor e
  | some s =>
    cases hkind : ElementKind.ofStereotype? s with
    | some kind =>
      have hchange : e.Keeps { e with kind := kind } := ⟨rfl, rfl, rfl, fun _ h => h⟩
      simp only [hkind]
      exact hchange.trans (hcolor _)
    | none =>
      simp only [hkind]
      exact (e.keeps_addStereotype s).trans (hcolor _)

lemma keeps_decorate (d : Declaration) (e : Element) : e.Keeps (decorate d e) := by
  have hcolors : e.Keeps { e with
      color := d.color.or e.color
      border := ⟨d.border.color.or e.border.color, d.border.style.or e.border.style⟩ } :=
    ⟨rfl, rfl, rfl, fun _ h => h⟩
  unfold decorate
  dsimp only
  split
  · exact hcolors
  · next s _ =>
    split
    · exact hcolors
    · exact hcolors.trans (Element.keeps_addStereotype _ s)

/-- What a declaration and a description do: an element is made, something is written about it, and
it is placed. -/
lemma goes_describe (hr : r.Sound) (code display : String) (kind : ElementKind)
    {f : Element → Element} (hf : ∀ e : Element, e.Keeps (f e)) :
    r.Goes (r.inOpen code)
      (({ r with diagram := r.diagram.mention code display kind }.change code f).place code) := by
  have hmention := goes_keep (Diagram.keeps_mention r.diagram code display kind) rfl
  have hchange := hmention.trans (goes_change _ code hf)
  have hcode := (Diagram.keeps_change (r.diagram.mention code display kind) code hf).keys
    (Diagram.mem_keys_mention _ _ _ _)
  exact hchange.trans (goes_place (hchange.sound hr) hcode)

lemma mem_keys_declare (r : Reader) (d : Declaration) (descriptions : List String) :
    d.name.code ∈ (r.declare d descriptions).diagram.elements.keys := by
  refine mem_keys_place ?_
  simp only [change, Diagram.change, Keyed.keys_modify]
  exact Diagram.mem_keys_mention _ _ _ _

lemma goes_declare (hr : r.Sound) (d : Declaration) (descriptions : List String) :
    r.Goes (r.inOpen d.name.code) (r.declare d descriptions) := by
  refine goes_describe hr d.name.code d.name.display _ fun e => ?_
  have h := keeps_decorate d e
  exact ⟨h.code, h.parent, h.members, h.first⟩

lemma goes_divide (r : Reader) (s : Separator) : r.Goes [] (r.divide s) := by
  unfold divide
  split
  · exact ⟨.refl _, rfl, rfl⟩
  · refine goes_change r _ fun e => ⟨rfl, rfl, ?_, ?_⟩
    · exact Contents.members_divide _ _
    · exact fun R hR => Contents.first?_divide hR s

lemma keeps_addTransition (r : Reader) (t : Transition) :
    r.diagram.Keeps (r.addTransition t).diagram := by
  have happend : r.diagram.Keeps
      { r.diagram with transitions := r.diagram.transitions ++ [t] } :=
    Diagram.keeps_of_elements_eq rfl
  unfold addTransition
  dsimp only
  split
  · exact happend
  · refine happend.trans (Diagram.keeps_change _ _ fun e => ⟨rfl, rfl, ?_, ?_⟩)
    · exact Contents.members_addTransition _ _
    · intro R hR
      rwa [Contents.first?_addTransition]

lemma stack_addTransition (r : Reader) (t : Transition) : (r.addTransition t).stack = r.stack := by
  unfold addTransition
  dsimp only
  split <;> rfl

lemma transitions_addTransition (r : Reader) (t : Transition) :
    (r.addTransition t).diagram.transitions = r.diagram.transitions ++ [t] := by
  unfold addTransition
  dsimp only
  split <;> rfl

lemma Sound.addTransition (hr : r.Sound) {t : Transition}
    (hsource : t.source ∈ r.diagram.elements.keys) (htarget : t.target ∈ r.diagram.elements.keys) :
    (r.addTransition t).Sound where
  stack := by
    rw [stack_addTransition]
    exact fun p hp => (keeps_addTransition r t).keys (hr.stack p hp)
  ends := by
    have hkeys := (keeps_addTransition r t).keys
    rw [transitions_addTransition]
    intro t' ht'
    rcases List.mem_append.1 ht' with ht' | ht'
    · exact ⟨hkeys (hr.ends t' ht').1, hkeys (hr.ends t' ht').2⟩
    · obtain rfl := List.mem_singleton.1 ht'
      exact ⟨hkeys hsource, hkeys htarget⟩

/-- A transition is appended after its ends were made. -/
lemma builds_connect (hr : r.Sound) (source target : Mention) (head : TransitionHead) :
    r.diagram.Builds (r.formPlacements (.transition source target head))
        (r.connect source target head).diagram ∧
      (r.connect source target head).Sound := by
  have hsource := goes_resolve hr true source.point
  have htarget := goes_resolve (hsource.sound hr) false target.point
  have hboth := hsource.trans htarget
  have h₁ := hboth.trans (goes_change _ (r.resolve true source.point).2 (keeps_annotate source))
  have h₂ := h₁.trans (goes_change _
    ((r.resolve true source.point).1.resolve false target.point).2 (keeps_annotate target))
  simp only [List.append_nil] at h₁ h₂
  unfold connect
  dsimp only
  refine ⟨h₂.builds.trans_keep (keeps_addTransition _ _), (h₂.sound hr).addTransition ?_ ?_⟩
  · have hkey := htarget.builds.keys (mem_keys_resolve r true source.point)
    simpa [change, Diagram.change] using hkey
  · have hkey := mem_keys_resolve (r.resolve true source.point).1 false target.point
    simpa [change, Diagram.change] using hkey

/-- What a line with a meaning does to the diagram. -/
lemma builds_apply (hr : r.Sound) (line : Line) :
    r.diagram.Builds (r.formPlacements line) (r.apply line).diagram ∧ (r.apply line).Sound := by
  -- most lines leave the elements and the transitions as they are
  have hrest : ∀ {qs : List Placement} {r' : Reader}, r.Goes qs r' →
      r.diagram.Builds qs r'.diagram ∧ r'.Sound := fun h => ⟨h.builds, h.sound hr⟩
  cases line with
  | title | direction | hideEmpty =>
    exact hrest (goes_keep (Diagram.keeps_of_elements_eq rfl) rfl)
  | nothing => exact hrest ⟨.refl _, rfl, rfl⟩
  | composite d =>
    have h := goes_declare hr d []
    refine ⟨h.builds, ?_, (h.sound hr).ends⟩
    intro p hp
    rcases List.mem_cons.1 hp with rfl | hp
    · exact mem_keys_declare r d []
    · exact (h.sound hr).stack p hp
  | blockEnd =>
    refine ⟨.refl _, ?_, hr.ends⟩
    exact fun p hp => hr.stack p (List.mem_of_mem_tail hp)
  | separator s => exact hrest (goes_divide r s)
  | declare d description => exact hrest (goes_declare hr d _)
  | note n =>
    cases n with
    | complete n => exact hrest ⟨.keep (Diagram.keeps_of_elements_eq rfl), rfl, rfl⟩
    | start n => exact hrest ⟨.refl _, rfl, rfl⟩
  | transition source target head => exact builds_connect hr source target head
  | describe name text =>
    exact hrest (goes_describe hr _ _ _ fun e => ⟨rfl, rfl, rfl, fun _ h => h⟩)

/-- What a line does to the diagram. -/
theorem builds_step (hr : r.Sound) (line : SourceLine) :
    r.diagram.Builds (r.placements line) (r.step line).diagram ∧ (r.step line).Sound := by
  have hquiet : ∀ {r' : Reader}, r'.diagram.elements = r.diagram.elements →
      r'.diagram.transitions = r.diagram.transitions → r'.stack = r.stack →
      r.diagram.Builds [] r'.diagram ∧ r'.Sound := by
    intro r' helements htransitions hstack
    have h : r.Goes [] r' := ⟨.keep (Diagram.keeps_of_elements_eq helements), hstack, htransitions⟩
    exact ⟨h.builds, h.sound hr⟩
  unfold step placements
  cases r.note with
  | some open_ =>
    -- the line belongs to a note or ends it
    rw [Option.isSome_some, Bool.true_or, if_pos rfl]
    dsimp only
    split
    · exact hquiet rfl rfl rfl
    · exact hquiet rfl rfl rfl
  | none =>
    simp only [Option.isSome_none, Bool.false_or]
    split
    · exact hquiet rfl rfl rfl
    · split
      · next l hl => rw [hl]; exact builds_apply hr l
      · next hl => rw [hl]; exact hquiet rfl rfl rfl

/-- What lines do to the diagram. -/
theorem builds_foldl (hr : r.Sound) (lines : List SourceLine) :
    r.diagram.Builds (r.allPlacements lines) (lines.foldl step r).diagram ∧
      (lines.foldl step r).Sound := by
  induction lines generalizing r with
  | nil => exact ⟨.refl _, hr⟩
  | cons line rest ih =>
    obtain ⟨hline, hstep⟩ := builds_step hr line
    obtain ⟨hrest, hend⟩ := ih hstep
    exact ⟨hline.trans hrest, hend⟩

lemma sound_start : Sound {} where
  stack := fun _ hp => nomatch hp
  ends := fun _ ht => nomatch ht

end Reader

namespace Diagram

/-- The placements that a text asks for, in order. -/
def placements (text : String) : List Placement :=
  Reader.allPlacements {} (Source.lines text)

/-- What the lines of a text do: they build its diagram from the empty one. -/
theorem builds_read (text : String) : Builds {} (placements text) (read text) :=
  (Reader.builds_foldl Reader.sound_start _).1

lemma mem_keys_of_mem_transitions {text : String} {t : Transition}
    (ht : t ∈ (read text).transitions) :
    t.source ∈ (read text).elements.keys ∧ t.target ∈ (read text).elements.keys :=
  (Reader.builds_foldl Reader.sound_start _).2.ends t ht

lemma consistent_empty : Consistent {} where
  code := fun _ _ h => nomatch h
  mem_iff := fun _ _ => iff_of_false nofun nofun
  ne_self := fun _ h => nomatch h

/-- In the diagram of a text, members and parents agree. -/
lemma consistent_read (text : String) : (read text).Consistent :=
  (builds_read text).consistent consistent_empty

/-- In the diagram of a text, an element belongs to the composite state in which it was placed
first. -/
lemma parent?_read (text : String) (code : String) :
    (read text).parent? code = Placement.holderOf (placements text) code :=
  (builds_read text).parent? code

end Diagram
end State
end UmlDraw
