/-
# An activity is drawn along its outline

The cells of an activity drawing are those of its outline, in the same order and with the same ends.
A piece of drawing is described by the pieces that it adds behind a number of cells and by its
result, and descriptions are put together step by step.

The main statements are

* `Draws.bind`: what two pieces of drawing draw one after the other;
* `Instruction.draws_draw` and the three lemmas beside it: the cells of an instruction, of a list
  and of branches are those of its outline, and so are the ends that it hands to its list;
* `Diagram.map_face_draw`: the drawing of a diagram has the cells of its outline.
-/
import UmlDraw.Proofs.Activity.Count
import UmlDraw.Proofs.Activity.Outline
import UmlDraw.Proofs.Drawing.Canvas

namespace UmlDraw

/-- What an outline tells of a cell: the label of a shape, and the ends of a connector. -/
def Cell.face (c : Cell) : Option String × Option String × Option String :=
  (if c.vertex then some c.value else none, c.source, c.target)

/-- What an outline tells of the cells so far. -/
def Canvas.faces (k : Canvas) : List (Option String × Option String × Option String) :=
  k.cells.map Cell.face

namespace Activity

open Sketch Outline

/-- The id of the cell with the given number. -/
def cellId (n : Nat) : String :=
  Document.numberedId "puml" n

lemma cellId_inj {m n : Nat} : cellId m = cellId n ↔ m = n :=
  ⟨Document.numberedId_injective, congrArg cellId⟩

/-! ### Pieces of drawing -/

/-- What the cell of a piece looks like. -/
def Piece.face : Piece → Option String × Option String × Option String
  | shape value => (some value, none, none)
  | link source target => (none, some (cellId source), some (cellId target))

section Draws

variable {α β : Type} {s : Sketch α} {n m : Nat} {ps ps' : List Piece} {Q : α → Prop}
  {R : β → Prop}

/-- Behind a number of cells the piece of drawing draws the pieces, with a result as described. -/
def Draws (s : Sketch α) (n : Nat) (ps : List Piece) (Q : α → Prop) : Prop :=
  ∀ k, k.cells.length = n →
    Q (s.run k).1 ∧ (s.run k).2.faces = k.faces ++ ps.map Piece.face

lemma draws_pure {a : α} (h : Q a) : Draws (pure a) n [] Q :=
  fun k _ => ⟨h, (List.append_nil k.faces).symm⟩

lemma Draws.bind {f : α → Sketch β} (hs : Draws s n ps Q)
    (hf : ∀ a, Q a → Draws (f a) (n + ps.length) ps' R) : Draws (s >>= f) n (ps ++ ps') R := by
  intro k hk
  obtain ⟨hQ, hfaces⟩ := hs k hk
  have hlength : (s.run k).2.cells.length = n + ps.length := by
    have := congrArg List.length hfaces
    simpa [Canvas.faces, hk] using this
  obtain ⟨hR, hfaces'⟩ := hf _ hQ _ hlength
  refine ⟨hR, hfaces'.trans ?_⟩
  rw [hfaces, List.map_append, List.append_assoc]

/-- A piece of drawing goes before a result. -/
lemma Draws.returns {f : α → β} (hs : Draws s n ps Q) (hf : ∀ a, Q a → R (f a)) :
    Draws (s >>= fun a => pure (f a)) n ps R :=
  List.append_nil ps ▸ hs.bind fun a ha => draws_pure (hf a ha)

lemma Draws.imp {Q' : α → Prop} (hs : Draws s n ps Q) (h : ∀ a, Q a → Q' a) : Draws s n ps Q' :=
  fun k hk => ⟨h _ (hs k hk).1, (hs k hk).2⟩

lemma draws_put {make : String → String → Cell} {p : Piece}
    (hface : ∀ id parent, (make id parent).face = p.face) :
    Draws (put make) n [p] (· = cellId (n + 1)) := by
  intro k hk
  refine ⟨by rw [← hk]; rfl, ?_⟩
  have hput : ((put make).run k).2.faces = k.faces ++ [(make k.nextId k.parent).face] :=
    List.map_append
  rw [hput, hface]
  rfl

lemma draws_shape (value : String) (style : Style) (x y width height : Number) :
    Draws (shape value style x y width height) n [.shape value] (· = cellId (n + 1)) :=
  draws_put fun _ _ => rfl

lemma draws_drawAround (value : String) (style : Style) (cx y : Rat) (size : Size) :
    Draws (drawAround value style cx y size) n [.shape value] (· = cellId (n + 1)) :=
  draws_shape _ _ _ _ _ _

lemma draws_drawDiamond (label : String) (color : Option String) (cx y : Rat) :
    Draws (drawDiamond label color cx y) n [.shape label] (· = cellId (n + 1)) :=
  draws_drawAround _ _ _ _ _

lemma draws_drawMerge (cx y : Rat) (height : Nat) :
    Draws (drawMerge cx y height) n [.shape ""] (· = cellId (n + 1)) :=
  draws_drawAround _ _ _ _ _

lemma draws_connect (value : String) (style : Style) (source target : Nat) :
    Draws (connect value style (cellId source) (cellId target)) n [.link source target]
      fun _ => True :=
  (draws_put fun _ _ => rfl).imp fun _ _ => trivial

lemma draws_drawFlow {source target : Option String} {a b : Option Nat}
    (hsource : source = a.map cellId) (htarget : target = b.map cellId)
    (label color : Option String) (dashed : Bool) :
    Draws (drawFlow source target label color dashed) n (flow a b) fun _ => True := by
  subst hsource htarget
  cases a with
  | none => exact draws_pure trivial
  | some a =>
    cases b with
    | none => exact draws_pure trivial
    | some b => exact (draws_connect _ _ a b).returns fun _ _ => trivial

lemma draws_drawPlain {source target : Option String} {a b : Option Nat}
    (hsource : source = a.map cellId) (htarget : target = b.map cellId) (label : Option String) :
    Draws (drawPlain source target label) n (flow a b) fun _ => True :=
  draws_drawFlow hsource htarget _ _ _

lemma draws_drawBack (source target : Nat) (label : Option String) :
    Draws (drawBack (cellId source) (cellId target) label) n [.link source target] fun _ => True :=
  (draws_connect _ _ source target).returns fun _ _ => trivial

/-- The ends that a drawing hands to its list are those of an outline. -/
structure Outline.Hands (o : Outline) (ends : Ends) : Prop where
  entry : ends.entry = o.entry.map cellId
  exit : ends.exit = o.exit.map cellId

end Draws

/-- The flow ends at the instruction without a final node. -/
def Instruction.isKill : Instruction → Bool
  | step _ .kill => true
  | _ => false

lemma draws_drawStep (n : Nat) (cx y : Rat) (nd : Node) {s : Step} (hnote : ∀ n, s ≠ .note n)
    (hkill : s ≠ .kill) :
    Draws (drawStep cx y s) n (Instruction.outline n (.step nd s)).pieces
      (Instruction.outline n (.step nd s)).Hands := by
  unfold drawStep
  cases s with
  | action | start =>
    refine (draws_drawAround _ _ _ _ _).returns ?_
    rintro id rfl
    exact ⟨rfl, rfl⟩
  | stop | finish =>
    refine Draws.bind (draws_drawAround _ _ _ _ _) ?_
    rintro id rfl
    exact (draws_drawAround _ _ _ _ _).returns fun _ _ => ⟨rfl, rfl⟩
  | kill => exact absurd rfl hkill
  | leave | arrow => exact draws_pure ⟨rfl, rfl⟩
  | note n => exact absurd rfl (hnote n)

lemma draws_drawNote (n : Nat) (cx y : Rat) (note : Note) :
    Draws (drawNote cx y note) n [.shape note.text] fun _ => True :=
  (draws_drawAround _ _ _ _ _).returns fun _ _ => trivial

/-- Behind an instruction the flow goes on where it leaves it, or where it left the one before. -/
lemma draws_join {c : Chain} {before : Option Nat} (hc : c.exit = before.map cellId)
    {o : Outline} {ends : Ends} (hends : o.Hands ends) (label : Option String) (n : Nat) :
    Draws (c.join ends label) n (flow before o.entry) fun c' =>
      c'.entry = c.entry.or (o.entry.map cellId) ∧ c'.exit = (o.exit.or before).map cellId := by
  have hrest : ∀ m, Draws (
      if ends.entry.isSome || ends.exit.isSome then
        pure { c with entry := c.entry.or ends.entry, pending := none, exit := ends.exit,
                      exitLabel := label }
      else pure { c with entry := c.entry.or ends.entry, pending := none } : Sketch Chain) m []
        fun c' => c'.entry = c.entry.or (o.entry.map cellId) ∧
          c'.exit = (o.exit.or before).map cellId := by
    intro m
    obtain ⟨oends, _, _⟩ := o
    have hentry := hends.entry
    have hexit := hends.exit
    cases oends with
    | none =>
      rw [if_neg (by simp [hentry, hexit, Outline.entry, Outline.exit])]
      exact draws_pure ⟨by rw [hentry], hc⟩
    | some e =>
      rw [if_pos (by simp [hentry, Outline.entry])]
      exact draws_pure ⟨by rw [hentry], by rw [hexit]; rfl⟩
  unfold Chain.join
  dsimp only
  split
  · next source target hsource htarget =>
    have hs := hsource.symm.trans hc
    have ht := htarget.symm.trans hends.entry
    rw [← List.append_nil (flow before o.entry)]
    split
    · exact (draws_drawFlow hs ht _ _ _).bind fun _ _ => hrest _
    · exact (draws_drawPlain hs ht _).bind fun _ _ => hrest _
  · next hnone =>
    have hflow : flow before o.entry = [] := by
      cases hb : before with
      | none => rfl
      | some b =>
        cases he : o.entry with
        | none => rfl
        | some e =>
          rw [hb] at hc
          have := hends.entry
          rw [he] at this
          exact absurd this (hnone _ _ hc)
    rw [hflow]
    exact hrest n

namespace Instruction

variable {α : Type} {s : Sketch α} {sketch : Sketch Ends} {o : Outline} {n source target : Nat}
  {ps : List Piece} {Q : α → Prop}

/-- A list is drawn and joined to a cell before it and to a cell behind it. -/
lemma draws_strand (hsketch : Draws sketch n o.pieces o.Hands) (label : Option String)
    (hs : Draws s (n + (o.strand source target).length) ps Q) :
    Draws (do
      let ends ← sketch
      drawPlain (cellId source) ends.entry label
      drawPlain ends.exit (cellId target) none
      s : Sketch α) n (o.strand source target ++ ps) Q := by
  unfold strand at hs ⊢
  rw [List.append_assoc, List.append_assoc]
  rw [List.length_append, List.length_append, ← Nat.add_assoc, ← Nat.add_assoc] at hs
  refine hsketch.bind fun ends hends => ?_
  refine (draws_drawPlain (a := some source) rfl hends.entry _).bind fun _ _ => ?_
  exact (draws_drawPlain hends.exit (b := some target) rfl _).bind fun _ _ => hs

/-- A branch of a decision is drawn and joined to the decision and to the place where branches
meet. -/
lemma draws_branch (hsketch : Draws sketch n o.pieces o.Hands) (label : Option String)
    (hs : Draws s (n + (o.branch source target).length) ps Q) :
    Draws (do
      let ends ← sketch
      drawPlain (cellId source) (ends.entry.or (cellId target)) label
      if ends.entry.isSome then drawPlain ends.exit (cellId target) none
      s : Sketch α) n (o.branch source target ++ ps) Q := by
  unfold branch at hs ⊢
  rw [List.append_assoc, List.append_assoc]
  rw [List.length_append, List.length_append, ← Nat.add_assoc, ← Nat.add_assoc] at hs
  refine hsketch.bind fun ends hends => ?_
  have hinto : ends.entry.or (some (cellId target)) = (o.entry.or target).map cellId := by
    rw [hends.entry]
    cases o.entry <;> rfl
  refine (draws_drawPlain (a := some source) rfl hinto _).bind fun _ _ => ?_
  obtain ⟨oends, _, _⟩ := o
  cases oends with
  | none =>
    have hentry : ends.entry = none := hends.entry
    rw [hentry]
    exact hs
  | some e =>
    have hentry : ends.entry = some (cellId e.1) := hends.entry
    rw [hentry]
    exact (draws_drawPlain hends.exit (b := some target) rfl _).bind fun _ _ => hs

/-- The last branch of a decision goes before the result. -/
lemma draws_lastBranch (hsketch : Draws sketch n o.pieces o.Hands) (label : Option String) {a : α}
    (ha : Q a) :
    Draws (do
      let ends ← sketch
      drawPlain (cellId source) (ends.entry.or (cellId target)) label
      if ends.entry.isSome then drawPlain ends.exit (cellId target) none
      pure a : Sketch α) n (o.branch source target) Q :=
  List.append_nil (o.branch source target) ▸ draws_branch hsketch label (draws_pure ha)

/-- A list is drawn that is done again, with the decision behind it. -/
lemma draws_again (start : Option Nat) (hsketch : Draws sketch n o.pieces o.Hands) (l : Loop)
    (cx y : Rat) :
    Draws (do
      let ends ← sketch
      drawPlain (start.map cellId) ends.entry none
      let diamond ← drawDiamond l.condition l.color cx y
      drawPlain ends.exit diamond none
      let top := ((start.map cellId).or ends.entry).getD diamond
      drawBack diamond top l.againLabel
      pure ⟨some top, some diamond⟩ : Sketch Ends) n (o.again n start l.condition) fun ends =>
        ends.entry = some (cellId (o.top n start)) ∧
          ends.exit = some (cellId (o.test n start)) := by
  refine hsketch.bind fun ends hends => ?_
  refine (draws_drawPlain rfl hends.entry _).bind fun _ _ => ?_
  refine (draws_drawDiamond _ _ _ _).bind ?_
  rintro diamond rfl
  refine (draws_drawPlain hends.exit (b := some _) rfl _).bind fun _ _ => ?_
  have htop : ((start.map cellId).or ends.entry).getD (cellId (o.test n start)) =
      cellId (o.top n start) := by
    rw [hends.entry, top]
    cases start <;> cases o.entry <;> rfl
  have hback : ∀ m top', top' = cellId (o.top n start) → Draws (do
      drawBack (cellId (o.test n start)) top' l.againLabel
      pure ⟨some top', some (cellId (o.test n start))⟩ : Sketch Ends) m
        [.link (o.test n start) (o.top n start)] fun ends =>
          ends.entry = some (cellId (o.top n start)) ∧
            ends.exit = some (cellId (o.test n start)) := by
    rintro m _ rfl
    exact (draws_drawBack _ _ _).returns fun _ _ => ⟨rfl, rfl⟩
  exact hback _ _ htop

/-- A list without a cell before it hands on its own ends. -/
lemma hands_of_drawAll {ends : Ends}
    (h : ends.entry = (none : Option String).or (o.entry.map cellId) ∧
      ends.exit = (o.exit.or none).map cellId) : o.Hands ends :=
  ⟨h.1, h.2.trans (by rw [Option.or_none])⟩

lemma flow_none (source : Option Nat) : flow source none = [] := by
  cases source <;> rfl

/-- An instruction beside the flow adds its shapes and leaves the flow as it is. -/
lemma outlineAll_cons_of_isAside {i : Instruction} (hi : i.isAside = true) {before : Option Nat}
    {rest : List Instruction} :
    outlineAll n before (i :: rest) =
      { outlineAll (n + (outline n i).pieces.length) before rest with
        pieces := (outline n i).pieces ++
          (outlineAll (n + (outline n i).pieces.length) before rest).pieces } := by
  cases i with
  | step nd s =>
    have houtline : outline n (step nd s) = { pieces := s.pieces } := by
      rw [outline, if_pos hi]
    rw [outlineAll, houtline]
    simp [entry, exit, flow_none, span]
  | _ => cases hi

/-- The ends of a list are those of its first instruction and of the rest of it. -/
lemma ends_span {o more : Outline} {before : Option Nat} {first : Option String} {ends : Ends}
    (hentry : ends.entry = (first.or (o.entry.map cellId)).or (more.entry.map cellId))
    (hexit : ends.exit = (more.exit.or (o.exit.or before)).map cellId) :
    ends.entry = first.or (((span o.ends more.ends).map Prod.fst).map cellId) ∧
      ends.exit = (((span o.ends more.ends).map Prod.snd).or before).map cellId := by
  rw [hentry, hexit, map_fst_span, map_snd_span, Option.map_or, Option.or_assoc, Option.or_assoc]
  exact ⟨rfl, rfl⟩

-- The four lemmas go through an instruction as the four functions do.
mutual

lemma draws_draw (lanes : Keyed Rat) (cx y : Rat) (n : Nat) :
    (i : Instruction) → (∀ nd note, i ≠ step nd (.note note)) → (∀ j ∈ i.walk, j.isKill = false) →
      Draws (draw lanes cx y i) n (outline n i).pieces (outline n i).Hands
  | step nd s, hnote, hkill => by
    unfold draw
    refine draws_drawStep n cx y nd (fun note heq => hnote nd note (congrArg (step nd) heq)) ?_
    rintro rfl
    exact absurd (hkill _ (List.mem_singleton_self _)) (by simp [isKill])
  | choice nd c first others last, _, hkill => by
    simp only [walk, List.forall_mem_cons, List.forall_mem_append] at hkill
    obtain ⟨-, ⟨hfirst, hothers⟩, hlast⟩ := hkill
    unfold draw outline
    split
    · exact (draws_drawDiamond _ _ _ _).returns fun id hid => hid ▸ ⟨rfl, rfl⟩
    · refine (draws_drawDiamond _ _ _ _).bind ?_
      rintro diamond rfl
      refine (draws_drawMerge _ _ _).bind ?_
      rintro merge rfl
      refine draws_branch ((draws_drawAll lanes _ _ rfl first hfirst).imp fun _ => hands_of_drawAll)
        _ ?_
      refine (draws_drawOthers lanes _ _ _ _ _ others hothers).bind ?_
      rintro ⟨lastDiamond, left⟩ hdiamond
      obtain rfl : lastDiamond = _ := hdiamond
      exact draws_lastBranch
        ((draws_drawAll lanes _ _ rfl last hlast).imp fun _ => hands_of_drawAll) _ ⟨rfl, rfl⟩
  | loop nd l body, _, hkill => by
    rw [walk, List.forall_mem_cons] at hkill
    obtain ⟨-, hbody⟩ := hkill
    unfold draw outline
    cases l.test with
    | before =>
      refine (draws_drawDiamond _ _ _ _).bind ?_
      rintro diamond rfl
      refine (draws_drawAll lanes _ _ rfl body hbody).bind fun ends hends => ?_
      have hends : (outlineAll (n + 1) none body).Hands ends := hands_of_drawAll hends
      refine (draws_drawPlain (a := some _) rfl hends.entry _).bind fun _ _ => ?_
      dsimp only
      split
      · next exit hexit =>
        obtain ⟨e, he, rfl⟩ := Option.map_eq_some_iff.1 (hends.exit.symm.trans hexit)
        rw [he]
        exact (draws_drawBack _ _ _).returns fun _ _ => ⟨rfl, rfl⟩
      · next hexit =>
        rw [Option.map_eq_none_iff.1 (hends.exit.symm.trans hexit)]
        exact draws_pure ⟨rfl, rfl⟩
    | after startLabel =>
      have hbody : ∀ (y : Rat) (m : Nat),
          Draws (drawAll lanes cx { y := y, lastY := y } body) m (outlineAll m none body).pieces
            (outlineAll m none body).Hands :=
        fun y m => (draws_drawAll lanes cx m rfl body hbody).imp fun _ => hands_of_drawAll
      cases startLabel with
      | none =>
        exact (draws_again none (hbody y n) l cx _).imp fun _ hends =>
          ⟨hends.1, hends.2⟩
      | some label =>
        refine (draws_drawAround _ _ _ _ _).bind ?_
        rintro start rfl
        exact (draws_again (some (n + 1)) (hbody _ (n + 1)) l cx _).imp fun _ hends =>
          ⟨hends.1, hends.2⟩
  | switch nd condition color cases, _, hkill => by
    rw [walk, List.forall_mem_cons] at hkill
    unfold draw outline
    refine (draws_drawDiamond _ _ _ _).bind ?_
    rintro diamond rfl
    refine (draws_drawMerge _ _ _).bind ?_
    rintro merge rfl
    exact (draws_drawBranches lanes _ _ _ _ _ cases hkill.2).returns fun _ _ => ⟨rfl, rfl⟩
  | fork nd isSplit branches, _, hkill => by
    rw [walk, List.forall_mem_cons] at hkill
    unfold draw outline
    refine (draws_shape _ _ _ _ _ _).bind ?_
    rintro top rfl
    refine (draws_shape _ _ _ _ _ _).bind ?_
    rintro bottom rfl
    exact (draws_drawBranches lanes _ _ _ _ _ branches hkill.2).returns fun _ _ => ⟨rfl, rfl⟩
  | partition nd name color body, _, hkill => by
    rw [walk, List.forall_mem_cons] at hkill
    unfold draw outline
    refine (draws_drawAround _ _ _ _ _).bind ?_
    rintro frame rfl
    refine List.append_nil (outlineAll (n + 1) none body).pieces ▸
      (draws_drawAll lanes _ _ rfl body hkill.2).bind fun ends hends => ?_
    have hends : (outlineAll (n + 1) none body).Hands ends := hands_of_drawAll hends
    generalize outlineAll (n + 1) none body = inner at hends ⊢
    obtain ⟨iends, _, _⟩ := inner
    have hentry := hends.entry
    have hexit := hends.exit
    cases iends with
    | none =>
      rw [if_pos (by simp [hentry, hexit, Outline.entry, Outline.exit])]
      exact draws_pure ⟨rfl, rfl⟩
    | some e =>
      rw [if_neg (by simp [hentry, Outline.entry])]
      exact draws_pure ⟨hentry, hexit⟩

lemma draws_drawAll (lanes : Keyed Rat) (cx : Rat) (n : Nat) {c : Chain} {before : Option Nat}
    (hc : c.exit = before.map cellId) :
    (is : List Instruction) → (∀ j ∈ walkAll is, j.isKill = false) →
      Draws (drawAll lanes cx c is) n (outlineAll n before is).pieces fun ends =>
        ends.entry = c.entry.or ((outlineAll n before is).entry.map cellId) ∧
          ends.exit = ((outlineAll n before is).exit.or before).map cellId
  | [], _ => by
    unfold drawAll outlineAll
    exact draws_pure ⟨Option.or_none.symm, hc⟩
  | i :: rest, hkill => by
    rw [walkAll, List.forall_mem_append] at hkill
    unfold drawAll
    split
    · next heq => cases heq
    · next nd a _ heq =>
      obtain ⟨rfl, rfl⟩ := List.cons.inj heq
      rw [outlineAll_cons_of_isAside rfl]
      exact draws_drawAll lanes cx n (c := { c with pending := some a }) hc rest hkill.2
    · next nd note _ heq =>
      obtain ⟨rfl, rfl⟩ := List.cons.inj heq
      rw [outlineAll_cons_of_isAside rfl]
      refine (draws_drawNote n _ _ note).bind fun _ _ => ?_
      cases note.isLeft with
      | true =>
        refine draws_drawAll lanes cx (n + 1) ?_ rest hkill.2
        exact hc
      | false =>
        refine draws_drawAll lanes cx (n + 1) ?_ rest hkill.2
        exact hc
    · next hnote heq =>
      obtain ⟨rfl, rfl⟩ := List.cons.inj heq
      refine (draws_draw lanes _ _ n i (fun nd note hi => hnote nd note hi) hkill.1).bind ?_
      intro ends hends
      refine (draws_join hc hends _ _).bind fun c' hc' => ?_
      have hrest : ∀ c'' : Chain, c''.entry = c'.entry → c''.exit = c'.exit →
          Draws (drawAll lanes cx c'' rest)
            (n + (outline n i).pieces.length + (flow before (outline n i).entry).length) _ _ :=
        fun c'' hentry hexit =>
          (draws_drawAll lanes cx _ (hexit.trans hc'.2) rest hkill.2).imp fun ends' hends' =>
            ends_span (hc'.1 ▸ hentry ▸ hends'.1) hends'.2
      cases i.isAside with
      | true => exact hrest c' rfl rfl
      | false => exact hrest _ rfl rfl

lemma draws_drawOthers (lanes : Keyed Rat) (y left : Rat) (n merge before : Nat) :
    (others : List (Branch Instruction)) → (∀ j ∈ walkBranches others, j.isKill = false) →
      Draws (drawOthers lanes y (cellId merge) (cellId before) left others) n
        (outlineOthers n merge before others).1.pieces fun r =>
          r.1 = cellId (outlineOthers n merge before others).2
  | [], _ => by
    unfold drawOthers outlineOthers
    exact draws_pure rfl
  | ⟨condition, label, body⟩ :: rest, hkill => by
    rw [walkBranches, List.forall_mem_append] at hkill
    unfold drawOthers outlineOthers
    refine (draws_drawDiamond _ _ _ _).bind ?_
    rintro diamond rfl
    refine (draws_drawPlain (a := some before) (b := some _) rfl rfl _).bind fun _ _ => ?_
    refine draws_branch ((draws_drawAll lanes _ _ rfl body hkill.1).imp fun _ => hands_of_drawAll)
      _ ?_
    exact draws_drawOthers lanes _ _ _ _ _ rest hkill.2

lemma draws_drawBranches (lanes : Keyed Rat) (y left : Rat) (n source target : Nat) :
    (branches : List (Branch Instruction)) → (∀ j ∈ walkBranches branches, j.isKill = false) →
      Draws (drawBranches lanes y (cellId source) (cellId target) left branches) n
        (outlineBranches n source target branches).pieces fun _ => True
  | [], _ => by
    unfold drawBranches outlineBranches
    exact draws_pure trivial
  | ⟨condition, _, body⟩ :: rest, hkill => by
    rw [walkBranches, List.forall_mem_append] at hkill
    unfold drawBranches outlineBranches
    refine draws_strand ((draws_drawAll lanes _ _ rfl body hkill.1).imp fun _ => hands_of_drawAll)
      _ ?_
    exact draws_drawBranches lanes _ _ _ _ _ rest hkill.2

end

end Instruction

/-! ### The drawing of a diagram -/

namespace Diagram

lemma draws_drawLanes (n : Nat) (places : Keyed (Nat × Nat)) (y height : Nat) {ls : List Lane}
    (h : ∀ l ∈ ls, ∃ place, places.get? l.name = some place) :
    Draws (drawLanes places y height ls) n
      (ls.map fun l => .shape ((l.label.filter fun s => !s.isEmpty).getD l.name))
      fun _ => True := by
  induction ls generalizing n with
  | nil => exact draws_pure trivial
  | cons l rest ih =>
    obtain ⟨⟨place, hplace⟩, hrest⟩ := List.forall_mem_cons.1 h
    unfold drawLanes
    rw [hplace]
    exact (draws_shape _ _ _ _ _ _).bind fun _ _ => ih _ hrest

/-- The cells of the drawing are those of the title, of the lanes and of the outline. -/
theorem map_face_draw {d : Diagram} (hd : Lane.Named d.lanes)
    (hkill : ∀ i ∈ Instruction.walkAll d.instructions, i.isKill = false) (parent : String) :
    (d.draw parent).map Cell.face = (d.head ++ d.outline.pieces).map Piece.face := by
  have hbody : ∀ (n top : Nat) (size : Size),
      n + d.lanes.values.length = d.head.length → Draws (
      if d.lanes.keys.isEmpty then do
        let _ ← Instruction.drawAll Keyed.empty (margin + size.width / 2)
          { y := top, lastY := top } d.instructions
      else do
        let places := d.placeLanes margin d.laneNames Keyed.empty
        let centers : Keyed Rat := places.map fun _ place => place.1 + place.2 / 2
        drawLanes places (top - margin) (size.height + laneHeader + margin * 2) d.lanes.values
        let first := (d.laneNames.head?.bind centers.get?).getD 0
        let y : Rat := top + laneHeader
        let _ ← Instruction.drawAll centers first { y := y, lastY := y } d.instructions :
      Sketch Unit) n (d.lanes.values.map (fun l =>
        .shape ((l.label.filter fun s => !s.isEmpty).getD l.name)) ++ d.outline.pieces)
        fun _ => True := by
    intro n top size hn
    split
    · next hempty =>
      have hvalues : d.lanes.values = [] := by
        rw [Keyed.keys, List.isEmpty_iff, List.map_eq_nil_iff] at hempty
        rw [Keyed.values, hempty, List.map_nil]
      rw [hvalues, List.map_nil, List.nil_append]
      rw [hvalues] at hn
      obtain rfl : n = d.head.length := hn
      exact (Instruction.draws_drawAll _ _ _ rfl _ hkill).returns fun _ _ => trivial
    · refine (draws_drawLanes n _ _ _ fun l hl => exists_place hd hl).bind fun _ _ => ?_
      rw [List.length_map, hn]
      exact (Instruction.draws_drawAll _ _ _ rfl _ hkill).returns fun _ _ => trivial
  have hsketch : Draws d.sketch 0 (d.head ++ d.outline.pieces) fun _ => True := by
    unfold sketch
    have hlength : d.head.length =
        (d.title.filter fun t => !t.isEmpty).toList.length + d.lanes.values.length := by
      simp [head]
    unfold head
    cases htitle : d.title.filter fun t => !t.isEmpty with
    | none =>
      rw [htitle] at hlength
      exact hbody 0 _ _ (by simpa using hlength.symm)
    | some t =>
      rw [htitle] at hlength
      rw [List.append_assoc]
      refine (draws_shape _ _ _ _ _ _).bind fun _ _ => ?_
      exact hbody 1 _ _ (by simpa using hlength.symm)
  exact (hsketch { parent := parent } rfl).2

end Diagram
end Activity
end UmlDraw
