/-
# Ways out of loops

A loop is left at its decision, by a connector that starts there.

The main statements are

* `Sketch.Appends.bind`: what two pieces of drawing append one after the other;
* `Activity.Links.labelsFrom_eq_nil`: at a cell that is none of the sources no connector starts;
* `Activity.appends_drawFlow` and the lemmas behind it: what the connectors of an activity join;
* `Instruction.exits` and the two functions beside it: what is behind each loop of a tree;
* `Instruction.map_instruction_exits`: each loop of a tree is listed once;
* `Hosts.seq`: the loops drawn in two pieces of drawing, one after the other.
-/
import UmlDraw.Proofs.Activity.Pieces

namespace UmlDraw

/-! ## The connectors that start at a cell

The cells of a drawing are numbered.  A piece of drawing appends cells to a canvas, and what it
appends is described by the numbers of the cells that its connectors join.  From this one sees which
connectors start at a given cell, and that a piece of drawing adds none to a cell that it does not
know. -/

namespace Cell

/-- The labels of the connectors that start at a cell. -/
def labelsFrom (id : String) (cells : List Cell) : List String :=
  (cells.filter fun c => c.source == some id).map Cell.value

@[simp]
lemma labelsFrom_nil (id : String) : labelsFrom id [] = [] := rfl

@[simp]
lemma labelsFrom_append (id : String) (cells cells' : List Cell) :
    labelsFrom id (cells ++ cells') = labelsFrom id cells ++ labelsFrom id cells' := by
  simp [labelsFrom]

lemma labelsFrom_eq_nil {id : String} {cells : List Cell} (h : ∀ c ∈ cells, c.source ≠ some id) :
    labelsFrom id cells = [] := by
  simpa [labelsFrom] using h

end Cell

namespace Canvas

/-- The number of cells on a canvas. -/
def count (k : Canvas) : Nat :=
  k.cells.length

/-- The canvas with further cells. -/
def add (k : Canvas) (cs : List Cell) : Canvas :=
  { k with cells := k.cells ++ cs }

@[simp]
lemma add_nil (k : Canvas) : k.add [] = k := by
  simp [add]

@[simp]
lemma add_add (k : Canvas) (cs cs' : List Cell) : (k.add cs).add cs' = k.add (cs ++ cs') := by
  simp [add]

@[simp]
lemma count_add (k : Canvas) (cs : List Cell) : (k.add cs).count = k.count + cs.length :=
  List.length_append

@[simp]
lemma parent_add (k : Canvas) (cs : List Cell) : (k.add cs).parent = k.parent := rfl

end Canvas

namespace Sketch

variable {α β : Type} {s : Sketch α} {k : Canvas} {Q Q' : α → List Cell → Prop}
  {R : β → List Cell → Prop}

/-- Drawn on the canvas, the piece of drawing appends cells; they and the result are as
described. -/
def Appends (s : Sketch α) (k : Canvas) (Q : α → List Cell → Prop) : Prop :=
  ∃ cs, (s.run k).2 = k.add cs ∧ Q (s.run k).1 cs

lemma Appends.pure {a : α} (h : Q a []) : (Pure.pure a : Sketch α).Appends k Q :=
  ⟨[], k.add_nil.symm, h⟩

lemma Appends.bind {f : α → Sketch β} (hs : s.Appends k Q)
    (hf : ∀ a cs, Q a cs → (f a).Appends (k.add cs) fun b cs' => R b (cs ++ cs')) :
    (s >>= f).Appends k R := by
  obtain ⟨cs, hcs, hQ⟩ := hs
  obtain ⟨cs', hcs', hR⟩ := hf _ cs hQ
  rw [← hcs] at hcs' hR
  refine ⟨cs ++ cs', ?_, hR⟩
  rw [← Canvas.add_add, ← hcs, ← hcs']
  rfl

lemma Appends.imp (hs : s.Appends k Q) (h : ∀ a cs, Q a cs → Q' a cs) : s.Appends k Q' := by
  obtain ⟨cs, hcs, hQ⟩ := hs
  exact ⟨cs, hcs, h _ _ hQ⟩

/-- A piece of drawing goes before a result. -/
lemma Appends.returns {f : α → β} (hs : s.Appends k fun a cs => R (f a) cs) :
    (s >>= fun a => Pure.pure (f a) : Sketch β).Appends k R := by
  refine hs.bind fun a cs h => Appends.pure ?_
  rwa [List.append_nil]

/-- The run itself is part of the description. -/
lemma Appends.run (hs : s.Appends k Q) :
    s.Appends k fun a cs => s.run k = (a, k.add cs) ∧ Q a cs := by
  obtain ⟨cs, hcs, hQ⟩ := hs
  exact ⟨cs, hcs, Prod.ext rfl hcs, hQ⟩

end Sketch

namespace Activity

open Cell Sketch

/-! ### Numbered cells -/

/-- The connectors among the cells lead from numbered cells to numbered cells as described. -/
structure Links (P Q : Nat → Prop) (cs : List Cell) : Prop where
  source : ∀ c ∈ cs, ∀ id, c.source = some id → ∃ n, P n ∧ cellId n = id
  target : ∀ c ∈ cs, ∀ id, c.target = some id → ∃ n, Q n ∧ cellId n = id

section Links

variable {P P' Q Q' : Nat → Prop} {cs cs' : List Cell}

lemma Links.nil : Links P Q [] where
  source := List.forall_mem_nil _
  target := List.forall_mem_nil _

lemma Links.append (h : Links P Q cs) (h' : Links P Q cs') : Links P Q (cs ++ cs') where
  source := List.forall_mem_append.2 ⟨h.source, h'.source⟩
  target := List.forall_mem_append.2 ⟨h.target, h'.target⟩

lemma Links.mono (h : Links P Q cs) (hP : ∀ n, P n → P' n) (hQ : ∀ n, Q n → Q' n) :
    Links P' Q' cs where
  source c hc id hid := (h.source c hc id hid).imp fun n => And.imp_left (hP n)
  target c hc id hid := (h.target c hc id hid).imp fun n => And.imp_left (hQ n)

/-- At a cell that is none of the sources no connector starts. -/
lemma Links.labelsFrom_eq_nil (h : Links P Q cs) {n : Nat} (hn : ¬ P n) :
    labelsFrom (cellId n) cs = [] := by
  refine Cell.labelsFrom_eq_nil fun c hc hsource => ?_
  obtain ⟨m, hm, heq⟩ := h.source c hc _ hsource
  exact hn (cellId_inj.1 heq ▸ hm)

end Links

/-- A cell is a shape with a number and a label. -/
structure IsBox (c : Cell) (n : Nat) (value : String) : Prop where
  id : c.id = cellId n
  vertex : c.vertex = true
  value : c.value = value
  source : c.source = none
  target : c.target = none

lemma IsBox.links {c : Cell} {n : Nat} {value : String} (h : IsBox c n value)
    (P Q : Nat → Prop) : Links P Q [c] := by
  refine ⟨?_, ?_⟩
  · simp [h.source]
  · simp [h.target]

lemma IsBox.labelsFrom_eq_nil {c : Cell} {n : Nat} {value : String} (h : IsBox c n value)
    (id : String) : labelsFrom id [c] = [] := by
  simp [labelsFrom, h.source]

/-- The cells are a connector with the given label from the first cell to the second one; if one of
the two is missing, there is none. -/
structure Leads (a b : Option Nat) (value : String) (cs : List Cell) : Prop where
  links : Links (fun n => a = some n) (fun n => b = some n) cs
  labels : ∀ n, labelsFrom (cellId n) cs = if a = some n ∧ b.isSome = true then [value] else []

lemma leads_none {a b : Option Nat} (h : a = none ∨ b = none) (value : String) :
    Leads a b value [] := by
  refine ⟨Links.nil, fun n => ?_⟩
  rcases h with rfl | rfl
  · rfl
  · simp

/-! ### Pieces of an activity drawing -/

section Pieces

variable {k : Canvas}

lemma appends_shape (value : String) (style : Style) (x y width height : Number) (k : Canvas) :
    (shape value style x y width height).Appends k fun id cs =>
      id = cellId (k.count + 1) ∧ ∃ c, cs = [c] ∧ IsBox c (k.count + 1) value :=
  ⟨[_], rfl, rfl, _, rfl, rfl, rfl, rfl, rfl, rfl⟩

lemma appends_drawAround (value : String) (style : Style) (cx y : Rat) (size : Size)
    (k : Canvas) :
    (drawAround value style cx y size).Appends k fun id cs =>
      id = cellId (k.count + 1) ∧ ∃ c, cs = [c] ∧ IsBox c (k.count + 1) value :=
  appends_shape _ _ _ _ _ _ k

lemma appends_drawDiamond (label : String) (color : Option String) (cx y : Rat) (k : Canvas) :
    (drawDiamond label color cx y).Appends k fun id cs =>
      id = cellId (k.count + 1) ∧ ∃ c, cs = [c] ∧ IsBox c (k.count + 1) label :=
  appends_drawAround _ _ _ _ _ k

lemma appends_drawMerge (cx y : Rat) (height : Nat) (k : Canvas) :
    (drawMerge cx y height).Appends k fun id cs =>
      id = cellId (k.count + 1) ∧ ∃ c, cs = [c] ∧ IsBox c (k.count + 1) "" :=
  appends_drawAround _ _ _ _ _ k

lemma appends_connect (value : String) (style : Style) (a b : Nat) (k : Canvas) :
    (connect value style (cellId a) (cellId b)).Appends k fun _ cs => Leads a b value cs := by
  refine ⟨[_], rfl, ⟨?_, ?_⟩, fun n => ?_⟩
  · intro c hc id hid
    rw [List.mem_singleton.1 hc] at hid
    exact ⟨a, rfl, Option.some.inj hid⟩
  · intro c hc id hid
    rw [List.mem_singleton.1 hc] at hid
    exact ⟨b, rfl, Option.some.inj hid⟩
  · by_cases hn : a = n
    · subst hn
      simp [labelsFrom, connector]
    · have hid : cellId a ≠ cellId n := fun h => hn (cellId_inj.1 h)
      simp [labelsFrom, connector, hn, hid]

lemma appends_drawFlow {source target : Option String} {a b : Option Nat}
    (hsource : source = a.map cellId) (htarget : target = b.map cellId)
    (label color : Option String) (dashed : Bool) (k : Canvas) :
    (drawFlow source target label color dashed).Appends k fun _ cs =>
      Leads a b (label.getD "") cs := by
  subst hsource htarget
  cases a with
  | none => exact Appends.pure (leads_none (.inl rfl) _)
  | some a =>
    cases b with
    | none => exact Appends.pure (leads_none (.inr rfl) _)
    | some b => exact (appends_connect _ _ a b k).returns

lemma appends_drawPlain {source target : Option String} {a b : Option Nat}
    (hsource : source = a.map cellId) (htarget : target = b.map cellId) (label : Option String)
    (k : Canvas) :
    (drawPlain source target label).Appends k fun _ cs => Leads a b (label.getD "") cs :=
  appends_drawFlow hsource htarget _ _ _ k

lemma appends_drawBack (a b : Nat) (label : Option String) (k : Canvas) :
    (drawBack (cellId a) (cellId b) label).Appends k fun _ cs =>
      Leads a b (label.getD "") cs :=
  (appends_connect _ _ a b k).returns

end Pieces

end Activity

/-! ## What is behind the loops of a tree

A loop is left at its decision.  Where the flow goes from there depends on where the loop stands: to
the next instruction of its list, to the end of the branch or of the loop around it, or, behind the
last instruction of a partition, to what follows the partition.  The label of the way out is written
at the connector to the next instruction of the list and at no other one. -/

namespace Activity

open Cell Sketch

/-! ### What is behind a loop -/

/-- What the flow comes to behind an instruction. -/
inductive Behind where
  /-- Nothing, at the end of the diagram. -/
  | nothing
  /-- The end of a branch or of the body of a loop, to which a plain connector leads. -/
  | close
  /-- The next instruction of the list, with the connector line before it. -/
  | next (line : Option Arrow)
  /-- What follows the partition that ends here, with the connector line before it. -/
  | beyond (line : Option Arrow)
deriving DecidableEq

namespace Behind

/-- What the flow comes to behind the last instruction of a partition, by what is behind the
partition. -/
def past : Behind → Behind
  | next line => beyond line
  | b => b

/-- The labels of the connectors that lead on from the way out of an instruction.  A connector line
has a label of its own; else the label of the way out is taken, but only in the list in which it
was written. -/
def labels (exitLabel : Option String) : Behind → List String
  | nothing => []
  | close => [""]
  | next line => [((line.bind Arrow.label).or exitLabel).getD ""]
  | beyond line => [(line.bind Arrow.label).getD ""]

@[simp]
lemma labels_past (b : Behind) (label : Option String) : b.past.labels label = b.labels none := by
  cases b with
  | next line => simp [past, labels]
  | _ => rfl

/-- Behind a partition no label of the way out is looked at. -/
lemma labels_past_eq (b : Behind) (label : Option String) :
    b.past.labels label = b.past.labels none := by
  rw [labels_past, labels_past]

end Behind

/-- A loop and what is behind it. -/
structure Exit where
  node : Node
  loop : Loop
  body : List Instruction
  /-- What the flow comes to behind the loop. -/
  behind : Behind

/-- The loop as an instruction. -/
def Exit.instruction (e : Exit) : Instruction :=
  .loop e.node e.loop e.body

/-- The labels of the connectors that leave the loop. -/
def Exit.labels (e : Exit) : List String :=
  e.behind.labels e.loop.exitLabel

namespace Instruction

/-- The instruction is a loop. -/
def isLoop : Instruction → Bool
  | loop _ _ _ => true
  | _ => false

/-- What the flow comes to at the start of a list, behind a connector line; behind the list comes
`out`.  What is no part of the flow is passed over; a note and a step that leaves a loop end the
effect of a connector line. -/
def behind (out : Behind) (line : Option Arrow) : List Instruction → Behind
  | [] => out
  | .step _ (.arrow a) :: rest => behind out (some a) rest
  | i :: rest => if i.isAside then behind out none rest else .next line

mutual

/-- The loops of an instruction, with what is behind them, if `out` is behind the instruction. -/
def exits (out : Behind) : Instruction → List Exit
  | step _ _ => []
  | choice _ _ first others last =>
    exitsAll .close first ++ exitsBranches others ++ exitsAll .close last
  | loop n l body => ⟨n, l, body, out⟩ :: exitsAll .close body
  | switch _ _ _ cases => exitsBranches cases
  | fork _ _ branches => exitsBranches branches
  | partition _ _ _ body => exitsAll out.past body

/-- The loops of a list, with what is behind them, if `out` is behind the list. -/
def exitsAll (out : Behind) : List Instruction → List Exit
  | [] => []
  | i :: rest => exits (behind out none rest) i ++ exitsAll out rest

/-- The loops of branches, with what is behind them. -/
def exitsBranches : List (Branch Instruction) → List Exit
  | [] => []
  | ⟨_, _, body⟩ :: rest => exitsAll .close body ++ exitsBranches rest

end

mutual

/-- Each loop is listed once, in the order in which the loops are written. -/
lemma map_instruction_exits (out : Behind) :
    (i : Instruction) → (exits out i).map Exit.instruction = i.walk.filter isLoop
  | step n s => rfl
  | choice n c first others last => by
    simp [exits, walk, isLoop, map_instruction_exitsAll, map_instruction_exitsBranches]
  | loop n l body => by
    rw [exits, List.map_cons, map_instruction_exitsAll, walk, List.filter_cons_of_pos rfl]
    rfl
  | switch n condition color cases => by
    simp [exits, walk, isLoop, map_instruction_exitsBranches]
  | fork n isSplit branches => by
    simp [exits, walk, isLoop, map_instruction_exitsBranches]
  | partition n name color body => by
    simp [exits, walk, isLoop, map_instruction_exitsAll]

lemma map_instruction_exitsAll (out : Behind) :
    (is : List Instruction) →
      (exitsAll out is).map Exit.instruction = (walkAll is).filter isLoop
  | [] => rfl
  | i :: rest => by
    simp [exitsAll, walkAll, map_instruction_exits, map_instruction_exitsAll]

lemma map_instruction_exitsBranches :
    (branches : List (Branch Instruction)) →
      (exitsBranches branches).map Exit.instruction = (walkBranches branches).filter isLoop
  | [] => rfl
  | ⟨condition, label, body⟩ :: rest => by
    simp [exitsBranches, walkBranches, map_instruction_exitsAll, map_instruction_exitsBranches]

end

end Instruction

/-- The loops of a diagram, with what is behind them. -/
def Diagram.exits (d : Diagram) : List Exit :=
  Instruction.exitsAll .nothing d.instructions

/-! ### Where a loop is drawn -/

/-- A number is that of one of the cells that are appended to a canvas. -/
def Among (k : Canvas) (cs : List Cell) (n : Nat) : Prop :=
  k.count < n ∧ n ≤ k.count + cs.length

section Among

variable {k : Canvas} {cs cs' : List Cell} {n : Nat}

lemma Among.left (h : Among k cs n) : Among k (cs ++ cs') n := by
  simp only [Among, List.length_append] at h ⊢
  omega

lemma Among.right (h : Among (k.add cs) cs' n) : Among k (cs ++ cs') n := by
  simp only [Among, List.length_append, Canvas.count_add] at h ⊢
  omega

end Among

/-- A loop that is drawn. -/
structure Spot extends Exit where
  /-- The canvas on which the loop is drawn. -/
  canvas : Canvas
  /-- The cells that it appends. -/
  own : List Cell
  /-- The number of its decision. -/
  diamond : Nat

namespace Spot

/-- The loop is drawn so: drawing it appends its own cells, its decision is one of them, and their
connectors stay among them. -/
structure Drawn (s : Spot) : Prop where
  run : ∃ lanes cx y entry, (s.instruction.draw lanes cx y).run s.canvas =
    (⟨some entry, some (cellId s.diamond)⟩, s.canvas.add s.own)
  diamond : ∃ c ∈ s.own, IsBox c s.diamond s.loop.condition
  among : Among s.canvas s.own s.diamond
  links : Links (Among s.canvas s.own) (Among s.canvas s.own) s.own

/-- The loop is drawn among cells that are appended to a canvas, and the connectors of these cells
that start at its decision, its own ones apart, have the given labels. -/
structure In (s : Spot) (k : Canvas) (cs : List Cell) (labels : List String) : Prop where
  drawn : s.Drawn
  place : ∃ before after, s.canvas = k.add before ∧ cs = before ++ (s.own ++ after) ∧
    labelsFrom (cellId s.diamond) (before ++ after) = labels

variable {s : Spot} {k : Canvas} {cs cs' : List Cell} {labels : List String}

/-- Further cells may have further connectors from the decision. -/
lemma In.append (h : s.In k cs labels) (cs' : List Cell) :
    s.In k (cs ++ cs') (labels ++ labelsFrom (cellId s.diamond) cs') := by
  obtain ⟨before, after, hcanvas, rfl, rfl⟩ := h.place
  exact ⟨h.drawn, before, after ++ cs', hcanvas, by simp, by simp⟩

lemma In.prepend (h : s.In (k.add cs) cs' labels)
    (hcs : labelsFrom (cellId s.diamond) cs = []) : s.In k (cs ++ cs') labels := by
  obtain ⟨before, after, hcanvas, rfl, rfl⟩ := h.place
  exact ⟨h.drawn, cs ++ before, after, by simp [hcanvas], by simp, by simp [hcs]⟩

lemma In.among (h : s.In k cs labels) : Among k cs s.diamond := by
  obtain ⟨before, after, hcanvas, rfl, -⟩ := h.place
  have hamong := h.drawn.among
  simp only [Among, hcanvas, Canvas.count_add, List.length_append] at hamong ⊢
  omega

lemma In.count_canvas (h : s.In k cs labels) :
    k.count ≤ s.canvas.count ∧ s.canvas.count ≤ k.count + cs.length := by
  obtain ⟨before, after, hcanvas, rfl, -⟩ := h.place
  simp only [hcanvas, Canvas.count_add, List.length_append]
  omega

/-- Two loops are drawn in this order and with decisions of their own. -/
def Before (s t : Spot) : Prop :=
  s.canvas.count ≤ t.canvas.count ∧ s.diamond ≠ t.diamond

end Spot

/-- Loops are drawn among the cells, and all connectors that leave them as well; only a loop at
whose decision the flow still goes out has none. -/
structure Hosts (k : Canvas) (cs : List Cell) (exit : Option Nat) (ss : List Spot) : Prop where
  spots : ∀ s ∈ ss, s.In k cs (if exit = some s.diamond then [] else s.labels)
  order : ss.Pairwise Spot.Before

namespace Hosts

variable {k : Canvas} {cs cs' : List Cell} {exit exit' : Option Nat} {ss tt : List Spot}

lemma nil : Hosts k cs exit [] :=
  ⟨List.forall_mem_nil _, List.Pairwise.nil⟩

lemma among (h : Hosts k cs exit ss) {s : Spot} (hs : s ∈ ss) : Among k cs s.diamond :=
  (h.spots s hs).among

/-- The decision of a loop is no earlier cell. -/
lemma ne_diamond (h : Hosts k cs exit ss) {n : Nat} (hn : n ≤ k.count) :
    ∀ s ∈ ss, s.diamond ≠ n :=
  fun _ hs => Nat.ne_of_gt (hn.trans_lt (h.among hs).1)

/-- The flow goes out elsewhere. -/
lemma leave (h : Hosts k cs none ss) (hexit : ∀ s ∈ ss, exit ≠ some s.diamond) :
    Hosts k cs exit ss := by
  refine ⟨fun s hs => ?_, h.order⟩
  rw [if_neg (hexit s hs)]
  simpa using h.spots s hs

/-- A loop is drawn around others. -/
lemma cons {s : Spot} (h : Hosts k cs exit ss) (hdrawn : s.Drawn) (hcanvas : s.canvas = k)
    (hown : s.own = cs) (hexit : exit = some s.diamond) (hne : ∀ t ∈ ss, t.diamond ≠ s.diamond) :
    Hosts k cs exit (s :: ss) where
  spots := by
    refine List.forall_mem_cons.2 ⟨⟨hdrawn, [], [], ?_, ?_, ?_⟩, h.spots⟩
    · simp [hcanvas]
    · simp [hown]
    · simp [hexit]
  order := by
    refine List.pairwise_cons.2 ⟨fun t ht => ⟨?_, (hne t ht).symm⟩, h.order⟩
    rw [hcanvas]
    exact (h.spots t ht).count_canvas.1

/-- Loops are drawn in two pieces of drawing, the second of which has the connectors that leave the
loop at which the flow went out of the first one, unless the flow still goes out there. -/
lemma seq (h : Hosts k cs exit ss) (h' : Hosts (k.add cs) cs' exit' tt) {P Q : Nat → Prop}
    (hlinks : Links P Q cs) (hP : ∀ n, P n → n ≤ k.count + cs.length)
    (hexit : ∀ s ∈ ss, exit' = some s.diamond → exit = some s.diamond)
    (hlabels : ∀ s ∈ ss, labelsFrom (cellId s.diamond) cs' =
      if exit = some s.diamond then (if exit' = some s.diamond then [] else s.labels) else []) :
    Hosts k (cs ++ cs') exit' (ss ++ tt) where
  spots := by
    refine List.forall_mem_append.2 ⟨fun s hs => ?_, fun t ht => ?_⟩
    · have hin := (h.spots s hs).append cs'
      have hstays := hexit s hs
      rw [hlabels s hs] at hin
      by_cases hs' : exit' = some s.diamond
      · simpa [hs', hstays hs'] using hin
      · by_cases hs'' : exit = some s.diamond <;> simpa [hs', hs''] using hin
    · -- a decision of the second piece was not there when the first one was drawn
      refine (h'.spots t ht).prepend (hlinks.labelsFrom_eq_nil fun hn => ?_)
      have hlt := (h'.among ht).1
      rw [Canvas.count_add] at hlt
      exact absurd (hP _ hn) (by omega)
  order := by
    refine List.pairwise_append.2 ⟨h.order, h'.order, fun s hs t ht => ⟨?_, ?_⟩⟩
    · have hcount' := (h'.spots t ht).count_canvas.1
      rw [Canvas.count_add] at hcount'
      exact (h.spots s hs).count_canvas.2.trans hcount'
    · have hle := (h.among hs).2
      have hlt := (h'.among ht).1
      rw [Canvas.count_add] at hlt
      omega

/-- Plain connectors take up the flow. -/
lemma close (h : Hosts k cs exit ss) {P Q : Nat → Prop} (hlinks : Links P Q cs)
    (hP : ∀ n, P n → n ≤ k.count + cs.length)
    (hwaits : ∀ s ∈ ss, exit = some s.diamond → s.labels = [""])
    (hlabels : ∀ n, Among k cs n →
      labelsFrom (cellId n) cs' = if exit = some n then [""] else []) :
    Hosts k (cs ++ cs') none ss := by
  refine List.append_nil ss ▸ h.seq nil hlinks hP (fun _ _ hn => absurd hn.symm (Option.some_ne_none _)) fun s hs => ?_
  rw [hlabels _ (h.among hs)]
  split
  · next hexit => simp [hwaits s hs hexit]
  · rfl

end Hosts

/-! ### Drawings of lists and branches -/

/-- Cells are drawn with loops among them, and the flow is known to the list around them by two
cells.  Their connectors start among them, or at the cell before them. -/
structure Trace (k : Canvas) (before entry exit : Option Nat) (cs : List Cell) (ss : List Spot) :
    Prop where
  among_entry : ∀ n, entry = some n → Among k cs n
  among_exit : ∀ n, exit = some n → Among k cs n
  no_flow : entry = none → exit = none
  links : Links (fun n => Among k cs n ∨ before = some n) (Among k cs) cs
  hosts : Hosts k cs exit ss

/-- Cells are drawn with loops among them, and the flow goes from earlier cells into them and back
to earlier cells. -/
structure Closed (k : Canvas) (old : Nat → Prop) (cs : List Cell) (ss : List Spot) : Prop where
  old_le : ∀ n, old n → n ≤ k.count
  links : Links (fun n => Among k cs n ∨ old n) (fun n => Among k cs n ∨ old n) cs
  hosts : Hosts k cs none ss

namespace Closed

variable {k : Canvas} {old old' : Nat → Prop} {cs cs' : List Cell} {ss tt : List Spot}

lemma nil (hold : ∀ n, old n → n ≤ k.count) : Closed k old [] [] :=
  ⟨hold, Links.nil, Hosts.nil⟩

lemma box {c : Cell} {n : Nat} {value : String} (h : IsBox c n value)
    (hold : ∀ n, old n → n ≤ k.count) : Closed k old [c] [] :=
  ⟨hold, h.links _ _, Hosts.nil⟩

lemma leads {a b : Option Nat} {value : String} (h : Leads a b value cs)
    (hold : ∀ n, old n → n ≤ k.count) (ha : ∀ n, a = some n → old n)
    (hb : ∀ n, b = some n → old n) : Closed k old cs [] :=
  ⟨hold, h.links.mono (fun n hn => .inr (ha n hn)) (fun n hn => .inr (hb n hn)), Hosts.nil⟩

lemma links_le (h : Closed k old cs ss) :
    ∀ n, (Among k cs n ∨ old n) → n ≤ k.count + cs.length := by
  rintro n (hn | hn)
  · exact hn.2
  · exact (h.old_le n hn).trans (Nat.le_add_right _ _)

lemma old_le_add (h : Closed k old cs ss) {n : Nat} (hn : old n) : n ≤ (k.add cs).count :=
  k.count_add cs ▸ h.links_le n (.inr hn)

/-- Two pieces of drawing; the flow into and out of the second one may pass through cells of the
first one, but through no decision of a loop. -/
lemma seq (h : Closed k old cs ss) (h' : Closed (k.add cs) old' cs' tt)
    (hold' : ∀ n, old' n → (Among k cs n ∧ ∀ s ∈ ss, s.diamond ≠ n) ∨ old n) :
    Closed k old (cs ++ cs') (ss ++ tt) where
  old_le := h.old_le
  links := by
    have hsecond : ∀ n, (Among (k.add cs) cs' n ∨ old' n) → Among k (cs ++ cs') n ∨ old n := by
      rintro n (hn | hn)
      · exact .inl hn.right
      · exact (hold' n hn).imp_left fun hn => hn.1.left
    have hfirst : ∀ n, (Among k cs n ∨ old n) → Among k (cs ++ cs') n ∨ old n :=
      fun n => Or.imp_left Among.left
    exact (h.links.mono hfirst hfirst).append (h'.links.mono hsecond hsecond)
  hosts := by
    refine h.hosts.seq h'.hosts h.links h.links_le (fun _ _ hn => absurd hn.symm (Option.some_ne_none _)) fun s hs => ?_
    have hamong := h.hosts.among hs
    rw [if_neg (Option.some_ne_none _).symm]
    refine h'.links.labelsFrom_eq_nil ?_
    rintro (hn | hn)
    · have := hn.1
      rw [Canvas.count_add] at this
      exact absurd hamong.2 (by omega)
    · rcases hold' _ hn with ⟨-, hne⟩ | hn
      · exact hne s hs rfl
      · exact absurd (h.old_le _ hn) (by have := hamong.1; omega)

end Closed

/-- What an instruction or a list has drawn: the listed loops, and ends at which the flow leaves no
loop, or one from which connectors with the given labels should lead on. -/
def Traced (k : Canvas) (es : List Exit) (labels : List String) (ends : Ends) (cs : List Cell) :
    Prop :=
  ∃ entry exit ss, ends = ⟨entry.map cellId, exit.map cellId⟩ ∧ Trace k none entry exit cs ss ∧
    ss.map Spot.toExit = es ∧ ∀ s ∈ ss, exit = some s.diamond → s.labels = labels

section Traced

variable {k : Canvas} {cs cs₁ cs₂ : List Cell} {ss : List Spot} {entry exit : Option Nat}

lemma Trace.nil {before : Option Nat} : Trace k before none none [] [] where
  among_entry _ hn := absurd hn.symm (Option.some_ne_none _)
  among_exit _ hn := absurd hn.symm (Option.some_ne_none _)
  no_flow _ := rfl
  links := Links.nil
  hosts := Hosts.nil

/-- No connectors lead on from the end of a diagram. -/
lemma Traced.closed {es : List Exit} {ends : Ends} (h : Traced k es [] ends cs) :
    ∃ ss, ss.map Spot.toExit = es ∧ Closed k (fun _ => False) cs ss := by
  obtain ⟨entry, exit, ss, -, htrace, hexits, hwaits⟩ := h
  refine ⟨ss, hexits, fun _ => False.elim, ?_, fun s hs => ?_, htrace.hosts.order⟩
  · exact htrace.links.mono (fun _ hn => .inl (hn.resolve_right (Option.some_ne_none _).symm)) fun _ => .inl
  · have hin := htrace.hosts.spots s hs
    split at hin
    · next hexit => simpa [hwaits s hs hexit] using hin
    · simpa using hin

/-- Cells with a way into them and a way out of them that is no decision of a loop. -/
lemma Closed.traced (h : Closed k (fun _ => False) cs ss) {e x : Nat} (he : Among k cs e)
    (hx : Among k cs x) (hne : ∀ s ∈ ss, s.diamond ≠ x) (labels : List String) :
    Traced k (ss.map Spot.toExit) labels ⟨some (cellId e), some (cellId x)⟩ cs := by
  refine ⟨some e, some x, ss, rfl, ⟨?_, ?_, fun hn => absurd hn (Option.some_ne_none _), ?_, ?_⟩,
    rfl, ?_⟩
  · rintro n ⟨⟩
    exact he
  · rintro n ⟨⟩
    exact hx
  · exact h.links.mono (fun n hn => .inl (hn.resolve_right id)) fun n hn => hn.resolve_right id
  · exact h.hosts.leave fun s hs heq => hne s hs (Option.some.inj heq).symm
  · exact fun s hs heq => absurd (Option.some.inj heq).symm (hne s hs)

/-- Cells without a way out. -/
lemma Trace.closed (h : Trace k none entry none cs ss) : Closed k (fun _ => False) cs ss where
  old_le _ := False.elim
  links := h.links.mono (fun _ hn => .inl (hn.resolve_right (Option.some_ne_none _).symm)) fun _ => .inl
  hosts := h.hosts

/-- A list is drawn behind cells that are no part of the flow. -/
lemma Trace.behind {before : Option Nat} (h : Trace (k.add cs) before entry exit cs₁ ss)
    (hcs : Closed k (fun _ => False) cs []) : Trace k before entry exit (cs ++ cs₁) ss where
  among_entry n hn := (h.among_entry n hn).right
  among_exit n hn := (h.among_exit n hn).right
  no_flow := h.no_flow
  links := by
    refine (hcs.links.mono ?_ ?_).append (h.links.mono ?_ fun n hn => hn.right)
    · exact fun n hn => .inl (hn.resolve_right id).left
    · exact fun n hn => (hn.resolve_right id).left
    · exact fun n hn => hn.imp_left Among.right
  hosts := hcs.hosts.seq h.hosts hcs.links hcs.links_le (List.forall_mem_nil _)
    (List.forall_mem_nil _)

/-- A list is joined to an earlier cell before it and to one behind it. -/
lemma Trace.close {source target : Nat} {b : Option Nat} {value : String}
    (h : Trace k none entry exit cs ss)
    (hwaits : ∀ s ∈ ss, exit = some s.diamond → s.labels = [""])
    (hsource : source ≤ k.count) (htarget : target ≤ k.count)
    (hin : Leads source b value cs₁) (hb : ∀ n, b = some n → entry = some n ∨ n = target)
    (hout : Leads exit target "" cs₂) :
    Closed k (fun n => n = source ∨ n = target) (cs ++ (cs₁ ++ cs₂)) ss where
  old_le := by
    rintro n (rfl | rfl)
    · exact hsource
    · exact htarget
  links := by
    refine (h.links.mono ?_ ?_).append ((hin.links.mono ?_ ?_).append (hout.links.mono ?_ ?_))
    · rintro n (hn | ⟨⟨⟩⟩)
      exact .inl hn.left
    · exact fun n hn => .inl hn.left
    · rintro n ⟨⟩
      exact .inr (.inl rfl)
    · intro n hn
      exact (hb n hn).imp (fun he => (h.among_entry n he).left) .inr
    · exact fun n hn => .inl (h.among_exit n hn).left
    · rintro n ⟨⟩
      exact .inr (.inr rfl)
  hosts := by
    refine h.hosts.close h.links ?_ hwaits fun n hn => ?_
    · rintro n (hn | ⟨⟨⟩⟩)
      exact hn.2
    · have hne : source ≠ n := by
        have := hn.1
        omega
      rw [labelsFrom_append, hin.labels, hout.labels]
      simp [hne]

end Traced

end Activity
end UmlDraw
