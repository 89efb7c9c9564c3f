/-
# The arrows of a sequence diagram

A message asks for an arrow from its source to its target, and for one without a label to each
further target but its source; a message from or to the border asks for one arrow.  The numbering in
force where a message stands gives its label.  These *strokes* of the leaves of a diagram, one after
the other, are what the layer of messages holds in the end, whatever stands between the messages.
An arrow is drawn from lane to lane, at the middle, at a side of a bar or at a side of a header;
the event that moves the end of an arrow onto a bar keeps it on its lane.

The main statements are

* `Sequence.Sheet.pen_messageBetween` and `Sequence.Sheet.pen_border`: what a message adds;
* `Sequence.Sheet.carried_inked`: each leaf adds its strokes, and nothing else adds any;
* `Sequence.Diagram.arrows_read`.
-/
import Mathlib.Data.List.Forall2
import UmlDraw.Proofs.Sequence.Sheet

namespace UmlDraw
namespace Sequence

/-- Where an arrow starts or ends: at a border or on a lane. -/
inductive Anchor where
  | left
  | right
  | lane (code : String)

/-- An arrow that is asked for. -/
structure Stroke where
  /-- The label. -/
  label : String
  /-- The style. -/
  style : Style
  /-- Where it starts. -/
  start : Anchor
  /-- Where it ends. -/
  stop : Anchor

namespace Numbering

/-- A label with the number of its message, if messages get numbers. -/
def label (n : Numbering) (label : String) : String :=
  if n.active then Text.trim (numberText n.value n.format ++ " " ++ label) else label

/-- The numbering behind a message. -/
def next (n : Numbering) : Numbering :=
  if n.active then { n with value := n.value + n.step } else n

/-- The numbering behind a directive. -/
def direct (n : Numbering) (a : AutoNumber) : Numbering :=
  if a.stop then { n with active := false }
  else
    { active := true
      value := a.start.getD n.value
      step := a.step
      format := if a.format.isSome || !a.resume then a.format else n.format }

end Numbering

/-- The strokes of a message between participants. -/
def Message.strokes (n : Numbering) (m : Message) : List Stroke :=
  ⟨Label.html (n.label m.label), m.arrow.style (m.source == m.target), .lane m.source,
      .lane m.target⟩ ::
    (m.multicast.filter (· != m.source)).map fun extra =>
      ⟨"", m.arrow.style false, .lane m.source, .lane extra⟩

/-- The stroke of a message from or to the border. -/
def BorderMessage.stroke (n : Numbering) (m : BorderMessage) : Stroke where
  label := Label.html (n.label m.label)
  style := m.arrow.style false
  start := if m.kind.isLeft then .left else .lane m.participant
  stop := if m.kind.isLeft then .lane m.participant else .right

namespace Element

/-- The strokes of a leaf under a numbering. -/
def strokes (n : Numbering) : Element → List Stroke
  | .message m => m.strokes n
  | .border m => [m.stroke n]
  | _ => []

/-- The leaf is a return. -/
def isReturn : Element → Bool
  | .message m => m.isReturn
  | _ => false

/-- The numbering behind a leaf. -/
def numbering (n : Numbering) : Element → Numbering
  | .message _ => n.next
  | .border _ => n.next
  | .autoNumber a => n.direct a
  | _ => n

/-- The ends of the last message behind a leaf, unless one end of it is a border. -/
def ends (last : Option (String × String)) : Element → Option (String × String)
  | .message m => some (m.source, m.target)
  | .border _ => none
  | _ => last

end Element

/-- The ends of the last message of leaves, unless one end of it is a border. -/
def endsAll (es : List Element) : Option (String × String) :=
  es.foldl Element.ends none

lemma endsAll_concat (es : List Element) (e : Element) :
    endsAll (es ++ [e]) = e.ends (endsAll es) := by
  simp [endsAll]

/-- The strokes of leaves one after the other. -/
def strokesAll (n : Numbering) : List Element → List Stroke
  | [] => []
  | e :: rest => e.strokes n ++ strokesAll (e.numbering n) rest

lemma strokesAll_concat (n : Numbering) (es : List Element) (e : Element) :
    strokesAll n (es ++ [e]) = strokesAll n es ++ e.strokes (es.foldl Element.numbering n) := by
  induction es generalizing n with
  | nil => simp [strokesAll]
  | cons e' rest ih => simp [strokesAll, ih]

namespace Pen

/-- The pen with further arrows. -/
def draw (p : Pen) (cs : List Cell) : Pen :=
  { p with arrows := p.arrows ++ cs }

/-- The pen with another numbering. -/
def count (p : Pen) (n : Numbering) : Pen :=
  { p with numbering := n }

/-- The pen with the last message at a place of its layer. -/
def mark (p : Pen) (ends : Option (String × String)) (place : Nat) : Pen :=
  { p with lastEnds := ends, lastCell := some place }

end Pen

/-- The places of a lane where an arrow may start or end. -/
inductive Lane.Meets (l : Lane) : Number → Prop
  | middle : l.Meets l.center
  | barLeft (n : Nat) : l.Meets (l.center - .real 5.0 + .int (n * 5))
  | barRight (n : Nat) : l.Meets (l.center + .real 5.0 + .int (n * 5))
  | headerLeft : l.Meets (l.center - Number.half l.width)
  | headerRight : l.Meets (l.center + Number.half l.width)

namespace Ground

/-- The places of an anchor. -/
def Meets (g : Ground) : Anchor → Number → Prop
  | .left, x => x = g.left
  | .right, x => x = g.right
  | .lane code, x => ∃ l, g.lane? code = some l ∧ l.Meets x

/-- The cell is a free connector that draws the stroke. -/
structure Shows (g : Ground) (a : Stroke) (c : Cell) : Prop where
  value_eq : c.value = a.label
  style_eq : c.style = a.style.render
  kind_eq : c.edge = true ∧ c.vertex = false
  ends_eq : c.source = none ∧ c.target = none
  points : ∃ place start stop, c.geometry = some place ∧ place.sourcePoint = some start ∧
    place.targetPoint = some stop ∧ g.Meets a.start start.x ∧ g.Meets a.stop stop.x

end Ground

lemma forall₂_modify {α β : Type} {R : α → β → Prop} {f : β → β} {as : List α} {bs : List β}
    (h : List.Forall₂ R as bs) (i : Nat) (hf : ∀ a b, as[i]? = some a → R a b → R a (f b)) :
    List.Forall₂ R as (bs.modify i f) := by
  induction h generalizing i with
  | nil => simp
  | cons hab hrest ih =>
    cases i with
    | zero => exact .cons (hf _ _ rfl hab) hrest
    | succ i => exact .cons hab (ih i hf)

namespace Sheet

variable {s : Sheet} {code : String}

lemma meets_xAt (h : s.hasColumn code = true) (toward : Number) :
    s.ground.Meets (.lane code) (s.xAt code toward) := by
  obtain ⟨c, hc, hlane⟩ := exists_lane h
  have hcenter : s.center code = c.lane.center := by
    rw [center, hc]
    rfl
  refine ⟨c.lane, hlane, ?_⟩
  unfold xAt
  rw [hcenter]
  cases s.barsOf code with
  | nil => exact .middle
  | cons bar rest =>
    have hlength : (((bar :: rest).length : Int) - 1) * 5 = (rest.length : Nat) * 5 := by
      rw [List.length_cons]
      omega
    dsimp only
    rw [hlength]
    split
    · exact .barLeft rest.length
    · exact .barRight rest.length

/-- A line on the layer of messages between places of its anchors shows its stroke. -/
lemma exists_line (s : Sheet) (a : Stroke) (start stop : Point) (points : List Point)
    (hstart : s.ground.Meets a.start start.x) (hstop : s.ground.Meets a.stop stop.x) :
    ∃ c, s.ground.Shows a c ∧
      (s.line .messages a.label a.style start stop points).pen = s.pen.draw [c] :=
  ⟨_, ⟨rfl, rfl, ⟨rfl, rfl⟩, ⟨rfl, rfl⟩, _, start, stop, rfl, rfl, rfl, hstart, hstop⟩, rfl⟩

lemma number_eq (s : Sheet) (label : String) :
    (s.number label).2 = s.numbering.label label ∧
      (s.number label).1.pen = s.pen.count s.numbering.next := by
  unfold number Numbering.label Numbering.next
  dsimp only
  split
  · exact ⟨rfl, rfl⟩
  · exact ⟨rfl, rfl⟩

lemma pen_renumber (s : Sheet) (a : AutoNumber) :
    (s.renumber a).pen = s.pen.count (s.numbering.direct a) := by
  unfold renumber Numbering.direct
  dsimp only
  split
  · rfl
  · rfl

lemma pen_selfMessage (m : Message) (label : String) (y : Number) (h : s.hasColumn code = true) :
    ∃ c, s.ground.Shows ⟨label, m.arrow.style true, .lane code, .lane code⟩ c ∧
      (s.selfMessage m code label y).pen = s.pen.draw [c] := by
  unfold selfMessage
  dsimp only
  rw [(Quiet.advance _ 20).pen_eq]
  exact s.exists_line ⟨label, m.arrow.style true, .lane code, .lane code⟩ ⟨_, y⟩ ⟨_, y + 20⟩ _
    (meets_xAt h _) (meets_xAt h _)

lemma pen_crossMessage (m : Message) {source target : String} (label : String) (y : Number)
    (hsource : s.hasColumn source = true) (htarget : s.hasColumn target = true) :
    ∃ c, s.ground.Shows ⟨label, m.arrow.style false, .lane source, .lane target⟩ c ∧
      (s.crossMessage m source target label y).pen = s.pen.draw [c] := by
  unfold crossMessage
  have hpen := (Quiet.placeCreated s target y).pen_eq
  generalize s.placeCreated target y = r at hpen ⊢
  obtain ⟨s', created⟩ := r
  dsimp only at hpen ⊢
  have hground : s'.ground = s.ground := congrArg Pen.ground hpen
  have htarget' : s'.hasColumn target = true :=
    hasColumn_iff.2 (hground ▸ hasColumn_iff.1 htarget)
  obtain ⟨c, hc, hlane⟩ := exists_lane htarget
  have hcenter : s.center target = c.lane.center := by
    rw [center, hc]
    rfl
  -- the header of the target may have moved, but only down
  obtain ⟨c', hc', hlane'⟩ := exists_lane htarget'
  have hwidth : c'.width = c.lane.width := by
    rw [hground, hlane] at hlane'
    exact congrArg Lane.width (Option.some.inj hlane').symm
  have hstop : s.ground.Meets (.lane target)
      (if created then
        (if s.center source < s.center target then
          s.center target - ((s'.column? target).map fun c => Number.half c.width).getD 0
        else s.center target + ((s'.column? target).map fun c => Number.half c.width).getD 0)
      else s'.xAt target (s.center source)) := by
    rw [hc', Option.map_some, Option.getD_some, hwidth, hcenter]
    split
    · refine ⟨c.lane, hlane, ?_⟩
      split
      · exact .headerLeft
      · exact .headerRight
    · exact hground ▸ meets_xAt htarget' _
  rw [← hpen, ← hground]
  exact s'.exists_line ⟨label, m.arrow.style false, .lane source, .lane target⟩
    ⟨s.xAt source (s.center target), y⟩ ⟨_, y⟩ []
    (hground ▸ meets_xAt hsource _) (hground ▸ hstop)

/-- The arrow of a message itself. -/
lemma pen_arrow (m : Message) {source target : String} (label : String) (y : Number)
    (hsource : s.hasColumn source = true) (htarget : s.hasColumn target = true) :
    ∃ c, s.ground.Shows ⟨label, m.arrow.style (source == target), .lane source, .lane target⟩ c ∧
      (if source == target then s.selfMessage m source label y
        else s.crossMessage m source target label y).pen = s.pen.draw [c] := by
  cases hself : source == target with
  | true =>
    rw [← eq_of_beq hself]
    exact pen_selfMessage m label y hsource
  | false => exact pen_crossMessage m label y hsource htarget

/-- The arrows to the further targets of a message. -/
lemma pen_furtherTargets (m : Message) {source : String} (y : Number)
    (hsource : s.hasColumn source = true) (extras : List String)
    (hextras : ∀ extra ∈ extras, s.hasColumn extra = true) :
    ∃ cs, List.Forall₂ s.ground.Shows ((extras.filter (· != source)).map fun extra =>
        ⟨"", m.arrow.style false, .lane source, .lane extra⟩) cs ∧
      (extras.foldl (furtherTarget m source y) s).pen = s.pen.draw cs := by
  induction extras generalizing s with
  | nil => exact ⟨[], .nil, by simp [Pen.draw]⟩
  | cons extra rest ih =>
    have hextra := hextras extra List.mem_cons_self
    have hrest : ∀ extra ∈ rest, s.hasColumn extra = true := fun extra hextra =>
      hextras extra (List.mem_cons_of_mem _ hextra)
    rw [List.foldl_cons]
    cases hne : extra != source with
    | false =>
      have hskip : furtherTarget m source y s extra = s := by simp [furtherTarget, hne]
      rw [hskip, List.filter_cons_of_neg (by simp [hne])]
      exact ih hsource hrest
    | true =>
      obtain ⟨c, hc, hpen⟩ := s.exists_line
        ⟨"", m.arrow.style false, .lane source, .lane extra⟩
        ⟨s.xAt source (s.center extra), y⟩ ⟨s.xAt extra (s.center source), y⟩ []
        (meets_xAt hsource _) (meets_xAt hextra _)
      have hdraw : (furtherTarget m source y s extra).pen = s.pen.draw [c] := by
        simpa [furtherTarget, hextra, hne] using hpen
      generalize furtherTarget m source y s extra = s' at hdraw ⊢
      have hground : s'.ground = s.ground := congrArg Pen.ground hdraw
      have hcolumn : ∀ code, s'.hasColumn code = true ↔ s.hasColumn code = true := fun code => by
        rw [hasColumn_iff, hasColumn_iff, hground]
      obtain ⟨cs, hcs, hpen'⟩ := ih ((hcolumn source).2 hsource)
        fun extra hextra => (hcolumn extra).2 (hrest extra hextra)
      rw [hground] at hcs
      refine ⟨c :: cs, ?_, ?_⟩
      · simp only [List.filter_cons, hne, if_true, List.map_cons]
        exact .cons hc hcs
      · rw [hpen', hdraw]
        simp [Pen.draw]

/-- A message adds its strokes; what is kept about the last message is that its own arrow comes
first among them. -/
lemma pen_messageBetween (m : Message)
    (hcodes : ∀ code ∈ m.source :: m.target :: m.multicast, s.hasColumn code = true) :
    ∃ cs, List.Forall₂ s.ground.Shows (m.strokes s.numbering) cs ∧
      (s.messageBetween m m.source m.target).pen =
        ((s.pen.count s.numbering.next).draw cs).mark (some (m.source, m.target))
          s.layers.messages.length := by
  unfold messageBetween
  have hrow := (Quiet.row s m.isParallel m.label).pen_eq
  generalize s.row m.isParallel m.label = r at hrow ⊢
  obtain ⟨s₁, y⟩ := r
  dsimp only at hrow ⊢
  have hbefore := (s₁.pen_beforeMessage m.activation (some m.source) m.target y
    m.activationColor).trans hrow
  generalize s₁.beforeMessage m.activation (some m.source) m.target y m.activationColor = s₂
    at hbefore ⊢
  obtain ⟨hlabel, hnumber⟩ := s₂.number_eq m.label
  have hnumbering : s₂.numbering = s.numbering := congrArg Pen.numbering hbefore
  rw [hbefore, hnumbering] at hnumber
  rw [hnumbering] at hlabel
  generalize s₂.number m.label = r at hlabel hnumber ⊢
  obtain ⟨s₃, label⟩ := r
  dsimp only at hlabel hnumber ⊢
  have hground : s₃.ground = s.ground := congrArg Pen.ground hnumber
  have hcolumn : ∀ s' : Sheet, s'.ground = s.ground →
      ∀ code ∈ m.source :: m.target :: m.multicast, s'.hasColumn code = true :=
    fun s' hground code hcode => hasColumn_iff.2 (hground ▸ hasColumn_iff.1 (hcodes code hcode))
  obtain ⟨c, hc, harrow⟩ := pen_arrow m (Label.html label) y
    (hcolumn s₃ hground m.source (by simp)) (hcolumn s₃ hground m.target (by simp))
  have hplace : s₃.layers.messages = s.layers.messages := congrArg Pen.arrows hnumber
  rw [hground, hlabel] at hc
  rw [hnumber] at harrow
  generalize (if m.source == m.target then s₃.selfMessage m m.source (Label.html label) y
    else s₃.crossMessage m m.source m.target (Label.html label) y) = s₄ at harrow ⊢
  have hground₄ : s₄.ground = s.ground := congrArg Pen.ground harrow
  obtain ⟨cs, hcs, hfurther⟩ := pen_furtherTargets m y (hcolumn s₄ hground₄ m.source (by simp))
    m.multicast fun extra hextra => hcolumn s₄ hground₄ extra (by simp [hextra])
  rw [hground₄] at hcs
  rw [harrow] at hfurther
  generalize List.foldl (furtherTarget m m.source y) s₄ m.multicast = s₅ at hfurther ⊢
  refine ⟨c :: cs, .cons hc hcs, ?_⟩
  -- the note and the bars that end here leave the pen alone
  have hend : ∀ s₆ : Sheet, s₆.pen = s₅.pen →
      (if m.isReturn then (s₆.afterMessage m.activation m.source m.target y).deactivate m.source y
        else s₆.afterMessage m.activation m.source m.target y).pen = s₅.pen := by
    intro s₆ hs₆
    split
    · rw [pen_deactivate, pen_afterMessage, hs₆]
    · rw [pen_afterMessage, hs₆]
  have hpen : s₅.pen = (s.pen.count s.numbering.next).draw (c :: cs) := by
    simp [hfurther, Pen.draw]
  rw [← hpen, hplace]
  cases m.note with
  | none => exact congrArg (Pen.mark · _ _) (hend s₅ rfl)
  | some note =>
    exact congrArg (Pen.mark · _ _) (hend _ (Quiet.arrowNote s₅ note m.source m.target y).pen_eq)

/-- A message from or to the border adds its stroke. -/
lemma pen_border (m : BorderMessage) (h : s.hasColumn m.participant = true) :
    ∃ c, s.ground.Shows (m.stroke s.numbering) c ∧
      (s.border m).pen =
        ((s.pen.count s.numbering.next).draw [c]).mark none s.layers.messages.length := by
  unfold border
  rw [h, Bool.not_true, if_neg Bool.false_ne_true]
  have hrow := (Quiet.row s m.isParallel m.label).pen_eq
  generalize s.row m.isParallel m.label = r at hrow ⊢
  obtain ⟨s₁, y⟩ := r
  have hbefore : (if m.kind.isIncoming then
      s₁.beforeMessage m.activation none m.participant y none else s₁).pen = s.pen := by
    split
    · exact (s₁.pen_beforeMessage _ _ _ _ _).trans hrow
    · exact hrow
  dsimp only
  generalize (if m.kind.isIncoming then
    s₁.beforeMessage m.activation none m.participant y none else s₁) = s₂ at hbefore ⊢
  have hground : s₂.ground = s.ground := congrArg Pen.ground hbefore
  have hcolumn : s₂.hasColumn m.participant = true := hasColumn_iff.2 (hground ▸ hasColumn_iff.1 h)
  -- the ends of the arrow are found before the message is numbered
  have hends : s.ground.Meets (m.stroke s.numbering).start (if m.kind.isLeft then
        (s₂.leftEdge, s₂.xAt m.participant s₂.leftEdge)
      else (s₂.xAt m.participant s₂.rightEdge, s₂.rightEdge)).1 ∧
      s.ground.Meets (m.stroke s.numbering).stop (if m.kind.isLeft then
        (s₂.leftEdge, s₂.xAt m.participant s₂.leftEdge)
      else (s₂.xAt m.participant s₂.rightEdge, s₂.rightEdge)).2 := by
    unfold BorderMessage.stroke
    rw [← hground]
    split
    · exact ⟨rfl, meets_xAt hcolumn _⟩
    · exact ⟨meets_xAt hcolumn _, rfl⟩
  generalize (if m.kind.isLeft then (s₂.leftEdge, s₂.xAt m.participant s₂.leftEdge)
    else (s₂.xAt m.participant s₂.rightEdge, s₂.rightEdge)) = ends at hends ⊢
  obtain ⟨start, stop⟩ := ends
  obtain ⟨hlabel, hnumber⟩ := s₂.number_eq m.label
  have hnumbering : s₂.numbering = s.numbering := congrArg Pen.numbering hbefore
  rw [hbefore, hnumbering] at hnumber
  rw [hnumbering] at hlabel
  generalize s₂.number m.label = r at hlabel hnumber ⊢
  obtain ⟨s₃, label⟩ := r
  dsimp only at hlabel hnumber hends ⊢
  have hground₃ : s₃.ground = s.ground := congrArg Pen.ground hnumber
  have hplace : s₃.layers.messages = s.layers.messages := congrArg Pen.arrows hnumber
  obtain ⟨c, hc, hline⟩ := s₃.exists_line (m.stroke s.numbering) ⟨start, y⟩ ⟨stop, y⟩ []
    (hground₃ ▸ hends.1) (hground₃ ▸ hends.2)
  refine ⟨c, hground₃ ▸ hc, ?_⟩
  rw [hnumber] at hline
  rw [hlabel, hplace]
  have hend : ∀ s₄ : Sheet, (if !m.kind.isIncoming && closes m.activation then
      s₄.deactivate m.participant y
      else if m.activation == some "!!" then s₄.destroy m.participant y else s₄).pen = s₄.pen := by
    intro s₄
    split
    · exact s₄.pen_deactivate _ _
    · split
      · exact s₄.pen_destroy _ _
      · rfl
  exact congrArg (Pen.mark · _ _) ((hend _).trans hline)

/-- The arrow whose end is moved onto the bar behind it still shows its stroke. -/
lemma shows_snap {strokes : List Stroke} (h : List.Forall₂ s.ground.Shows strokes s.layers.messages)
    (hcode : s.hasColumn code = true)
    (hlast : ∀ place, s.lastCell = some place →
      (strokes.map Stroke.stop)[place]? = some (.lane code)) :
    List.Forall₂ s.ground.Shows strokes (s.snap code).layers.messages := by
  unfold snap
  cases hcell : s.lastCell with
  | none => exact h
  | some place =>
    refine forall₂_modify h place fun a c ha hc => ?_
    have hstop : a.stop = .lane code := by
      have hmap := hlast place hcell
      rw [List.getElem?_map, ha, Option.map_some] at hmap
      exact Option.some.inj hmap
    obtain ⟨g, start, stop, hgeometry, hsource, htarget, hstartMeets, hstopMeets⟩ := hc.points
    refine ⟨hc.value_eq, hc.style_eq, hc.kind_eq, hc.ends_eq, ?_⟩
    simp only [hgeometry, Option.map_some, hsource, htarget]
    split
    · exact ⟨_, start, _, rfl, rfl, rfl, hstartMeets, hstop ▸ meets_xAt hcode _⟩
    · exact ⟨g, start, stop, rfl, hsource, htarget, hstartMeets, hstopMeets⟩

/-- The layer of messages shows the strokes of the leaves so far, and the last message, if it is
still known, ends on its target. -/
structure Inked (codes : List String) (es : List Element) (s : Sheet) : Prop where
  codes_eq : s.ground.lanes.map Lane.code = codes
  numbering_eq : s.numbering = es.foldl Element.numbering {}
  ends_eq : s.lastEnds = endsAll es
  shows : List.Forall₂ s.ground.Shows (strokesAll {} es) s.layers.messages
  last : ∀ place source target, s.lastCell = some place → s.lastEnds = some (source, target) →
    ((strokesAll {} es).map Stroke.stop)[place]? = some (.lane target)

namespace Inked

variable {codes : List String} {es : List Element} {s' : Sheet}

lemma of_pen (h : Inked codes es s) (hpen : s'.pen = s.pen) : Inked codes es s' := by
  obtain ⟨hcodes, hnumbering, hlastEnds, hshows, hlast⟩ := h
  have hground : s'.ground = s.ground := congrArg Pen.ground hpen
  have hmessages : s'.layers.messages = s.layers.messages := congrArg Pen.arrows hpen
  have hends : s'.lastEnds = s.lastEnds := congrArg Pen.lastEnds hpen
  have hcell : s'.lastCell = s.lastCell := congrArg Pen.lastCell hpen
  refine ⟨hground ▸ hcodes, (congrArg Pen.numbering hpen).trans hnumbering,
    hends.trans hlastEnds, ?_, ?_⟩
  · rw [hground, hmessages]
    exact hshows
  · rw [hends, hcell]
    exact hlast

lemma hasColumn (h : Inked codes es s) (hcode : code ∈ codes) : s.hasColumn code = true :=
  hasColumn_iff.2 (h.codes_eq ▸ hcode)

/-- A leaf without strokes may change the numbering. -/
lemma concat (h : Inked codes es s) {e : Element} (hstrokes : ∀ n, e.strokes n = [])
    (hkeeps : ∀ last, e.ends last = last)
    (hpen : s'.pen = s.pen.count (e.numbering s.numbering)) : Inked codes (es ++ [e]) s' := by
  have hground : s'.ground = s.ground := congrArg Pen.ground hpen
  have hmessages : s'.layers.messages = s.layers.messages := congrArg Pen.arrows hpen
  have hends : s'.lastEnds = s.lastEnds := congrArg Pen.lastEnds hpen
  have hcell : s'.lastCell = s.lastCell := congrArg Pen.lastCell hpen
  refine ⟨hground ▸ h.codes_eq, ?_, ?_, ?_, ?_⟩
  · rw [List.foldl_append, List.foldl_cons, List.foldl_nil, ← h.numbering_eq]
    exact congrArg Pen.numbering hpen
  · rw [endsAll_concat, hkeeps, hends, h.ends_eq]
  · rw [strokesAll_concat, hstrokes, List.append_nil, hground, hmessages]
    exact h.shows
  · rw [strokesAll_concat, hstrokes, List.append_nil, hends, hcell]
    exact h.last

/-- A leaf whose strokes are drawn behind those so far. -/
lemma draw (h : Inked codes es s) {e : Element} {cs : List Cell} {ends : Option (String × String)}
    (hshows : List.Forall₂ s.ground.Shows (e.strokes s.numbering) cs)
    (hpen : s'.pen =
      ((s.pen.count (e.numbering s.numbering)).draw cs).mark ends s.layers.messages.length)
    (hlast : ∀ last, e.ends last = ends)
    (hends : ∀ source target, ends = some (source, target) →
      ((e.strokes s.numbering).map Stroke.stop)[0]? = some (.lane target)) :
    Inked codes (es ++ [e]) s' := by
  have hground : s'.ground = s.ground := congrArg Pen.ground hpen
  have hmessages : s'.layers.messages = s.layers.messages ++ cs := congrArg Pen.arrows hpen
  refine ⟨hground ▸ h.codes_eq, ?_, ?_, ?_, ?_⟩
  · rw [List.foldl_append, List.foldl_cons, List.foldl_nil, ← h.numbering_eq]
    exact congrArg Pen.numbering hpen
  · rw [endsAll_concat, hlast]
    exact congrArg Pen.lastEnds hpen
  · rw [strokesAll_concat, ← h.numbering_eq, hground, hmessages]
    exact List.rel_append h.shows hshows
  · intro place source target hcell hlast
    have hlast' : ends = some (source, target) := (congrArg Pen.lastEnds hpen).symm.trans hlast
    have hplace : place = (strokesAll {} es).length := by
      rw [h.shows.length_eq]
      exact Option.some.inj (hcell.symm.trans (congrArg Pen.lastCell hpen))
    rw [strokesAll_concat, ← h.numbering_eq, List.map_append, hplace,
      List.getElem?_append_right (by simp), List.length_map, Nat.sub_self]
    exact hends source target hlast'

lemma messageBetween (h : Inked codes es s) {m : Message}
    (hm : ∀ code ∈ m.source :: m.target :: m.multicast, code ∈ codes) :
    Inked codes (es ++ [.message m]) (s.messageBetween m m.source m.target) := by
  obtain ⟨cs, hcs, hpen⟩ := pen_messageBetween m fun code hcode => h.hasColumn (hm code hcode)
  refine h.draw hcs hpen (fun _ => rfl) fun source target hends => ?_
  cases hends
  rfl

lemma message (h : Inked codes es s) {m : Message} (hm : m.Within codes)
    (hreturn : m.isReturn = false) : Inked codes (es ++ [.message m]) (s.message m) := by
  have hcodes := hm.mem hreturn
  rw [message_eq hreturn (h.hasColumn (hcodes m.source (by simp)))
    (h.hasColumn (hcodes m.target (by simp)))]
  exact h.messageBetween hcodes

lemma border (h : Inked codes es s) {m : BorderMessage} (hm : m.participant ∈ codes) :
    Inked codes (es ++ [.border m]) (s.border m) := by
  obtain ⟨c, hc, hpen⟩ := pen_border m (h.hasColumn hm)
  exact h.draw (.cons hc .nil) hpen (fun _ => rfl) nofun

/-- The last message ends on the lane of the bar behind it. -/
lemma snap (h : Inked codes es s) {source target : String} (htarget : target ∈ codes)
    (hends : s.lastEnds = some (source, target)) : Inked codes es (s.snap target) := by
  have hshows := shows_snap h.shows (h.hasColumn htarget) fun place hcell =>
    h.last place source target hcell hends
  have hpen : (s.snap target).pen =
      { s.pen with arrows := (s.snap target).layers.messages } := by
    unfold Sheet.snap
    split
    · rfl
    · rfl
  have hground : (s.snap target).ground = s.ground := congrArg Pen.ground hpen
  refine ⟨hground ▸ h.codes_eq, (congrArg Pen.numbering hpen).trans h.numbering_eq,
    (congrArg Pen.lastEnds hpen).trans h.ends_eq, hground ▸ hshows, ?_⟩
  intro place source' target' hcell hends'
  exact h.last place source' target' ((congrArg Pen.lastCell hpen).symm.trans hcell)
    ((congrArg Pen.lastEnds hpen).symm.trans hends')

lemma life (h : Inked codes es s) {e : LifeEvent} (he : e.participant ∈ codes) :
    Inked codes (es ++ [.life e]) (s.life e) := by
  have hconcat : ∀ {t}, Inked codes es t → Inked codes (es ++ [.life e]) t := fun ht =>
    ht.concat (fun _ => rfl) (fun _ => rfl) rfl
  refine hconcat ?_
  unfold Sheet.life
  rw [h.hasColumn he, Bool.not_true, if_neg Bool.false_ne_true]
  cases e.kind with
  | activate =>
    dsimp only
    split
    · next source target y hlast =>
      split
      · next htarget =>
        have hactivate : Inked codes es (s.activate e.participant y (some source) e.color) :=
          h.of_pen rfl
        exact hactivate.snap he (eq_of_beq htarget ▸ lastEnds_of_justDrawn hlast)
      · exact h.of_pen rfl
    · exact h.of_pen rfl
  | deactivate =>
    dsimp only
    split
    · exact h.of_pen (s.pen_deactivate _ _)
    · exact h.of_pen (s.pen_deactivate _ _)
  | destroy => exact h.of_pen (s.pen_destroy _ _)
  | create => exact h.of_pen rfl
  | other => exact h

lemma mark (h : Inked codes es s) {e : Element} (he : e.isMark = true) :
    Inked codes (es ++ [e]) s := by
  cases e with
  | note n => exact h.concat (fun _ => rfl) (fun _ => rfl) rfl
  | divider label => exact h.concat (fun _ => rfl) (fun _ => rfl) rfl
  | delay label => exact h.concat (fun _ => rfl) (fun _ => rfl) rfl
  | space size => exact h.concat (fun _ => rfl) (fun _ => rfl) rfl
  | reference r => exact h.concat (fun _ => rfl) (fun _ => rfl) rfl
  | _ => cases he

lemma forget (h : Inked codes es s) : Inked codes es s.forget :=
  ⟨h.codes_eq, h.numbering_eq, h.ends_eq, h.shows, nofun⟩

/-- A diagram starts without arrows. -/
lemma start (d : Diagram) (parent : String) : Inked d.codes [] (Sheet.start d parent) := by
  obtain ⟨hcodes, hpen, -⟩ := views_start d parent
  refine ⟨hcodes, congrArg Pen.numbering hpen, congrArg Pen.lastEnds hpen, ?_, ?_⟩
  · have hempty : (Sheet.start d parent).layers.messages = [] := congrArg Pen.arrows hpen
    rw [hempty]
    exact .nil
  · intro place source target hcell
    have hnone : (Sheet.start d parent).lastCell = none := congrArg Pen.lastCell hpen
    rw [hnone] at hcell
    cases hcell

end Inked

/-- Each leaf adds its strokes to the layer of messages, and nothing else adds any. -/
lemma carried_inked (codes : List String) :
    Carried (Inked codes) fun e => e.Within codes ∧ e.isReturn = false where
  quiet h hquiet := h.of_pen hquiet.pen_eq
  forget h := h.forget
  message h he := h.message he.1 he.2
  border h he := h.border he.1
  life h he := h.life he.1
  renumber a h := h.concat (fun _ => rfl) (fun _ => rfl) (pen_renumber _ a)
  mark h he := h.mark he

end Sheet

namespace Diagram

/-- The layer of messages of a diagram without returns that was read holds the strokes of its
leaves, each once and in the order of the document. -/
theorem arrows_read {text : String} {d : Diagram} (hread : Diagram.read text = .ok d)
    (hreturn : ∀ e ∈ leavesAll d.elements, e.isReturn = false) (parent : String) :
    (∀ cells, d.draw parent = .ok cells → cells = (d.sheet parent).layers.all) ∧
      List.Forall₂ (d.sheet parent).ground.Shows (strokesAll {} (leavesAll d.elements))
        (d.sheet parent).layers.messages := by
  refine ⟨fun cells hcells => (Fault.check_eq_ok_iff.1 hcells).2.symm, ?_⟩
  have hdrawn := (Sheet.carried_inked d.codes).drawAll 0 (.start d parent) d.elements fun e he =>
    ⟨within_read hread e he, hreturn e he⟩
  exact (hdrawn.of_pen (Sheet.pen_finish _ d)).shows

/-- A message with two further targets in a section of a fragment, its bar opened behind it, and the
same message the other way round behind the fragment. -/
theorem arrows_read_fragment :
    let text := "autonumber\nalt x\nA -> B & C & A: hi\nactivate B\nelse\n[-> B\nend\nB -> A"
    ∃ d, Diagram.read text = .ok d ∧ (∀ e ∈ leavesAll d.elements, e.isReturn = false) ∧
      (strokesAll {} (leavesAll d.elements)).map Stroke.label = ["1 hi", "", "2", "3"] ∧
      List.Forall₂ (d.sheet "1").ground.Shows (strokesAll {} (leavesAll d.elements))
        (d.sheet "1").layers.messages := by
  intro text
  obtain ⟨d, hread, hd⟩ := Fault.exists_of_any (by decide +kernel :
    (Diagram.read text).toOption.any (fun d =>
      (leavesAll d.elements).all (fun e => !e.isReturn) &&
        (strokesAll {} (leavesAll d.elements)).map Stroke.label == ["1 hi", "", "2", "3"]) = true)
  simp only [Bool.and_eq_true, List.all_eq_true, Bool.not_eq_true', beq_iff_eq] at hd
  exact ⟨d, hread, hd.1, hd.2, (arrows_read hread hd.1 "1").2⟩

end Diagram
end Sequence
end UmlDraw
