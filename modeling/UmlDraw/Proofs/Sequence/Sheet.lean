/-
# What drawing on a sheet leaves alone

An element of a sequence diagram may add arrows to the layer of messages, and open or close bars.
All else that happens on a sheet leaves both alone, and nothing moves the columns or the borders.
This is said of two views of a sheet: the *pen* holds what arrows are drawn from and those drawn so
far, and the *posts* hold the open bars and the bars drawn so far.

The main statements are

* the lemmas `pen_…` and `posts_…` on the operations of a sheet;
* `Sequence.Sheet.Carried.drawAll`: what each leaf carries on, a whole drawing carries on through
  the leaves of its elements, by induction on the elements.
-/
import UmlDraw.Proofs.Sequence.Reader
import UmlDraw.Sequence.Drawing

namespace UmlDraw
namespace Sequence

/-- What of a column stays as it is while a sheet is drawn. -/
structure Lane where
  /-- The code of the participant. -/
  code : String
  /-- The middle. -/
  center : Number
  /-- The width of the header. -/
  width : Int

/-- The lane of a column. -/
def Column.lane (c : Column) : Lane :=
  ⟨c.participant.code, c.center, c.width⟩

/-- The lanes and the borders of a sheet. -/
structure Ground where
  /-- The lanes from left to right. -/
  lanes : List Lane
  /-- The left border. -/
  left : Number
  /-- The right border. -/
  right : Number

/-- The lane of a participant. -/
def Ground.lane? (g : Ground) (code : String) : Option Lane :=
  g.lanes.find? fun l => l.code == code

/-- What arrows are drawn from, and the arrows so far. -/
structure Pen where
  /-- The lanes and the borders. -/
  ground : Ground
  /-- The numbering. -/
  numbering : Numbering
  /-- The arrows so far. -/
  arrows : List Cell
  /-- The ends of the last message. -/
  lastEnds : Option (String × String)
  /-- The place of the last message, if nothing else was drawn since. -/
  lastCell : Option Nat

/-- The open bars, and the bars drawn so far. -/
structure Posts where
  /-- The lanes and the borders. -/
  ground : Ground
  /-- The open bars of each column, innermost first. -/
  bars : List (String × List Bar)
  /-- The bars drawn so far. -/
  drawn : List Cell

namespace Sheet

/-- The ground of a sheet. -/
def ground (s : Sheet) : Ground :=
  ⟨s.columns.map Column.lane, s.leftEdge, s.rightEdge⟩

/-- The pen of a sheet. -/
def pen (s : Sheet) : Pen :=
  ⟨s.ground, s.numbering, s.layers.messages, s.lastEnds, s.lastCell⟩

/-- The posts of a sheet. -/
def posts (s : Sheet) : Posts :=
  ⟨s.ground, s.bars, s.layers.bars⟩

lemma lane_column? (s : Sheet) (code : String) :
    (s.column? code).map Column.lane = s.ground.lane? code := by
  unfold column? ground Ground.lane?
  rw [List.find?_map]
  rfl

lemma hasColumn_iff {s : Sheet} {code : String} :
    s.hasColumn code = true ↔ code ∈ s.ground.lanes.map Lane.code := by
  unfold hasColumn column? ground
  simp [Column.lane]

/-- The column of a participant and its lane. -/
lemma exists_lane {s : Sheet} {code : String} (h : s.hasColumn code = true) :
    ∃ c, s.column? code = some c ∧ s.ground.lane? code = some c.lane := by
  obtain ⟨c, hc⟩ := Option.isSome_iff_exists.1 h
  exact ⟨c, hc, by rw [← lane_column?, hc, Option.map_some]⟩

variable {s s' : Sheet}

lemma lastEnds_of_justDrawn {source target : String} {y : Number}
    (h : s.justDrawn = some (source, target, y)) : s.lastEnds = some (source, target) := by
  unfold justDrawn at h
  split at h
  · next hends _ =>
    cases h
    exact hends
  · cases h

/-- A step that changes neither view. -/
structure Quiet (s s' : Sheet) : Prop where
  pen_eq : s'.pen = s.pen
  posts_eq : s'.posts = s.posts

namespace Quiet

lemma refl (s : Sheet) : Quiet s s :=
  ⟨rfl, rfl⟩

lemma trans {s'' : Sheet} (h : Quiet s s') (h' : Quiet s' s'') : Quiet s s'' :=
  ⟨h'.pen_eq.trans h.pen_eq, h'.posts_eq.trans h.posts_eq⟩

lemma foldl {α : Type} {f : Sheet → α → Sheet} (hf : ∀ s a, Quiet s (f s a)) (s : Sheet)
    (as : List α) : Quiet s (as.foldl f s) :=
  List.foldlRecOn as f (refl s) fun t ht a _ => ht.trans (hf t a)

lemma put (s : Sheet) (layer : Layer) (c : Cell) (hmessages : layer ≠ .messages)
    (hbars : layer ≠ .bars) : Quiet s (s.put layer c) := by
  cases layer with
  | messages => exact absurd rfl hmessages
  | bars => exact absurd rfl hbars
  | _ => exact ⟨rfl, rfl⟩

lemma shape (s : Sheet) (layer : Layer) (value : String) (style : Style)
    (x y width height : Number) (hmessages : layer ≠ .messages) (hbars : layer ≠ .bars) :
    Quiet s (s.shape layer value style x y width height) :=
  put s layer _ hmessages hbars

lemma line (s : Sheet) (layer : Layer) (value : String) (style : Style) (start stop : Point)
    (points : List Point) (hmessages : layer ≠ .messages) (hbars : layer ≠ .bars) :
    Quiet s (s.line layer value style start stop points) :=
  put s layer _ hmessages hbars

lemma advance (s : Sheet) (distance : Number) : Quiet s (s.advance distance) :=
  ⟨rfl, rfl⟩

lemma reach (s : Sheet) (y : Number) : Quiet s (s.reach y) :=
  ⟨rfl, rfl⟩

lemma expect (s : Sheet) (code : String) : Quiet s (s.expect code) :=
  ⟨rfl, rfl⟩

lemma row (s : Sheet) (isParallel : Bool) (label : String) :
    Quiet s (s.row isParallel label).1 := by
  unfold Sheet.row
  split
  · exact refl s
  · exact ⟨rfl, rfl⟩

lemma changeColumn (s : Sheet) (code : String) {f : Column → Column}
    (hf : ∀ c, (f c).lane = c.lane) : Quiet s (s.changeColumn code f) := by
  have hlanes : (s.changeColumn code f).columns.map Column.lane = s.columns.map Column.lane := by
    unfold Sheet.changeColumn
    rw [List.map_map]
    refine List.map_congr_left fun c _ => ?_
    show (if c.participant.code == code then f c else c).lane = c.lane
    split
    · exact hf c
    · rfl
  constructor
  · simp only [pen, ground, hlanes]
    rfl
  · simp only [posts, ground, hlanes]
    rfl

lemma placeCreated (s : Sheet) (code : String) (y : Number) :
    Quiet s (s.placeCreated code y).1 := by
  unfold Sheet.placeCreated
  split
  · have hexpected : Quiet s { s with expected := s.expected.filter (· != code) } := ⟨rfl, rfl⟩
    have hcolumn := hexpected.trans (changeColumn _ code (f := fun c =>
      { c with headerY := y - Number.half c.height }) fun _ => rfl)
    exact hcolumn.trans (reach _ _)
  · exact refl s

lemma arrowNote (s : Sheet) (note : ArrowNote) (source target : String) (y : Number) :
    Quiet s (s.arrowNote note source target y) :=
  (shape s .shapes _ _ _ _ _ _ nofun nofun).trans (reach _ _)

lemma frame (s : Sheet) (f : Fragment Element) (place : Nat) (top bottom : Number)
    (sides : Number × Number) (lines : List (Number × String)) :
    Quiet s (s.frame f place top bottom sides lines) := by
  unfold Sheet.frame
  obtain ⟨left, right⟩ := sides
  dsimp only
  generalize hinner : List.foldl _ _ lines = inner
  -- the frame and its lines are drawn on a sheet without the frames inside
  have hquiet : Quiet s inner := by
    have hempty : Quiet s { s with layers := { s.layers with frames := [] } } := ⟨rfl, rfl⟩
    rw [← hinner]
    refine ((hempty.trans (shape _ .frames _ _ _ _ _ _ nofun nofun)).trans
      (shape _ .frames _ _ _ _ _ _ nofun nofun)).trans (foldl ?_ _ lines)
    intro t line
    exact Quiet.line t .frames _ _ _ _ _ nofun nofun
  exact hquiet.trans ⟨rfl, rfl⟩

lemma finishColumn (hideFootbox : Bool) (endY : Number) (s : Sheet) (c : Column) :
    Quiet s (Sheet.finishColumn hideFootbox endY s c).1 := by
  unfold Sheet.finishColumn
  have hlifeline : Quiet s ((s.shape .shapes (headerLabel c.participant)
      (headerStyle c.participant) c.left c.headerY c.width c.height).line .lifelines ""
      lifelineStyle ⟨c.center, c.lifelineTop⟩ ⟨c.center, c.endY.getD endY⟩ []) :=
    (shape s .shapes _ _ _ _ _ _ nofun nofun).trans (line _ .lifelines _ _ _ _ _ nofun nofun)
  dsimp only
  split
  · exact hlifeline
  · exact hlifeline.trans (shape _ .shapes _ _ _ _ _ _ nofun nofun)

lemma box (footer : Number) (s : Sheet) (b : Box) : Quiet s (Sheet.box footer s b) := by
  unfold Sheet.box
  split
  · exact refl s
  · exact shape s .boxes _ _ _ _ _ _ nofun nofun

end Quiet

section Bars

lemma pen_deactivate (s : Sheet) (code : String) (y : Number) :
    (s.deactivate code y).pen = s.pen := by
  unfold deactivate
  split
  · rfl
  · rfl

lemma pen_deactivateAll (s : Sheet) (code : String) (y : Number) :
    (s.deactivateAll code y).pen = s.pen :=
  List.foldlRecOn (motive := fun t : Sheet => t.pen = s.pen) _ _ rfl fun t ht _ _ =>
    (t.pen_deactivate code y).trans ht

/-- The end of a lifeline is marked on a sheet without open bars of the participant. -/
lemma quiet_destroy (s : Sheet) (code : String) (y : Number) :
    Quiet (s.deactivateAll code y) (s.destroy code y) := by
  have hcolumn := Quiet.changeColumn (s.deactivateAll code y) code (f := fun c =>
    { c with endY := some y }) fun _ => rfl
  exact hcolumn.trans (.shape _ .shapes _ _ _ _ _ _ nofun nofun)

lemma pen_destroy (s : Sheet) (code : String) (y : Number) : (s.destroy code y).pen = s.pen :=
  (s.quiet_destroy code y).pen_eq.trans (s.pen_deactivateAll code y)

lemma pen_beforeMessage (s : Sheet) (shortcut source : Option String) (target : String)
    (y : Number) (color : Option String) :
    (s.beforeMessage shortcut source target y color).pen = s.pen := by
  unfold beforeMessage
  split
  · rfl
  · split
    · rfl
    · rfl

lemma pen_afterMessage (s : Sheet) (shortcut : Option String) (source target : String)
    (y : Number) : (s.afterMessage shortcut source target y).pen = s.pen := by
  unfold afterMessage
  split
  · exact s.pen_deactivate source y
  · split
    · exact s.pen_destroy target y
    · rfl

end Bars

section Arrows

lemma posts_number (s : Sheet) (label : String) : (s.number label).1.posts = s.posts := by
  unfold number
  dsimp only
  split
  · rfl
  · rfl

lemma posts_renumber (s : Sheet) (a : AutoNumber) : (s.renumber a).posts = s.posts := by
  unfold renumber
  dsimp only
  split
  · rfl
  · rfl

lemma posts_crossMessage (s : Sheet) (m : Message) (source target label : String) (y : Number) :
    (s.crossMessage m source target label y).posts = s.posts :=
  (Quiet.placeCreated s target y).posts_eq

lemma posts_furtherTargets (s : Sheet) (m : Message) (source : String) (y : Number)
    (extras : List String) : (extras.foldl (furtherTarget m source y) s).posts = s.posts := by
  refine List.foldlRecOn (motive := fun t : Sheet => t.posts = s.posts) _ _ rfl ?_
  intro t ht extra _
  rw [← ht]
  unfold furtherTarget
  split
  · rfl
  · rfl

lemma posts_snap (s : Sheet) (code : String) : (s.snap code).posts = s.posts := by
  unfold snap
  split
  · rfl
  · rfl

end Arrows

section Leaves

lemma message_eq {m : Message} (hreturn : m.isReturn = false)
    (hsource : s.hasColumn m.source = true) (htarget : s.hasColumn m.target = true) :
    s.message m = s.messageBetween m m.source m.target := by
  simp [message, hreturn, hsource, htarget]

variable (s : Sheet)

/-- A message opens a bar before its arrow is drawn and closes bars behind it. -/
lemma posts_messageBetween (m : Message) (source target : String) :
    ∃ (s₁ s₂ : Sheet) (y : Number), s₁.posts = s.posts ∧
      s₂.posts = (s₁.beforeMessage m.activation (some source) target y m.activationColor).posts ∧
      (s.messageBetween m source target).posts =
        (if m.isReturn then (s₂.afterMessage m.activation source target y).deactivate source y
          else s₂.afterMessage m.activation source target y).posts := by
  unfold messageBetween
  have hrow := (Quiet.row s m.isParallel m.label).posts_eq
  generalize s.row m.isParallel m.label = r at hrow ⊢
  obtain ⟨s₁, y⟩ := r
  dsimp only at hrow ⊢
  generalize hbefore : s₁.beforeMessage m.activation (some source) target y m.activationColor = s₂
  have hnumber := s₂.posts_number m.label
  generalize s₂.number m.label = r at hnumber ⊢
  obtain ⟨s₃, label⟩ := r
  dsimp only at hnumber ⊢
  generalize hs₄ : List.foldl (furtherTarget m source y) _ m.multicast = s₄
  have harrow : s₄.posts = s₂.posts := by
    rw [← hs₄, posts_furtherTargets, ← hnumber]
    split
    · rfl
    · exact s₃.posts_crossMessage m source target _ y
  cases m.note with
  | none => exact ⟨s₁, s₄, y, hrow, hbefore ▸ harrow, rfl⟩
  | some note =>
    have hnote := (Quiet.arrowNote s₄ note source target y).posts_eq
    exact ⟨s₁, s₄.arrowNote note source target y, y, hrow, hbefore ▸ hnote.trans harrow, rfl⟩

/-- A message that comes in from the border opens a bar before its arrow is drawn; one that goes out
closes a bar behind it. -/
lemma posts_border (m : BorderMessage) (h : s.hasColumn m.participant = true) :
    ∃ (s₁ s₂ : Sheet) (y : Number), s₁.posts = s.posts ∧
      s₂.posts = (if m.kind.isIncoming then
        s₁.beforeMessage m.activation none m.participant y none else s₁).posts ∧
      (s.border m).posts =
        (if !m.kind.isIncoming && closes m.activation then s₂.deactivate m.participant y
          else if m.activation == some "!!" then s₂.destroy m.participant y else s₂).posts := by
  unfold border
  rw [h, Bool.not_true, if_neg Bool.false_ne_true]
  have hrow := (Quiet.row s m.isParallel m.label).posts_eq
  generalize s.row m.isParallel m.label = r at hrow ⊢
  obtain ⟨s₁, y⟩ := r
  dsimp only at hrow ⊢
  generalize hbefore : (if m.kind.isIncoming then
    s₁.beforeMessage m.activation none m.participant y none else s₁) = s₂
  have hnumber := s₂.posts_number m.label
  generalize s₂.number m.label = r at hnumber ⊢
  obtain ⟨s₃, label⟩ := r
  exact ⟨s₁, _, y, hrow, hbefore ▸ hnumber, rfl⟩

/-- An event opens a bar, closes one, or closes all of its participant.  The caller of a bar is the
source of the message to the participant right before, if there is one. -/
lemma posts_life (e : LifeEvent) (h : s.hasColumn e.participant = true) :
    ∃ (y : Number) (caller : Option String),
      (∀ source, caller = some source → s.lastEnds = some (source, e.participant)) ∧
      (s.life e).posts =
        (match e.kind with
        | .activate => s.activate e.participant y caller e.color
        | .deactivate => s.deactivate e.participant y
        | .destroy => s.destroy e.participant y
        | _ => s).posts := by
  unfold life
  rw [h, Bool.not_true, if_neg Bool.false_ne_true]
  cases e.kind with
  | activate =>
    dsimp only
    split
    · next source target y hlast =>
      split
      · next htarget =>
        refine ⟨y, some source, fun source' hsource => ?_, posts_snap _ _⟩
        cases hsource
        exact eq_of_beq htarget ▸ lastEnds_of_justDrawn hlast
      · exact ⟨_, none, nofun, rfl⟩
    · exact ⟨_, none, nofun, rfl⟩
  | deactivate =>
    dsimp only
    split
    · exact ⟨_, none, nofun, rfl⟩
    · exact ⟨_, none, nofun, rfl⟩
  | destroy => exact ⟨_, none, nofun, rfl⟩
  | create => exact ⟨0, none, nofun, rfl⟩
  | other => exact ⟨0, none, nofun, rfl⟩

end Leaves

end Sheet

/-- The element neither draws arrows nor changes numbers or bars. -/
def Element.isMark : Element → Bool
  | .note _ | .divider _ | .delay _ | .space _ | .reference _ => true
  | _ => false

namespace Sheet

/-- What is said of a sheet and the leaves drawn on it is carried on by each leaf with a property,
and survives what happens on the sheet between leaves. -/
structure Carried (I : List Element → Sheet → Prop) (P : Element → Prop) : Prop where
  quiet : ∀ {es s s'}, I es s → Quiet s s' → I es s'
  forget : ∀ {es s}, I es s → I es s.forget
  message : ∀ {es s m}, I es s → P (.message m) → I (es ++ [.message m]) (s.message m)
  border : ∀ {es s m}, I es s → P (.border m) → I (es ++ [.border m]) (s.border m)
  life : ∀ {es s e}, I es s → P (.life e) → I (es ++ [.life e]) (s.life e)
  renumber : ∀ {es s} a, I es s → I (es ++ [.autoNumber a]) (s.renumber a)
  mark : ∀ {es s e}, I es s → e.isMark = true → I (es ++ [e]) s

namespace Carried

variable {I : List Element → Sheet → Prop} {P : Element → Prop}

lemma plain (hI : Carried I P) {es : List Element} {s : Sheet} (h : I es s) {e : Element}
    (hleaf : ∀ f, e ≠ .fragment f) (he : P e) : I (es ++ [e]) (s.plain e) := by
  cases e with
  | message m => exact hI.message h he
  | border m => exact hI.border h he
  | life e => exact hI.life h he
  | autoNumber a => exact hI.renumber a h
  | note n =>
    exact hI.forget (hI.quiet (hI.quiet (hI.mark h rfl)
      (.shape s .shapes _ _ _ _ _ _ nofun nofun)) (.advance _ _))
  | divider label =>
    exact hI.forget (hI.quiet (hI.quiet (hI.quiet (hI.mark h rfl) (.advance s 10))
      (.shape _ .shapes _ _ _ _ _ _ nofun nofun)) (.advance _ _))
  | delay label =>
    have hmark := hI.mark (e := .delay label) h rfl
    refine hI.forget (hI.quiet ?_ (.advance _ _))
    show I _ (if label.isEmpty then s else _)
    split
    · exact hmark
    · exact hI.quiet hmark (.shape s .shapes _ _ _ _ _ _ nofun nofun)
  | space size => exact hI.forget (hI.quiet (hI.mark (e := .space size) h rfl) (.advance s _))
  | reference r =>
    exact hI.forget (hI.quiet (hI.quiet (hI.mark h rfl)
      (.shape s .shapes _ _ _ _ _ _ nofun nofun)) (.advance _ _))
  | fragment f => exact absurd rfl (hleaf f)

end Carried

mutual

lemma Carried.draw {I : List Element → Sheet → Prop} {P : Element → Prop} (hI : Carried I P)
    (depth : Nat) {es : List Element} {s : Sheet} (h : I es s) (e : Element)
    (he : ∀ leaf ∈ leaves e, P leaf) : I (es ++ leaves e) (draw depth s e) := by
  cases e with
  | fragment f =>
    obtain ⟨kind, label, color, sections⟩ := f
    unfold Sheet.draw
    have hsections := Carried.drawSections hI (depth + 1) (hI.forget (hI.quiet h (.advance s 30)))
      true sections he
    exact hI.quiet (hI.quiet (hI.quiet hsections (.advance _ 10)) (.advance _ 10))
      (.frame _ _ _ _ _ _ _)
  | _ =>
    unfold Sheet.draw
    exact hI.plain h nofun (he _ (List.mem_singleton.2 rfl))

lemma Carried.drawSections {I : List Element → Sheet → Prop} {P : Element → Prop}
    (hI : Carried I P) (depth : Nat) {es : List Element} {s : Sheet} (h : I es s)
    (isFirst : Bool) :
    (sections : List (Section Element)) → (∀ leaf ∈ leavesOfSections sections, P leaf) →
      I (es ++ leavesOfSections sections) (drawSections depth s isFirst sections).1
  | [], _ => by
    simpa [Sheet.drawSections, leavesOfSections] using h
  | ⟨condition, elements⟩ :: rest, hsections => by
    unfold Sheet.drawSections
    rw [leavesOfSections, List.forall_mem_append] at hsections
    have hline : I es (if isFirst then s else s.advance 20) := by
      split
      · exact h
      · exact hI.quiet h (.advance s 20)
    rw [leavesOfSections, ← List.append_assoc]
    exact Carried.drawSections hI depth
      (Carried.drawAll hI depth hline elements hsections.1) false rest hsections.2

lemma Carried.drawAll {I : List Element → Sheet → Prop} {P : Element → Prop} (hI : Carried I P)
    (depth : Nat) {es : List Element} {s : Sheet} (h : I es s) :
    (elements : List Element) → (∀ leaf ∈ leavesAll elements, P leaf) →
      I (es ++ leavesAll elements) (drawAll depth s elements)
  | [], _ => by simpa [Sheet.drawAll, leavesAll] using h
  | e :: rest, helements => by
    rw [leavesAll, List.forall_mem_append] at helements
    rw [leavesAll, ← List.append_assoc]
    exact Carried.drawAll hI depth (Carried.draw hI depth h e helements.1) rest helements.2

end

lemma codes_placeColumns (needs : List Need) (top : Int) (index : Nat) (before : Option Column)
    (ps : List Participant) :
    ((placeColumns needs top index before ps).map Column.lane).map Lane.code =
      ps.map Participant.code := by
  induction ps generalizing index before with
  | nil => rfl
  | cons p rest ih =>
    simp only [placeColumns, List.map_cons, ih]
    rfl

/-- A diagram starts on a sheet with a lane for each column, and without arrows and bars. -/
lemma views_start (d : Diagram) (parent : String) :
    (start d parent).ground.lanes.map Lane.code = d.codes ∧
      (start d parent).pen = ⟨(start d parent).ground, {}, [], none, none⟩ ∧
      (start d parent).posts = ⟨(start d parent).ground, d.codes.map fun c => (c, []), []⟩ := by
  unfold start
  dsimp only
  cases titleOf d with
  | none => exact ⟨codes_placeColumns _ _ _ _ _, rfl, rfl⟩
  | some title => exact ⟨codes_placeColumns _ _ _ _ _, rfl, rfl⟩

/-- The last bars are closed first; what is drawn afterwards is neither arrow nor bar. -/
lemma quiet_finish (s : Sheet) (d : Diagram) :
    Quiet (s.columns.foldl (fun t c => t.deactivateAll c.participant.code (s.cursor + 10)) s)
      (s.finish d) := by
  unfold finish
  dsimp only
  generalize List.foldl _ s s.columns = swept
  refine Quiet.trans ?_ (.foldl (fun t b => .box _ t b) _ d.boxes)
  -- the columns are finished with the lowest foot so far beside the sheet
  refine List.foldlRecOn (motive := fun sy : Sheet × Number => Quiet swept sy.1) _ _
    (.refl swept) ?_
  intro sy hsy c _
  exact hsy.trans (.finishColumn _ _ sy.1 c)

lemma pen_finish (s : Sheet) (d : Diagram) : (s.finish d).pen = s.pen :=
  (s.quiet_finish d).pen_eq.trans <|
    List.foldlRecOn (motive := fun t : Sheet => t.pen = s.pen) _ _ rfl fun t ht c _ =>
      (t.pen_deactivateAll c.participant.code _).trans ht

end Sheet
end Sequence
end UmlDraw
