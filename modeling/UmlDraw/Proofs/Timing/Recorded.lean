/-
# The changes that a text records

A line `P is S` records a change of the player that it names at the last instant, and a line `T is S`
a change of the current player at its own instant.  What the lines record can be written down
without the players: it takes the last instant, the instants with names, the current player, and of
every player that is known whether it is a clock.  This is a scene, and the changes in the order of
the lines are the record of a text.

A diagram holds the record of its text, sorted by player and by time.  A player keeps its changes and
its states when it is declared, be it for the first time or again.

The main statements are

* `Reader.Tells.apply`: what a line adds to the players and to the record;
* `Reader.Tells.run`: the players and the record of a text;
* `Diagram.recorded_read`: no change of a text is lost, and none goes to another player.
-/
import UmlDraw.Proofs.Timing.Overflow

namespace UmlDraw
namespace Timing

/-! ### The record of a text -/

/-- A change of a player, and whether the player was a clock when it changed. -/
structure Entry where
  code : String
  change : StateChange
  atClock : Bool

/-- What a change of state depends on. -/
structure Scene where
  /-- The last instant. -/
  now : Number := 0
  /-- The instants that have names. -/
  instants : Keyed Number := Keyed.empty
  /-- The players that are known, and whether they are clocks. -/
  clocks : Keyed Bool := Keyed.empty
  /-- The current player. -/
  current : Option String := none
  /-- The text of a note goes on. -/
  inNote : Bool := false

namespace Scene

/-- The instant that is meant; a name without one means the last instant. -/
def instant (s : Scene) : TimeToken → Except NumberError Number
  | .absolute n => .ok n
  | .relative n => do
    let t ← Number.Checked.add s.now n
    Number.Checked.clean t
  | .named code => .ok ((s.instants.get? code).getD s.now)

/-- A player is known from the first line that names it on.  If no line has declared it, it is not a
clock. -/
def know (s : Scene) (code : String) : Scene :=
  if s.clocks.contains code then s else { s with clocks := s.clocks.insert code false }

/-- The scene behind a line with a meaning.  A line that goes to an instant leaves the current
player; one that goes to a player makes it the current one if it is known. -/
def next (s : Scene) : Line → Except NumberError Scene
  | .player p => .ok { s with clocks := s.clocks.insert p.code p.kind.clock?.isSome }
  | .message source _ target _ _ => .ok ((s.know source).know target)
  | .noteStart _ => .ok { s with inNote := true }
  | .atTime t name => do
    let now ← s.instant t
    let instants := match name with
      | some code => s.instants.insert code now
      | none => s.instants
    .ok { s with now := now, instants := instants, current := none }
  | .atPlayer code => .ok (if s.clocks.contains code then { s with current := some code } else s)
  | .playerIs code _ => .ok (s.know code)
  | .timeIs t _ => do
    if s.current.isSome then
      let now ← s.instant t
      .ok { s with now := now }
    else .ok s
  | _ => .ok s

/-- A change of a player at the last instant. -/
def entry (s : Scene) (code : String) (c : ChangeHead) : Entry :=
  ⟨code, ⟨s.now, c.state, c.comment, c.color⟩, (s.clocks.get? code).getD false⟩

/-- What a line records, in the scene behind it. -/
def entries (s : Scene) : Line → List Entry
  | .playerIs code c => [s.entry code c]
  | .timeIs _ c => (s.current.map fun code => s.entry code c).toList
  | _ => []

/-- What lines record. -/
def recorded (s : Scene) : List SourceLine → Except NumberError (List Entry)
  | [] => .ok []
  | line :: rest =>
    if s.inNote then recorded { s with inNote := !Token.endNote.reads line.text } rest
    else
      match Line.read? line.text with
      | none => recorded s rest
      | some l => do
        let s ← s.next l
        let log ← recorded s rest
        .ok (s.entries l ++ log)

end Scene

/-- What a text records. -/
def Diagram.recorded (text : String) : Except NumberError (List Entry) :=
  Scene.recorded {} (Source.lines text)

/-- The changes of one player. -/
def entriesOf (code : String) (log : List Entry) : List Entry :=
  log.filter fun e => e.code = code

/-! ### Players -/

namespace Player

/-- The player is a clock. -/
def isClock (p : Player) : Bool :=
  p.kind.clock?.isSome

/-- The player has the given changes in this order, no state twice, and the states that were recorded
when it was no clock. -/
structure Holds (p : Player) (log : List Entry) : Prop where
  changes : p.changes = log.map Entry.change
  nodup : p.states.Nodup
  states : ∀ e ∈ log, e.atClock = false → e.change.state ∈ p.states

variable {p : Player} {log : List Entry} {state : String}

lemma mem_states_addState : state ∈ (p.addState state).states := by
  unfold addState
  split
  · next h => simpa using h
  · simp

lemma states_subset_addState (p : Player) (state : String) :
    p.states ⊆ (p.addState state).states := by
  unfold addState
  split
  · exact List.Subset.refl _
  · exact List.subset_append_left _ _

lemma changes_addState (p : Player) (state : String) : (p.addState state).changes = p.changes := by
  unfold addState
  split <;> rfl

lemma nodup_states_addState (h : p.states.Nodup) : (p.addState state).states.Nodup := by
  unfold addState
  split
  · exact h
  · next hnew =>
    have hnew : state ∉ p.states := by simpa using hnew
    exact List.nodup_append.2 ⟨h, List.nodup_singleton _,
      fun a ha b hb hab => hnew (List.mem_singleton.1 hb ▸ hab ▸ ha)⟩

lemma isClock_addState (p : Player) (state : String) :
    (p.addState state).isClock = p.isClock := by
  rw [isClock, Reader.IsPlain.kind_addState, isClock]

lemma isClock_record (p : Player) (c : StateChange) : (p.record c).isClock = p.isClock := by
  rw [isClock, Reader.IsPlain.kind_record, isClock]

namespace Holds

lemma addState (h : p.Holds log) (state : String) : (p.addState state).Holds log where
  changes := (changes_addState p state).trans h.changes
  nodup := nodup_states_addState h.nodup
  states := fun e he hclock => states_subset_addState p state (h.states e he hclock)

/-- A declaration changes neither the changes nor the states. -/
lemma redeclare (h : p.Holds log) (more : Player) : (p.redeclare more).Holds log :=
  ⟨h.changes, h.nodup, h.states⟩

/-- One more change. -/
lemma record (h : p.Holds log) (code : String) (c : StateChange) :
    (p.record c).Holds (log ++ [Entry.mk code c p.isClock]) := by
  have hchanges : p.changes ++ [c] = (log ++ [Entry.mk code c p.isClock]).map Entry.change := by
    rw [List.map_append, h.changes]
    rfl
  have hold : ∀ e ∈ log, e.atClock = false → e.change.state ∈ p.states := h.states
  cases hclock : p.isClock with
  | true =>
    have hrecord : p.record c = { p with changes := p.changes ++ [c] } := if_pos hclock
    rw [hrecord, ← hclock]
    refine ⟨hchanges, h.nodup, fun e he hno => ?_⟩
    rcases List.mem_append.1 he with he | he
    · exact hold e he hno
    · obtain rfl := List.mem_singleton.1 he
      exact absurd (hclock.symm.trans hno) (by decide)
  | false =>
    have hrecord : p.record c =
        ({ p with changes := p.changes ++ [c] } : Player).addState c.state :=
      if_neg (by simpa [isClock] using hclock)
    rw [hrecord, ← hclock]
    refine ⟨(changes_addState _ _).trans hchanges, nodup_states_addState h.nodup,
      fun e he hno => ?_⟩
    rcases List.mem_append.1 he with he | he
    · exact states_subset_addState _ c.state (hold e he hno)
    · obtain rfl := List.mem_singleton.1 he
      exact mem_states_addState

end Holds
end Player

namespace Line

open Scan

/-- A player that a line declares has no states and no changes. -/
def DeclaresEmpty : Line → Prop
  | player p => p.states = [] ∧ p.changes = []
  | _ => True

lemma yields_declares : ∀ p ∈ [readPlayer, readClock, readBinary, readAnalog],
    p.Yields DeclaresEmpty := by
  simp only [List.forall_mem_cons]
  refine ⟨?_, ?_, ?_, ?_, List.forall_mem_nil _⟩
  · unfold readPlayer
    iterate 9 refine Yields.bind fun _ => ?_
    exact Yields.pure ⟨rfl, rfl⟩
  · unfold readClock
    iterate 11 refine Yields.bind fun _ => ?_
    exact Yields.pure ⟨rfl, rfl⟩
  · unfold readBinary
    iterate 7 refine Yields.bind fun _ => ?_
    exact Yields.pure ⟨rfl, rfl⟩
  · unfold readAnalog
    iterate 4 refine Yields.bind fun _ => ?_
    refine Yields.bindOf (Yields.optional (Q := fun _ => True) ?_) fun _ _ => ?_
    · iterate 8 refine Yields.bind fun _ => ?_
      exact Yields.pure trivial
    iterate 3 refine Yields.bind fun _ => ?_
    exact Yields.pure ⟨rfl, rfl⟩

/-- The other forms declare no player. -/
lemma yields_declares_none : ∀ p ∈ [readTitle, readCompact, readHideAxis, readHas, readNote,
    readNoteStart, readHighlight, readConstraint, readMessage, readAt, readPlayerIs, readTimeIs],
    p.Yields DeclaresEmpty := by
  simp only [List.forall_mem_cons]
  refine ⟨?_, ?_, ?_, ?_, ?_, ?_, ?_, ?_, ?_, ?_, ?_, ?_, List.forall_mem_nil _⟩
  · exact Yields.bind fun _ => Yields.pure trivial
  · exact Yields.bind fun _ => Yields.bind fun _ => Yields.pure trivial
  · unfold readHideAxis
    iterate 6 refine Yields.bind fun _ => ?_
    exact Yields.pure trivial
  · unfold readHas
    iterate 5 refine Yields.bind fun _ => ?_
    dsimp only
    split <;> exact Yields.pure trivial
  · unfold readNote
    iterate 4 refine Yields.bind fun _ => ?_
    exact Yields.pure trivial
  · exact Yields.bind fun _ => Yields.bind fun _ => Yields.pure trivial
  · unfold readHighlight
    iterate 12 refine Yields.bind fun _ => ?_
    exact Yields.pure trivial
  · unfold readConstraint
    iterate 9 refine Yields.bind fun _ => ?_
    exact Yields.pure trivial
  · unfold readMessage
    iterate 11 refine Yields.bind fun _ => ?_
    exact Yields.pure trivial
  · unfold readAt
    iterate 4 refine Yields.bind fun _ => ?_
    split <;> exact Yields.pure trivial
  · unfold readPlayerIs
    iterate 3 refine Yields.bind fun _ => ?_
    exact Yields.pure trivial
  · exact Yields.bind fun _ => Yields.bind fun _ => Yields.pure trivial

/-- A player is declared without states and changes. -/
theorem declaresEmpty_of_read? {s : List Char} {l : Line} (h : read? s = some l) :
    l.DeclaresEmpty := by
  have hplayers := yields_declares
  have hothers := yields_declares_none
  simp only [List.forall_mem_cons] at hplayers hothers
  obtain ⟨hplayer, hclock, hbinary, hanalog, -⟩ := hplayers
  obtain ⟨htitle, hcompact, hhideAxis, hhas, hnote, hnoteStart, hhighlight, hconstraint, hmessage,
    hat, hplayerIs, htimeIs, -⟩ := hothers
  have hforms : ∀ p ∈ forms, p.Yields DeclaresEmpty := by
    simp only [forms, List.forall_mem_cons]
    exact ⟨htitle, hcompact, hhideAxis, hplayer, hclock, hbinary, hanalog, hhas, hnote, hnoteStart,
      hhighlight, hconstraint, hmessage, hat, hplayerIs, htimeIs, List.forall_mem_nil _⟩
  exact (Yields.anyOf hforms).of_whole h

end Line

namespace Reader

variable {r r' : Reader} {s : Scene} {log : List Entry} {code : String}

/-- The scene is the one of the reader, and its players have the changes that are recorded. -/
structure Tells (r : Reader) (s : Scene) (log : List Entry) : Prop where
  now : r.now = s.now
  instants : r.diagram.instants = s.instants
  current : r.current = s.current
  inNote : r.note.isSome = s.inNote
  clocks : ∀ code, s.clocks.get? code = (r.diagram.players.get? code).map Player.isClock
  isKnown : ∀ code, s.current = some code → code ∈ r.diagram.players.keys
  known : ∀ e ∈ log, e.code ∈ r.diagram.players.keys
  players : ∀ code p, r.diagram.players.get? code = some p → p.Holds (entriesOf code log)

lemma entriesOf_append (code : String) (log log' : List Entry) :
    entriesOf code (log ++ log') = entriesOf code log ++ entriesOf code log' :=
  List.filter_append log log'

lemma tells_init : Tells {} {} [] where
  now := rfl
  instants := rfl
  current := rfl
  inNote := rfl
  clocks := fun _ => rfl
  isKnown := nofun
  known := List.forall_mem_nil _
  players := fun _ _ h => nomatch h

namespace Tells

lemma contains_clocks (h : r.Tells s log) (code : String) :
    s.clocks.contains code = r.diagram.players.contains code := by
  rw [Keyed.contains, Keyed.contains, h.clocks, Option.isSome_map]

/-- A player that is not known has no changes. -/
lemma entriesOf_eq_nil (h : r.Tells s log) (hcode : code ∉ r.diagram.players.keys) :
    entriesOf code log = [] := by
  refine List.filter_eq_nil_iff.2 fun e he => ?_
  have hne : e.code ≠ code := fun heq => hcode (heq ▸ h.known e he)
  simpa using hne

/-- The players change, and what is known of their clocks with them. -/
lemma withPlayers (h : r.Tells s log) {players : Keyed Player} {clocks : Keyed Bool}
    (hkeys : r.diagram.players.keys ⊆ players.keys)
    (hclocks : ∀ code, clocks.get? code = (players.get? code).map Player.isClock)
    (hplayers : ∀ code p, players.get? code = some p → p.Holds (entriesOf code log)) :
    ({ r with diagram := { r.diagram with players := players } } : Reader).Tells
      { s with clocks := clocks } log :=
  { h with
    clocks := hclocks
    isKnown := fun code hcode => hkeys (h.isKnown code hcode)
    known := fun e he => hkeys (h.known e he)
    players := hplayers }

/-- A player changes, but does not become a clock or cease to be one. -/
lemma clocks_modify (h : r.Tells s log) (code : String) {f : Player → Player}
    (hclock : ∀ p, (f p).isClock = p.isClock) (other : String) :
    s.clocks.get? other =
      ((r.diagram.players.modify code f).get? other).map Player.isClock := by
  rw [h.clocks, Keyed.get?_modify]
  split
  · rw [Option.map_map]
    exact congrArg (Option.map · _) (funext fun p => (hclock p).symm)
  · rfl

/-- A player changes, but keeps what it holds. -/
lemma changePlayer (h : r.Tells s log) (code : String) {f : Player → Player}
    (hclock : ∀ p, (f p).isClock = p.isClock) (hf : ∀ p log, p.Holds log → (f p).Holds log) :
    (r.changePlayer code f).Tells s log := by
  refine h.withPlayers (Keyed.keys_modify _ _ _ ▸ List.Subset.refl _) (h.clocks_modify code hclock)
    fun other p hp => ?_
  rw [Keyed.get?_modify] at hp
  split at hp
  · obtain ⟨old, hold, rfl⟩ := Option.map_eq_some_iff.1 hp
    exact hf old _ (h.players other old hold)
  · exact h.players other p hp

/-- A player comes in without changes and states. -/
lemma insertPlayer (h : r.Tells s log) (hnew : code ∉ r.diagram.players.keys) {p : Player}
    (hp : p.Holds []) :
    ({ r with diagram := { r.diagram with players := r.diagram.players.insert code p } } :
      Reader).Tells { s with clocks := s.clocks.insert code p.isClock } log := by
  refine h.withPlayers (fun _ hmem => Keyed.mem_keys_insert.2 (.inl hmem)) (fun other => ?_)
    fun other p' hp' => ?_
  · rw [Keyed.get?_insert, Keyed.get?_insert]
    split
    · rfl
    · exact h.clocks other
  · rw [Keyed.get?_insert] at hp'
    split at hp'
    · next hother =>
      obtain rfl := Option.some.inj hp'
      rw [hother, h.entriesOf_eq_nil hnew]
      exact hp
    · exact h.players other p' hp'

/-- A player is declared, for the first time or again. -/
lemma declare (h : r.Tells s log) {p : Player} (hstates : p.states = []) (hchanges : p.changes = []) :
    (r.declare p).Tells { s with clocks := s.clocks.insert p.code p.isClock } log := by
  unfold Reader.declare
  split
  · next hmem =>
    obtain ⟨old, hold⟩ := Keyed.mem_keys_iff.1 (Keyed.contains_iff.1 hmem)
    refine h.withPlayers (Keyed.keys_modify _ _ _ ▸ List.Subset.refl _) (fun other => ?_)
      fun other p' hp' => ?_
    · rw [Keyed.get?_insert, Keyed.get?_modify]
      split
      · next hother =>
        rw [hother, hold]
        rfl
      · exact h.clocks other
    · rw [Keyed.get?_modify] at hp'
      split at hp'
      · obtain ⟨old', hold', rfl⟩ := Option.map_eq_some_iff.1 hp'
        exact (h.players other old' hold').redeclare p
      · exact h.players other p' hp'
  · next hmem =>
    refine h.insertPlayer (fun hkey => hmem (Keyed.contains_iff.2 hkey)) ?_
    exact ⟨hchanges, hstates ▸ List.nodup_nil, List.forall_mem_nil _⟩

/-- A player is named. -/
lemma mention (h : r.Tells s log) (code : String) : (r.mention code).Tells (s.know code) log := by
  unfold Reader.mention Scene.know
  rw [h.contains_clocks]
  split
  · exact h
  · next hmem =>
    refine h.insertPlayer (fun hkey => hmem (Keyed.contains_iff.2 hkey)) ?_
    exact ⟨rfl, List.nodup_nil, List.forall_mem_nil _⟩

lemma mem_keys_mention (r : Reader) (code : String) :
    code ∈ (r.mention code).diagram.players.keys := by
  unfold Reader.mention
  split
  · next hmem => exact Keyed.contains_iff.1 hmem
  · exact Keyed.mem_keys_insert.2 (.inr rfl)

/-- A change of a player that is known. -/
lemma record (h : r.Tells s log) (hcode : code ∈ r.diagram.players.keys) (c : ChangeHead) :
    (r.record code c).Tells s (log ++ [s.entry code c]) where
  now := h.now
  instants := h.instants
  current := h.current
  inNote := h.inNote
  clocks := h.clocks_modify code fun p => Player.isClock_record p _
  isKnown := fun other hother => (Keyed.keys_modify _ _ _).symm ▸ h.isKnown other hother
  known := by
    intro e he
    refine (Keyed.keys_modify _ _ _).symm ▸ ?_
    rcases List.mem_append.1 he with he | he
    · exact h.known e he
    · obtain rfl := List.mem_singleton.1 he
      exact hcode
  players := by
    intro other p hp
    rw [Reader.record, Reader.changePlayer, Keyed.get?_modify] at hp
    rw [entriesOf_append]
    split at hp
    · next hother =>
      obtain rfl := hother
      obtain ⟨old, hold, rfl⟩ := Option.map_eq_some_iff.1 hp
      have hentry : entriesOf other [s.entry other c] =
          [⟨other, ⟨r.now, c.state, c.comment, c.color⟩, old.isClock⟩] := by
        rw [entriesOf, List.filter_cons_of_pos (by simp [Scene.entry]), List.filter_nil,
          Scene.entry, h.clocks, hold, h.now]
        rfl
      rw [hentry]
      exact (h.players other old hold).record other _
    · next hother =>
      have hentry : entriesOf other [s.entry code c] = [] :=
        List.filter_cons_of_neg fun heq => hother (of_decide_eq_true heq).symm
      rw [hentry, List.append_nil]
      exact h.players other p hp

lemma resolve_eq (h : r.Tells s log) (t : TimeToken) : r.resolve t = s.instant t := by
  cases t with
  | absolute n => rfl
  | relative n => rw [Reader.resolve, Scene.instant, h.now]
  | named code => rw [Reader.resolve, Scene.instant, h.now, h.instants]

lemma goTo (h : r.Tells s log) {t : TimeToken} (hgo : r.goTo t = .ok r') :
    ∃ now, s.instant t = .ok now ∧ r'.Tells { s with now := now } log := by
  obtain ⟨time, htime, hgo⟩ := Fault.bind_eq_ok_iff.1 hgo
  obtain rfl := Except.ok.inj hgo
  exact ⟨time, (h.resolve_eq t).symm.trans htime, { h with now := rfl }⟩

/-- A line with a meaning adds what it records. -/
theorem apply (h : r.Tells s log) {l : Line} (hl : l.DeclaresEmpty) (happly : r.apply l = .ok r') :
    ∃ s', s.next l = .ok s' ∧ r'.Tells s' (log ++ s'.entries l) := by
  have hnone : ∀ {r' : Reader} {s' : Scene}, r'.Tells s' log → r'.Tells s' (log ++ []) :=
    fun h' => (List.append_nil log).symm ▸ h'
  cases l with
  | title | compact | hideAxis | note =>
    obtain rfl := Except.ok.inj happly
    exact ⟨s, rfl, hnone { h with }⟩
  | noteStart n =>
    obtain rfl := Except.ok.inj happly
    exact ⟨_, rfl, hnone { h with inNote := rfl }⟩
  | player p =>
    obtain rfl := Except.ok.inj happly
    exact ⟨_, rfl, hnone (h.declare hl.1 hl.2)⟩
  | hasLabel player state label =>
    obtain rfl := Except.ok.inj happly
    refine ⟨s, rfl, hnone (h.changePlayer player (fun p => ?_) fun p log hp => ?_)⟩
    · exact Player.isClock_addState _ _
    · have hp' : ({ p with stateLabels := p.stateLabels.insert state label } : Player).Holds log :=
        ⟨hp.changes, hp.nodup, hp.states⟩
      exact hp'.addState state
  | hasStates player states =>
    obtain rfl := Except.ok.inj happly
    refine ⟨s, rfl, hnone (h.changePlayer player (fun p => ?_) fun p log hp => ?_)⟩
    · rw [Player.isClock, Reader.IsPlain.kind_foldl_addState, Player.isClock]
    · exact List.foldlRecOn (motive := fun p => Player.Holds p log) states Player.addState hp
        fun p hp state _ => hp.addState state
  | highlight start stop color caption | constraint player start stop label =>
    obtain ⟨a, -, happly⟩ := Fault.bind_eq_ok_iff.1 happly
    obtain ⟨b, -, happly⟩ := Fault.bind_eq_ok_iff.1 happly
    obtain rfl := Except.ok.inj happly
    exact ⟨s, rfl, hnone { h with }⟩
  | message source sourceTime target targetTime label =>
    have hends := (h.mention source).mention target
    obtain ⟨a, -, happly⟩ := Fault.bind_eq_ok_iff.1 happly
    obtain ⟨b, -, happly⟩ := Fault.bind_eq_ok_iff.1 happly
    obtain rfl := Except.ok.inj happly
    exact ⟨_, rfl, hnone { hends with }⟩
  | atTime t name =>
    obtain ⟨r₁, hgo, happly⟩ := Fault.bind_eq_ok_iff.1 happly
    obtain rfl := Except.ok.inj happly
    obtain ⟨now, hnow, h₁⟩ := h.goTo hgo
    refine ⟨_, Fault.bind_eq_ok_iff.2 ⟨now, hnow, rfl⟩, hnone ?_⟩
    have hleave : ({ r₁ with current := none } : Reader).Tells
        { s with now := now, current := none } log :=
      { h₁ with current := rfl, isKnown := nofun }
    cases name with
    | none => exact hleave
    | some code => exact { hleave with instants := congrArg₂ (Keyed.insert · code) h₁.instants h₁.now }
  | atPlayer code =>
    obtain rfl := Except.ok.inj happly
    refine ⟨_, rfl, hnone ?_⟩
    rw [h.contains_clocks]
    split
    · next hmem =>
      refine { h with current := rfl, isKnown := fun other hother => ?_ }
      exact Option.some.inj hother ▸ Keyed.contains_iff.1 hmem
    · exact h
  | playerIs code c =>
    obtain rfl := Except.ok.inj happly
    exact ⟨_, rfl, (h.mention code).record (mem_keys_mention r code) c⟩
  | timeIs t c =>
    unfold Reader.apply at happly
    dsimp only at happly
    split at happly
    · next hcurrent =>
      have hnobody : s.current = none := h.current.symm.trans hcurrent
      obtain rfl := Except.ok.inj happly
      refine ⟨s, by rw [Scene.next, hnobody]; rfl, ?_⟩
      rw [Scene.entries, hnobody]
      exact hnone h
    · next code hcurrent =>
      have hcode : s.current = some code := h.current.symm.trans hcurrent
      obtain ⟨r₁, hgo, happly⟩ := Fault.bind_eq_ok_iff.1 happly
      obtain rfl := Except.ok.inj happly
      obtain ⟨now, hnow, h₁⟩ := h.goTo hgo
      refine ⟨{ s with now := now }, ?_, ?_⟩
      · rw [Scene.next, hcode, Option.isSome_some, if_pos rfl, hnow]
        rfl
      · have hentries : ({ s with now := now } : Scene).entries (.timeIs t c) =
            [({ s with now := now } : Scene).entry code c] := by
          rw [Scene.entries, hcode]
          rfl
        rw [hentries]
        exact h₁.record (h₁.isKnown code hcode) c

/-- The lines of a text, one after the other. -/
theorem run (h : r.Tells s log) {lines : List SourceLine}
    (hlines : lines.foldlM Reader.step r = .ok r') :
    ∃ log' s', s.recorded lines = .ok log' ∧ r'.Tells s' (log ++ log') := by
  induction lines generalizing r s log with
  | nil =>
    obtain rfl := Except.ok.inj hlines
    exact ⟨[], s, rfl, (List.append_nil log).symm ▸ h⟩
  | cons line rest ih =>
    obtain ⟨r₁, hstep, hrest⟩ := Fault.bind_eq_ok_iff.1 hlines
    unfold Reader.step at hstep
    unfold Scene.recorded
    split at hstep
    · -- a line of the text of a note
      next n lines hnote =>
      have hin : s.inNote = true := h.inNote.symm.trans (by rw [hnote]; rfl)
      obtain rfl := Except.ok.inj hstep
      rw [if_pos hin]
      refine ih ?_ hrest
      split
      · next hend => exact { h with inNote := by rw [hend]; rfl }
      · next hend => exact { h with inNote := by rw [Bool.eq_false_of_not_eq_true hend]; rfl }
    · next hnote =>
      have hin : ¬ s.inNote = true := by
        rw [← h.inNote, hnote]
        exact Bool.false_ne_true
      rw [if_neg hin]
      split at hstep
      · next l hl =>
        obtain ⟨s₁, hnext, h₁⟩ := h.apply (Line.declaresEmpty_of_read? hl) hstep
        obtain ⟨log', s', hlog, h'⟩ := ih h₁ hrest
        refine ⟨s₁.entries l ++ log', s', ?_, List.append_assoc _ _ _ ▸ h'⟩
        rw [hl]
        exact Fault.bind_eq_ok_iff.2 ⟨s₁, hnext, Fault.bind_eq_ok_iff.2 ⟨log', hlog, rfl⟩⟩
      · next hl =>
        obtain rfl := Except.ok.inj hstep
        rw [hl]
        exact ih h hrest

end Tells
end Reader

/-- The players of a diagram have the changes that its text records: every change belongs to a
player, and the changes of a player are those that name it and those that were read while it was the
current player, in the order of their times.  No state of a player stands twice, and the states that
it had while it was no clock stand among its states. -/
theorem Diagram.recorded_read {text : String} {d : Diagram} (h : read text = .ok d) :
    ∃ log, recorded text = .ok log ∧ (∀ e ∈ log, e.code ∈ d.players.keys) ∧
      ∀ code p, d.players.get? code = some p →
        p.changes.Perm ((entriesOf code log).map Entry.change) ∧ p.states.Nodup ∧
          ∀ e ∈ entriesOf code log, e.atClock = false → e.change.state ∈ p.states := by
  obtain ⟨r, hr, h⟩ := Fault.bind_eq_ok_iff.1 h
  obtain rfl := Except.ok.inj h
  obtain ⟨log, s, hlog, htells⟩ := Reader.tells_init.run hr
  refine ⟨log, hlog, fun e he => ?_, fun code p hp => ?_⟩
  · exact (Keyed.keys_map _ _).symm ▸ htells.known e he
  · -- the changes are only sorted when the text ends
    obtain ⟨p', hp', rfl⟩ := Option.map_eq_some_iff.1 ((Keyed.get?_map _ _ _).symm.trans hp)
    have hholds := htells.players code p' hp'
    exact ⟨hholds.changes ▸ List.mergeSort_perm _ _, hholds.nodup, hholds.states⟩

/-- A player is named, is declared as a clock, changes as the current player and is declared again. -/
def redeclaredText : String :=
  "P is a\nclock P with period 2\n@P\n3 is b\nrobust P\n1 is c"

theorem Diagram.recorded_read_redeclared :
    ∃ d log p, read redeclaredText = .ok d ∧ recorded redeclaredText = .ok log ∧
      d.players.get? "P" = some p ∧ log.map (fun e => e.change.state) = ["a", "b", "c"] ∧
      p.changes.Perm ((entriesOf "P" log).map Entry.change) ∧ p.states.Nodup := by
  have hplayer : ((read redeclaredText).toOption.bind
      fun d => d.players.get? "P").isSome = true := by decide +kernel
  have hlog : ((recorded redeclaredText).toOption.map
      fun log => log.map fun e => e.change.state) = some ["a", "b", "c"] := by decide +kernel
  obtain ⟨p, hp⟩ := Option.isSome_iff_exists.1 hplayer
  cases hread : read redeclaredText with
  | error e =>
    rw [hread] at hp
    cases hp
  | ok d =>
    rw [hread] at hp
    obtain ⟨log, hrecorded, -, hplayers⟩ := recorded_read hread
    obtain ⟨hchanges, hnodup, -⟩ := hplayers "P" p hp
    rw [hrecorded] at hlog
    exact ⟨d, log, p, rfl, hrecorded, hp, Option.some.inj hlog, hchanges, hnodup⟩

end Timing
end UmlDraw
