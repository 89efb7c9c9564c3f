/-
# Which timing diagrams cannot be read

The numbers of a text are plain when they are read, and the instants a reader remembers stay plain.
A time behind the last instant is a sum, and the sum of two integers may be too large for a double.
Nothing else in a text can keep it from being read: a diagram is read unless some line asks for such
a sum.

The main statements are

* `Line.isPlain_of_read?`: the numbers of a line are plain;
* `Reader.settles_step`, for a line, and `Reader.settles_foldlM`, for the lines of a text;
* `Diagram.read_eq_error_iff`: the texts that cannot be read, and `Diagram.read_far`, one of them.
-/
import UmlDraw.Proofs.Data.Keyed
import UmlDraw.Proofs.Number.Overflow
import UmlDraw.Proofs.Timing.Line

namespace UmlDraw
namespace Timing

/-! ### Computations that fail in one case -/

/-- A computation fails if something is bad, and only then. -/
def Settles {α : Type} (bad : Prop) (Q : α → Prop) (x : Except NumberError α) : Prop :=
  bad ∧ x = .error .tooLarge ∨ ¬ bad ∧ ∃ a, Q a ∧ x = .ok a

namespace Settles

variable {α β : Type} {bad bad' : Prop} {Q Q' : α → Prop} {R : β → Prop}
  {x : Except NumberError α} {f : α → Except NumberError β}

lemma pure {a : α} (h : Q a) : Settles False Q (Pure.pure a : Except NumberError α) :=
  .inr ⟨id, a, h, rfl⟩

lemma bind (hx : Settles bad Q x) (hf : ∀ a, Q a → Settles bad' R (f a)) :
    Settles (bad ∨ bad') R (x >>= f) := by
  rcases hx with ⟨hbad, rfl⟩ | ⟨hgood, a, ha, rfl⟩
  · exact .inl ⟨.inl hbad, rfl⟩
  · rcases hf a ha with ⟨hbad, hfa⟩ | ⟨hgood', b, hb, hfa⟩
    · exact .inl ⟨.inr hbad, hfa⟩
    · exact .inr ⟨not_or.2 ⟨hgood, hgood'⟩, b, hb, hfa⟩

lemma congr (h : Settles bad Q x) (hbad : bad ↔ bad') : Settles bad' Q x :=
  propext hbad ▸ h

end Settles

/-! ### The numbers of a line -/

/-- The number of an instant is plain, if it has one. -/
def TimeToken.IsPlain : TimeToken → Prop
  | absolute n | relative n => n.IsPlain
  | named _ => True

/-- The instant lies so far behind the last one that it has no time. -/
def TimeToken.Overflows (now : Number) : TimeToken → Prop
  | relative n => Number.SumOverflows now n
  | _ => False

/-- The pulse of a clock has a value. -/
def Player.IsSettled (p : Player) : Prop :=
  ∀ c, p.kind.clock? = some c → c.pulse.fault? = none

namespace Line

open Scan Token

/-- The instants that a line speaks of. -/
def instants : Line → List TimeToken
  | highlight start stop _ _ | constraint _ start stop _ | message _ start _ stop _ => [start, stop]
  | atTime t _ | timeIs t _ => [t]
  | _ => []

/-- The player that a line declares. -/
def player? : Line → Option Player
  | player p => some p
  | _ => none

/-- The numbers of a line are plain. -/
structure IsPlain (l : Line) : Prop where
  instants : ∀ t ∈ l.instants, t.IsPlain
  player : ∀ p, l.player? = some p → p.IsSettled

variable {l : Line}

lemma IsPlain.of_instants {ts : List TimeToken} (h : l.instants = ts) (hplain : ∀ t ∈ ts, t.IsPlain)
    (hplayer : l.player? = none) : l.IsPlain where
  instants := h ▸ hplain
  player := fun _ hp => nomatch hplayer.symm.trans hp

lemma IsPlain.of_nil (h : l.instants = []) (hplayer : l.player? = none) : l.IsPlain :=
  .of_instants h (List.forall_mem_nil _) hplayer

lemma yields_number : number.Yields Number.IsPlain :=
  Yields.bind fun _ => Yields.pure (Number.isPlain_clean _)

lemma yields_time : time.Yields TimeToken.IsPlain := by
  refine Yields.anyOf ?_
  simp only [List.forall_mem_cons]
  refine ⟨?_, ?_, ?_, List.forall_mem_nil _⟩
  · exact Yields.bind fun _ => yields_number.bindOf fun n hn => Yields.pure hn
  · exact yields_number.bindOf fun n hn => Yields.pure hn
  · exact Yields.bind fun _ => Yields.bind fun _ => Yields.pure trivial

lemma isPlain_player {p : Player} (h : p.kind.clock? = none) : (player p).IsPlain where
  instants := List.forall_mem_nil _
  player := fun p' hp c hc => by
    obtain rfl := Option.some.inj hp
    rw [h] at hc
    cases hc

/-- The pulse of a clock is read, or it is half of a period that is read. -/
lemma isPlain_clock {p : Player} {period offset : Number} {pulse : Option Number}
    (hperiod : period.IsPlain) (hpulse : ∀ n, pulse = some n → n.IsPlain)
    (h : p.kind = .clock ⟨period, pulse.getD (Number.half period), offset⟩) :
    (player p).IsPlain where
  instants := List.forall_mem_nil _
  player := fun p' hp c hc => by
    obtain rfl := Option.some.inj hp
    rw [h] at hc
    obtain rfl := Option.some.inj hc
    cases pulse with
    | none => exact hperiod.fault?_half
    | some n => exact (hpulse n rfl).fault?_eq

lemma clock?_ofWord (word : String) : (PlayerKind.ofWord word).clock? = none := by
  unfold PlayerKind.ofWord
  split
  · rfl
  · split
    · rfl
    · split <;> rfl

lemma yields_players : ∀ p ∈ [readPlayer, readClock, readBinary, readAnalog],
    p.Yields IsPlain := by
  simp only [List.forall_mem_cons]
  refine ⟨?_, ?_, ?_, ?_, List.forall_mem_nil _⟩
  · unfold readPlayer
    iterate 9 refine Yields.bind fun _ => ?_
    exact Yields.pure (isPlain_player (clock?_ofWord _))
  · unfold readClock
    iterate 7 refine Yields.bind fun _ => ?_
    refine yields_number.bindOf fun period hperiod => ?_
    have hsetting : (setting "pulse").Yields fun r => ∀ n, r = some n → n.IsPlain :=
      Yields.optional (Yields.bind fun _ => Yields.bind fun _ => Yields.bind fun _ => yields_number)
    refine hsetting.bindOf fun pulse hpulse => ?_
    iterate 2 refine Yields.bind fun _ => ?_
    exact Yields.pure (isPlain_clock hperiod hpulse rfl)
  · unfold readBinary
    iterate 7 refine Yields.bind fun _ => ?_
    exact Yields.pure (isPlain_player rfl)
  · unfold readAnalog
    iterate 4 refine Yields.bind fun _ => ?_
    refine Yields.bindOf (Yields.optional (Q := fun _ => True) ?_) fun range _ => ?_
    · iterate 8 refine Yields.bind fun _ => ?_
      exact Yields.pure trivial
    iterate 3 refine Yields.bind fun _ => ?_
    exact Yields.pure (isPlain_player rfl)

lemma isPlain_of_two {start stop : TimeToken} (hl : l.instants = [start, stop])
    (hstart : start.IsPlain) (hstop : stop.IsPlain) (hplayer : l.player? = none) : l.IsPlain :=
  .of_instants hl (by simp [hstart, hstop]) hplayer

lemma isPlain_of_one {t : TimeToken} (hl : l.instants = [t]) (ht : t.IsPlain)
    (hplayer : l.player? = none) : l.IsPlain :=
  .of_instants hl (by simp [ht]) hplayer

lemma yields_marks : ∀ p ∈ [readHighlight, readConstraint, readMessage, readTimeIs],
    p.Yields IsPlain := by
  simp only [List.forall_mem_cons]
  refine ⟨?_, ?_, ?_, ?_, List.forall_mem_nil _⟩
  · unfold readHighlight
    iterate 3 refine Yields.bind fun _ => ?_
    refine yields_time.bindOf fun start hstart => ?_
    iterate 4 refine Yields.bind fun _ => ?_
    refine yields_time.bindOf fun stop hstop => ?_
    iterate 3 refine Yields.bind fun _ => ?_
    exact Yields.pure (isPlain_of_two rfl hstart hstop rfl)
  · unfold readConstraint
    iterate 2 refine Yields.bind fun _ => ?_
    refine yields_time.bindOf fun start hstart => ?_
    iterate 4 refine Yields.bind fun _ => ?_
    refine yields_time.bindOf fun stop hstop => ?_
    refine Yields.bind fun _ => ?_
    exact Yields.pure (isPlain_of_two rfl hstart hstop rfl)
  · unfold readMessage
    iterate 2 refine Yields.bind fun _ => ?_
    refine yields_time.bindOf fun start hstart => ?_
    iterate 6 refine Yields.bind fun _ => ?_
    refine yields_time.bindOf fun stop hstop => ?_
    refine Yields.bind fun _ => ?_
    exact Yields.pure (isPlain_of_two rfl hstart hstop rfl)
  · unfold readTimeIs
    refine yields_time.bindOf fun t ht => ?_
    exact Yields.bind fun _ => Yields.pure (isPlain_of_one rfl ht rfl)

lemma yields_at : readAt.Yields IsPlain := by
  unfold readAt
  iterate 4 refine Yields.bind fun _ => ?_
  split
  · next t ht => exact Yields.pure (isPlain_of_one rfl (yields_time.of_whole ht) rfl)
  · exact Yields.pure (.of_nil rfl rfl)

/-- The lines that neither declare a player nor speak of instants. -/
lemma yields_plain : ∀ p ∈ [readTitle, readCompact, readHideAxis, readHas, readNote, readNoteStart,
    readPlayerIs], p.Yields IsPlain := by
  simp only [List.forall_mem_cons]
  refine ⟨?_, ?_, ?_, ?_, ?_, ?_, ?_, List.forall_mem_nil _⟩
  · exact Yields.bind fun _ => Yields.pure (.of_nil rfl rfl)
  · exact Yields.bind fun _ => Yields.bind fun _ => Yields.pure (.of_nil rfl rfl)
  · unfold readHideAxis
    iterate 6 refine Yields.bind fun _ => ?_
    exact Yields.pure (.of_nil rfl rfl)
  · unfold readHas
    iterate 5 refine Yields.bind fun _ => ?_
    dsimp only
    split <;> exact Yields.pure (.of_nil rfl rfl)
  · unfold readNote
    iterate 4 refine Yields.bind fun _ => ?_
    exact Yields.pure (.of_nil rfl rfl)
  · exact Yields.bind fun _ => Yields.bind fun _ => Yields.pure (.of_nil rfl rfl)
  · unfold readPlayerIs
    iterate 3 refine Yields.bind fun _ => ?_
    exact Yields.pure (.of_nil rfl rfl)

lemma yields_forms : ∀ p ∈ forms, p.Yields IsPlain := by
  have hplayers := yields_players
  have hmarks := yields_marks
  have hplain := yields_plain
  simp only [List.forall_mem_cons] at hplayers hmarks hplain
  obtain ⟨hplayer, hclock, hbinary, hanalog, -⟩ := hplayers
  obtain ⟨hhighlight, hconstraint, hmessage, htimeIs, -⟩ := hmarks
  obtain ⟨htitle, hcompact, hhideAxis, hhas, hnote, hnoteStart, hplayerIs, -⟩ := hplain
  simp only [forms, List.forall_mem_cons]
  exact ⟨htitle, hcompact, hhideAxis, hplayer, hclock, hbinary, hanalog, hhas, hnote, hnoteStart,
    hhighlight, hconstraint, hmessage, yields_at, hplayerIs, htimeIs, List.forall_mem_nil _⟩

/-- The numbers of a line are plain. -/
theorem isPlain_of_read? {s : List Char} (h : read? s = some l) : l.IsPlain :=
  (Yields.anyOf yields_forms).of_whole h

end Line

/-! ### The instants of a reader -/

namespace Reader

variable {r r' : Reader} {t : TimeToken} {l : Line}

/-- The instants that a reader remembers are plain, and the clocks it knows have pulses. -/
structure IsPlain (r : Reader) : Prop where
  now : r.now.IsPlain
  instants : Keyed.All Number.IsPlain r.diagram.instants
  players : Keyed.All Player.IsSettled r.diagram.players

/-- The instants that a line asks for; a change of no player asks for none. -/
def asked (r : Reader) : Line → List TimeToken
  | .timeIs t _ => if r.current.isSome then [t] else []
  | l => l.instants

/-- A line asks for an instant that has no time. -/
def Overflows (r : Reader) (line : SourceLine) : Prop :=
  r.note = none ∧ ∃ l, Line.read? line.text = some l ∧ ∃ t ∈ r.asked l, t.Overflows r.now

lemma step_eq_apply {s : List Char} (hnote : r.note = none) (h : Line.read? s = some l)
    (raw : List Char) : r.step ⟨s, raw⟩ = r.apply l := by
  rw [step, hnote, h]

lemma settles_resolve (h : r.IsPlain) (ht : t.IsPlain) :
    Settles (t.Overflows r.now) Number.IsPlain (r.resolve t) := by
  cases t with
  | absolute n => exact .pure ht
  | relative n => exact Number.Checked.add_clean h.now ht
  | named code =>
    refine .pure ?_
    cases hcode : r.diagram.instants.get? code with
    | none => exact h.now
    | some n => exact h.instants code n hcode

lemma isPlain_init : IsPlain {} where
  now := .int (lt_of_le_of_lt (Nat.zero_le _) Double.overflow_bounds.1)
  instants := Keyed.all_empty
  players := Keyed.all_empty

/-! ### One line -/

namespace IsPlain

/-- What a reader remembers of instants and clocks is what it remembered. -/
lemma of_eq (h : r.IsPlain) (hnow : r'.now = r.now)
    (hinstants : r'.diagram.instants = r.diagram.instants)
    (hplayers : r'.diagram.players = r.diagram.players) : r'.IsPlain :=
  ⟨hnow ▸ h.now, hinstants ▸ h.instants, hplayers ▸ h.players⟩

lemma changePlayer (h : r.IsPlain) (code : String) {f : Player → Player}
    (hf : ∀ p, (f p).kind = p.kind) : (r.changePlayer code f).IsPlain where
  now := h.now
  instants := h.instants
  players := h.players.modify fun p hp c hc => hp c (hf p ▸ hc)

lemma kind_addState (p : Player) (state : String) : (p.addState state).kind = p.kind := by
  unfold Player.addState
  split <;> rfl

lemma kind_foldl_addState (p : Player) (states : List String) :
    (states.foldl Player.addState p).kind = p.kind := by
  induction states generalizing p with
  | nil => rfl
  | cons state rest ih => rw [List.foldl_cons, ih, kind_addState]

lemma kind_record (p : Player) (c : StateChange) : (p.record c).kind = p.kind := by
  unfold Player.record
  dsimp only
  split
  · rfl
  · exact kind_addState _ _

lemma mention (h : r.IsPlain) (code : String) : (r.mention code).IsPlain := by
  unfold Reader.mention
  split
  · exact h
  · exact ⟨h.now, h.instants, h.players.insert nofun⟩

lemma declare (h : r.IsPlain) {p : Player} (hp : p.IsSettled) : (r.declare p).IsPlain := by
  unfold Reader.declare
  split
  · exact ⟨h.now, h.instants, h.players.modify fun _ _ => hp⟩
  · exact ⟨h.now, h.instants, h.players.insert hp⟩

lemma record (h : r.IsPlain) (code : String) (c : ChangeHead) : (r.record code c).IsPlain :=
  h.changePlayer code fun p => kind_record p _

lemma nameNow (h : r.IsPlain) (name : Option String) : (r.nameNow name).IsPlain := by
  cases name with
  | none => exact h
  | some code => exact ⟨h.now, h.instants.insert h.now, h.players⟩

end IsPlain

lemma now_mention (r : Reader) (code : String) : (r.mention code).now = r.now := by
  unfold mention
  split <;> rfl

lemma settles_goTo (h : r.IsPlain) (ht : t.IsPlain) :
    Settles (t.Overflows r.now) IsPlain (r.goTo t) := by
  refine ((settles_resolve h ht).bind fun time htime => .pure ?_).congr (iff_of_eq (or_false _))
  exact ⟨htime, h.instants, h.players⟩

/-- A mark between two instants. -/
lemma settles_mark (h : r.IsPlain) {start stop : TimeToken} (hstart : start.IsPlain)
    (hstop : stop.IsPlain) {f : Number → Number → Reader} (hf : ∀ a b, (f a b).IsPlain) :
    Settles (∃ t ∈ [start, stop], t.Overflows r.now) IsPlain
      (r.resolve start >>= fun a => r.resolve stop >>= fun b => pure (f a b)) := by
  refine Settles.congr ((settles_resolve h hstart).bind fun a _ =>
    (settles_resolve h hstop).bind fun b _ => .pure (hf a b)) ?_
  simp

/-- What becomes of a line that has a meaning. -/
lemma settles_apply (h : r.IsPlain) (hl : l.IsPlain) :
    Settles (∃ t ∈ r.asked l, t.Overflows r.now) IsPlain (r.apply l) := by
  have hnone : ∀ {r' : Reader}, r'.IsPlain →
      Settles (∃ t ∈ ([] : List TimeToken), t.Overflows r.now) IsPlain (.ok r') :=
    fun h' => (Settles.pure h').congr (by simp)
  cases l with
  | title | compact | hideAxis | note | noteStart => exact hnone (h.of_eq rfl rfl rfl)
  | player p => exact hnone (h.declare (hl.player p rfl))
  | hasLabel player state label => exact hnone (h.changePlayer player fun p => by
      rw [IsPlain.kind_addState])
  | hasStates player states =>
    exact hnone (h.changePlayer player fun p => IsPlain.kind_foldl_addState p states)
  | highlight start stop color caption =>
    refine settles_mark h (hl.instants start (by simp [Line.instants]))
      (hl.instants stop (by simp [Line.instants])) fun a b => ?_
    exact h.of_eq rfl rfl rfl
  | constraint player start stop label =>
    refine settles_mark h (hl.instants start (by simp [Line.instants]))
      (hl.instants stop (by simp [Line.instants])) fun a b => ?_
    exact h.of_eq rfl rfl rfl
  | message source start target stop label =>
    have hends := (h.mention source).mention target
    have hnow : ((r.mention source).mention target).now = r.now := by
      rw [now_mention, now_mention]
    unfold apply asked
    rw [← hnow]
    refine settles_mark hends (hl.instants start (by simp [Line.instants]))
      (hl.instants stop (by simp [Line.instants])) fun a b => ?_
    exact hends.of_eq rfl rfl rfl
  | atTime t name =>
    refine ((settles_goTo h (hl.instants t (by simp [Line.instants]))).bind fun r' h' =>
      .pure ?_).congr (by simp [asked, Line.instants])
    exact (h'.of_eq rfl rfl rfl : ({ r' with current := none } : Reader).IsPlain).nameNow name
  | atPlayer code =>
    refine hnone ?_
    split
    · exact h.of_eq rfl rfl rfl
    · exact h
  | playerIs code c => exact hnone ((h.mention code).record code c)
  | timeIs t c =>
    unfold apply asked
    cases r.current with
    | none => exact hnone h
    | some code =>
      exact ((settles_goTo h (hl.instants t (by simp [Line.instants]))).bind fun r' h' =>
        .pure (h'.record code c)).congr (by simp)

/-- What becomes of a line. -/
theorem settles_step (h : r.IsPlain) (line : SourceLine) :
    Settles (r.Overflows line) IsPlain (r.step line) := by
  unfold step Overflows
  cases hnote : r.note with
  | some note =>
    obtain ⟨n, lines⟩ := note
    refine Settles.congr (.pure ?_) (by simp)
    split <;> exact h.of_eq rfl rfl rfl
  | none =>
    cases hread : Line.read? line.text with
    | none => exact Settles.congr (.pure h) (by simp)
    | some l => exact (settles_apply h (Line.isPlain_of_read? hread)).congr (by simp)

/-! ### A text -/

/-- Some line asks for an instant that has no time. -/
def OverflowsIn (r : Reader) (lines : List SourceLine) : Prop :=
  ∃ before line rest r', lines = before ++ line :: rest ∧ before.foldlM step r = .ok r' ∧
    r'.Overflows line

lemma overflowsIn_cons {line : SourceLine} {lines : List SourceLine} :
    r.OverflowsIn (line :: lines) ↔
      r.Overflows line ∨ ∃ r', r.step line = .ok r' ∧ r'.OverflowsIn lines := by
  constructor
  · rintro ⟨before, line', rest, r', hlines, hr', hline⟩
    cases before with
    | nil =>
      obtain ⟨rfl, rfl⟩ := List.cons.inj hlines
      obtain rfl := Except.ok.inj hr'
      exact .inl hline
    | cons first before =>
      obtain ⟨rfl, rfl⟩ := List.cons.inj hlines
      obtain ⟨r₁, hfirst, hbefore⟩ := Fault.bind_eq_ok_iff.1 hr'
      exact .inr ⟨r₁, hfirst, before, line', rest, r', rfl, hbefore, hline⟩
  · rintro (hline | ⟨r₁, hfirst, before, line', rest, r', rfl, hbefore, hline⟩)
    · exact ⟨[], line, lines, r, rfl, rfl, hline⟩
    · exact ⟨line :: before, line', rest, r', rfl, Fault.bind_eq_ok_iff.2 ⟨r₁, hfirst, hbefore⟩,
        hline⟩

/-- What becomes of lines. -/
theorem settles_foldlM (h : r.IsPlain) (lines : List SourceLine) :
    Settles (r.OverflowsIn lines) IsPlain (lines.foldlM step r) := by
  induction lines generalizing r with
  | nil => exact Settles.congr (.pure h) (by simp [OverflowsIn])
  | cons line rest ih =>
    rw [List.foldlM_cons]
    rcases settles_step h line with ⟨hbad, herror⟩ | ⟨hgood, r', h', hok⟩
    · rw [herror]
      exact .inl ⟨overflowsIn_cons.2 (.inl hbad), rfl⟩
    · rw [hok]
      refine (ih h').congr ?_
      rw [overflowsIn_cons]
      constructor
      · intro hrest
        exact .inr ⟨r', hok, hrest⟩
      · rintro (hbad | ⟨r'', hr'', hrest⟩)
        · exact absurd hbad hgood
        · obtain rfl := Except.ok.inj (hok.symm.trans hr'')
          exact hrest

lemma IsPlain.finish (h : r.IsPlain) : Keyed.All Player.IsSettled r.finish.players := by
  intro code p hp
  rw [Reader.finish, Keyed.get?_map, Option.map_eq_some_iff] at hp
  obtain ⟨p, hp, rfl⟩ := hp
  exact h.players code p hp

end Reader

/-- What becomes of a text. -/
lemma Diagram.settles_read (text : String) :
    Settles (Reader.OverflowsIn {} (Source.lines text)) (fun d => Keyed.All Player.IsSettled d.players)
      (read text) := by
  have hlines := Reader.settles_foldlM Reader.isPlain_init (Source.lines text)
  have hread := hlines.bind (R := fun d : Diagram => Keyed.All Player.IsSettled d.players)
    fun r hr => .pure hr.finish
  exact hread.congr (iff_of_eq (or_false _))

/-- A text is read as a diagram, whose clocks have pulses, unless one of its lines asks for an instant
behind the last one, both are integers, and their sum is too large for a double. -/
theorem Diagram.read_eq_error_iff (text : String) :
    (∀ e, read text = .error e ↔ e = .tooLarge ∧
      ∃ before line rest r l n m, Source.lines text = before ++ line :: rest ∧
        before.foldlM Reader.step {} = .ok r ∧ r.note = none ∧ Line.read? line.text = some l ∧
        .relative (.int n) ∈ r.asked l ∧ r.now = .int m ∧ 2 ^ 1024 - 2 ^ 970 ≤ (m + n).natAbs) ∧
    ∀ d, read text = .ok d → ∀ code p c, d.players.get? code = some p → p.kind.clock? = some c →
      c.pulse.fault? = none := by
  have hbad : Reader.OverflowsIn {} (Source.lines text) ↔
      ∃ before line rest r l n m, Source.lines text = before ++ line :: rest ∧
        before.foldlM Reader.step {} = .ok r ∧ r.note = none ∧ Line.read? line.text = some l ∧
        .relative (.int n) ∈ r.asked l ∧ r.now = .int m ∧
        2 ^ 1024 - 2 ^ 970 ≤ (m + n).natAbs := by
    constructor
    · rintro ⟨before, line, rest, r, hlines, hr, hnote, l, hl, t, ht, hsum⟩
      cases t with
      | absolute | named => cases hsum
      | relative b =>
        obtain ⟨m, n, hm, rfl, hlarge⟩ := hsum
        exact ⟨before, line, rest, r, l, n, m, hlines, hr, hnote, hl, ht, hm, hlarge⟩
    · rintro ⟨before, line, rest, r, l, n, m, hlines, hr, hnote, hl, ht, hm, hlarge⟩
      exact ⟨before, line, rest, r, hlines, hr, hnote, l, hl, _, ht, m, n, hm, rfl, hlarge⟩
  rw [← hbad]
  rcases settles_read text with ⟨hover, herror⟩ | ⟨hgood, d, hd, hok⟩
  · rw [herror]
    exact ⟨fun e => ⟨fun h => ⟨(Except.error.inj h).symm, hover⟩, fun h => h.1 ▸ rfl⟩, nofun⟩
  · rw [hok]
    refine ⟨fun e => ⟨nofun, fun h => absurd h.2 hgood⟩, fun d' hd' code p c hp hc => ?_⟩
    obtain rfl := Except.ok.inj hd'
    exact hd code p hp c hc

/-! ### A text that cannot be read -/

/-- A number that a double can hold, but not twice. -/
def farDigits : List Char :=
  '1' :: List.replicate 308 '0'

/-- Goes to a far instant, and then as far behind it. -/
def farText : String :=
  Text.join "\n" [String.ofList ('@' :: farDigits), String.ofList ('@' :: '+' :: farDigits)]

lemma isDigits_far : Numeral.IsDigits farDigits where
  ne_nil := List.cons_ne_nil _ _
  digits := List.forall_mem_cons.2 ⟨rfl, fun _ hc => (List.eq_of_mem_replicate hc) ▸ rfl⟩

lemma natural_zeros (k : Nat) : Numeral.natural ('1' :: List.replicate k '0') = 10 ^ k := by
  obtain ⟨f, hf, hone, hzero⟩ : ∃ f : Nat → Char → Nat,
      (∀ s, Numeral.natural s = s.foldl f 0) ∧ f 0 '1' = 1 ∧ ∀ n, f n '0' = 10 * n :=
    ⟨_, fun _ => rfl, rfl, fun _ => rfl⟩
  have hzeros : ∀ n, (List.replicate k '0').foldl f n = n * 10 ^ k := by
    induction k with
    | zero => intro n; exact (Nat.mul_one n).symm
    | succ k ih =>
      intro n
      rw [List.replicate_succ, List.foldl_cons, ih, hzero, pow_succ]
      ring
  rw [hf, List.foldl_cons, hone, hzeros, Nat.one_mul]

lemma instantOf_far :
    ∃ n : Int, Line.instantOf farDigits = .int n ∧ Double.overflow ≤ (n + n).natAbs := by
  have hfar : Number.SumOverflows (Number.clean (Numeral.ofScientific false (10 ^ 308) 0))
      (Number.clean (Numeral.ofScientific false (10 ^ 308) 0)) := by decide +kernel
  obtain ⟨m, n, hm, hn, hsum⟩ := hfar
  rw [Line.instantOf, farDigits, natural_zeros, hn]
  obtain rfl := Number.int.inj (hm.symm.trans hn)
  exact ⟨m, rfl, hsum⟩

/-- A one behind a mark begins a line that is shown. -/
lemma filter_mark {mark : List Char} (hmark : mark = ['@'] ∨ mark = ['@', '+']) (s : List Char) :
    (mark ++ '1' :: s).head? = some '@' ∧
      SourceReader.filter {} ⟨mark ++ '1' :: s, mark ++ '1' :: s⟩ =
        ({}, some ⟨mark ++ '1' :: s, mark ++ '1' :: s⟩) := by
  rcases hmark with rfl | rfl <;> exact ⟨rfl, rfl⟩

lemma tidy_far {mark : List Char} (hmark : mark = ['@'] ∨ mark = ['@', '+']) :
    Source.Tidy (mark ++ farDigits) := by
  have hnone : ∀ c ∈ ['\n', '\r', '/'], c ∉ mark := by
    rcases hmark with rfl | rfl <;> simp
  have hnot : ∀ c ∈ ['\n', '\r', '/'], c ∉ mark ++ farDigits := by
    intro c hc hmem
    rcases List.mem_append.1 hmem with hmem | hmem
    · exact hnone c hc hmem
    · have hsign := (isDigits_far.isDigit hmem).sign
      simp only [List.mem_cons, List.not_mem_nil, or_false] at hc hsign
      tauto
  obtain ⟨hhead, hshown⟩ := filter_mark hmark (List.replicate 308 '0')
  refine ⟨hnot _ (by decide), hnot _ (by decide), hnot _ (by decide), ?_, ?_, hshown⟩
  · intro c hc
    rw [farDigits, hhead] at hc
    obtain rfl := Option.some.inj hc
    rfl
  · intro c hc
    rw [List.getLast?_append_of_ne_nil _ isDigits_far.ne_nil] at hc
    exact (isDigits_far.isDigit (List.mem_of_mem_getLast? hc)).blank

lemma lines_far : Source.lines farText =
    [⟨'@' :: farDigits, '@' :: farDigits⟩, ⟨'@' :: '+' :: farDigits, '@' :: '+' :: farDigits⟩] := by
  refine (Source.lines_join (List.cons_ne_nil _ _) ?_).trans ?_
  · simp only [List.forall_mem_cons, String.toList_ofList]
    exact ⟨tidy_far (.inl rfl), tidy_far (.inr rfl), List.forall_mem_nil _⟩
  · simp only [List.map_cons, List.map_nil, String.toList_ofList]

lemma step_far {n : Int} (hn : Line.instantOf farDigits = .int n) :
    Reader.step {} ⟨'@' :: farDigits, '@' :: farDigits⟩ = .ok { now := .int n } := by
  have hread := Line.read?_at isDigits_far
  rw [hn] at hread
  exact Reader.step_eq_apply rfl hread _

lemma overflows_far {n : Int} (hn : Line.instantOf farDigits = .int n)
    (hsum : Double.overflow ≤ (n + n).natAbs) :
    Reader.Overflows { now := .int n } ⟨'@' :: '+' :: farDigits, '@' :: '+' :: farDigits⟩ :=
  ⟨rfl, _, Line.read?_behind isDigits_far, _, List.mem_singleton_self _, n, n, rfl, hn, hsum⟩

/-- The far instant is read, and the instant as far behind it is too large. -/
theorem Diagram.read_far : Diagram.read farText = .error .tooLarge := by
  obtain ⟨n, hn, hsum⟩ := instantOf_far
  have hbad : Reader.OverflowsIn {} (Source.lines farText) := by
    rw [lines_far, Reader.overflowsIn_cons]
    refine .inr ⟨_, step_far hn, ?_⟩
    rw [Reader.overflowsIn_cons]
    exact .inl (overflows_far hn hsum)
  exact ((Diagram.settles_read farText).resolve_right fun h => h.1 hbad).2

end Timing
end UmlDraw
