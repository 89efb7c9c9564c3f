/-
# Further lines only add

If lines are added behind a text, its diagram keeps what it has, whatever the dialect.  Class and
state diagrams have modules of their own for that.

The main statements are

* `Reader.grows_step` and `Diagram.grows_read` for use case and component, sequence and timing
  diagrams: what a line adds, and a text with more lines behind it;
* `Source.dialects_grow`: all dialects but activity diagrams;
* `Source.long_s_not_read`: a line that makes a text unreadable.
-/
import UmlDraw.Description.Reader
import UmlDraw.Proofs.Class.Reader
import UmlDraw.Proofs.Data.Keyed
import UmlDraw.Proofs.Data.Outcome
import UmlDraw.Proofs.State.Growth
import UmlDraw.Proofs.Text.Lines
import UmlDraw.Sequence.Reader
import UmlDraw.Timing.Reader

namespace UmlDraw

/-! ## Use case and component diagrams grow

A line of such a diagram adds elements and links at the end of their lists.  It may change what is
known of an element, but it takes no element and no link away, and a fault stays. -/

namespace Description
namespace Reader

/-- The second reader has the elements and the links of the first one, in their order, and perhaps
further ones behind them. -/
structure Grows (r r' : Reader) : Prop where
  elements : r.elements.keys <+: r'.elements.keys
  links : r.links <+: r'.links
  fault : r'.fault = none → r.fault = none

variable {r r' r'' : Reader}

lemma Grows.refl (r : Reader) : r.Grows r :=
  ⟨List.prefix_rfl, List.prefix_rfl, id⟩

lemma Grows.trans (h : r.Grows r') (h' : r'.Grows r'') : r.Grows r'' :=
  ⟨h.elements.trans h'.elements, h.links.trans h'.links, fun hf => h.fault (h'.fault hf)⟩

lemma Grows.of_eq (helements : r'.elements = r.elements) (hlinks : r'.links = r.links)
    (hfault : r'.fault = r.fault) : r.Grows r' := by
  constructor
  · exact helements ▸ List.prefix_rfl
  · exact hlinks ▸ List.prefix_rfl
  · exact hfault ▸ id

lemma grows_elements (r : Reader) {elements : Keyed Element}
    (h : r.elements.keys <+: elements.keys) : r.Grows { r with elements := elements } :=
  ⟨h, List.prefix_rfl, id⟩

lemma grows_place (r : Reader) (code : String) : r.Grows (r.place code) := by
  unfold place
  dsimp only
  split
  · refine ⟨?_, List.prefix_rfl, id⟩
    exact Keyed.keys_prefix_modify _ _ _
  · exact .of_eq rfl rfl rfl

lemma grows_declare (r : Reader) (e : Element) : r.Grows (r.declare e) := by
  have helements : r.elements.keys <+: (if r.elements.contains e.code then
      r.elements.modify e.code fun old => merge r.dialect old e
      else r.elements.insert e.code e).keys := by
    split
    · exact Keyed.keys_prefix_modify _ _ _
    · exact Keyed.keys_prefix_insert _ _ _
  exact (grows_elements r helements).trans (grows_place _ e.code)

lemma grows_mention (r : Reader) (ref : Reference) : r.Grows (r.mention ref) := by
  unfold mention
  split
  · exact .refl r
  · exact (grows_elements r (Keyed.keys_prefix_insert _ _ _)).trans (grows_place _ ref.code)

lemma grows_rememberNote (r : Reader) (n : Note) : r.Grows (r.rememberNote n) := by
  unfold rememberNote
  split
  · exact .of_eq rfl rfl rfl
  · exact .refl r

lemma grows_addLink (r : Reader) (l : Link) : r.Grows (r.addLink l) := by
  unfold addLink
  dsimp only
  exact ((grows_mention r _).trans (grows_mention _ _)).trans
    ⟨List.prefix_rfl, List.prefix_append _ _, id⟩

lemma grows_apply (r : Reader) (l : Line) : r.Grows (r.apply l) := by
  cases l with
  | title | direction | together | container | blockEnd | display | labelStart =>
    exact .of_eq rfl rfl rfl
  | declare e => exact grows_declare r e
  | note n =>
    cases n with
    | complete n => exact (grows_rememberNote r n).trans (.of_eq rfl rfl rfl)
    | start n => exact (grows_rememberNote r n).trans (.of_eq rfl rfl rfl)
  | link l => exact grows_addLink r l
  | faulty k =>
    refine ⟨List.prefix_rfl, List.prefix_rfl, fun h => ?_⟩
    exact (Option.or_eq_none_iff.1 h).1

/-- What a line adds, wherever it stands. -/
theorem grows_step (r : Reader) (line : SourceLine) : r.Grows (r.step line) := by
  unfold step
  split
  · split <;> exact .of_eq rfl rfl rfl
  · split
    · next e _ =>
      have hclosed : r.Grows { r with body := none } := .of_eq rfl rfl rfl
      exact hclosed.trans (grows_declare _ e)
    · exact .of_eq rfl rfl rfl
  · split
    · exact .refl r
    · split
      · exact grows_apply r _
      · exact .refl r

/-- What lines add. -/
theorem grows_foldl (r : Reader) (lines : List SourceLine) : r.Grows (lines.foldl step r) :=
  List.foldlRecOn lines step (.refl r) fun r' h line _ => h.trans (grows_step r' line)

end Reader

/-- A text that can be read with more lines behind it can be read without them; they only add
elements and links. -/
theorem Diagram.grows_read (dialect : Dialect) {t : String} (ht : '\r' ∉ t.toList) (u : String)
    {d' : Diagram} (h : read dialect (t ++ "\n" ++ u) = .ok d') :
    ∃ d, read dialect t = .ok d ∧ d.elements.keys <+: d'.elements.keys ∧
      d.links <+: d'.links := by
  obtain ⟨rest, hlines⟩ := Source.lines_prefix ht u
  rw [read, ← hlines, List.foldl_append] at h
  obtain ⟨hfault, rfl⟩ := Fault.check_eq_ok_iff.1 h
  have hgrows := Reader.grows_foldl
    ((Source.lines t).foldl Reader.step { dialect := dialect }) rest
  exact ⟨_, Fault.check_eq_ok_iff.2 ⟨hgrows.fault hfault, rfl⟩, hgrows.elements, hgrows.links⟩

end Description

/-! ## Sequence diagrams grow

A line of a sequence diagram may change what is known of a participant, and it may add participants
behind those that are there.  It takes no participant away, and a fault stays. -/

namespace Sequence
namespace Reader

/-- The second reader has the participants of the first one, in their order, and perhaps further
ones behind them. -/
structure Grows (r r' : Reader) : Prop where
  participants : r.participants.keys <+: r'.participants.keys
  fault : r'.fault = none → r.fault = none

variable {r r' r'' : Reader}

lemma Grows.refl (r : Reader) : r.Grows r :=
  ⟨List.prefix_rfl, id⟩

lemma Grows.trans (h : r.Grows r') (h' : r'.Grows r'') : r.Grows r'' :=
  ⟨h.participants.trans h'.participants, fun hf => h.fault (h'.fault hf)⟩

lemma Grows.of_eq (hparticipants : r'.participants = r.participants)
    (hfault : r'.fault = r.fault) : r.Grows r' := by
  constructor
  · exact hparticipants ▸ List.prefix_rfl
  · exact hfault ▸ id

lemma grows_mention (r : Reader) (code : String) : r.Grows (r.mention code) := by
  unfold mention
  split
  · exact .refl r
  · exact ⟨Keyed.keys_prefix_insert _ _ _, id⟩

lemma grows_mentionAll (r : Reader) (codes : List String) : r.Grows (r.mentionAll codes) :=
  List.foldlRecOn codes mention (.refl r) fun r' h code _ => h.trans (grows_mention r' code)

lemma grows_change (r : Reader) (code : String) (f : Participant → Participant) :
    r.Grows (r.change code f) := by
  refine ⟨?_, id⟩
  exact Keyed.keys_prefix_modify _ _ _

lemma grows_add (r : Reader) (e : Element) : r.Grows (r.add e) :=
  .of_eq rfl rfl

lemma grows_attach (r : Reader) (note : ArrowNote) : r.Grows (r.attach note) := by
  unfold attach
  split
  · exact .refl r
  · exact .of_eq rfl rfl

lemma grows_closeBlock (r : Reader) (b : OpenBlock) (text : String) :
    r.Grows (r.closeBlock b text) := by
  have hclosed : r.Grows { r with block := none } := .of_eq rfl rfl
  cases b with
  | note h => exact hclosed.trans (grows_add _ _)
  | arrowNote position color => exact hclosed.trans (grows_attach _ _)
  | reference participants color => exact hclosed.trans (grows_add _ _)

lemma grows_enterBox (r : Reader) (code : String) : r.Grows (r.enterBox code) := by
  unfold enterBox
  split
  · split
    · exact .refl r
    · exact .of_eq rfl rfl
  · exact .refl r

lemma grows_declare (r : Reader) (d : Declaration) : r.Grows (r.declare d) := by
  unfold declare
  dsimp only
  refine Grows.trans ?_ (grows_enterBox _ _)
  have hchange := fun f => (grows_mention r d.code).trans (grows_change _ d.code f)
  split
  · exact (hchange _).trans (grows_add _ _)
  · exact hchange _

lemma grows_closeFragment (r : Reader) : r.Grows r.closeFragment := by
  unfold closeFragment
  split
  · exact .refl r
  · exact .of_eq rfl rfl

lemma grows_splitFragment (r : Reader) (condition : String) :
    r.Grows (r.splitFragment condition) := by
  unfold splitFragment
  split
  · exact .refl r
  · exact .of_eq rfl rfl

lemma grows_addBorder (r : Reader) (m : BorderLine) : r.Grows (r.addBorder m) :=
  (grows_mention r _).trans (grows_add _ _)

lemma grows_addMessage (r : Reader) (m : Message) : r.Grows (r.addMessage m) :=
  .of_eq rfl rfl

lemma grows_apply (r : Reader) (l : Line) : r.Grows (r.apply l) := by
  cases l with
  | title | autoNumber | boxStart | boxEnd | divider | delay | space | reply | arrowNoteStart
  | fragmentStart =>
    exact .of_eq rfl rfl
  | declare d => exact grows_declare r d
  | create code =>
    exact ((grows_mention r code).trans (grows_change _ _ _)).trans (grows_add _ _)
  | life kind code color => exact (grows_mention r code).trans (grows_add _ _)
  | note h text => exact (grows_mentionAll r _).trans (grows_add _ _)
  | noteStart h => exact (grows_mentionAll r h.participants).trans (.of_eq rfl rfl)
  | arrowNote position color text => exact grows_attach r _
  | reference participants color text => exact (grows_mentionAll r _).trans (grows_add _ _)
  | referenceStart participants color =>
    exact (grows_mentionAll r participants).trans (.of_eq rfl rfl)
  | fragmentElse condition => exact grows_splitFragment r condition
  | fragmentEnd => exact grows_closeFragment r
  | border m => exact grows_addBorder r m
  | message m =>
    have hends := (grows_mention r m.left).trans (grows_mention _ m.right)
    exact (hends.trans (grows_mentionAll _ m.multicast)).trans (grows_addMessage _ _)
  | faulty e => exact ⟨List.prefix_rfl, fun h => (Option.or_eq_none_iff.1 h).1⟩

/-- What a line adds, wherever it stands. -/
theorem grows_step (r : Reader) (line : SourceLine) : r.Grows (r.step line) := by
  unfold step
  split
  · split
    · exact grows_closeBlock r _ _
    · exact .of_eq rfl rfl
  · unfold readLine
    split
    · exact .of_eq rfl rfl
    · split
      · exact .refl r
      · split
        · exact grows_apply r _
        · exact .refl r

/-- What lines add. -/
theorem grows_foldl (r : Reader) (lines : List SourceLine) : r.Grows (lines.foldl step r) :=
  List.foldlRecOn lines step (.refl r) fun r' h line _ => h.trans (grows_step r' line)

end Reader

/-- A text that can be read with more lines behind it can be read without them; they only add
participants. -/
theorem Diagram.grows_read {t : String} (ht : '\r' ∉ t.toList) (u : String) {d' : Diagram}
    (h : read (t ++ "\n" ++ u) = .ok d') :
    ∃ d, read t = .ok d ∧ d.participants.keys <+: d'.participants.keys := by
  obtain ⟨rest, hlines⟩ := Source.lines_prefix ht u
  rw [read, ← hlines, List.foldl_append] at h
  obtain ⟨hfault, rfl⟩ := Fault.check_eq_ok_iff.1 h
  have hgrows := Reader.grows_foldl ((Source.lines t).foldl Reader.step {}) rest
  exact ⟨_, Fault.check_eq_ok_iff.2 ⟨hgrows.fault hfault, rfl⟩, hgrows.participants⟩

end Sequence

/-! ## Timing diagrams grow

A line of a timing diagram that can be read adds players, constraints, messages and highlights at
the end of their lists.  The times in them are numbers when they are added, so no later line moves
them. -/

namespace Timing

/-- The second diagram has the players and the marks of the first one, in their order, and perhaps
further ones behind them. -/
structure Diagram.Grows (d d' : Diagram) : Prop where
  players : d.players.keys <+: d'.players.keys
  constraints : d.constraints <+: d'.constraints
  messages : d.messages <+: d'.messages
  highlights : d.highlights <+: d'.highlights

namespace Diagram

variable {d d' d'' : Diagram}

lemma Grows.refl (d : Diagram) : d.Grows d :=
  ⟨List.prefix_rfl, List.prefix_rfl, List.prefix_rfl, List.prefix_rfl⟩

lemma Grows.trans (h : d.Grows d') (h' : d'.Grows d'') : d.Grows d'' where
  players := h.players.trans h'.players
  constraints := h.constraints.trans h'.constraints
  messages := h.messages.trans h'.messages
  highlights := h.highlights.trans h'.highlights

lemma grows_players (d : Diagram) {players : Keyed Player}
    (h : d.players.keys <+: players.keys) : d.Grows { d with players := players } :=
  ⟨h, List.prefix_rfl, List.prefix_rfl, List.prefix_rfl⟩

end Diagram

namespace Reader

/-- The diagram grows. -/
def Grows (r r' : Reader) : Prop :=
  r.diagram.Grows r'.diagram

variable {r r' r'' : Reader}

lemma Grows.refl (r : Reader) : r.Grows r :=
  Diagram.Grows.refl _

lemma Grows.trans (h : r.Grows r') (h' : r'.Grows r'') : r.Grows r'' :=
  Diagram.Grows.trans h h'

lemma grows_changePlayer (r : Reader) (code : String) (f : Player → Player) :
    r.Grows (r.changePlayer code f) := by
  refine Diagram.grows_players r.diagram ?_
  exact Keyed.keys_prefix_modify _ _ _

lemma grows_mention (r : Reader) (code : String) : r.Grows (r.mention code) := by
  unfold mention
  split
  · exact .refl r
  · exact Diagram.grows_players _ (Keyed.keys_prefix_insert _ _ _)

lemma grows_declare (r : Reader) (p : Player) : r.Grows (r.declare p) := by
  unfold declare
  split
  · exact grows_changePlayer r _ _
  · exact Diagram.grows_players _ (Keyed.keys_prefix_insert _ _ _)

lemma grows_record (r : Reader) (code : String) (c : ChangeHead) : r.Grows (r.record code c) :=
  grows_changePlayer r _ _

lemma diagram_goTo {t : TimeToken} (h : r.goTo t = .ok r') : r'.diagram = r.diagram := by
  obtain ⟨time, -, hpure⟩ := Fault.bind_eq_ok_iff.1 h
  rw [← Except.ok.inj hpure]

lemma grows_nameNow (r : Reader) (name : Option String) : r.Grows (r.nameNow name) := by
  cases name with
  | none => exact .refl r
  | some code => exact ⟨List.prefix_rfl, List.prefix_rfl, List.prefix_rfl, List.prefix_rfl⟩

lemma grows_apply {l : Line} (h : r.apply l = .ok r') : r.Grows r' := by
  cases l with
  | title | compact | hideAxis | note | noteStart =>
    rw [← Except.ok.inj h]
    exact ⟨List.prefix_rfl, List.prefix_rfl, List.prefix_rfl, List.prefix_rfl⟩
  | player p =>
    rw [← Except.ok.inj h]
    exact grows_declare r p
  | hasLabel player state label =>
    rw [← Except.ok.inj h]
    exact grows_changePlayer r _ _
  | hasStates player states =>
    rw [← Except.ok.inj h]
    exact grows_changePlayer r _ _
  | highlight start stop color caption =>
    obtain ⟨a, -, h⟩ := Fault.bind_eq_ok_iff.1 h
    obtain ⟨b, -, h⟩ := Fault.bind_eq_ok_iff.1 h
    rw [← Except.ok.inj h]
    exact ⟨List.prefix_rfl, List.prefix_rfl, List.prefix_rfl, List.prefix_append _ _⟩
  | constraint player start stop label =>
    obtain ⟨a, -, h⟩ := Fault.bind_eq_ok_iff.1 h
    obtain ⟨b, -, h⟩ := Fault.bind_eq_ok_iff.1 h
    rw [← Except.ok.inj h]
    exact ⟨List.prefix_rfl, List.prefix_append _ _, List.prefix_rfl, List.prefix_rfl⟩
  | message source sourceTime target targetTime label =>
    obtain ⟨a, -, h⟩ := Fault.bind_eq_ok_iff.1 h
    obtain ⟨b, -, h⟩ := Fault.bind_eq_ok_iff.1 h
    have hends := (grows_mention r source).trans (grows_mention _ target)
    rw [← Except.ok.inj h]
    exact hends.trans ⟨List.prefix_rfl, List.prefix_rfl, List.prefix_append _ _, List.prefix_rfl⟩
  | atTime t name =>
    obtain ⟨a, ha, h⟩ := Fault.bind_eq_ok_iff.1 h
    have hnamed := grows_nameNow { a with current := none } name
    rw [← Except.ok.inj h, Grows, ← diagram_goTo ha]
    exact hnamed
  | atPlayer code =>
    rw [← Except.ok.inj h]
    split <;> exact .refl r
  | playerIs code c =>
    rw [← Except.ok.inj h]
    exact (grows_mention r code).trans (grows_record _ _ _)
  | timeIs t c =>
    unfold apply at h
    dsimp only at h
    split at h
    · rw [← Except.ok.inj h]
      exact .refl r
    · next code _ =>
      obtain ⟨a, ha, h⟩ := Fault.bind_eq_ok_iff.1 h
      rw [← Except.ok.inj h, Grows, ← diagram_goTo ha]
      exact grows_record a code c

/-- What a line adds, wherever it stands. -/
theorem grows_step {line : SourceLine} (h : r.step line = .ok r') : r.Grows r' := by
  unfold step at h
  split at h
  · rw [← Except.ok.inj h]
    split <;> exact ⟨List.prefix_rfl, List.prefix_rfl, List.prefix_rfl, List.prefix_rfl⟩
  · split at h
    · exact grows_apply h
    · rw [← Except.ok.inj h]
      exact .refl r

/-- What lines add. -/
theorem grows_foldlM {lines : List SourceLine} (h : lines.foldlM step r = .ok r') : r.Grows r' := by
  induction lines generalizing r with
  | nil =>
    rw [← Except.ok.inj h]
    exact .refl r
  | cons line rest ih =>
    obtain ⟨r₁, hline, hrest⟩ := Fault.bind_eq_ok_iff.1 h
    exact (grows_step hline).trans (ih hrest)

end Reader

/-- A text that can be read with more lines behind it can be read without them; they only add
players and marks. -/
theorem Diagram.grows_read {t : String} (ht : '\r' ∉ t.toList) (u : String) {d' : Diagram}
    (h : read (t ++ "\n" ++ u) = .ok d') : ∃ d, read t = .ok d ∧ d.Grows d' := by
  obtain ⟨rest, hlines⟩ := Source.lines_prefix ht u
  obtain ⟨r', hr', hfinish'⟩ := Fault.bind_eq_ok_iff.1 h
  rw [← hlines, List.foldlM_append] at hr'
  obtain ⟨r, hr, hrest⟩ := Fault.bind_eq_ok_iff.1 hr'
  have hgrows := Reader.grows_foldlM hrest
  refine ⟨r.finish, Fault.bind_eq_ok_iff.2 ⟨r, hr, rfl⟩, ?_⟩
  -- the players keep their codes when their changes are sorted
  have hkeys : ∀ r : Reader, r.finish.players.keys = r.diagram.players.keys :=
    fun r => Keyed.keys_map _ _
  rw [← Except.ok.inj hfinish']
  refine ⟨?_, hgrows.constraints, hgrows.messages, hgrows.highlights⟩
  rw [hkeys, hkeys]
  exact hgrows.players

end Timing

/-! ## All dialects

If lines are added behind a text, its diagram keeps what it has: the shapes keep their order and the
links do not change, whatever the text leaves open at its end.  The longer text has to be one that can
be read; an added line can make a text unreadable, by a keyword with a letter such as the long `s`. -/

namespace Source

/-- In each dialect, a text that can be read with more lines behind it can be read without them.  The
codes of its entities, elements, participants or players are the first ones of the longer text, in
the same order, and so are its links, its transitions and its constraints, messages and
highlights. -/
theorem dialects_grow (t u : String) (ht : '\r' ∉ t.toList) :
    (∀ d', Class.Diagram.read (t ++ "\n" ++ u) = .ok d' → ∃ d, Class.Diagram.read t = .ok d ∧
      d.entities.keys <+: d'.entities.keys ∧ d.links <+: d'.links) ∧
    (∀ dialect d', Description.Diagram.read dialect (t ++ "\n" ++ u) = .ok d' →
      ∃ d, Description.Diagram.read dialect t = .ok d ∧
        d.elements.keys <+: d'.elements.keys ∧ d.links <+: d'.links) ∧
    ((State.Diagram.read t).elements.keys <+: (State.Diagram.read (t ++ "\n" ++ u)).elements.keys ∧
      (State.Diagram.read t).transitions <+: (State.Diagram.read (t ++ "\n" ++ u)).transitions) ∧
    (∀ d', Sequence.Diagram.read (t ++ "\n" ++ u) = .ok d' → ∃ d, Sequence.Diagram.read t = .ok d ∧
      d.participants.keys <+: d'.participants.keys) ∧
    (∀ d', Timing.Diagram.read (t ++ "\n" ++ u) = .ok d' → ∃ d, Timing.Diagram.read t = .ok d ∧
      d.players.keys <+: d'.players.keys ∧ d.constraints <+: d'.constraints ∧
      d.messages <+: d'.messages ∧ d.highlights <+: d'.highlights) := by
  have hstate := State.Diagram.grows_read ht u
  refine ⟨fun d' h => Class.Diagram.grows_read ht u h,
    fun dialect d' h => Description.Diagram.grows_read dialect ht u h,
    ⟨hstate.keys, hstate.transitions⟩, fun d' h => Sequence.Diagram.grows_read ht u h,
    fun d' h => ?_⟩
  obtain ⟨d, hd, hgrows⟩ := Timing.Diagram.grows_read ht u h
  exact ⟨d, hd, hgrows.players, hgrows.constraints, hgrows.messages, hgrows.highlights⟩

/-- A text that ends inside of a body of an entity; the body goes on and declares the entity again,
and a link follows. -/
theorem dialects_grow_body :
    '\r' ∉ "class A\nclass B \x7b\n/' x".toList ∧
    ∃ d d', Class.Diagram.read "class A\nclass B \x7b\n/' x" = .ok d ∧
      Class.Diagram.read ("class A\nclass B \x7b\n/' x" ++ "\n" ++ "'/\n\x7d\nclass A\nA --> B") =
        .ok d' ∧
      d.entities.keys <+: d'.entities.keys ∧ d.links <+: d'.links := by
  have ht : '\r' ∉ "class A\nclass B \x7b\n/' x".toList := by decide
  obtain ⟨d', hd'⟩ : ∃ d', Class.Diagram.read
      ("class A\nclass B \x7b\n/' x" ++ "\n" ++ "'/\n\x7d\nclass A\nA --> B") = .ok d' := ⟨_, rfl⟩
  obtain ⟨d, hd, hentities, hlinks⟩ := (dialects_grow _ _ ht).1 d' hd'
  exact ⟨ht, d, d', hd, hd', hentities, hlinks⟩

/-- A class or a database is declared behind a text, by a keyword with a long `s`: no diagram is read,
although the text without the line has one. -/
theorem long_s_not_read :
    (∃ d, Class.Diagram.read "class A" = .ok d ∧ d.entities.keys = ["A"]) ∧
    Class.Diagram.read ("class A" ++ "\n" ++ "cla\u017fs B") = .error ⟨"cla\u017fs"⟩ ∧
    (∃ d, Description.Diagram.read .components "[A]" = .ok d ∧ d.elements.keys = ["A"]) ∧
    Description.Diagram.read .components ("[A]" ++ "\n" ++ "databa\u017fe D") =
      .error ⟨"databa\u017fe"⟩ :=
  ⟨⟨_, rfl, rfl⟩, rfl, ⟨_, rfl, rfl⟩, rfl⟩

end Source
end UmlDraw
