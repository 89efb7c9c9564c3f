/-
# Notes at messages

A note without participants is written behind the message that it belongs to, on a line or as a
block of several lines.  Whatever stands between them that is no message does not matter, nor does
it matter whether the message lies in a fragment that is closed by then.

The reader puts a note at the last message that it has counted.  It counts messages and returns, but
no messages from and to the border.  So a note behind one of these goes to an ordinary message
before it.

The main statements are

* `Sequence.Entry.lookup_collect`: the note that is kept for a number;
* `Sequence.Reader.messagesOfAll_annotateAll`: the messages with notes at them;
* `Sequence.Reader.logs_step` and `Sequence.Reader.logs_foldl`: what lines do;
* `Sequence.Diagram.withNotes_read`: the messages of a diagram that was read, with their notes.
-/
import UmlDraw.Proofs.Sequence.Naming

namespace UmlDraw
namespace Sequence

/-! ### What belongs to a message -/

/-- What a line has to do with notes at messages. -/
inductive Entry where
  /-- A message or a return. -/
  | message (m : Message)
  /-- A message from or to the border. -/
  | border
  /-- A note at a message. -/
  | note (n : ArrowNote)

namespace Entry

variable {es es' : List Entry}

/-- The message of an entry, if it is an ordinary one. -/
def message? : Entry → Option Message
  | message m => some m
  | _ => none

@[simp]
lemma filterMap_message (m : Message) (es : List Entry) :
    (message m :: es).filterMap message? = m :: es.filterMap message? :=
  rfl

@[simp]
lemma filterMap_border (es : List Entry) :
    (border :: es).filterMap message? = es.filterMap message? :=
  rfl

@[simp]
lemma filterMap_note (n : ArrowNote) (es : List Entry) :
    (note n :: es).filterMap message? = es.filterMap message? :=
  rfl

/-- The last note before the next message, be it one from or to the border. -/
def ownNote : List Entry → Option ArrowNote
  | note n :: rest => (ownNote rest).or (some n)
  | _ => none

/-- The last note behind a message from or to the border and before the next ordinary one. -/
def strayNote : List Entry → Option ArrowNote
  | note _ :: rest => strayNote rest
  | border :: rest => (strayNote rest).or (ownNote rest)
  | _ => none

/-- The last note before the next ordinary message. -/
def lastNote (es : List Entry) : Option ArrowNote :=
  (strayNote es).or (ownNote es)

/-- The ordinary messages, each with a note that is chosen among the entries behind it. -/
def withNotes (choose : List Entry → Option ArrowNote) : List Entry → List Message
  | [] => []
  | message m :: rest => { m with note := choose rest } :: withNotes choose rest
  | _ :: rest => withNotes choose rest

lemma withNotes_eq_iff {f g : List Entry → Option ArrowNote} :
    withNotes f es = withNotes g es ↔
      ∀ before m rest, es = before ++ message m :: rest → f rest = g rest := by
  constructor
  · rintro h before m rest rfl
    induction before with
    | nil => exact congrArg Message.note (List.cons.inj h).1
    | cons e before ih =>
      cases e with
      | message m' => exact ih (List.cons.inj h).2
      | border => exact ih h
      | note n => exact ih h
  · intro h
    induction es with
    | nil => rfl
    | cons e es ih =>
      have hrest := ih fun before m rest heq => h (e :: before) m rest (by rw [heq]; rfl)
      cases e with
      | message m =>
        rw [withNotes, withNotes, h [] m es rfl, hrest]
      | border => exact hrest
      | note n => exact hrest

lemma lastNote_eq_ownNote_iff :
    lastNote es = ownNote es ↔ ∀ n, strayNote es = some n → ownNote es = some n := by
  unfold lastNote
  cases strayNote es with
  | none => simp
  | some n => simp [eq_comm]

/-! ### Notes with numbers -/

/-- The notes of entries, latest first, each with the number of the last message before it.  The
first argument is the number of messages before the entries. -/
def collect : Nat → List Entry → List (Nat × ArrowNote)
  | _, [] => []
  | k, message _ :: rest => collect (k + 1) rest
  | k, border :: rest => collect k rest
  | 0, note _ :: rest => collect 0 rest
  | k + 1, note n :: rest => collect (k + 1) rest ++ [(k, n)]

lemma collect_append (k : Nat) (es es' : List Entry) :
    collect k (es ++ es') =
      collect (k + (es.filterMap message?).length) es' ++ collect k es := by
  induction es generalizing k with
  | nil => simp [collect]
  | cons e es ih =>
    cases e with
    | message m => simp [collect, ih, Nat.add_assoc, Nat.add_comm 1]
    | border => simp [collect, ih]
    | note n => cases k <;> simp [collect, ih]

lemma lookup_collect_of_lt {k j : Nat} (h : j + 1 < k) : (collect k es).lookup j = none := by
  induction es generalizing k with
  | nil => rfl
  | cons e es ih =>
    cases e with
    | message m => exact ih (by omega)
    | border => exact ih h
    | note n =>
      obtain ⟨k, rfl⟩ := Nat.exists_eq_succ_of_ne_zero (Nat.ne_zero_of_lt h)
      have hne : (j == k) = false := by simp; omega
      rw [collect, List.lookup_append, ih h, List.lookup_cons, hne]
      rfl

/-- The note that is kept for a message is the last one before the next ordinary message. -/
lemma lookup_collect (k : Nat) (es : List Entry) :
    (collect (k + 1) es).lookup k = lastNote es := by
  induction es with
  | nil => rfl
  | cons e es ih =>
    cases e with
    | message m => exact lookup_collect_of_lt (k := k + 2) (Nat.lt_succ_self _)
    | border => exact ih.trans Option.or_none.symm
    | note n =>
      rw [collect, List.lookup_append, ih, List.lookup_cons, beq_self_eq_true]
      exact Option.or_assoc

/-- Messages from a number on, each with the note that is kept for its number. -/
def place (notes : List (Nat × ArrowNote)) : Nat → List Message → List Message
  | _, [] => []
  | k, m :: rest => { m with note := notes.lookup k } :: place notes (k + 1) rest

lemma place_append (notes : List (Nat × ArrowNote)) (k : Nat) (ms ms' : List Message) :
    place notes k (ms ++ ms') = place notes k ms ++ place notes (k + ms.length) ms' := by
  induction ms generalizing k with
  | nil => rfl
  | cons m ms ih => simp [place, ih, Nat.add_assoc, Nat.add_comm 1]

/-- A note for an earlier number does not matter. -/
lemma place_append_of_lt {notes : List (Nat × ArrowNote)} {j k : Nat} (h : j < k) (n : ArrowNote)
    (ms : List Message) : place (notes ++ [(j, n)]) k ms = place notes k ms := by
  induction ms generalizing k with
  | nil => rfl
  | cons m ms ih =>
    have hne : (k == j) = false := by simp; omega
    rw [place, place, ih (Nat.lt_succ_of_lt h), List.lookup_append, List.lookup_cons, hne]
    simp

lemma place_collect (k : Nat) (es : List Entry) :
    place (collect k es) k (es.filterMap message?) = withNotes lastNote es := by
  induction es generalizing k with
  | nil => rfl
  | cons e es ih =>
    cases e with
    | message m =>
      rw [filterMap_message, collect, place, lookup_collect, ih, withNotes]
    | border => exact ih k
    | note n =>
      cases k with
      | zero => exact ih 0
      | succ k => exact (place_append_of_lt (Nat.lt_succ_self k) n _).trans (ih _)

end Entry

namespace Reader

mutual

lemma messagesOf_annotate (notes : List (Nat × ArrowNote)) (k : Nat) (e : Element) :
    messagesOf (annotate notes k e).1 = Entry.place notes k (messagesOf e) ∧
      (annotate notes k e).2 = k + (messagesOf e).length := by
  cases e with
  | fragment f =>
    obtain ⟨kind, label, color, sections⟩ := f
    exact messagesOfSections_annotateSections notes k sections
  | _ => exact ⟨rfl, rfl⟩

lemma messagesOfSections_annotateSections (notes : List (Nat × ArrowNote)) (k : Nat) :
    (sections : List (Section Element)) →
      messagesOfSections (annotateSections notes k sections).1 =
          Entry.place notes k (messagesOfSections sections) ∧
        (annotateSections notes k sections).2 = k + (messagesOfSections sections).length
  | [] => ⟨rfl, rfl⟩
  | ⟨condition, elements⟩ :: rest => by
    obtain ⟨helements, hk⟩ := messagesOfAll_annotateAll notes k elements
    obtain ⟨hrest, hk'⟩ := messagesOfSections_annotateSections notes
      (annotateAll notes k elements).2 rest
    rw [annotateSections, messagesOfSections, messagesOfSections, helements, hrest, hk', hk,
      Entry.place_append, List.length_append, Nat.add_assoc]
    exact ⟨rfl, rfl⟩

/-- Each message is given the note that is kept for its number. -/
lemma messagesOfAll_annotateAll (notes : List (Nat × ArrowNote)) (k : Nat) :
    (es : List Element) →
      messagesOfAll (annotateAll notes k es).1 = Entry.place notes k (messagesOfAll es) ∧
        (annotateAll notes k es).2 = k + (messagesOfAll es).length
  | [] => ⟨rfl, rfl⟩
  | e :: rest => by
    obtain ⟨he, hk⟩ := messagesOf_annotate notes k e
    obtain ⟨hrest, hk'⟩ := messagesOfAll_annotateAll notes (annotate notes k e).2 rest
    rw [annotateAll, messagesOfAll, messagesOfAll, he, hrest, hk', hk, Entry.place_append,
      List.length_append, Nat.add_assoc]
    exact ⟨rfl, rfl⟩

end

end Reader

/-! ### What lines do -/

/-- What a line with a meaning has to do with notes at messages. -/
def Line.entry? : Line → Option Entry
  | message m => some (.message (Reader.messageOf m))
  | reply label =>
    some (.message
      { source := "", target := "", label := label, arrow := Arrow.read "-->", isReturn := true })
  | border _ => some .border
  | arrowNote position color text => some (.note ⟨position, text, color⟩)
  | _ => none

namespace Reader

/-- What a line has to do with notes at messages.  A block that is open is a note when it ends. -/
def entry? (r : Reader) (line : SourceLine) : Option Entry :=
  match r.block with
  | some (.arrowNote position color, lines) =>
    if Line.endsBlock.reads line.text then some (.note ⟨position, Label.dedent lines, color⟩)
    else none
  | some _ => none
  | none => (Line.meaning? line.text).bind Line.entry?

/-- The entries of lines. -/
def log (r : Reader) : List SourceLine → List Entry
  | [] => []
  | line :: rest => (r.entry? line).toList ++ (r.step line).log rest

/-- The messages so far. -/
def messagesSoFar (r : Reader) : List Message :=
  r.leavesSoFar.filterMap Element.message?

/-- A reader has the messages of another one and those of entries behind them, it has counted them,
and it keeps the notes of the entries with their numbers. -/
structure Logs (r r' : Reader) (es : List Entry) : Prop where
  messages_eq : r'.messagesSoFar = r.messagesSoFar ++ es.filterMap Entry.message?
  count_eq : r'.messages = r.messages + (es.filterMap Entry.message?).length
  notes_eq : r'.arrowNotes = Entry.collect r.messages es ++ r.arrowNotes

namespace Logs

variable {r r' r'' : Reader} {es es' : List Entry}

lemma refl (r : Reader) : r.Logs r [] :=
  ⟨(List.append_nil _).symm, rfl, rfl⟩

lemma trans (h : r.Logs r' es) (h' : r'.Logs r'' es') : r.Logs r'' (es ++ es') where
  messages_eq := by
    rw [h'.messages_eq, h.messages_eq, List.filterMap_append, List.append_assoc]
  count_eq := by
    rw [h'.count_eq, h.count_eq, List.filterMap_append, List.length_append, Nat.add_assoc]
  notes_eq := by
    rw [h'.notes_eq, h.notes_eq, h.count_eq, Entry.collect_append, List.append_assoc]

/-- A line that appends no message and keeps no note. -/
lemma of_adds {elements : List Element} (h : r.Adds r' elements)
    (hmessages : elements.filterMap Element.message? = []) (hnotes : r'.arrowNotes = r.arrowNotes) :
    r.Logs r' [] where
  messages_eq := by
    rw [messagesSoFar, h.leaves_eq, List.filterMap_append, hmessages]
    rfl
  count_eq := by rw [h.messages_eq, hmessages]; rfl
  notes_eq := hnotes

lemma of_same (h : r'.trunkAndCount = r.trunkAndCount) (hnotes : r'.arrowNotes = r.arrowNotes) :
    r.Logs r' [] :=
  of_adds (.of_same h) rfl hnotes

lemma add (h : r.Logs r' []) {e : Element} (hleaf : leaves e = [e]) (hmessage : e.message? = none) :
    r.Logs (r'.add e) [] :=
  h.trans (of_adds (.add r' hleaf hmessage) (by simp [hmessage]) rfl)

lemma addMessage (h : r.Logs r' []) (m : Message) : r.Logs (r'.addMessage m) [.message m] := by
  refine h.trans ⟨?_, rfl, rfl⟩
  rw [messagesSoFar, (Adds.addMessage r' m).leaves_eq, List.filterMap_append]
  rfl

lemma border (h : r.Logs r' []) : r.Logs r' [.border] :=
  ⟨h.messages_eq, h.count_eq, h.notes_eq⟩

lemma attach (r : Reader) (n : ArrowNote) : r.Logs (r.attach n) [.note n] := by
  have hadds : r.Adds (r.attach n) [] := .of_same (r.trunkAndCount_attach n)
  refine ⟨?_, hadds.messages_eq, ?_⟩
  · rw [messagesSoFar, hadds.leaves_eq, List.filterMap_append]
    rfl
  · unfold Reader.attach
    cases hmessages : r.messages <;> rfl

lemma mention (h : r.Logs r' []) (code : String) : r.Logs (r'.mention code) [] := by
  refine h.trans (of_same (r'.trunkAndCount_mention code) ?_)
  unfold Reader.mention
  split <;> rfl

lemma mentionAll (h : r.Logs r' []) (codes : List String) : r.Logs (r'.mentionAll codes) [] := by
  induction codes generalizing r' with
  | nil => exact h
  | cons code rest ih => exact ih (h.mention code)

lemma change (h : r.Logs r' []) (code : String) (f : Participant → Participant) :
    r.Logs (r'.change code f) [] :=
  h.trans (of_same rfl rfl)

lemma enterBox (h : r.Logs r' []) (code : String) : r.Logs (r'.enterBox code) [] := by
  refine h.trans (of_same (r'.trunkAndCount_enterBox code) ?_)
  unfold Reader.enterBox
  split
  · split <;> rfl
  · rfl

lemma declare (r : Reader) (d : Declaration) : r.Logs (r.declare d) [] := by
  unfold Reader.declare
  refine enterBox ?_ d.code
  split
  · exact (((refl r).mention d.code).change d.code _).add rfl rfl
  · exact ((refl r).mention d.code).change d.code _

end Logs

/-- What a line with a meaning does. -/
lemma logs_apply (r : Reader) (l : Line) : r.Logs (r.apply l) l.entry?.toList := by
  have hrefl := Logs.refl r
  cases l with
  | title s => exact .of_same rfl rfl
  | autoNumber a => exact hrefl.add rfl rfl
  | boxStart title color => exact .of_same rfl rfl
  | boxEnd => exact .of_same rfl rfl
  | declare d => exact .declare r d
  | create code => exact ((hrefl.mention code).change code _).add rfl rfl
  | divider label => exact hrefl.add rfl rfl
  | delay label => exact hrefl.add rfl rfl
  | space size => exact hrefl.add rfl rfl
  | life kind code color => exact (hrefl.mention code).add rfl rfl
  | reply label => exact hrefl.addMessage _
  | note head text => exact (hrefl.mentionAll head.participants).add rfl rfl
  | noteStart head => exact (hrefl.mentionAll head.participants).trans (.of_same rfl rfl)
  | arrowNote position color text => exact .attach r _
  | arrowNoteStart position color => exact .of_same rfl rfl
  | reference participants color text => exact (hrefl.mentionAll participants).add rfl rfl
  | referenceStart participants color =>
    exact (hrefl.mentionAll participants).trans (.of_same rfl rfl)
  | fragmentStart kind color label =>
    exact .of_adds (.of_eq (r.leavesSoFar_openFragment kind color label) rfl) rfl rfl
  | fragmentElse condition =>
    have hsplit : (r.splitFragment condition).messages = r.messages ∧
        (r.splitFragment condition).arrowNotes = r.arrowNotes := by
      unfold splitFragment
      split <;> exact ⟨rfl, rfl⟩
    exact .of_adds (.of_eq (r.leavesSoFar_splitFragment condition) hsplit.1) rfl hsplit.2
  | fragmentEnd =>
    have hclose : r.closeFragment.messages = r.messages ∧
        r.closeFragment.arrowNotes = r.arrowNotes := by
      unfold closeFragment
      split <;> exact ⟨rfl, rfl⟩
    exact .of_adds (.of_eq r.leavesSoFar_closeFragment hclose.1) rfl hclose.2
  | border m =>
    refine Logs.border ?_
    exact (hrefl.mention m.participant).add rfl rfl
  | message m =>
    exact (((hrefl.mention m.left).mention m.right).mentionAll m.multicast).addMessage _
  | faulty e => exact .of_same rfl rfl

lemma logs_readLine (r : Reader) (s : List Char) :
    r.Logs (r.readLine s) ((Line.meaning? s).bind Line.entry?).toList := by
  unfold readLine Line.meaning?
  split
  · exact .of_same rfl rfl
  · split
    · exact .refl r
    · cases Line.read? s with
      | none => exact .refl r
      | some l => exact r.logs_apply l

/-- What a line does. -/
lemma logs_step (r : Reader) (line : SourceLine) :
    r.Logs (r.step line) (r.entry? line).toList := by
  unfold step entry?
  cases hblock : r.block with
  | none => exact r.logs_readLine line.text
  | some block =>
    obtain ⟨b, lines⟩ := block
    have hclosed : r.Logs { r with block := none } [] := .of_same rfl rfl
    cases b with
    | note head =>
      dsimp only
      split
      · exact hclosed.add rfl rfl
      · exact .of_same rfl rfl
    | arrowNote position color =>
      dsimp only
      split
      · exact hclosed.trans (.attach _ _)
      · exact .of_same rfl rfl
    | reference participants color =>
      dsimp only
      split
      · exact hclosed.add rfl rfl
      · exact .of_same rfl rfl

/-- What several lines do. -/
lemma logs_foldl (r : Reader) (lines : List SourceLine) :
    r.Logs (lines.foldl Reader.step r) (r.log lines) := by
  induction lines generalizing r with
  | nil => exact .refl r
  | cons line rest ih => exact (r.logs_step line).trans (ih _)

lemma messagesOfAll_finish (r : Reader) :
    messagesOfAll r.finish.elements = Entry.place r.arrowNotes 0 r.messagesSoFar := by
  rw [finish, (messagesOfAll_annotateAll r.arrowNotes 0 _).1, messagesOfAll_eq, leavesAll_unwind]
  rfl

end Reader

namespace Diagram

open Entry

/-- The messages of a diagram that was read are those of its lines, each with the last note before
the next message or return.  This is the last note that is written for the message, unless another
one stands behind a message from or to the border. -/
theorem withNotes_read {text : String} {d : Diagram} (h : Diagram.read text = .ok d) :
    let es := Reader.log {} (Source.lines text)
    messagesOfAll d.elements = withNotes lastNote es ∧
      (messagesOfAll d.elements = withNotes ownNote es ↔
        ∀ before m rest, es = before ++ .message m :: rest →
          ∀ n, strayNote rest = some n → ownNote rest = some n) := by
  intro es
  obtain ⟨-, rfl⟩ := Fault.check_eq_ok_iff.1 h
  have hlogs : Reader.Logs {} ((Source.lines text).foldl Reader.step {}) es :=
    Reader.logs_foldl {} (Source.lines text)
  have hnotes : messagesOfAll ((Source.lines text).foldl Reader.step {}).finish.elements =
      withNotes lastNote es := by
    have hempty : ({} : Reader).messagesSoFar = [] := rfl
    rw [Reader.messagesOfAll_finish, hlogs.notes_eq, hlogs.messages_eq, hempty, List.nil_append,
      List.append_nil, place_collect]
  refine ⟨hnotes, ?_⟩
  rw [hnotes, withNotes_eq_iff]
  simp only [lastNote_eq_ownNote_iff]

/-- A block behind a message in a fragment, and a note behind a return whose fragment is closed. -/
theorem withNotes_read_fragment :
    let text := "A -> B\nalt c\nactivate B\nnote left\nx\nend note\nreturn y\nend\nnote right : z"
    ∃ d, Diagram.read text = .ok d ∧
      (messagesOfAll d.elements).map (fun m => m.note.map ArrowNote.text) =
        [some "x", some "z"] := by
  intro text
  obtain ⟨d, hread, -⟩ := Fault.exists_of_any (by decide +kernel :
    (Diagram.read text).toOption.any (fun _ => true) = true)
  refine ⟨d, hread, ?_⟩
  rw [(withNotes_read hread).1]
  decide +kernel

/-- A note behind a message to the border is put at the message before. -/
theorem not_withNotes_read_border :
    let text := "A -> B\nA ->]\nnote left : x"
    ∃ d, Diagram.read text = .ok d ∧
      messagesOfAll d.elements ≠ withNotes ownNote (Reader.log {} (Source.lines text)) := by
  intro text
  obtain ⟨d, hread, hnote⟩ := Fault.exists_of_any (by decide +kernel :
    (Diagram.read text).toOption.any (fun d =>
      (messagesOfAll d.elements).any fun m => m.note.isSome) = true)
  refine ⟨d, hread, fun heq => ?_⟩
  have hown : ((withNotes ownNote (Reader.log {} (Source.lines text))).any
      fun m => m.note.isSome) = false := by
    decide +kernel
  rw [heq, hown] at hnote
  cases hnote

end Diagram

end Sequence
end UmlDraw
