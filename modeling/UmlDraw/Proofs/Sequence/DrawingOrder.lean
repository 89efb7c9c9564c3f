/-
# Messages in drawing order

A message of the model runs from its source to its target, and the head of its arrow lands on the
target.  A line may be written the other way around: an arrow that points at the participant on its
left only is turned around when the line is read, and the participants change places.

Reading a line appends leaves to those so far, whatever fragment it opens, splits or closes, and it
counts the messages among them.  So a line of a message gives the message of the model with the
number that was reached before the line.

The main statements are

* `Sequence.WrittenArrow.isReverse_read_iff`: which arrows are turned around;
* `Sequence.Reader.exists_adds_step` and `Sequence.Reader.exists_adds_foldl`: what lines append;
* `Sequence.MessageText.isMessage_chars`: lines that are read as messages;
* `Sequence.Diagram.drawn_read`: the messages of a diagram that was read.
-/
import UmlDraw.Proofs.Sequence.Line
import UmlDraw.Proofs.Sequence.MessageForm
import UmlDraw.Proofs.Sequence.Reader
import UmlDraw.Sequence.Columns

namespace UmlDraw
namespace Sequence

/-! ### Which way an arrow points -/

namespace Arrow

lemma endHeadOf_eq_none_iff {mark : Option Char} {d : List Char} :
    endHeadOf mark d = .none ↔ mark ≠ some 'x' ∧ d = [] := by
  constructor
  · intro h
    by_contra hneither
    rw [not_and_or, not_not] at hneither
    exact endHeadOf_ne_none hneither h
  · rintro ⟨hmark, rfl⟩
    exact if_neg (by simpa using hmark)

/-- An arrow has a head at one of its ends. -/
def Points (a : Arrow) : Prop :=
  a.startHead = .none → a.endHead ≠ .none

lemma points_ofParts (p : Parts) (items : List ModifierItem) : (ofParts p items).Points := by
  have hor : endHeadOf p.startMark p.left = .none → endHeadOf p.endMark p.right = .none →
      (p.left.isEmpty && p.right.isEmpty && endHeadOf p.startMark p.left == .none &&
        endHeadOf p.endMark p.right == .none) = true := by
    intro hstart hend
    rw [hstart, hend, (endHeadOf_eq_none_iff.1 hstart).2, (endHeadOf_eq_none_iff.1 hend).2]
    rfl
  intro hstart
  unfold ofParts at hstart ⊢
  dsimp only at hstart ⊢
  split
  · exact nofun
  · next hbare => exact fun hend => hbare (hor hstart hend)

lemma points_read (text : String) : (read text).Points := by
  unfold read
  split
  · exact points_ofParts _ _
  · exact fun _ => nofun

end Arrow

namespace WrittenArrow

/-- The arrow points at its left end only. -/
def PointsLeft (a : WrittenArrow) : Prop :=
  (a.startMark = some 'x' ∨ a.left ≠ []) ∧ a.endMark ≠ some 'x' ∧ a.right = []

/-- An arrow that points at its left end only is read as one that is to be turned around. -/
lemma isReverse_read_iff (a : WrittenArrow) :
    (Arrow.read a.text).isReverse = true ↔ a.PointsLeft := by
  have hiff (p : Arrow.Parts) (items : List ModifierItem) :
      (Arrow.ofParts p items).isReverse = true ↔
        Arrow.endHeadOf p.startMark p.left ≠ .none ∧ (Arrow.ofParts p items).endHead = .none := by
    rw [Arrow.isReverse, Bool.and_eq_true, bne_iff_ne, beq_iff_eq]
    rfl
  rw [read_text, hiff, ne_eq, Arrow.endHeadOf_eq_none_iff, not_and_or, not_not, PointsLeft]
  refine and_congr_right fun hleft => ?_
  -- an arrow with a head at its left end gets no other one by default
  have hpoints : a.parts.Points := by
    rcases hleft with h | h
    · exact .inl h
    · exact .inr (.inr (.inl h))
  rw [Arrow.endHead_ofParts hpoints, Arrow.endHeadOf_eq_none_iff]
  rfl

end WrittenArrow

/-! ### The messages among the leaves -/

/-- The message that an element is, if it is one. -/
def Element.message? : Element → Option Message
  | .message m => some m
  | _ => none

mutual

lemma messagesOf_eq (e : Element) : messagesOf e = (leaves e).filterMap Element.message? := by
  cases e with
  | fragment f =>
    obtain ⟨kind, label, color, sections⟩ := f
    exact messagesOfSections_eq sections
  | _ => rfl

lemma messagesOfSections_eq : (sections : List (Section Element)) →
    messagesOfSections sections = (leavesOfSections sections).filterMap Element.message?
  | [] => rfl
  | ⟨_, elements⟩ :: rest => by
    rw [messagesOfSections, leavesOfSections, List.filterMap_append, messagesOfAll_eq elements,
      messagesOfSections_eq rest]

lemma messagesOfAll_eq : (es : List Element) →
    messagesOfAll es = (leavesAll es).filterMap Element.message?
  | [] => rfl
  | e :: rest => by
    rw [messagesOfAll, leavesAll, List.filterMap_append, messagesOf_eq e, messagesOfAll_eq rest]

end

/-- The message without the note at it. -/
def Message.bare (m : Message) : Message :=
  { m with note := none }

@[simp] lemma Message.source_bare (m : Message) : m.bare.source = m.source := rfl

@[simp] lemma Message.target_bare (m : Message) : m.bare.target = m.target := rfl

@[simp] lemma Message.arrow_bare (m : Message) : m.bare.arrow = m.arrow := rfl

/-- The messages of elements do not depend on notes, but for the notes at them. -/
lemma map_bare_filterMap {es es' : List Element}
    (h : es.map Element.bare = es'.map Element.bare) :
    (es.filterMap Element.message?).map Message.bare =
      (es'.filterMap Element.message?).map Message.bare := by
  have hmap (es : List Element) : (es.filterMap Element.message?).map Message.bare =
      (es.map Element.bare).filterMap Element.message? := by
    rw [List.map_filterMap, List.filterMap_map]
    refine List.filterMap_congr fun e _ => ?_
    cases e with
    | _ => rfl
  rw [hmap, hmap, h]

/-! ### What a line appends -/

namespace Reader

/-- A reader has the leaves of another one and some more behind them, and it has counted the
messages among these. -/
structure Adds (r r' : Reader) (es : List Element) : Prop where
  leaves_eq : r'.leavesSoFar = r.leavesSoFar ++ es
  messages_eq : r'.messages = r.messages + (es.filterMap Element.message?).length

/-- What the leaves and the number of the messages depend on. -/
def trunkAndCount (r : Reader) : List OpenFragment × List Element × Nat :=
  (r.fragments, r.elements, r.messages)

namespace Adds

variable {r r' r'' : Reader} {es es' : List Element}

lemma of_eq (hleaves : r'.leavesSoFar = r.leavesSoFar) (hmessages : r'.messages = r.messages) :
    r.Adds r' [] :=
  ⟨by rw [hleaves, List.append_nil], hmessages⟩

lemma trans (h : r.Adds r' es) (h' : r'.Adds r'' es') : r.Adds r'' (es ++ es') where
  leaves_eq := by rw [h'.leaves_eq, h.leaves_eq, List.append_assoc]
  messages_eq := by
    rw [h'.messages_eq, h.messages_eq, List.filterMap_append, List.length_append, Nat.add_assoc]

lemma add (r : Reader) {e : Element} (hleaf : leaves e = [e]) (hmessage : e.message? = none) :
    r.Adds (r.add e) [e] where
  leaves_eq := by simp [Reader.add, leavesSoFar, leavesAll_append, leavesAll, hleaf]
  messages_eq := by simp [Reader.add, hmessage]

lemma addMessage (r : Reader) (m : Message) : r.Adds (r.addMessage m) [.message m] where
  leaves_eq := by
    simp [Reader.addMessage, Reader.add, leavesSoFar, leavesAll_append, leavesAll, leaves]
  messages_eq := rfl

end Adds

/-- What the leaves and the number of messages depend on is the same. -/
lemma Adds.of_same {r r' : Reader} (h : r'.trunkAndCount = r.trunkAndCount) : r.Adds r' [] := by
  obtain ⟨hfragments, h⟩ := Prod.mk.inj h
  obtain ⟨helements, hmessages⟩ := Prod.mk.inj h
  exact .of_eq (by rw [leavesSoFar, leavesSoFar, hfragments, helements]) hmessages

lemma trunkAndCount_mention (r : Reader) (code : String) :
    (r.mention code).trunkAndCount = r.trunkAndCount := by
  unfold mention
  split <;> rfl

lemma trunkAndCount_mentionAll (r : Reader) (codes : List String) :
    (r.mentionAll codes).trunkAndCount = r.trunkAndCount := by
  induction codes generalizing r with
  | nil => rfl
  | cons code rest ih => exact (ih (r.mention code)).trans (r.trunkAndCount_mention code)

lemma trunkAndCount_attach (r : Reader) (note : ArrowNote) :
    (r.attach note).trunkAndCount = r.trunkAndCount := by
  unfold attach
  split <;> rfl

lemma trunkAndCount_enterBox (r : Reader) (code : String) :
    (r.enterBox code).trunkAndCount = r.trunkAndCount := by
  unfold enterBox
  split
  · split <;> rfl
  · rfl

end Reader

/-- The head of a message lands on its target. -/
def Element.InOrder : Element → Prop
  | .message m => m.arrow.endHead ≠ .none
  | _ => True

namespace Reader

/-- A reader has the leaves of another one and some more, in which messages are in drawing order. -/
def Continues (r r' : Reader) : Prop :=
  ∃ es, r.Adds r' es ∧ ∀ e ∈ es, e.InOrder

namespace Continues

variable {r r' r'' : Reader}

lemma of_same (h : r'.trunkAndCount = r.trunkAndCount) : r.Continues r' :=
  ⟨[], .of_same h, List.forall_mem_nil _⟩

lemma of_eq (hleaves : r'.leavesSoFar = r.leavesSoFar) (hmessages : r'.messages = r.messages) :
    r.Continues r' :=
  ⟨[], .of_eq hleaves hmessages, List.forall_mem_nil _⟩

lemma trans (h : r.Continues r') (h' : r'.Continues r'') : r.Continues r'' := by
  obtain ⟨es, hes, horder⟩ := h
  obtain ⟨es', hes', horder'⟩ := h'
  exact ⟨es ++ es', hes.trans hes', List.forall_mem_append.2 ⟨horder, horder'⟩⟩

lemma add (h : r.Continues r') {e : Element} (hleaf : leaves e = [e])
    (hmessage : e.message? = none) (he : e.InOrder) : r.Continues (r'.add e) :=
  h.trans ⟨[e], .add r' hleaf hmessage, List.forall_mem_singleton.2 he⟩

lemma addMessage (h : r.Continues r') {m : Message} (hm : m.arrow.endHead ≠ .none) :
    r.Continues (r'.addMessage m) :=
  h.trans ⟨[.message m], .addMessage r' m, List.forall_mem_singleton.2 hm⟩

lemma declare (r : Reader) (d : Declaration) : r.Continues (r.declare d) := by
  unfold Reader.declare
  refine trans ?_ (of_same (trunkAndCount_enterBox _ d.code))
  split
  · refine add ?_ rfl rfl trivial
    exact of_same (r.trunkAndCount_mention d.code)
  · exact of_same (r.trunkAndCount_mention d.code)

end Continues

lemma source_messageOf (m : MessageLine) :
    (messageOf m).source = if m.arrow.isReverse then m.right else m.left :=
  rfl

lemma target_messageOf (m : MessageLine) :
    (messageOf m).target = if m.arrow.isReverse then m.left else m.right :=
  rfl

lemma arrow_messageOf (m : MessageLine) : (messageOf m).arrow =
    if m.color.isSome && m.activation.isNone then
      { (if m.arrow.isReverse then m.arrow.reversed else m.arrow) with color := m.color }
    else if m.arrow.isReverse then m.arrow.reversed else m.arrow :=
  rfl

/-- An arrow of a line is turned around if its head would land on the source else. -/
lemma endHead_messageOf {m : MessageLine} (h : m.arrow.Points) :
    (messageOf m).arrow.endHead ≠ .none := by
  have hturned : (if m.arrow.isReverse then m.arrow.reversed else m.arrow).endHead ≠ .none := by
    cases hreverse : m.arrow.isReverse with
    | true =>
      rw [Arrow.isReverse, Bool.and_eq_true, bne_iff_ne] at hreverse
      exact hreverse.1
    | false =>
      intro hend
      rw [if_neg Bool.false_ne_true] at hend
      by_cases hstart : m.arrow.startHead = .none
      · exact h hstart hend
      · rw [Arrow.isReverse, Bool.and_eq_false_iff, bne_eq_false_iff_eq,
          beq_eq_false_iff_ne] at hreverse
        exact hreverse.elim hstart fun hne => hne hend
  unfold messageOf
  dsimp only
  split
  · exact hturned
  · exact hturned

/-- A line of a message appends the message. -/
lemma adds_message (r : Reader) (m : MessageLine) :
    r.Adds (r.apply (.message m)) [.message (messageOf m)] := by
  have hsame := ((((r.mention m.left).mention m.right).trunkAndCount_mentionAll m.multicast).trans
    ((r.mention m.left).trunkAndCount_mention m.right)).trans (r.trunkAndCount_mention m.left)
  exact (Adds.of_same hsame).trans (.addMessage _ _)

/-- A line with a meaning appends at most one leaf. -/
lemma continues_apply (r : Reader) {l : Line} (hl : ∀ m, l = .message m → m.arrow.Points) :
    r.Continues (r.apply l) := by
  have hrefl : r.Continues r := .of_same rfl
  cases l with
  | title s => exact .of_same rfl
  | autoNumber a => exact hrefl.add rfl rfl trivial
  | boxStart title color => exact .of_same rfl
  | boxEnd => exact .of_same rfl
  | declare d => exact .declare r d
  | create code =>
    refine Continues.add ?_ rfl rfl trivial
    exact .of_same (r.trunkAndCount_mention code)
  | divider label => exact hrefl.add rfl rfl trivial
  | delay label => exact hrefl.add rfl rfl trivial
  | space size => exact hrefl.add rfl rfl trivial
  | life kind code color =>
    exact (Continues.of_same (r.trunkAndCount_mention code)).add rfl rfl trivial
  | reply label =>
    refine hrefl.addMessage ?_
    show (Arrow.read "-->").endHead ≠ .none
    decide
  | note head text =>
    exact (Continues.of_same (r.trunkAndCount_mentionAll head.participants)).add rfl rfl trivial
  | noteStart head => exact .of_same (r.trunkAndCount_mentionAll head.participants)
  | arrowNote position color text => exact .of_same (r.trunkAndCount_attach _)
  | arrowNoteStart position color => exact .of_same rfl
  | reference participants color text =>
    exact (Continues.of_same (r.trunkAndCount_mentionAll participants)).add rfl rfl trivial
  | referenceStart participants color => exact .of_same (r.trunkAndCount_mentionAll participants)
  | fragmentStart kind color label =>
    exact .of_eq (r.leavesSoFar_openFragment kind color label) rfl
  | fragmentElse condition =>
    refine .of_eq (r.leavesSoFar_splitFragment condition) ?_
    show (r.splitFragment condition).messages = _
    unfold splitFragment
    split <;> rfl
  | fragmentEnd =>
    refine .of_eq r.leavesSoFar_closeFragment ?_
    show r.closeFragment.messages = _
    unfold closeFragment
    split <;> rfl
  | border m =>
    exact (Continues.of_same (r.trunkAndCount_mention m.participant)).add rfl rfl trivial
  | message m =>
    exact ⟨_, r.adds_message m, List.forall_mem_singleton.2 (endHead_messageOf (hl m rfl))⟩
  | faulty e => exact .of_same rfl

lemma continues_readLine (r : Reader) (s : List Char) : r.Continues (r.readLine s) := by
  unfold readLine
  split
  · exact .of_same rfl
  · split
    · exact .of_same rfl
    · split
      · next l hread =>
        refine r.continues_apply ?_
        -- every line that is read as a message is written as one, so its arrow is known
        rintro m rfl
        obtain ⟨w, -, hw⟩ := MessageText.whole_readMessage_iff.1 (Line.whole_of_read? hread)
        obtain rfl := Line.message.inj hw
        exact Arrow.points_read _
      · exact .of_same rfl

lemma continues_step (r : Reader) (line : SourceLine) : r.Continues (r.step line) := by
  unfold step
  split
  · next b lines hblock =>
    have hclosed : r.Continues { r with block := none } := .of_same rfl
    split
    · cases b with
      | note head =>
        refine Continues.add ?_ rfl rfl trivial
        exact hclosed
      | arrowNote position color => exact hclosed.trans (.of_same (trunkAndCount_attach _ _))
      | reference participants color =>
        refine Continues.add ?_ rfl rfl trivial
        exact hclosed
    · exact .of_same rfl
  · exact r.continues_readLine _

lemma continues_foldl (r : Reader) (lines : List SourceLine) :
    r.Continues (lines.foldl Reader.step r) := by
  induction lines generalizing r with
  | nil => exact .of_same rfl
  | cons line rest ih => exact (r.continues_step line).trans (ih _)

lemma map_bare_messages_finish (r : Reader) :
    (messagesOfAll r.finish.elements).map Message.bare =
      (r.leavesSoFar.filterMap Element.message?).map Message.bare := by
  rw [messagesOfAll_eq]
  refine map_bare_filterMap ?_
  rw [leavesSoFar, ← leavesAll_unwind]
  exact bare_leaves_annotateAll r.arrowNotes 0 _

end Reader

/-! ### The messages of a diagram -/

/-- The line is read as a message: it is no line about the display, and the other forms do not
fit. -/
structure Line.IsMessage (s : List Char) : Prop where
  not_hides : hidesFootbox.reads s = false
  not_display : (s.isEmpty || isDisplay.begins s) = false
  exists_message : ∃ m, read? s = some (.message m)

namespace MessageText

/-- A line that is written as a message is read as one, if no form with a keyword fits. -/
lemma isMessage_of_forms (w : MessageText) (hhides : Line.hidesFootbox.reads w.chars = false)
    (hdisplay : (w.chars.isEmpty || Line.isDisplay.begins w.chars) = false)
    (hforms : ∀ p ∈ Line.forms.take 21, p.whole w.chars = none) : Line.IsMessage w.chars := by
  refine ⟨hhides, hdisplay, w.line, Line.read?_eq_some 23 rfl ?_ w.whole_chars⟩
  have hborder : Line.forms.take 23 =
      Line.forms.take 21 ++ [Line.readBorderLeft, Line.readBorderRight] := rfl
  rw [hborder, List.forall_mem_append, List.forall_mem_cons, List.forall_mem_singleton]
  exact ⟨hforms, w.whole_borderLeft, w.whole_borderRight⟩

/-- A line that is written as a message is read as one, if it begins with the mark of a parallel
message or with a quotation mark. -/
theorem isMessage_chars (w : MessageText) (h : w.parallel.isSome = true ∨ w.left.isQuoted = true) :
    Line.IsMessage w.chars := by
  obtain ⟨c, t, hchars, hc⟩ : ∃ c t, w.chars = c :: t ∧ c ∈ ['&', '"'] := by
    unfold chars parallelChars
    cases hparallel : w.parallel with
    | some gap => exact ⟨'&', _, rfl, by decide⟩
    | none =>
      rw [hparallel] at h
      cases hleft : w.left with
      | quoted name ne_nil closed => exact ⟨'"', _, rfl, by decide⟩
      | plain name ne_nil word =>
        rw [hleft] at h
        rcases h with h | h <;> cases h
  have hmarks : ∀ c ∈ ['&', '"'], Letter.isWord c = false ∧ c ≠ '=' ∧ c ≠ '.' ∧ c ≠ '|' := by
    decide
  have hletter : ∀ d ∈ w.chars.head?, Letter.isWord d = false := by
    rw [hchars]
    exact fun d hd => Option.some.inj hd ▸ (hmarks c hc).1
  have hunmarked : Line.Unmarked w.chars := by
    rw [hchars]
    exact fun d hd => Option.some.inj hd ▸ (hmarks c hc).2
  obtain ⟨hhides, hdisplay⟩ :=
    Line.not_display (.of_head (by decide) hletter) (hchars ▸ List.cons_ne_nil c t)
  exact w.isMessage_of_forms hhides hdisplay fun p hp => Line.fails_of_head hletter hunmarked p hp _

/-- The arrow with the color at the end of the line, which is a color of the arrow unless there is
an activation before it. -/
def painted (w : MessageText) (a : Arrow) : Arrow :=
  if w.line.color.isSome && w.line.activation.isNone then { a with color := w.line.color } else a

/-- The message runs as the line says. -/
structure Drawn (w : MessageText) (m : Message) : Prop where
  turned : w.arrow.PointsLeft → m.source = w.right.code ∧ m.target = w.left.code ∧
    m.arrow = w.painted (Arrow.read w.arrow.text).reversed
  kept : ¬w.arrow.PointsLeft → m.source = w.left.code ∧ m.target = w.right.code ∧
    m.arrow = w.painted (Arrow.read w.arrow.text)

lemma arrow_line (w : MessageText) : w.line.arrow = Arrow.read w.arrow.text :=
  rfl

lemma drawn_messageOf (w : MessageText) {m : Message}
    (h : m.bare = (Reader.messageOf w.line).bare) : w.Drawn m := by
  have hsource := congrArg Message.source h
  have htarget := congrArg Message.target h
  have harrow := congrArg Message.arrow h
  rw [Message.source_bare, Message.source_bare, Reader.source_messageOf, w.arrow_line] at hsource
  rw [Message.target_bare, Message.target_bare, Reader.target_messageOf, w.arrow_line] at htarget
  rw [Message.arrow_bare, Message.arrow_bare, Reader.arrow_messageOf, w.arrow_line] at harrow
  constructor
  · intro hleft
    rw [if_pos (w.arrow.isReverse_read_iff.2 hleft)] at hsource htarget harrow
    exact ⟨hsource, htarget, harrow⟩
  · intro hleft
    rw [if_neg (mt w.arrow.isReverse_read_iff.1 hleft)] at hsource htarget harrow
    exact ⟨hsource, htarget, harrow⟩

/-- The line of a message that is written so is read as what it says. -/
lemma readLine_eq (w : MessageText) (h : Line.IsMessage w.chars) (r : Reader) :
    r.readLine w.chars = r.apply (.message w.line) := by
  obtain ⟨m, hm⟩ := h.exists_message
  have hwhole := Line.whole_of_read? hm
  rw [w.whole_chars] at hwhole
  rw [Reader.readLine, if_neg (by rw [h.not_hides]; exact Bool.false_ne_true),
    if_neg (by rw [h.not_display]; exact Bool.false_ne_true), hm, Option.some.inj hwhole]

end MessageText

namespace Diagram

lemma endHead_ne_none_of_continues {r : Reader} (h : Reader.Continues {} r) {m : Message}
    (hm : m ∈ messagesOfAll r.finish.elements) : m.arrow.endHead ≠ .none := by
  obtain ⟨es, hes, horder⟩ := h
  have hmem := List.mem_map_of_mem (f := Message.bare) hm
  rw [Reader.map_bare_messages_finish, hes.leaves_eq] at hmem
  obtain ⟨m', hm', heq⟩ := List.mem_map.1 hmem
  obtain ⟨e, he, hmessage⟩ := List.mem_filterMap.1 hm'
  have hend : m'.arrow.endHead ≠ .none := by
    cases e with
    | message m'' =>
      obtain rfl := Option.some.inj hmessage
      exact horder _ he
    | _ => cases hmessage
  have harrow := congrArg Message.arrow heq
  rw [Message.arrow_bare, Message.arrow_bare] at harrow
  rwa [harrow] at hend

/-- The message that a line appends has the number that was reached before the line. -/
lemma exists_getElem?_messages {r r' : Reader} {m : Message} (h : Reader.Continues {} r)
    (hadds : r.Adds r' [.message m]) {r'' : Reader} (h' : r'.Continues r'') :
    ∃ m', (messagesOfAll r''.finish.elements)[r.messages]? = some m' ∧ m'.bare = m.bare := by
  obtain ⟨es, hes, -⟩ := h
  obtain ⟨es', hes', -⟩ := h'
  have hleaves := (hes.trans (hadds.trans hes')).leaves_eq
  have hmessages : r.messages = (es.filterMap Element.message?).length := by
    rw [hes.messages_eq]
    exact Nat.zero_add _
  have hall : (messagesOfAll r''.finish.elements).map Message.bare =
      (es.filterMap Element.message?).map Message.bare ++
        m.bare :: (es'.filterMap Element.message?).map Message.bare := by
    rw [Reader.map_bare_messages_finish, hleaves, List.filterMap_append, List.filterMap_append,
      List.filterMap_append, List.map_append, List.map_append, List.map_append]
    rfl
  have hget := congrArg (fun ms => ms[(es.filterMap Element.message?).length]?) hall
  rw [List.getElem?_map, List.getElem?_append_right (by simp), List.length_map, Nat.sub_self,
    List.getElem?_cons_zero] at hget
  obtain ⟨m', hm', hbare⟩ := Option.map_eq_some_iff.1 hget
  exact ⟨m', hmessages ▸ hm', hbare⟩

/-- In a diagram that was read, the head of each message lands on its target.  A line of a message
gives the message with the number that was reached before it: an arrow that points at its left end
only is turned around, and any other one is kept. -/
theorem drawn_read {text : String} {d : Diagram} (h : Diagram.read text = .ok d) :
    (∀ m ∈ messagesOfAll d.elements, m.arrow.endHead ≠ .none) ∧
      ∀ (before : List SourceLine) (line : SourceLine) (after : List SourceLine),
        Source.lines text = before ++ line :: after →
          (before.foldl Reader.step {}).block = none → Line.IsMessage line.text →
            (∃ w : MessageText, line.text = w.chars) ∧
              ∀ w : MessageText, line.text = w.chars →
                ∃ m, (messagesOfAll d.elements)[(before.foldl Reader.step {}).messages]? = some m ∧
                  w.Drawn m := by
  obtain ⟨-, rfl⟩ := Fault.check_eq_ok_iff.1 h
  constructor
  · intro m hm
    exact endHead_ne_none_of_continues (Reader.continues_foldl {} (Source.lines text)) hm
  · intro before line after hlines hblock hmessage
    constructor
    · obtain ⟨m, hm⟩ := hmessage.exists_message
      exact MessageText.exists_chars (Line.whole_of_read? hm)
    · intro w hw
      have hadds := (before.foldl Reader.step {}).adds_message w.line
      rw [← w.readLine_eq (hw ▸ hmessage), ← hw] at hadds
      have hstep : (before.foldl Reader.step {}).step line =
          (before.foldl Reader.step {}).readLine line.text := by
        rw [Reader.step, hblock]
      rw [← hstep] at hadds
      obtain ⟨m, hm, hbare⟩ := exists_getElem?_messages (Reader.continues_foldl {} before) hadds
        (Reader.continues_foldl _ after)
      refine ⟨m, ?_, w.drawn_messageOf hbare⟩
      rw [hlines, List.foldl_append, List.foldl_cons]
      exact hm

/-- In a fragment, an arrow to the left with a circle at its other end and a color behind. -/
theorem drawn_read_turned :
    let text := "alt\nA <<-o \"B C\" #red : x\nelse\nA -> D\nend"
    ∃ d m, Diagram.read text = .ok d ∧ (messagesOfAll d.elements)[0]? = some m ∧
      m.arrow.endHead ≠ .none ∧ m.source = "B C" ∧ m.target = "A" ∧
        m.arrow = { (Arrow.read "<<-o").reversed with color := some "#red" } := by
  intro text
  obtain ⟨d, hread, -⟩ := Fault.exists_of_any (by decide +kernel :
    (Diagram.read text).toOption.any (fun _ => true) = true)
  obtain ⟨horder, hline⟩ := drawn_read hread
  let arrow : WrittenArrow :=
    { startMark := none, left := ['<', '<'], before := 1, modifier := none, after := 0, right := []
      endMark := some 'o', startMark_mem := nofun, left_mem := by decide, dashes_pos := by decide
      modifier_closed := nofun, right_mem := by decide
      endMark_mem := fun _ h => .inl (Option.some.inj h).symm }
  let ending : MessageEnd :=
    { gap := [' '], activation := none, color := some (⟨"red".toList, none, by decide, by decide,
        nofun⟩, [' ']), label := some [' ', 'x'], gap_blank := by decide, activation_mem := nofun
      color_blank := fun x hx => Option.some.inj hx ▸ by decide
      label_inLine := by decide }
  let w : MessageText :=
    { parallel := none, left := .plain ['A'] (by decide) (by decide), leftGap := [' ']
      arrow := arrow, rightGap := [' '], right := .quoted "B C".toList (by decide) (by decide)
      further := [], ending := ending, parallel_blank := nofun, leftGap_blank := by decide
      rightGap_blank := by decide, before_pos := by decide, left_apart := fun h => absurd rfl h
      right_apart := fun _ h => nomatch h }
  let line : SourceLine := ⟨"A <<-o \"B C\" #red : x".toList, "A <<-o \"B C\" #red : x".toList⟩
  have hchars : line.text = w.chars := by decide
  have hlines : Source.lines text = [⟨"alt".toList, "alt".toList⟩] ++ line ::
      ["else", "A -> D", "end"].map fun s => ⟨s.toList, s.toList⟩ := by
    decide +kernel
  have hblock : ([⟨"alt".toList, "alt".toList⟩].foldl Reader.step ({} : Reader)).block = none :=
    Option.isNone_iff_eq_none.1 (by decide +kernel)
  have hforms : ((Line.forms.take 21).all fun p => (p.whole line.text).isNone) = true := by
    decide +kernel
  have hmessage : Line.IsMessage line.text := by
    rw [hchars]
    refine w.isMessage_of_forms (by decide +kernel) (by decide +kernel) fun p hp => ?_
    rw [← hchars]
    exact Option.isNone_iff_eq_none.1 (List.all_eq_true.1 hforms p hp)
  obtain ⟨-, hw⟩ := hline _ line _ hlines hblock hmessage
  obtain ⟨m, hm, hdrawn⟩ := hw w hchars
  have hleft : w.arrow.PointsLeft := ⟨.inr (by decide), by decide, rfl⟩
  obtain ⟨hsource, htarget, harrow⟩ := hdrawn.turned hleft
  exact ⟨d, m, hread, hm, horder m (List.mem_of_getElem? hm), hsource, htarget, harrow⟩

end Diagram

end Sequence
end UmlDraw
