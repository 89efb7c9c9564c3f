/-
# The names of participants

Participants are written in messages, in notes and references, and in the lines that open, close,
create and destroy a lifeline.  What is written there is the code of the participant, with one
exception: further targets of a message are cut at commas, which take the place of the ampersands
between them, but also of those within a name.

A participant is declared by the first line that mentions its code.  So the participants of a
diagram are the codes that its lines mention, each once, and a name that is written at several
places stands for one participant.

The main statements are

* `Sequence.LifeText.meaning?_chars` and the theorems like it: what the lines mean;
* `Sequence.NamingText.codesOf_chars`: the codes that a line mentions;
* `Sequence.Place.code_eq_iff`: where the code is the name;
* `Sequence.Reader.mem_keys_readLine` and `Sequence.Reader.mem_keys_foldl`: what lines declare;
* `Sequence.Diagram.participants_read`: the participants of a diagram that was read.
-/
import UmlDraw.Proofs.Sequence.DrawingOrder
import UmlDraw.Proofs.Sequence.Line
import UmlDraw.Proofs.Sequence.ListText
import UmlDraw.Proofs.Sequence.Reader

namespace UmlDraw
namespace Sequence

open Scan

/-! ### Events of lifelines -/

/-- A line of an event of a lifeline as it is written. -/
structure LifeText where
  /-- The word for the event. -/
  word : WrittenWord ["activate", "deactivate", "destroy"]
  /-- The blanks behind it. -/
  gap : Blanks1
  /-- The participant. -/
  operand : Operand
  /-- The blanks behind it. -/
  endGap : Blanks
  /-- A color, with the blanks behind it. -/
  color : Option (WrittenColor × Blanks)

/-- A line that creates a participant as it is written. -/
structure CreateText where
  /-- The word. -/
  word : WrittenWord ["create"]
  /-- The blanks behind it. -/
  gap : Blanks1
  /-- The participant. -/
  operand : Operand
  /-- The blanks behind it. -/
  endGap : Blanks

namespace LifeText

variable (w : LifeText)

/-- The characters of the color, with the blanks behind it. -/
def colorChars : List Char :=
  (w.color.map fun x => x.1.chars ++ x.2.chars).getD []

/-- The characters of the line. -/
def chars : List Char :=
  w.word.chars ++ (w.gap.chars ++ (w.operand.chars ++ (w.endGap.chars ++ w.colorChars)))

/-- What the line says. -/
def line : Line :=
  .life (LifeKind.ofWord w.word.word) w.operand.code (w.color.map fun x => x.1.text)

lemma head_colorChars : ∀ c ∈ w.colorChars.head?, c = '#' := by
  unfold colorChars
  cases w.color with
  | none => exact nofun
  | some x => exact fun c hc => (Option.some.inj hc).symm

theorem whole_chars : Line.readLife.whole w.chars = some w.line := by
  have hblank : ∀ c ∈ w.colorChars.head?, Letter.isBlank c = false :=
    fun c hc => w.head_colorChars c hc ▸ rfl
  have happart : w.operand.Apart (w.endGap.chars ++ w.colorChars) := fun _ =>
    Line.not_isNameChar_gap w.endGap.blank fun c hc => w.head_colorChars c hc ▸ rfl
  have hcolor : (do
      let c ← Scan.optional Token.color
      Scan.blanks
      pure (.life (LifeKind.ofWord w.word.word) w.operand.code c) : Scan Line).Takes
        w.colorChars w.line [] := by
    unfold line colorChars
    cases w.color with
    | none =>
      exact (Line.fails_color (s := []) nofun).optional.bind
        ((takes_skip (x := []) (s := []) nofun nofun).bind (takes_pure _ []))
    | some x =>
      have hskip := takes_skip (s := []) x.2.blank nofun
      rw [List.append_nil] at hskip
      have hhead : ∀ c ∈ x.2.chars.head?, Letter.isBlank c = true ∨ c = ':' :=
        fun c hc => .inl (x.2.blank c (List.mem_of_mem_head? hc))
      exact (x.1.takes_color hhead).optional.bind (hskip.bind (takes_pure _ []))
  have hread : Line.readLife.Takes w.chars w.line [] :=
    (w.word.forced_oneOf (by decide) _).takes.bind
      ((w.gap.takes (w.operand.not_isBlank_head_chars _)).bind
        ((w.operand.takes_participant happart).bind ((w.endGap.takes hblank).bind hcolor)))
  exact hread.whole

end LifeText

namespace CreateText

variable (w : CreateText)

/-- The characters of the line. -/
def chars : List Char :=
  w.word.chars ++ (w.gap.chars ++ (w.operand.chars ++ w.endGap.chars))

/-- What the line says. -/
def line : Line :=
  .create w.operand.code

theorem whole_chars : Line.readCreate.whole w.chars = some w.line := by
  have happart : w.operand.Apart w.endGap.chars := fun _ c hc =>
    Line.isNameChar_of_isBlank (w.endGap.blank c (List.mem_of_mem_head? hc))
  have hskip := takes_skip (s := []) w.endGap.blank nofun
  rw [List.append_nil] at hskip
  have hread : Line.readCreate.Takes w.chars w.line [] :=
    (w.word.forced_keyword _).takes.bind ((w.gap.takes (w.operand.not_isBlank_head_chars _)).bind
      ((w.operand.takes_participant happart).bind (hskip.bind (takes_pure _ []))))
  exact hread.whole

/-- The line is no declaration with a kind, even if the name is the word for one. -/
lemma fails_readDeclare : Line.readDeclare.Fails w.chars := by
  have hkinds : ∀ v ∈ ParticipantKind.all.map ParticipantKind.name,
      v.toList ≠ [] ∧ ∀ k ∈ v.toList, Letter.isWord k = true := by
    decide
  have hkind {γ : Type} (f : String → String → Scan γ) : (do
      let kind ← Scan.oneOf (ParticipantKind.all.map ParticipantKind.name)
      Scan.blanks1
      let name ← Line.participant
      f kind name : Scan γ).Fails (w.operand.chars ++ w.endGap.chars) := by
    have hword := Operand.fails_word (t := []) (f := fun kind => do
        let name ← Line.participant
        f kind name) ((cuts_oneOf _).imp fun _ _ _ h => h.elim fun v hv =>
          Line.isNameChar_of_spells (hkinds v hv.1) hv.2)
      (fun _ _ hu => (Operand.fails_participant hu).bind _) w.operand w.endGap.blank nofun
    rwa [List.append_nil] at hword
  refine Fails.optional_bind ?_ ?_
  · refine Fails.assoc ((w.word.forced_keyword _).fails_bind (fails_skip1_bind w.gap.blank
      (w.operand.not_isBlank_head_chars _) (hkind _) fun d u hd => ?_))
    refine (fails_oneOf_of_head hkinds fun c hc => ?_).bind _
    exact Letter.isWord_of_isBlank (Option.some.inj hc ▸ hd)
  · exact (w.word.fails_oneOf (by decide) _).bind _

end CreateText

/-! ### What the lines mean -/

/-- What a line outside of blocks means; a line about the display means nothing here. -/
def Line.meaning? (s : List Char) : Option Line :=
  if hidesFootbox.reads s then none
  else if s.isEmpty || isDisplay.begins s then none
  else read? s

/-- A line that begins with a keyword is none about the display. -/
lemma Line.meaning?_eq_some {words : List String} (w : WrittenWord words) {s : List Char} {l : Line}
    (hletters : AllLetters words) (h : AllDiffer words displayWords)
    (hread : read? (w.chars ++ s) = some l) : meaning? (w.chars ++ s) = some l := by
  have hne : w.chars ++ s ≠ [] := List.append_ne_nil_of_left_ne_nil
    (w.chars_ne_nil fun word hword => (hletters word hword).1) s
  obtain ⟨hhides, hdisplay⟩ := not_display (.of_word w h s) hne
  rw [meaning?, hhides, hdisplay]
  exact hread

theorem LifeText.meaning?_chars (w : LifeText) : Line.meaning? w.chars = some w.line := by
  refine Line.meaning?_eq_some w.word (by decide) (by decide)
    (Line.read?_eq_some 9 rfl ?_ w.whole_chars)
  exact fun q hq => Line.fails_first (.of_word w.word (by decide) _)
    (Line.unmarked_of_word w.word (by decide) _) q hq _

theorem CreateText.meaning?_chars (w : CreateText) : Line.meaning? w.chars = some w.line := by
  refine Line.meaning?_eq_some w.word (by decide) (by decide)
    (Line.read?_eq_some 5 rfl ?_ w.whole_chars)
  have hforms : Line.forms.take 5 = [Line.readTitle, Line.readAutoNumber, Line.readBoxStart,
      Line.readBoxEnd] ++ [Line.readDeclare] := rfl
  rw [hforms, List.forall_mem_append, List.forall_mem_singleton]
  exact ⟨fun q hq => Line.fails_page (.of_word w.word (by decide) _) q hq _, w.fails_readDeclare _⟩

lemma NoteText.fails_readNoteAcross (w : NoteText) : Line.readNoteAcross.Fails w.chars := by
  refine (w.shape.forced_oneOf (by decide) _).fails_bind (fails_skip1_bind w.shapeGap.blank
    (w.side.not_isBlank_head (by decide) _) ((w.side.fails_keyword (by decide) _).bind _)
      fun d u hd => ?_)
  refine (fails_keyword_of_head (by decide) fun c hc => ?_).bind _
  exact Letter.isWord_of_isBlank (Option.some.inj hc ▸ hd)

theorem NoteText.meaning?_chars (w : NoteText) : Line.meaning? w.chars = some w.line := by
  refine Line.meaning?_eq_some w.shape (by decide) (by decide) ?_
  have hfirst : ∀ q ∈ Line.forms.take 12, q.whole w.chars = none := by
    have hforms : Line.forms.take 12 = Line.forms.take 9 ++
        ([Line.readLife, Line.readReply] ++ [Line.readNoteAcross]) := rfl
    rw [hforms, List.forall_mem_append, List.forall_mem_append, List.forall_mem_singleton]
    exact ⟨fun q hq => Line.fails_first (.of_word w.shape (by decide) _)
        (Line.unmarked_of_word w.shape (by decide) _) q hq _,
      fun q hq => Line.fails_life (.of_word w.shape (by decide) _) q hq _, w.fails_readNoteAcross _⟩
  cases hlabel : w.ending.label with
  | some l => exact Line.read?_eq_some 12 rfl hfirst (w.whole_chars hlabel)
  | none =>
    obtain ⟨hnote, hstart⟩ := w.whole_start hlabel
    refine Line.read?_eq_some 13 rfl ?_ hstart
    have hforms : Line.forms.take 13 = Line.forms.take 12 ++ [Line.readNote] := rfl
    rw [hforms, List.forall_mem_append, List.forall_mem_singleton]
    exact ⟨hfirst, hnote⟩

theorem ReferenceText.meaning?_chars (w : ReferenceText) : Line.meaning? w.chars = some w.line := by
  refine Line.meaning?_eq_some w.word (by decide) (by decide) ?_
  have hfirst : ∀ q ∈ Line.forms.take 16, q.whole w.chars = none := by
    have hforms : Line.forms.take 16 = Line.forms.take 9 ++ ([Line.readLife, Line.readReply] ++
        [Line.readNoteAcross, Line.readNote, Line.readNoteStart, Line.readArrowNote,
          Line.readArrowNoteStart]) := rfl
    rw [hforms, List.forall_mem_append, List.forall_mem_append]
    exact ⟨fun q hq => Line.fails_first (.of_word w.word (by decide) _)
        (Line.unmarked_of_word w.word (by decide) _) q hq _,
      fun q hq => Line.fails_life (.of_word w.word (by decide) _) q hq _,
      fun q hq => Line.fails_note (.of_word w.word (by decide) _) q hq _⟩
  cases hlabel : w.ending.label with
  | some l => exact Line.read?_eq_some 16 rfl hfirst (w.whole_chars hlabel)
  | none =>
    obtain ⟨hreference, hstart⟩ := w.whole_start hlabel
    refine Line.read?_eq_some 17 rfl ?_ hstart
    have hforms : Line.forms.take 17 = Line.forms.take 16 ++ [Line.readReference] := rfl
    rw [hforms, List.forall_mem_append, List.forall_mem_singleton]
    exact ⟨hfirst, hreference⟩

theorem MessageText.meaning?_chars (w : MessageText) (h : Line.IsMessage w.chars) :
    Line.meaning? w.chars = some (.message w.line) := by
  obtain ⟨m, hm⟩ := h.exists_message
  have hwhole := Line.whole_of_read? hm
  rw [w.whole_chars] at hwhole
  rw [Line.meaning?, h.not_hides, h.not_display, hm, Option.some.inj hwhole]
  rfl

/-! ### The codes that a line mentions -/

/-- The codes of the participants that a line mentions. -/
def Line.codes : Line → List String
  | declare d => [d.code]
  | create code => [code]
  | life _ code _ => [code]
  | note head _ => head.participants
  | noteStart head => head.participants
  | reference participants _ _ => participants
  | referenceStart participants _ => participants
  | border m => [m.participant]
  | message m => m.left :: m.right :: m.multicast
  | _ => []

/-- The codes of the participants that a line outside of blocks mentions. -/
def Line.codesOf (s : List Char) : List String :=
  ((meaning? s).map codes).getD []

/-- A place in a line where a participant is written. -/
structure Place where
  /-- The participant. -/
  operand : Operand
  /-- The participant is a further target of a message. -/
  isTarget : Bool := false

/-- The code that a participant gets at its place. -/
def Place.code (p : Place) : String :=
  String.ofList (if p.isTarget then p.operand.name.map comma else p.operand.name)

/-- A line that names participants as it is written. -/
inductive NamingText where
  | message (w : MessageText)
  | note (w : NoteText)
  | reference (w : ReferenceText)
  | life (w : LifeText)
  | create (w : CreateText)

namespace NamingText

/-- The characters of the line. -/
def chars : NamingText → List Char
  | message w => w.chars
  | note w => w.chars
  | reference w => w.chars
  | life w => w.chars
  | create w => w.chars

/-- The places of the participants. -/
def places : NamingText → List Place
  | message w => ⟨w.left, false⟩ :: ⟨w.right, false⟩ :: w.further.map fun l => ⟨l.operand, true⟩
  | note w => w.list.operands.map fun o => ⟨o, false⟩
  | reference w => w.list.operands.map fun o => ⟨o, false⟩
  | life w => [⟨w.operand, false⟩]
  | create w => [⟨w.operand, false⟩]

/-- The line is read as what it is written as.  Only a message that begins with a plain name has to
be checked, because the name may be a keyword. -/
def Fits : NamingText → Prop
  | message w => w.parallel = none → w.left.isQuoted = false → Line.IsMessage w.chars
  | _ => True

/-- A line mentions the codes of its places. -/
theorem codesOf_chars (u : NamingText) (h : u.Fits) :
    Line.codesOf u.chars = u.places.map Place.code := by
  unfold Line.codesOf
  cases u with
  | message w =>
    have hmessage : Line.IsMessage w.chars := by
      cases hparallel : w.parallel with
      | some gap => exact w.isMessage_chars (.inl (by rw [hparallel]; rfl))
      | none =>
        cases hquoted : w.left.isQuoted with
        | true => exact w.isMessage_chars (.inr hquoted)
        | false => exact h hparallel hquoted
    rw [chars, w.meaning?_chars hmessage, places, List.map_cons, List.map_cons, List.map_map]
    rfl
  | note w =>
    have hcodes : w.line.codes = w.list.codes := by
      unfold NoteText.line
      split <;> rfl
    rw [chars, w.meaning?_chars, Option.map_some, Option.getD_some, hcodes, places, List.map_map]
    rfl
  | reference w =>
    have hcodes : w.line.codes = w.list.codes := by
      unfold ReferenceText.line
      split <;> rfl
    rw [chars, w.meaning?_chars, Option.map_some, Option.getD_some, hcodes, places, List.map_map]
    rfl
  | life w =>
    rw [chars, w.meaning?_chars]
    rfl
  | create w =>
    rw [chars, w.meaning?_chars]
    rfl

end NamingText

lemma map_comma_eq_self_iff {x : List Char} : x.map comma = x ↔ '&' ∉ x := by
  have hcomma (c : Char) : comma c = c ↔ c ≠ '&' := by
    refine ⟨?_, comma_of_ne⟩
    rintro h rfl
    cases h
  induction x with
  | nil => simp
  | cons c x ih =>
    rw [List.map_cons, List.cons.injEq, List.mem_cons, not_or]
    exact and_congr ((hcomma c).trans ne_comm) ih

/-- A participant gets its name as code, but for a further target with an ampersand in its name. -/
theorem Place.code_eq_iff (p : Place) :
    p.code = p.operand.code ↔ (p.isTarget = true → '&' ∉ p.operand.name) := by
  rw [code, Operand.code, String.ofList_inj]
  cases p.isTarget with
  | false => simp
  | true => simp [map_comma_eq_self_iff]

/-! ### Participants -/

namespace Reader

variable {r : Reader} {key : String}

lemma participants_attach (r : Reader) (note : ArrowNote) :
    (r.attach note).participants = r.participants := by
  unfold attach
  split <;> rfl

lemma participants_enterBox (r : Reader) (code : String) :
    (r.enterBox code).participants = r.participants := by
  unfold enterBox
  split
  · split <;> rfl
  · rfl

lemma participants_closeBlock (r : Reader) (b : OpenBlock) (text : String) :
    (r.closeBlock b text).participants = r.participants := by
  cases b with
  | arrowNote position color => exact participants_attach _ _
  | _ => rfl

lemma mem_keys_change {code : String} {f : Participant → Participant} :
    key ∈ (r.change code f).participants.keys ↔ key ∈ r.participants.keys := by
  rw [change, Keyed.keys_modify]

lemma mem_keys_declare {d : Declaration} :
    key ∈ (r.declare d).participants.keys ↔ key ∈ r.participants.keys ∨ key = d.code := by
  unfold declare
  dsimp only
  rw [participants_enterBox]
  split
  · exact mem_keys_change.trans mem_keys_mention
  · exact mem_keys_change.trans mem_keys_mention

/-- A line declares the participants that it mentions. -/
lemma mem_keys_apply {l : Line} :
    key ∈ (r.apply l).participants.keys ↔ key ∈ r.participants.keys ∨ key ∈ l.codes := by
  have hnone {r' : Reader} (h : r'.participants = r.participants) :
      key ∈ r'.participants.keys ↔ key ∈ r.participants.keys ∨ key ∈ ([] : List String) := by
    rw [h]
    simp
  cases l with
  | declare d => exact mem_keys_declare.trans (or_congr_right List.mem_singleton.symm)
  | create code =>
    exact (mem_keys_change (r := r.mention code)).trans
      (mem_keys_mention.trans (or_congr_right List.mem_singleton.symm))
  | life kind code color => exact mem_keys_mention.trans (or_congr_right List.mem_singleton.symm)
  | border m => exact mem_keys_mention.trans (or_congr_right List.mem_singleton.symm)
  | note head text => exact mem_keys_mentionAll
  | noteStart head => exact mem_keys_mentionAll
  | reference participants color text => exact mem_keys_mentionAll
  | referenceStart participants color => exact mem_keys_mentionAll
  | message m =>
    refine (mem_keys_mentionAll (r := (r.mention m.left).mention m.right)).trans ?_
    rw [mem_keys_mention, mem_keys_mention, Line.codes, List.mem_cons, List.mem_cons, or_assoc,
      or_assoc]
  | arrowNote position color text => exact hnone (participants_attach _ _)
  | fragmentElse condition =>
    refine hnone ?_
    show (r.splitFragment condition).participants = _
    unfold splitFragment
    split <;> rfl
  | fragmentEnd =>
    refine hnone ?_
    show r.closeFragment.participants = _
    unfold closeFragment
    split <;> rfl
  | _ => exact hnone rfl

lemma mem_keys_readLine {s : List Char} : key ∈ (r.readLine s).participants.keys ↔
    key ∈ r.participants.keys ∨ key ∈ Line.codesOf s := by
  have hnone : key ∈ r.participants.keys ↔
      key ∈ r.participants.keys ∨ key ∈ ([] : List String) := by
    simp
  unfold readLine Line.codesOf Line.meaning?
  split
  · exact hnone
  · split
    · exact hnone
    · cases Line.read? s with
      | none => exact hnone
      | some l => exact mem_keys_apply

/-- A line within a block declares nothing. -/
lemma mem_keys_step {line : SourceLine} : key ∈ (r.step line).participants.keys ↔
    key ∈ r.participants.keys ∨ r.block = none ∧ key ∈ Line.codesOf line.text := by
  unfold step
  cases hblock : r.block with
  | none => simpa using mem_keys_readLine
  | some b =>
    dsimp only
    split
    · rw [participants_closeBlock]
      simp
    · simp

/-- The line is one of the given ones, and it stands outside of blocks. -/
def Meets (lines : List SourceLine) (line : SourceLine) : Prop :=
  ∃ before after, lines = before ++ line :: after ∧ (before.foldl step {}).block = none

lemma meets_concat {lines : List SourceLine} {last line : SourceLine} :
    Meets (lines ++ [last]) line ↔
      Meets lines line ∨ line = last ∧ (lines.foldl step {}).block = none := by
  constructor
  · rintro ⟨before, after, hlines, hblock⟩
    rcases List.eq_nil_or_concat' after with rfl | ⟨after, line', rfl⟩
    · obtain ⟨rfl, hline⟩ := List.append_inj' hlines rfl
      exact .inr ⟨(List.cons.inj hline).1.symm, hblock⟩
    · rw [← List.cons_append, ← List.append_assoc] at hlines
      exact .inl ⟨before, after, (List.append_inj' hlines rfl).1, hblock⟩
  · rintro (⟨before, after, rfl, hblock⟩ | ⟨rfl, hblock⟩)
    · exact ⟨before, after ++ [last], by simp, hblock⟩
    · exact ⟨lines, [], rfl, hblock⟩

/-- The participants that lines declare are those that the lines outside of blocks mention. -/
theorem mem_keys_foldl {lines : List SourceLine} :
    key ∈ (lines.foldl step {}).participants.keys ↔
      ∃ line, Meets lines line ∧ key ∈ Line.codesOf line.text := by
  induction lines using List.reverseRecOn with
  | nil =>
    constructor
    · exact fun h => nomatch h
    · rintro ⟨line, ⟨before, after, hnil, -⟩, -⟩
      cases before <;> cases hnil
  | append_singleton lines last ih =>
    rw [List.foldl_append, List.foldl_cons, List.foldl_nil, mem_keys_step, ih]
    constructor
    · rintro (⟨line, hline, hkey⟩ | ⟨hblock, hkey⟩)
      · exact ⟨line, meets_concat.2 (.inl hline), hkey⟩
      · exact ⟨last, meets_concat.2 (.inr ⟨rfl, hblock⟩), hkey⟩
    · rintro ⟨line, hline, hkey⟩
      rcases meets_concat.1 hline with hline | ⟨rfl, hblock⟩
      · exact .inl ⟨line, hline, hkey⟩
      · exact .inr ⟨hblock, hkey⟩

end Reader

namespace Diagram

/-- The participants of a diagram that was read are those that its lines mention, each one once.  A
line mentions each participant by its name, at whatever place it is written, with one exception:
further targets of a message with an ampersand in their names. -/
theorem participants_read {text : String} {d : Diagram} (h : Diagram.read text = .ok d) :
    d.participants.keys.Nodup ∧
      (∀ code, code ∈ d.participants.keys ↔
        ∃ line, Reader.Meets (Source.lines text) line ∧ code ∈ Line.codesOf line.text) ∧
      ∀ u : NamingText, u.Fits → Line.codesOf u.chars = u.places.map Place.code ∧
        ∀ p ∈ u.places, p.code = p.operand.code ↔ (p.isTarget = true → '&' ∉ p.operand.name) := by
  obtain ⟨-, rfl⟩ := Fault.check_eq_ok_iff.1 h
  exact ⟨Keyed.nodup _, fun _ => Reader.mem_keys_foldl,
    fun u hu => ⟨u.codesOf_chars hu, fun p _ => p.code_eq_iff⟩⟩

/-- A name in quotation marks as the end of a message, as a further target, in a note and in the
lines of a lifeline: there is one participant. -/
theorem participants_read_mixed :
    let text := "\"B C\" -> A\nA -> D & \"B C\"\nnote over A, \"B C\" : x\n" ++
      "create \"B C\"\nactivate \"B C\""
    ∃ d, Diagram.read text = .ok d ∧ d.participants.keys.count "B C" = 1 ∧
      Line.codesOf "note over A, \"B C\" : x".toList = ["A", "B C"] := by
  intro text
  obtain ⟨d, hread, -⟩ := Fault.exists_of_any (by decide +kernel :
    (Diagram.read text).toOption.any (fun _ => true) = true)
  obtain ⟨hnodup, hmem, hcodes⟩ := participants_read hread
  let blank : Blanks1 := ⟨⟨[' '], by decide⟩, by decide⟩
  let w : NoteText :=
    { shape := ⟨"note".toList, "note", by decide, by decide⟩, shapeGap := blank
      side := ⟨"over".toList, "over", by decide, by decide⟩, ofWord := none, listGap := blank
      list := ⟨.plain ['A'] (by decide) (by decide),
        [⟨[], [' '], .quoted "B C".toList (by decide) (by decide), by decide, by decide⟩]⟩
      endGap := ⟨[' '], by decide⟩
      ending := ⟨⟨some [' ', 'x'], by decide⟩, none, nofun⟩ }
  have hchars : "note over A, \"B C\" : x".toList = (NamingText.note w).chars := by decide
  have hnote : Line.codesOf "note over A, \"B C\" : x".toList = ["A", "B C"] := by
    rw [hchars, (hcodes (.note w) trivial).1]
    rfl
  have hmeets : Reader.Meets (Source.lines text)
      ⟨"note over A, \"B C\" : x".toList, "note over A, \"B C\" : x".toList⟩ := by
    refine ⟨(["\"B C\" -> A", "A -> D & \"B C\""].map fun s => ⟨s.toList, s.toList⟩),
      (["create \"B C\"", "activate \"B C\""].map fun s => ⟨s.toList, s.toList⟩), ?_, ?_⟩
    · decide +kernel
    · exact Option.isNone_iff_eq_none.1 (by decide +kernel)
  refine ⟨d, hread, ?_, hnote⟩
  exact List.count_eq_one_of_mem hnodup ((hmem _).2 ⟨_, hmeets, by rw [hnote]; decide⟩)

/-- The name of a further target with an ampersand stands for another participant than the same name
at the end of a message. -/
theorem not_participants_read_ampersand :
    ∃ d, Diagram.read "\"A&B\" -> C\nC -> D & \"A&B\"" = .ok d ∧
      d.participants.keys = ["A&B", "C", "D", "A,B"] := by
  obtain ⟨d, hread, hkeys⟩ := Fault.exists_of_any (by decide +kernel :
    (Diagram.read "\"A&B\" -> C\nC -> D & \"A&B\"").toOption.any
      (fun d => d.participants.keys = ["A&B", "C", "D", "A,B"]) = true)
  exact ⟨d, hread, of_decide_eq_true hkeys⟩

end Diagram

end Sequence
end UmlDraw
