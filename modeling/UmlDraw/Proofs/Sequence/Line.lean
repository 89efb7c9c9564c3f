/-
# What the lines of a sequence diagram can mean

Every form of a line is made of honest scans, so what it can mean is known from its last step.  Only
the last form gives messages, and it gives nothing else.

Most of the other forms begin with a keyword.  A line that begins with another keyword, or with no
keyword at all, is passed over by them, so it is read by a form of its own.

The main statements are

* the instances of `Scan.Honest`;
* `Sequence.Line.whole_of_read?`: a line that means a message is read as one;
* `Sequence.Line.read?_eq_some`: the first form that fits decides;
* `Sequence.Line.fails_page` and the lemmas behind it: forms that pass over a text.
-/
import UmlDraw.Proofs.Text.Keyword
import UmlDraw.Proofs.Text.Result
import UmlDraw.Sequence.Line

namespace UmlDraw
namespace Sequence

open Scan

namespace Line

/-! ### The parts of the forms -/

/-- One of several spellings. -/
instance {α : Type} {p : String → Scan α} [∀ s, (p s).Honest] (words : List String) :
    (Scan.anyOf (words.map p)).Honest :=
  Honest.anyOf (List.forall_mem_map.2 fun _ _ => inferInstance)

instance : participant.Honest := by
  unfold participant
  infer_instance

instance : writtenParticipants.Honest := by
  unfold writtenParticipants
  infer_instance

instance : startMark.Honest := by
  unfold startMark
  infer_instance

instance : endMark.Honest := by
  unfold endMark
  infer_instance

instance : Arrow.modifier.Honest := by
  unfold Arrow.modifier
  infer_instance

instance : arrow.Honest := by
  unfold arrow
  refine @Honest.captured _ _ (Yields.honest (Q := fun _ => True) ?_)
  iterate 7 refine Yields.bind fun _ => ?_
  exact Yields.pure trivial

instance : activation.Honest := by
  unfold activation
  infer_instance

instance : labelAtEnd.Honest := by
  unfold labelAtEnd
  infer_instance

instance : digits.Honest := by
  unfold digits
  infer_instance

instance : signedDigits.Honest := by
  unfold signedDigits
  infer_instance

instance : plainBoxTitle.Honest := by
  unfold plainBoxTitle
  infer_instance

instance : readAlias.Honest := by
  unfold readAlias
  infer_instance

instance : stereotype.Honest := by
  unfold stereotype
  infer_instance

instance : order.Honest := by
  unfold order
  infer_instance

instance : textAtEnd.Honest := by
  unfold textAtEnd
  infer_instance

instance : parallelMark.Honest := by
  unfold parallelMark
  infer_instance

instance : writtenTargets.Honest := by
  unfold writtenTargets
  infer_instance

instance : noteHead.Honest := by
  unfold noteHead
  constructor
  iterate 9 refine Yields.bind fun _ => ?_
  exact Yields.pure trivial

instance : arrowNoteHead.Honest := by
  unfold arrowNoteHead
  constructor
  iterate 6 refine Yields.bind fun _ => ?_
  exact Yields.pure trivial

instance : referenceHead.Honest := by
  unfold referenceHead
  constructor
  iterate 8 refine Yields.bind fun _ => ?_
  exact Yields.pure trivial

instance : messageEnd.Honest := by
  unfold messageEnd
  constructor
  iterate 5 refine Yields.bind fun _ => ?_
  exact Yields.pure trivial

/-! ### Messages -/

/-- The line means something else than a message. -/
def IsOther : Line → Prop
  | .message _ => False
  | _ => True

lemma yields_isOther_settle {α : Type} {line : α → Line} (h : ∀ a, (line a).IsOther)
    (r : Except NumberError α) : (pure (settle line r) : Scan Line).Yields IsOther := by
  cases r with
  | ok a => exact Yields.pure (h a)
  | error e => exact Yields.pure trivial

/-- The forms for the page, the participants and the separators. -/
lemma yields_isOther_first : ∀ p ∈ [readTitle, readAutoNumber, readBoxStart, readBoxEnd, readDeclare,
    readCreate, readDivider, readDelay, readSpace, readLife, readReply], p.Yields IsOther := by
  simp only [List.forall_mem_cons]
  refine ⟨?_, ?_, ?_, ?_, ?_, ?_, ?_, ?_, ?_, ?_, ?_, List.forall_mem_nil _⟩
  · exact Yields.bind fun _ => Yields.pure trivial
  · unfold readAutoNumber
    iterate 4 refine Yields.bind fun _ => ?_
    refine yields_isOther_settle ?_ _
    exact fun _ => trivial
  · unfold readBoxStart
    iterate 5 refine Yields.bind fun _ => ?_
    exact Yields.pure trivial
  · unfold readBoxEnd
    iterate 4 refine Yields.bind fun _ => ?_
    exact Yields.pure trivial
  · unfold readDeclare
    iterate 14 refine Yields.bind fun _ => ?_
    refine yields_isOther_settle ?_ _
    exact fun _ => trivial
  · unfold readCreate
    iterate 4 refine Yields.bind fun _ => ?_
    exact Yields.pure trivial
  · unfold readDivider
    iterate 5 refine Yields.bind fun _ => ?_
    exact Yields.pure trivial
  · unfold readDelay
    iterate 2 refine Yields.bind fun _ => ?_
    exact Yields.pure trivial
  · unfold readSpace
    iterate 4 refine Yields.bind fun _ => ?_
    refine yields_isOther_settle ?_ _
    exact fun _ => trivial
  · unfold readLife
    iterate 6 refine Yields.bind fun _ => ?_
    exact Yields.pure trivial
  · unfold readReply
    iterate 4 refine Yields.bind fun _ => ?_
    exact Yields.pure trivial

/-- The forms of notes, references, fragments and messages at the border. -/
lemma yields_isOther_second : ∀ p ∈ [readNoteAcross, readNote, readNoteStart, readArrowNote,
    readArrowNoteStart, readReference, readReferenceStart, readFragmentStart, readFragmentElse,
    readFragmentEnd, readBorderLeft, readBorderRight], p.Yields IsOther := by
  simp only [List.forall_mem_cons]
  refine ⟨?_, ?_, ?_, ?_, ?_, ?_, ?_, ?_, ?_, ?_, ?_, ?_, List.forall_mem_nil _⟩
  · unfold readNoteAcross
    iterate 5 refine Yields.bind fun _ => ?_
    refine Yields.bind fun text => ?_
    cases text with
    | none => exact Yields.pure trivial
    | some t => exact Yields.pure trivial
  · exact Yields.bind fun _ => Yields.bind fun _ => Yields.pure trivial
  · exact Yields.bind fun _ => Yields.pure trivial
  · exact Yields.bind fun _ => Yields.bind fun _ => Yields.pure trivial
  · exact Yields.bind fun _ => Yields.pure trivial
  · exact Yields.bind fun _ => Yields.bind fun _ => Yields.pure trivial
  · exact Yields.bind fun _ => Yields.pure trivial
  · unfold readFragmentStart
    iterate 6 refine Yields.bind fun _ => ?_
    exact Yields.pure trivial
  · unfold readFragmentElse
    iterate 6 refine Yields.bind fun _ => ?_
    exact Yields.pure trivial
  · unfold readFragmentEnd
    iterate 2 refine Yields.bind fun _ => ?_
    exact Yields.pure trivial
  · unfold readBorderLeft
    iterate 6 refine Yields.bind fun _ => ?_
    exact Yields.bind fun _ => Yields.pure trivial
  · unfold readBorderRight
    iterate 6 refine Yields.bind fun _ => ?_
    exact Yields.bind fun _ => Yields.pure trivial

/-- A line that means a message is read as one. -/
theorem whole_of_read? {s : List Char} {m : MessageLine} (h : read? s = some (.message m)) :
    readMessage.whole s = some (.message m) := by
  obtain ⟨p, hp, hread⟩ := List.exists_of_findSome?_eq_some h
  have hforms : forms = [readTitle, readAutoNumber, readBoxStart, readBoxEnd, readDeclare, readCreate,
      readDivider, readDelay, readSpace, readLife, readReply] ++ ([readNoteAcross, readNote,
        readNoteStart, readArrowNote, readArrowNoteStart, readReference, readReferenceStart,
        readFragmentStart, readFragmentElse, readFragmentEnd, readBorderLeft, readBorderRight] ++
          [readMessage]) := rfl
  rw [hforms, List.mem_append, List.mem_append, List.mem_singleton] at hp
  rcases hp with hp | hp | rfl
  · exact ((yields_isOther_first p hp).of_whole hread).elim
  · exact ((yields_isOther_second p hp).of_whole hread).elim
  · exact hread

/-! ### Keywords at the beginning -/

section Keywords

/-- What a line means: the forms before the right one have no reading of it. -/
lemma read?_eq_some {p : Scan Line} {s : List Char} {l : Line} (n : Nat) (hn : forms[n]? = some p)
    (hbefore : ∀ q ∈ forms.take n, q.whole s = none) (hp : p.whole s = some l) :
    read? s = some l := by
  obtain ⟨hlt, rfl⟩ := List.getElem?_eq_some_iff.1 hn
  rw [read?, ← List.take_append_drop n forms, List.findSome?_append,
    List.findSome?_eq_none_iff.2 hbefore, Option.none_or, List.drop_eq_getElem_cons hlt,
    List.findSome?_cons, hp]

/-- None of the words is one of the others; they differ in a letter. -/
def AllDiffer (words others : List String) : Prop :=
  ∀ word ∈ words, ∀ v ∈ others, differ v.toList word.toList = true

instance (words others : List String) : Decidable (AllDiffer words others) :=
  inferInstanceAs (Decidable (∀ word ∈ words, ∀ v ∈ others, differ v.toList word.toList = true))

/-- The words are made of letters. -/
def AllLetters (words : List String) : Prop :=
  ∀ v ∈ words, v.toList ≠ [] ∧ ∀ k ∈ v.toList, Letter.isWord k = true

instance (words : List String) : Decidable (AllLetters words) :=
  inferInstanceAs
    (Decidable (∀ v ∈ words, v.toList ≠ [] ∧ ∀ k ∈ v.toList, Letter.isWord k = true))

/-- The text does not begin with one of the words, however they are spelled. -/
def Lacks (words : List String) (s : List Char) : Prop :=
  ∀ v ∈ words, (spelled v.toList).Fails s

variable {words others : List String} {s : List Char}

namespace Lacks

lemma of_word (w : WrittenWord words) (h : AllDiffer words others) (s : List Char) :
    Lacks others (w.chars ++ s) := by
  intro v hv
  obtain ⟨word, hword, hspells⟩ := w.spells
  exact fails_spelled (h word hword v hv) hspells s

/-- A text that begins with no letter begins with no word. -/
lemma of_head (hwords : AllLetters words) (hs : ∀ c ∈ s.head?, Letter.isWord c = false) :
    Lacks words s :=
  fun v hv => fails_spelled_of_head (hwords v hv).1 (hwords v hv).2 hs

lemma mono (h : Lacks words s) (hothers : others ⊆ words) : Lacks others s :=
  fun v hv => h v (hothers hv)

lemma keyword (h : Lacks words s) {v : String} (hv : v ∈ words) : (Scan.keyword v).Fails s :=
  (h v hv).bind _

lemma oneOf (h : Lacks words s) (hothers : others ⊆ words) : (Scan.oneOf others).Fails s := by
  refine Fails.bind (fails_anyOf fun p hp => ?_) _
  obtain ⟨v, hv, rfl⟩ := List.mem_map.1 hp
  exact h v (hothers hv)

end Lacks

/-- The words that lines about the display begin with. -/
def displayWords : List String :=
  ["hide", "show", "newpage", "ignore"]

/-- A line about the display begins with its own words. -/
lemma not_display (h : Lacks displayWords s) (hne : s ≠ []) :
    hidesFootbox.reads s = false ∧ (s.isEmpty || isDisplay.begins s) = false := by
  have hhides : hidesFootbox.Fails s := (h.keyword (by decide)).bind _
  have hdisplay : isDisplay.Fails s := by
    refine fails_anyOf ?_
    simp only [List.forall_mem_cons]
    exact ⟨(h.keyword (by decide)).bind _, (h.keyword (by decide)).bind _,
      (h.keyword (by decide)).bind _, (h.keyword (by decide)).bind _, List.forall_mem_nil _⟩
  constructor
  · rw [reads, whole, hhides]
    rfl
  · rw [begins, start, hdisplay, List.isEmpty_eq_false_iff.2 hne]
    rfl

/-- The words that the forms for the page begin with. -/
def pageWords : List String :=
  ["title", "autonumber", "box", "end"]

lemma fails_page (h : Lacks pageWords s) :
    ∀ p ∈ [readTitle, readAutoNumber, readBoxStart, readBoxEnd], p.Fails s := by
  simp only [List.forall_mem_cons]
  exact ⟨((h.keyword (by decide)).bind _).bind _, (h.keyword (by decide)).bind _,
    (h.keyword (by decide)).bind _, (h.keyword (by decide)).bind _, List.forall_mem_nil _⟩

/-- The words that declarations begin with. -/
def declareWords : List String :=
  "create" :: ParticipantKind.all.map ParticipantKind.name

lemma fails_declare (h : Lacks declareWords s) : ∀ p ∈ [readDeclare, readCreate], p.Fails s := by
  have hcreate : (keyword "create").Fails s := h.keyword (List.mem_cons_self ..)
  have hkind := h.oneOf (List.subset_cons_self _ _)
  simp only [List.forall_mem_cons]
  exact ⟨Fails.optional_bind ((hcreate.bind _).bind _) (hkind.bind _), hcreate.bind _,
    List.forall_mem_nil _⟩

/-- The text begins with no mark of a separator. -/
def Unmarked (s : List Char) : Prop :=
  ∀ c ∈ s.head?, c ≠ '=' ∧ c ≠ '.' ∧ c ≠ '|'

lemma unmarked_of_word (w : WrittenWord words) (h : AllLetters words) (s : List Char) :
    Unmarked (w.chars ++ s) := by
  intro c hc
  have hword := w.isWord_head h s c hc
  have hne {d : Char} (hd : Letter.isWord d = false) : c ≠ d := by
    rintro rfl
    rw [hd] at hword
    cases hword
  exact ⟨hne (by decide), hne (by decide), hne (by decide)⟩

lemma fails_separators (h : Unmarked s) :
    ∀ p ∈ [readDivider, readDelay, readSpace], p.Fails s := by
  have htext {v : String} {c : Char} {cs : List Char} (hv : v.toList = c :: cs)
      (hs : ∀ d ∈ s.head?, d ≠ c) : (text v).Fails s := by
    refine fails_text ?_
    rw [hv]
    cases s with
    | nil => rfl
    | cons d s => exact if_neg (Ne.symm (hs d rfl))
  simp only [List.forall_mem_cons]
  exact ⟨(htext rfl fun c hc => (h c hc).1).bind _, (htext rfl fun c hc => (h c hc).2.1).bind _,
    (htext rfl fun c hc => (h c hc).2.2).bind _, List.forall_mem_nil _⟩

/-- The words that the first forms begin with. -/
def firstWords : List String :=
  pageWords ++ declareWords

lemma fails_first (h : Lacks firstWords s) (hs : Unmarked s) : ∀ p ∈ forms.take 9, p.Fails s := by
  have hforms : forms.take 9 = [readTitle, readAutoNumber, readBoxStart, readBoxEnd] ++
      ([readDeclare, readCreate] ++ [readDivider, readDelay, readSpace]) := rfl
  rw [hforms, List.forall_mem_append, List.forall_mem_append]
  exact ⟨fails_page (h.mono (List.subset_append_left _ _)),
    fails_declare (h.mono (List.subset_append_right _ _)), fails_separators hs⟩

/-- The words for events of lifelines and for returns. -/
def lifeWords : List String :=
  ["activate", "deactivate", "destroy", "return"]

lemma fails_life (h : Lacks lifeWords s) : ∀ p ∈ [readLife, readReply], p.Fails s := by
  have hlife : (oneOf ["activate", "deactivate", "destroy"]).Fails s := h.oneOf (by decide)
  simp only [List.forall_mem_cons]
  exact ⟨hlife.bind _, (h.keyword (by decide)).bind _, List.forall_mem_nil _⟩

lemma fails_note (h : Lacks noteShapes s) :
    ∀ p ∈ [readNoteAcross, readNote, readNoteStart, readArrowNote, readArrowNoteStart],
      p.Fails s := by
  have hshape : (oneOf noteShapes).Fails s := h.oneOf (List.Subset.refl _)
  have hnote : (keyword "note").Fails s := h.keyword (by decide)
  simp only [List.forall_mem_cons]
  exact ⟨hshape.bind _, (hshape.bind _).bind _, (hshape.bind _).bind _, (hnote.bind _).bind _,
    (hnote.bind _).bind _, List.forall_mem_nil _⟩

/-- The words that references and the starts of fragments begin with. -/
def startWords : List String :=
  ["ref", "alt", "loop", "opt", "par2", "par", "break", "critical", "group"]

lemma fails_start (h : Lacks startWords s) :
    ∀ p ∈ [readReference, readReferenceStart, readFragmentStart], p.Fails s := by
  have hreference : (keyword "ref").Fails s := h.keyword (List.mem_cons_self ..)
  have hstart := h.oneOf (List.subset_cons_self _ _)
  simp only [List.forall_mem_cons]
  exact ⟨(hreference.bind _).bind _, (hreference.bind _).bind _, hstart.bind _,
    List.forall_mem_nil _⟩

/-- The words that references and the lines of fragments begin with. -/
def blockWords : List String :=
  ["ref", "end", "else", "also", "alt", "loop", "opt", "par2", "par", "break", "critical", "group"]

lemma fails_block (h : Lacks blockWords s) :
    ∀ p ∈ [readReference, readReferenceStart, readFragmentStart, readFragmentElse,
      readFragmentEnd], p.Fails s := by
  have hstart := fails_start (h.mono (by decide))
  have helse : (oneOf ["else", "also"]).Fails s := h.oneOf (by decide)
  simp only [List.forall_mem_cons] at hstart ⊢
  exact ⟨hstart.1, hstart.2.1, hstart.2.2.1, helse.bind _, (h.keyword (by decide)).bind _,
    List.forall_mem_nil _⟩

/-- A line with no letter and no mark of a separator in front is left to the forms for messages. -/
lemma fails_of_head (hletter : ∀ c ∈ s.head?, Letter.isWord c = false) (hs : Unmarked s) :
    ∀ p ∈ forms.take 21, p.Fails s := by
  have hforms : forms.take 21 = forms.take 9 ++ ([readLife, readReply] ++
      ([readNoteAcross, readNote, readNoteStart, readArrowNote, readArrowNoteStart] ++
        [readReference, readReferenceStart, readFragmentStart, readFragmentElse,
          readFragmentEnd])) := rfl
  rw [hforms, List.forall_mem_append, List.forall_mem_append, List.forall_mem_append]
  exact ⟨fails_first (.of_head (by decide) hletter) hs, fails_life (.of_head (by decide) hletter),
    fails_note (.of_head (by decide) hletter), fails_block (.of_head (by decide) hletter)⟩

end Keywords

end Line
end Sequence
end UmlDraw
