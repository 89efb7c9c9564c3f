/-
# The participants of a sequence diagram that was read

A fragment holds its elements in sections, and the *leaves* of a list of elements are those that
hold no elements, in the order of the document.  Whatever fragment a line opens, splits or closes,
reading it at most appends a leaf.  A leaf that is a message, or an event of a lifeline, names only
participants that are declared by then, because its line declares them first.

The main statements are

* `Sequence.Reader.Declared.step`: a line keeps this up;
* `Sequence.Diagram.within_read`: in a diagram that was read, whatever the leaves name has a column.
-/
import Mathlib.Tactic.Lemma
import UmlDraw.Proofs.Data.Keyed
import UmlDraw.Proofs.Data.Outcome
import UmlDraw.Sequence.Reader

namespace UmlDraw
namespace Sequence

mutual

/-- The leaves of an element. -/
def leaves : Element → List Element
  | .fragment ⟨_, _, _, sections⟩ => leavesOfSections sections
  | e => [e]

/-- The leaves of the elements of sections. -/
def leavesOfSections : List (Section Element) → List Element
  | [] => []
  | ⟨_, elements⟩ :: rest => leavesAll elements ++ leavesOfSections rest

/-- The leaves of elements. -/
def leavesAll : List Element → List Element
  | [] => []
  | e :: rest => leaves e ++ leavesAll rest

end

lemma leavesAll_append (es es' : List Element) :
    leavesAll (es ++ es') = leavesAll es ++ leavesAll es' := by
  induction es with
  | nil => rfl
  | cons e rest ih => simp [leavesAll, ih]

lemma leavesOfSections_append (ss ss' : List (Section Element)) :
    leavesOfSections (ss ++ ss') = leavesOfSections ss ++ leavesOfSections ss' := by
  induction ss with
  | nil => rfl
  | cons s rest ih => simp [leavesOfSections, ih]

lemma leavesOfSections_singleton (condition : String) (es : List Element) :
    leavesOfSections [⟨condition, es⟩] = leavesAll es := by
  simp [leavesOfSections]

/-- A message joins participants among the given codes, unless it is a return; a return opens and
closes nothing by a shortcut, and has no further targets. -/
structure Message.Within (codes : List String) (m : Message) : Prop where
  activation_eq : m.isReturn = true → m.activation = none
  multicast_eq : m.isReturn = true → m.multicast = []
  mem : m.isReturn = false → ∀ code ∈ m.source :: m.target :: m.multicast, code ∈ codes

namespace Element

/-- The participants that the element joins or whose lifelines it changes are among the given
codes. -/
def Within (codes : List String) : Element → Prop
  | .message m => m.Within codes
  | .border m => m.participant ∈ codes
  | .life e => e.participant ∈ codes
  | _ => True

lemma Within.mono {codes codes' : List String} (hcodes : ∀ code ∈ codes, code ∈ codes')
    {e : Element} (h : e.Within codes) : e.Within codes' := by
  cases e with
  | message m =>
    exact ⟨h.activation_eq, h.multicast_eq, fun hm code hcode => hcodes code (h.mem hm code hcode)⟩
  | border m => exact hcodes _ h
  | life e => exact hcodes _ h
  | _ => trivial

/-- The element without the note at it. -/
def bare : Element → Element
  | .message m => .message { m with note := none }
  | e => e

lemma within_bare {codes : List String} {e : Element} : e.bare.Within codes ↔ e.Within codes := by
  cases e with
  | message m =>
    exact ⟨fun h => ⟨h.activation_eq, h.multicast_eq, h.mem⟩,
      fun h => ⟨h.activation_eq, h.multicast_eq, h.mem⟩⟩
  | _ => exact Iff.rfl

end Element

namespace Reader

/-- The leaves before the open section of open fragments. -/
def trunk : List OpenFragment → List Element
  | [] => []
  | f :: rest => trunk rest ++ leavesAll f.before ++ leavesOfSections f.sections

/-- All leaves so far. -/
def leavesSoFar (r : Reader) : List Element :=
  trunk r.fragments ++ leavesAll r.elements

lemma leaves_close (f : OpenFragment) (es : List Element) :
    leaves (OpenFragment.close f es) = leavesOfSections f.sections ++ leavesAll es := by
  rw [OpenFragment.close, leaves, leavesOfSections_append, leavesOfSections_singleton]

lemma leavesAll_unwind (fs : List OpenFragment) (es : List Element) :
    leavesAll (unwind fs es) = trunk fs ++ leavesAll es := by
  induction fs generalizing es with
  | nil => simp [unwind, trunk]
  | cons f rest ih => simp [unwind, trunk, ih, leavesAll_append, leavesAll, leaves_close]

lemma leavesSoFar_openFragment (r : Reader) (kind : String) (color : Option String)
    (label : String) : (r.openFragment kind color label).leavesSoFar = r.leavesSoFar := by
  simp [openFragment, leavesSoFar, trunk, leavesAll, leavesOfSections]

lemma leavesSoFar_splitFragment (r : Reader) (condition : String) :
    (r.splitFragment condition).leavesSoFar = r.leavesSoFar := by
  unfold splitFragment
  split
  · rfl
  · next f rest hfragments =>
    simp [leavesSoFar, hfragments, trunk, leavesAll, leavesOfSections_append,
      leavesOfSections_singleton]

lemma leavesSoFar_closeFragment (r : Reader) : r.closeFragment.leavesSoFar = r.leavesSoFar := by
  unfold closeFragment
  split
  · rfl
  · next f rest hfragments =>
    simp [leavesSoFar, hfragments, trunk, leavesAll, leavesAll_append, leaves_close]

/-- All leaves so far name declared participants only, and a participant is entered under its
code. -/
structure Declared (r : Reader) : Prop where
  within : ∀ e ∈ r.leavesSoFar, e.Within r.participants.keys
  code_eq : ∀ code p, r.participants.get? code = some p → p.code = code

namespace Declared

variable {r r' : Reader}

/-- What else the reader keeps may change. -/
lemma of_eq (h : r.Declared) (hleaves : r'.leavesSoFar = r.leavesSoFar)
    (hparticipants : r'.participants = r.participants) : r'.Declared where
  within := by
    rw [hleaves, hparticipants]
    exact h.within
  code_eq := by
    rw [hparticipants]
    exact h.code_eq

lemma add (h : r.Declared) {e : Element} (hleaf : leaves e = [e])
    (he : e.Within r.participants.keys) : (r.add e).Declared where
  within := by
    intro e' he'
    have hadd : (r.add e).leavesSoFar = r.leavesSoFar ++ [e] := by
      simp [Reader.add, leavesSoFar, leavesAll_append, leavesAll, hleaf]
    rw [hadd, List.mem_append, List.mem_singleton] at he'
    rcases he' with he' | rfl
    · exact h.within e' he'
    · exact he
  code_eq := h.code_eq

lemma mention (h : r.Declared) (code : String) : (r.mention code).Declared := by
  unfold Reader.mention
  split
  · exact h
  · refine ⟨?_, ?_⟩
    · intro e he
      exact (h.within e he).mono fun key hkey => Keyed.mem_keys_insert.2 (.inl hkey)
    · intro key p hp
      rw [Keyed.get?_insert] at hp
      split at hp
      · next hkey =>
        cases hp
        exact hkey.symm
      · exact h.code_eq key p hp

lemma change (h : r.Declared) (code : String) {f : Participant → Participant}
    (hf : ∀ p, (f p).code = p.code) : (r.change code f).Declared where
  within := by
    intro e he
    show e.Within (r.participants.modify code f).keys
    rw [Keyed.keys_modify]
    exact h.within e he
  code_eq := by
    intro key p hp
    rw [Reader.change, Keyed.get?_modify] at hp
    split at hp
    · obtain ⟨p', hp', rfl⟩ := Option.map_eq_some_iff.1 hp
      exact (hf p').trans (h.code_eq key p' hp')
    · exact h.code_eq key p hp

end Declared

lemma mem_keys_mention {r : Reader} {code key : String} :
    key ∈ (r.mention code).participants.keys ↔ key ∈ r.participants.keys ∨ key = code := by
  unfold mention
  split
  · next h =>
    constructor
    · exact Or.inl
    · rintro (hkey | rfl)
      · exact hkey
      · exact Keyed.contains_iff.1 h
  · exact Keyed.mem_keys_insert

lemma mem_keys_mentionAll {codes : List String} {r : Reader} {key : String} :
    key ∈ (r.mentionAll codes).participants.keys ↔ key ∈ r.participants.keys ∨ key ∈ codes := by
  induction codes generalizing r with
  | nil => simp [mentionAll]
  | cons code rest ih =>
    have hcons : r.mentionAll (code :: rest) = (r.mention code).mentionAll rest := rfl
    rw [hcons, ih, mem_keys_mention, List.mem_cons, or_assoc]

namespace Declared

variable {r : Reader}

lemma mentionAll (h : r.Declared) (codes : List String) : (r.mentionAll codes).Declared :=
  List.foldlRecOn codes Reader.mention h fun _ hr code _ => hr.mention code

lemma attach (h : r.Declared) (note : ArrowNote) : (r.attach note).Declared := by
  unfold Reader.attach
  split
  · exact h
  · exact h.of_eq rfl rfl

lemma enterBox (h : r.Declared) (code : String) : (r.enterBox code).Declared := by
  unfold Reader.enterBox
  split
  · split
    · exact h
    · exact h.of_eq rfl rfl
  · exact h

lemma closeBlock (h : r.Declared) (b : OpenBlock) (text : String) :
    (r.closeBlock b text).Declared := by
  have hclosed : ({ r with block := none } : Reader).Declared := h.of_eq rfl rfl
  cases b with
  | note head => exact hclosed.add rfl trivial
  | arrowNote position color => exact hclosed.attach _
  | reference participants color => exact hclosed.add rfl trivial

lemma declare (h : r.Declared) (d : Declaration) : (r.declare d).Declared := by
  unfold Reader.declare
  have hchange := (h.mention d.code).change d.code (f := fun p =>
    { p with
      displayName := d.displayName, kind := d.kind
      stereotype := d.stereotype.or p.stereotype, color := d.color.or p.color
      order := d.order.or p.order, isCreated := d.isCreated || p.isCreated }) fun _ => rfl
  refine enterBox ?_ d.code
  split
  · refine hchange.add rfl ?_
    show d.code ∈ ((r.mention d.code).participants.modify d.code _).keys
    rw [Keyed.keys_modify]
    exact mem_keys_mention.2 (.inr rfl)
  · exact hchange

lemma addMessage (h : r.Declared) {m : Message}
    (hm : (Element.message m).Within r.participants.keys) : (r.addMessage m).Declared :=
  (h.add rfl hm).of_eq rfl rfl

/-- A message names the participants of its line, whichever way it points. -/
lemma mem_codes_messageOf {m : MessageLine} {code : String}
    (h : code ∈ (messageOf m).source :: (messageOf m).target :: (messageOf m).multicast) :
    code = m.left ∨ code = m.right ∨ code ∈ m.multicast := by
  simp only [messageOf, List.mem_cons] at h
  cases hturned : m.arrow.isReverse with
  | true =>
    simp only [hturned, if_true] at h
    rcases h with h | h | h
    · exact .inr (.inl h)
    · exact .inl h
    · exact .inr (.inr h)
  | false => simpa [hturned] using h

lemma message (h : r.Declared) (m : MessageLine) :
    ((((r.mention m.left).mention m.right).mentionAll m.multicast).addMessage
      (messageOf m)).Declared := by
  refine (((h.mention m.left).mention m.right).mentionAll m.multicast).addMessage
    ⟨fun hreturn => absurd hreturn Bool.false_ne_true,
      fun hreturn => absurd hreturn Bool.false_ne_true, ?_⟩
  intro _ code hcode
  rw [mem_keys_mentionAll, mem_keys_mention, mem_keys_mention]
  rcases mem_codes_messageOf hcode with hleft | hright | hmulticast
  · exact .inl (.inl (.inr hleft))
  · exact .inl (.inr hright)
  · exact .inr hmulticast

lemma apply (h : r.Declared) (line : Line) : (r.apply line).Declared := by
  cases line with
  | title s => exact h.of_eq rfl rfl
  | autoNumber a => exact h.add rfl trivial
  | boxStart title color => exact h.of_eq rfl rfl
  | boxEnd => exact h.of_eq rfl rfl
  | declare d => exact h.declare d
  | create code =>
    refine ((h.mention code).change code (f := fun p => { p with isCreated := true })
      fun _ => rfl).add rfl ?_
    show code ∈ ((r.mention code).participants.modify code _).keys
    rw [Keyed.keys_modify]
    exact mem_keys_mention.2 (.inr rfl)
  | divider label => exact h.add rfl trivial
  | delay label => exact h.add rfl trivial
  | space size => exact h.add rfl trivial
  | life kind code color => exact (h.mention code).add rfl (mem_keys_mention.2 (.inr rfl))
  | reply label =>
    exact h.addMessage ⟨fun _ => rfl, fun _ => rfl, fun hm => absurd hm.symm Bool.false_ne_true⟩
  | note head text => exact (h.mentionAll head.participants).add rfl trivial
  | noteStart head => exact (h.mentionAll head.participants).of_eq rfl rfl
  | arrowNote position color text => exact h.attach _
  | arrowNoteStart position color => exact h.of_eq rfl rfl
  | reference participants color text => exact (h.mentionAll participants).add rfl trivial
  | referenceStart participants color => exact (h.mentionAll participants).of_eq rfl rfl
  | fragmentStart kind color label =>
    exact h.of_eq (r.leavesSoFar_openFragment kind color label) rfl
  | fragmentElse condition =>
    refine h.of_eq (r.leavesSoFar_splitFragment condition) ?_
    show (r.splitFragment condition).participants = _
    unfold splitFragment
    split <;> rfl
  | fragmentEnd =>
    refine h.of_eq r.leavesSoFar_closeFragment ?_
    show r.closeFragment.participants = _
    unfold closeFragment
    split <;> rfl
  | border m => exact (h.mention m.participant).add rfl (mem_keys_mention.2 (.inr rfl))
  | message m => exact h.message m
  | faulty e => exact h.of_eq rfl rfl

lemma readLine (h : r.Declared) (s : List Char) : (r.readLine s).Declared := by
  unfold Reader.readLine
  split
  · exact h.of_eq rfl rfl
  · split
    · exact h
    · split
      · exact h.apply _
      · exact h

/-- A line keeps it up that leaves name declared participants. -/
lemma step (h : r.Declared) (line : SourceLine) : (r.step line).Declared := by
  unfold Reader.step
  split
  · split
    · exact h.closeBlock _ _
    · exact h.of_eq rfl rfl
  · exact h.readLine _

lemma empty : ({} : Reader).Declared where
  within := by
    intro e he
    cases he
  code_eq := by
    intro code p hp
    cases hp

end Declared

mutual

lemma bare_leaves_annotate (notes : List (Nat × ArrowNote)) (n : Nat) (e : Element) :
    (leaves (annotate notes n e).1).map Element.bare = (leaves e).map Element.bare := by
  cases e with
  | message m => rfl
  | fragment f =>
    obtain ⟨kind, label, color, sections⟩ := f
    exact bare_leaves_annotateSections notes n sections
  | _ => rfl

lemma bare_leaves_annotateSections (notes : List (Nat × ArrowNote)) (n : Nat) :
    (sections : List (Section Element)) →
      (leavesOfSections (annotateSections notes n sections).1).map Element.bare =
        (leavesOfSections sections).map Element.bare
  | [] => rfl
  | ⟨condition, elements⟩ :: rest => by
    simp only [annotateSections, leavesOfSections, List.map_append]
    rw [bare_leaves_annotateAll notes n elements, bare_leaves_annotateSections notes _ rest]

lemma bare_leaves_annotateAll (notes : List (Nat × ArrowNote)) (n : Nat) :
    (es : List Element) →
      (leavesAll (annotateAll notes n es).1).map Element.bare = (leavesAll es).map Element.bare
  | [] => rfl
  | e :: rest => by
    simp only [annotateAll, leavesAll, List.map_append]
    rw [bare_leaves_annotate notes n e, bare_leaves_annotateAll notes _ rest]

end

lemma Declared.within_finish {r : Reader} (h : r.Declared) :
    ∀ e ∈ leavesAll r.finish.elements, e.Within r.participants.keys := by
  intro e he
  have hbare : e.bare ∈ (leavesAll (unwind r.fragments r.elements)).map Element.bare := by
    rw [← bare_leaves_annotateAll r.arrowNotes 0]
    exact List.mem_map_of_mem he
  obtain ⟨e', he', heq⟩ := List.mem_map.1 hbare
  rw [leavesAll_unwind] at he'
  exact Element.within_bare.1 (heq ▸ Element.within_bare.2 (h.within e' he'))

end Reader

namespace Diagram

/-- The codes of the columns from left to right. -/
def codes (d : Diagram) : List String :=
  d.columns.map Participant.code

lemma mem_codes_iff {d : Diagram} {code : String}
    (h : ∀ code p, d.participants.get? code = some p → p.code = code) :
    code ∈ d.codes ↔ code ∈ d.participants.keys := by
  rw [codes, columns, ((List.mergeSort_perm _ _).map Participant.code).mem_iff,
    Keyed.map_values h]

lemma nodup_codes {d : Diagram}
    (h : ∀ code p, d.participants.get? code = some p → p.code = code) : d.codes.Nodup := by
  rw [codes, columns, ((List.mergeSort_perm _ _).map Participant.code).nodup_iff,
    Keyed.map_values h]
  exact d.participants.nodup

lemma declared_read (text : String) :
    ((Source.lines text).foldl Reader.step {}).Declared :=
  List.foldlRecOn (Source.lines text) Reader.step Reader.Declared.empty fun _ hr line _ =>
    hr.step line

/-- The columns of a diagram that was read have different participants. -/
lemma nodup_codes_read {text : String} {d : Diagram} (h : Diagram.read text = .ok d) :
    d.codes.Nodup := by
  obtain ⟨-, rfl⟩ := Fault.check_eq_ok_iff.1 h
  exact nodup_codes (declared_read text).code_eq

/-- In a diagram that was read the participants that messages join and whose lifelines change all
have columns. -/
theorem within_read {text : String} {d : Diagram} (h : Diagram.read text = .ok d) :
    ∀ e ∈ leavesAll d.elements, e.Within d.codes := by
  obtain ⟨-, rfl⟩ := Fault.check_eq_ok_iff.1 h
  have hdeclared := declared_read text
  intro e he
  exact (hdeclared.within_finish e he).mono fun code hcode =>
    (mem_codes_iff hdeclared.code_eq).2 hcode

end Diagram
end Sequence
end UmlDraw
