/-
# The canonical notation of activity lines

Most lines can be written in several ways.  The canonical way writes keywords in small letters with
one blank between the parts of a line, and leaves out what is absent.  A line whose texts are words
is read back from it.

The main statements are

* `Line.read?_write`: what is written is read back;
* `Line.tidy_write`: what is written is a line that reaches the reader unchanged.
-/
import UmlDraw.Activity.Reader
import UmlDraw.Proofs.Text.Lines
import UmlDraw.Proofs.Text.Reading

namespace UmlDraw
namespace Activity

/-- A text of ASCII letters and digits that is not empty. -/
structure IsWord (s : String) : Prop where
  ne_nil : s.toList ≠ []
  alphanum : ∀ c ∈ s.toList, c.isAlphanum = true

instance : DecidablePred IsWord := fun s =>
  decidable_of_iff (s.toList ≠ [] ∧ s.toList.all Char.isAlphanum = true)
    ⟨fun h => ⟨h.1, List.all_eq_true.1 h.2⟩, fun h => ⟨h.1, List.all_eq_true.2 h.2⟩⟩

/-- The label of the box at the start of a loop, if there is one. -/
def LoopTest.startLabel : LoopTest → Option String
  | before => none
  | after label => label

namespace Line

/-- A label with what stands before and behind it, if there is a label. -/
def writeLabel (before behind : String) : Option String → String
  | none => ""
  | some s => before ++ s ++ behind

end Line

/-- The canonical notation of a step that is written as a line of its own. -/
def Step.write : Step → String
  | action label _ => ":" ++ label ++ ";"
  | start => "start"
  | stop => "stop"
  | finish => "end"
  | kill => "kill"
  | leave => "break"
  | arrow _ | note _ => ""

/-- The step has a canonical notation. -/
def Step.Canonical : Step → Prop
  | action label color => IsWord label ∧ color = none
  | start | stop | finish | kill | leave => True
  | arrow _ | note _ => False

instance : DecidablePred Step.Canonical
  | .action label color => inferInstanceAs (Decidable (IsWord label ∧ color = none))
  | .start | .stop | .finish | .kill | .leave => inferInstanceAs (Decidable True)
  | .arrow _ | .note _ => inferInstanceAs (Decidable False)

namespace Line

/-- The canonical notation of a line about the parts of an activity.  Other lines have none. -/
def write : Line → String
  | step s => s.write
  | choice c => "if (" ++ c.condition ++ ") then" ++ writeLabel " (" ")" c.thenLabel
  | elseIf _ condition label => "elseif (" ++ condition ++ ") then" ++ writeLabel " (" ")" label
  | otherwise label => "else" ++ writeLabel " (" ")" label
  | endChoice => "endif"
  | whileLoop l => "while (" ++ l.condition ++ ")" ++ writeLabel " is (" ")" l.againLabel
  | endWhile label => "endwhile" ++ writeLabel " (" ")" label
  | repeatLoop l => "repeat" ++ writeLabel " :" ";" l.test.startLabel
  | repeatWhile condition again out =>
    "repeat while (" ++ condition ++ ")" ++ writeLabel " is (" ")" again ++
      writeLabel " not (" ")" out
  | switch condition _ => "switch (" ++ condition ++ ")"
  | case label => "case (" ++ label ++ ")"
  | endSwitch => "endswitch"
  | fork isSplit => if isSplit then "split" else "fork"
  | forkAgain isSplit => if isSplit then "split again" else "fork again"
  | endFork isSplit => if isSplit then "end split" else "end fork"
  | partition name _ => "partition \"" ++ name ++ "\" \x7b"
  | closePartition => "\x7d"
  | title _ | lane _ | text _ | arrow _ => ""

/-- The line has a canonical notation: its texts are words, and it says nothing that the notation
leaves out. -/
def Canonical : Line → Prop
  | step s => s.Canonical
  | choice c => IsWord c.condition ∧ (∀ s ∈ c.thenLabel, IsWord s) ∧ c.elseLabel = none ∧
      c.color = none
  | elseIf before condition label => before = none ∧ IsWord condition ∧ ∀ s ∈ label, IsWord s
  | otherwise label | endWhile label => ∀ s ∈ label, IsWord s
  | whileLoop l => l.test = .before ∧ IsWord l.condition ∧ (∀ s ∈ l.againLabel, IsWord s) ∧
      l.exitLabel = none ∧ l.color = none
  | repeatLoop l => ∃ start, (∀ s ∈ start, IsWord s) ∧ l = { test := .after start }
  | repeatWhile condition again out => IsWord condition ∧ (∀ s ∈ again, IsWord s) ∧
      ∀ s ∈ out, IsWord s
  | switch condition color => IsWord condition ∧ color = none
  | case label => IsWord label
  | partition name color => IsWord name ∧ color = none
  | endChoice | endSwitch | fork _ | forkAgain _ | endFork _ | closePartition => True
  | title _ | lane _ | text _ | arrow _ => False

/-! ### The parts of a line -/

open Token Scan

lemma not_mem_of_isWord {s : String} (hs : IsWord s) {c : Char} (hc : c.isAlphanum = false) :
    c ∉ s.toList := by
  intro hmem
  rw [hs.alphanum c hmem] at hc
  exact nomatch hc

lemma inLine_of_isWord {s : String} (hs : IsWord s) : ∀ c ∈ s.toList, inLine c = true := by
  intro c hc
  have hne : c ≠ '\n' := fun h => not_mem_of_isWord hs rfl (h ▸ hc)
  simpa [inLine] using hne

/-- A word between two characters of which the second one ends it. -/
lemma takes_between {w : String} (hw : IsWord w) (a : Char) {z : Char} (hz : z.isAlphanum = false)
    (s : List Char) :
    (do let _ ← char a; let s ← few1 inLine; let _ ← char z; pure s : Scan String).Takes
      (a :: (w.toList ++ z :: s)) w s := by
  refine Takes.bind (takes_char a _) ?_
  have h := takes_few1_char hw.ne_nil (inLine_of_isWord hw) (not_mem_of_isWord hw hz) s
  rwa [String.ofList_toList] at h

lemma takes_inParentheses {w : String} (hw : IsWord w) (s : List Char) :
    inParentheses.Takes ('(' :: (w.toList ++ ')' :: s)) w s :=
  takes_between hw '(' rfl s

lemma takes_quoted {w : String} (hw : IsWord w) (s : List Char) :
    quoted.Takes ('"' :: (w.toList ++ '"' :: s)) w s := by
  unfold quoted
  refine Takes.bind (takes_char '"' _) ?_
  have hquote : ∀ c ∈ w.toList, (c != '"') = true := by
    intro c hc
    exact bne_iff_ne.2 fun h => not_mem_of_isWord hw rfl (h ▸ hc)
  have h := takes_many1_char hw.ne_nil hquote (bne_self_eq_false '"') s
  rwa [String.ofList_toList] at h

lemma takes_labelAtEnd {label : Option String} (hlabel : ∀ s ∈ label, IsWord s) :
    labelAtEnd.Takes (writeLabel " (" ")" label).toList label [] := by
  cases label with
  | none => exact fun _ _ _ h => h
  | some w =>
    simp only [writeLabel, String.toList_append, String.reduceToList, List.cons_append,
      List.nil_append]
    unfold labelAtEnd
    refine Takes.bind (takes_blanks rfl _) ?_
    refine Takes.bind (takes_inParentheses (hlabel w rfl) []).optional ?_
    exact fun _ _ _ h => h

lemma takes_readAction {label : String} (hlabel : IsWord label) :
    readAction.Takes (write (step (.action label none))).toList (step (.action label none)) [] := by
  unfold write Step.write
  simp only [String.toList_append, String.reduceToList, List.cons_append, List.nil_append]
  unfold readAction
  refine Takes.bind (fun _ _ _ h => h) ?_
  have h := takes_many1_last hlabel.ne_nil ';'
  rw [String.ofList_toList] at h
  exact Takes.bind h (takes_pure _ _)

lemma takes_readChoice {condition : String} {label : Option String} (hcondition : IsWord condition)
    (hlabel : ∀ s ∈ label, IsWord s) :
    readChoice.Takes (write (choice { condition := condition, thenLabel := label })).toList
      (choice { condition := condition, thenLabel := label }) [] := by
  unfold write
  simp only [String.toList_append, String.reduceToList, List.append_assoc, List.cons_append,
    List.nil_append]
  unfold readChoice
  refine Takes.bind (fun _ _ _ h => h) ?_
  refine Takes.bind (fun _ _ _ h => h) ?_
  refine Takes.bind (takes_blanks rfl _) ?_
  refine Takes.bind (takes_inParentheses hcondition _) ?_
  refine Takes.bind (takes_blanks rfl _) ?_
  refine Takes.bind (fun _ _ _ h => h) ?_
  exact Takes.bind (takes_labelAtEnd hlabel) (takes_pure _ _)

lemma takes_readElseIf {condition : String} {label : Option String} (hcondition : IsWord condition)
    (hlabel : ∀ s ∈ label, IsWord s) :
    readElseIf.Takes (write (elseIf none condition label)).toList (elseIf none condition label)
      [] := by
  unfold write
  simp only [String.toList_append, String.reduceToList, List.append_assoc, List.cons_append,
    List.nil_append]
  unfold readElseIf
  refine Takes.bind (fun _ _ _ h => h) ?_
  refine Takes.bind (fun _ _ _ h => h) ?_
  refine Takes.bind (takes_blanks rfl _) ?_
  refine Takes.bind (takes_inParentheses hcondition _) ?_
  refine Takes.bind (takes_blanks rfl _) ?_
  refine Takes.bind (fun _ _ _ h => h) ?_
  exact Takes.bind (takes_labelAtEnd hlabel) (takes_pure _ _)

lemma takes_readOtherwise {label : Option String} (hlabel : ∀ s ∈ label, IsWord s) :
    readOtherwise.Takes (write (otherwise label)).toList (otherwise label) [] := by
  unfold write
  simp only [String.toList_append, String.reduceToList, List.cons_append, List.nil_append]
  unfold readOtherwise
  refine Takes.bind (fun _ _ _ h => h) ?_
  exact Takes.bind (takes_labelAtEnd hlabel) (takes_pure _ _)

lemma takes_readEndWhile {label : Option String} (hlabel : ∀ s ∈ label, IsWord s) :
    readEndWhile.Takes (write (endWhile label)).toList (endWhile label) [] := by
  unfold write
  simp only [String.toList_append, String.reduceToList, List.cons_append, List.nil_append]
  unfold readEndWhile
  refine Takes.bind (Takes.either_left (fun _ _ _ h => h) _) ?_
  exact Takes.bind (takes_labelAtEnd hlabel) (takes_pure _ _)

lemma takes_isWord (s : List Char) : isWord.Takes ('i' :: 's' :: s) () s :=
  Takes.either_left (fun _ _ _ h => h) _

lemma takes_readWhile {condition : String} {label : Option String} (hcondition : IsWord condition)
    (hlabel : ∀ s ∈ label, IsWord s) :
    readWhile.Takes
      (write (whileLoop { test := .before, condition := condition, againLabel := label })).toList
      (whileLoop { test := .before, condition := condition, againLabel := label }) [] := by
  unfold write
  simp only [String.toList_append, String.reduceToList, List.append_assoc, List.cons_append,
    List.nil_append]
  unfold readWhile
  refine Takes.bind (fun _ _ _ h => h) ?_
  refine Takes.bind (fun _ _ _ h => h) ?_
  refine Takes.bind (takes_blanks rfl _) ?_
  refine Takes.bind (takes_inParentheses hcondition _) ?_
  cases label with
  | none => exact fun _ _ _ h => h
  | some w =>
    simp only [writeLabel, String.toList_append, String.reduceToList, List.cons_append,
      List.nil_append]
    refine Takes.bind (takes_blanks rfl _) ?_
    have hanswer : (do isWord; blanks; inParentheses).Takes
        ('i' :: 's' :: ' ' :: '(' :: (w.toList ++ [')'])) w [] := by
      refine Takes.bind (takes_isWord _) ?_
      exact Takes.bind (takes_blanks rfl _) (takes_inParentheses (hlabel w rfl) [])
    refine Takes.bind hanswer.optional ?_
    exact fun _ _ _ h => h

lemma takes_readRepeat {label : String} (hlabel : IsWord label) :
    readRepeat.Takes (write (repeatLoop { test := .after label })).toList
      (repeatLoop { test := .after label }) [] := by
  unfold write writeLabel LoopTest.startLabel
  simp only [String.toList_append, String.reduceToList, List.cons_append, List.nil_append]
  unfold readRepeat
  refine Takes.bind (fun _ _ _ h => h) ?_
  refine Takes.bind (fun _ _ _ h => h) ?_
  refine Takes.bind (takes_blanks rfl _) ?_
  refine Takes.bind (takes_between hlabel ':' rfl []).optional ?_
  exact fun _ _ _ h => h

lemma takes_answers_is {again : String} {out : Option String} (hagain : IsWord again)
    (hout : ∀ s ∈ out, IsWord s) :
    answers.Takes
      ('i' :: 's' :: ' ' :: '(' :: (again.toList ++ ')' :: (writeLabel " not (" ")" out).toList))
      (some again, out) [] := by
  refine Takes.either_left ?_ _
  refine Takes.bind (takes_isWord _) ?_
  refine Takes.bind (takes_blanks rfl _) ?_
  refine Takes.bind (takes_inParentheses hagain _) ?_
  cases out with
  | none => exact fun _ _ _ h => h
  | some w =>
    simp only [writeLabel, String.toList_append, String.reduceToList, List.cons_append,
      List.nil_append]
    refine Takes.bind (takes_blanks rfl _) ?_
    have hanswer : (do keyword "not"; blanks; inParentheses).Takes
        ('n' :: 'o' :: 't' :: ' ' :: '(' :: (w.toList ++ [')'])) w [] := by
      refine Takes.bind (fun _ _ _ h => h) ?_
      exact Takes.bind (takes_blanks rfl _) (takes_inParentheses (hout w rfl) [])
    refine Takes.bind hanswer.optional ?_
    exact fun _ _ _ h => h

lemma takes_answers_not {out : String} (hout : IsWord out) :
    answers.Takes ('n' :: 'o' :: 't' :: ' ' :: '(' :: (out.toList ++ [')'])) (none, some out)
      [] := by
  refine Takes.either_right ?_ fun _ _ => rfl
  refine Takes.bind (fun _ _ _ h => h) ?_
  refine Takes.bind (takes_blanks rfl _) ?_
  refine Takes.bind (takes_inParentheses hout []) ?_
  exact fun _ _ _ h => h

lemma takes_readRepeatWhile {condition : String} {again out : Option String}
    (hcondition : IsWord condition) (hagain : ∀ s ∈ again, IsWord s) (hout : ∀ s ∈ out, IsWord s) :
    readRepeatWhile.Takes (write (repeatWhile condition again out)).toList
      (repeatWhile condition again out) [] := by
  unfold write
  simp only [String.toList_append, String.reduceToList, List.append_assoc, List.cons_append,
    List.nil_append]
  unfold readRepeatWhile
  refine Takes.bind (Takes.bind (fun _ _ _ h => h) (Takes.bind (takes_blanks rfl _)
    fun _ _ _ h => h)) ?_
  refine Takes.bind (takes_blanks rfl _) ?_
  have htest : (do
      let condition ← inParentheses
      blanks
      let labels ← Scan.optional answers
      pure (condition, labels.getD (none, none))).Takes
        ('(' :: (condition.toList ++
          ')' :: ((writeLabel " is (" ")" again).toList ++ (writeLabel " not (" ")" out).toList)))
        (condition, again, out) [] := by
    refine Takes.bind (takes_inParentheses hcondition _) ?_
    cases again with
    | some again =>
      simp only [writeLabel, String.toList_append, String.reduceToList, List.append_assoc,
        List.cons_append, List.nil_append]
      refine Takes.bind (takes_blanks rfl _) ?_
      exact Takes.bind (takes_answers_is (hagain again rfl) hout).optional (takes_pure _ _)
    | none =>
      cases out with
      | none => exact fun _ _ _ h => h
      | some out =>
        simp only [writeLabel, String.toList_append, String.reduceToList, List.cons_append,
          List.nil_append]
        refine Takes.bind (takes_blanks rfl _) ?_
        exact Takes.bind (takes_answers_not (hout out rfl)).optional (takes_pure _ _)
  refine Takes.bind htest.optional ?_
  exact fun _ _ _ h => h

lemma takes_readSwitch {condition : String} (hcondition : IsWord condition) :
    readSwitch.Takes (write (switch condition none)).toList (switch condition none) [] := by
  unfold write
  simp only [String.toList_append, String.reduceToList, List.cons_append, List.nil_append]
  unfold readSwitch
  refine Takes.bind (fun _ _ _ h => h) ?_
  refine Takes.bind (fun _ _ _ h => h) ?_
  refine Takes.bind (takes_blanks rfl _) ?_
  refine Takes.bind (takes_inParentheses hcondition []) ?_
  exact fun _ _ _ h => h

lemma takes_readCase {label : String} (hlabel : IsWord label) :
    readCase.Takes (write (case label)).toList (case label) [] := by
  unfold write
  simp only [String.toList_append, String.reduceToList, List.cons_append, List.nil_append]
  unfold readCase
  refine Takes.bind (fun _ _ _ h => h) ?_
  refine Takes.bind (takes_blanks rfl _) ?_
  refine Takes.bind (takes_inParentheses hlabel []) ?_
  exact fun _ _ _ h => h

lemma takes_readPartition {name : String} (hname : IsWord name) :
    readPartition.Takes (write (partition name none)).toList (partition name none) [] := by
  unfold write
  simp only [String.toList_append, String.reduceToList, List.cons_append, List.nil_append]
  unfold readPartition
  refine Takes.bind (Takes.bind (Takes.either_left (fun _ _ _ h => h) _) (takes_pure _ _)) ?_
  refine Takes.bind (fun _ _ _ h => h) ?_
  refine Takes.bind (fun _ _ _ h => h) ?_
  refine Takes.bind (Takes.either_left (takes_quoted hname _) _) ?_
  refine Takes.bind (takes_blanks rfl _) ?_
  refine Takes.bind (fun _ _ _ h => h) ?_
  refine Takes.bind (Takes.optional (takes_char '\x7b' [])) ?_
  exact fun _ _ _ h => h

/-! ### The first letters of a line -/

/-- The place of the form of a line in the order in which forms are tried. -/
def place : Line → Nat
  | step s =>
    match s with
    | .start => 2
    | .stop => 3
    | .kill => 4
    | .leave => 6
    | .finish => 16
    | .action .. | .arrow _ | .note _ => 31
  | endChoice => 7
  | elseIf .. => 8
  | otherwise _ => 9
  | endWhile _ => 10
  | repeatWhile .. => 11
  | endSwitch => 12
  | endFork isSplit => if isSplit then 14 else 13
  | closePartition => 15
  | choice _ => 17
  | whileLoop _ => 19
  | repeatLoop _ => 20
  | switch .. => 21
  | case _ => 22
  | forkAgain isSplit => if isSplit then 25 else 23
  | fork isSplit => if isSplit then 26 else 24
  | partition .. => 27
  | title _ => 0
  | lane _ => 1
  | text _ => 32
  | arrow _ => 33

/-- What the first letters of a line decide: it is a line for the dialect, and none of the first
forms reads it. -/
structure Begins (n : Nat) (s : List Char) : Prop where
  head : ∀ c ∈ s.head?, Letter.isBlank c = false
  shown : SourceReader.filter {} ⟨s, s⟩ = ({}, some ⟨s, s⟩)
  meant : (s.isEmpty || isDisplay.begins s) = false
  forms : (anyOf (forms.take n)).whole s = none

lemma begins_write {l : Line} (hl : l.Canonical) : Begins l.place l.write.toList := by
  cases l with
  | step s =>
    cases s with
    | action label color =>
      unfold write Step.write
      simp only [String.toList_append, String.reduceToList, List.cons_append,
        List.nil_append]
      exact ⟨fun c hc => by cases hc; rfl, rfl, rfl, rfl⟩
    | arrow | note => exact hl.elim
    | _ => exact ⟨fun c hc => by cases hc; rfl, rfl, rfl, rfl⟩
  | otherwise label =>
    cases label with
    | none => exact ⟨fun c hc => by cases hc; rfl, rfl, rfl, rfl⟩
    | some s =>
      unfold write writeLabel
      simp only [String.toList_append, String.reduceToList, List.cons_append,
        List.nil_append]
      exact ⟨fun c hc => by cases hc; rfl, rfl, rfl, rfl⟩
  | choice | elseIf | endWhile | whileLoop | repeatWhile | switch | case | partition =>
    unfold write
    simp only [String.toList_append, String.reduceToList, List.append_assoc,
      List.cons_append, List.nil_append]
    exact ⟨fun c hc => by cases hc; rfl, rfl, rfl, rfl⟩
  | repeatLoop l =>
    obtain ⟨start, -, rfl⟩ := hl
    cases start with
    | none => exact ⟨fun c hc => by cases hc; rfl, rfl, rfl, rfl⟩
    | some label =>
      unfold write writeLabel LoopTest.startLabel
      simp only [String.toList_append, String.reduceToList, List.cons_append,
        List.nil_append]
      exact ⟨fun c hc => by cases hc; rfl, rfl, rfl, rfl⟩
  | fork isSplit | forkAgain isSplit | endFork isSplit =>
    cases isSplit <;> exact ⟨fun c hc => by cases hc; rfl, rfl, rfl, rfl⟩
  | endChoice | endSwitch | closePartition =>
    exact ⟨fun c hc => by cases hc; rfl, rfl, rfl, rfl⟩
  | title | lane | text | arrow => exact hl.elim

/-- The form of a line reads it. -/
lemma exists_form_write {l : Line} (hl : l.Canonical) :
    ∃ p, forms[l.place]? = some p ∧ p.whole l.write.toList = some l := by
  cases l with
  | step s =>
    cases s with
    | action label color =>
      obtain ⟨hlabel, rfl⟩ := hl
      exact ⟨readAction, rfl, (takes_readAction hlabel).whole⟩
    | arrow | note => exact hl.elim
    | _ => exact ⟨_, rfl, rfl⟩
  | choice c =>
    obtain ⟨condition, thenLabel, elseLabel, color⟩ := c
    obtain ⟨hcondition, hlabel, rfl, rfl⟩ := hl
    exact ⟨readChoice, rfl, (takes_readChoice hcondition hlabel).whole⟩
  | elseIf before condition label =>
    obtain ⟨rfl, hcondition, hlabel⟩ := hl
    exact ⟨readElseIf, rfl, (takes_readElseIf hcondition hlabel).whole⟩
  | otherwise label => exact ⟨readOtherwise, rfl, (takes_readOtherwise hl).whole⟩
  | endWhile label => exact ⟨readEndWhile, rfl, (takes_readEndWhile hl).whole⟩
  | whileLoop l =>
    obtain ⟨test, condition, again, out, color⟩ := l
    obtain ⟨rfl, hcondition, hagain, rfl, rfl⟩ := hl
    exact ⟨readWhile, rfl, (takes_readWhile hcondition hagain).whole⟩
  | repeatLoop l =>
    obtain ⟨start, hstart, rfl⟩ := hl
    cases start with
    | none => exact ⟨readRepeat, rfl, rfl⟩
    | some label => exact ⟨readRepeat, rfl, (takes_readRepeat (hstart label rfl)).whole⟩
  | repeatWhile condition again out =>
    obtain ⟨hcondition, hagain, hout⟩ := hl
    exact ⟨readRepeatWhile, rfl, (takes_readRepeatWhile hcondition hagain hout).whole⟩
  | switch condition color =>
    obtain ⟨hcondition, rfl⟩ := hl
    exact ⟨readSwitch, rfl, (takes_readSwitch hcondition).whole⟩
  | case label => exact ⟨readCase, rfl, (takes_readCase hl).whole⟩
  | partition name color =>
    obtain ⟨hname, rfl⟩ := hl
    exact ⟨readPartition, rfl, (takes_readPartition hname).whole⟩
  | fork isSplit | forkAgain isSplit | endFork isSplit => cases isSplit <;> exact ⟨_, rfl, rfl⟩
  | endChoice | endSwitch | closePartition => exact ⟨_, rfl, rfl⟩
  | title | lane | text | arrow => exact hl.elim

/-- A line is read back from its canonical notation. -/
theorem read?_write {l : Line} (hl : l.Canonical) : read? l.write.toList = some l := by
  obtain ⟨p, hp, hread⟩ := exists_form_write hl
  exact whole_anyOf l.place hp (begins_write hl).forms hread

/-! ### The characters of a line -/

/-- A character of the canonical notation. -/
def isSign (c : Char) : Bool :=
  c.isAlphanum || [' ', '(', ')', ':', ';', '"', '\x7b', '\x7d'].contains c

/-- A part of a line that does not end with a blank. -/
structure IsPart (s : String) : Prop where
  signs : s.toList.all isSign = true
  last : s.toList.getLast?.any Letter.isBlank = false

lemma IsPart.append {s t : String} (hs : IsPart s) (ht : IsPart t) : IsPart (s ++ t) where
  signs := by rw [String.toList_append, List.all_append, hs.signs, ht.signs, Bool.and_self]
  last := by
    have hlast := ht.last
    rw [String.toList_append, List.getLast?_append]
    cases ht : t.toList.getLast? with
    | none => exact hs.last
    | some c => rwa [ht] at hlast

lemma isBlank_of_isAlphanum {c : Char} (hc : c.isAlphanum = true) : Letter.isBlank c = false := by
  have hranges : ((decide ('A'.val ≤ c.val ∧ c.val ≤ 'Z'.val) ||
      (decide ('a'.val ≤ c.val) && decide (c.val ≤ 'z'.val))) ||
      (decide ('0'.val ≤ c.val) && decide (c.val ≤ '9'.val))) = true := hc
  simp only [Bool.or_eq_true, Bool.and_eq_true, decide_eq_true_eq, UInt32.le_iff_toNat_le,
    Char.toNat_val, Char.reduceToNat] at hranges
  -- blanks come before the digits or behind the small letters
  simp only [Letter.isBlank, Bool.or_eq_false_iff, Bool.and_eq_false_iff, decide_eq_false_iff_not,
    beq_eq_false_iff_ne]
  omega

lemma isPart_of_isWord {s : String} (hs : IsWord s) : IsPart s where
  signs := List.all_eq_true.2 fun c hc => by rw [isSign, hs.alphanum c hc, Bool.true_or]
  last := by
    cases hlast : s.toList.getLast? with
    | none => rfl
    | some c => exact isBlank_of_isAlphanum (hs.alphanum c (List.mem_of_getLast? hlast))

lemma isPart_writeLabel {before behind : String} (hbefore : IsPart before) (hbehind : IsPart behind)
    {label : Option String} (hlabel : ∀ s ∈ label, IsWord s) :
    IsPart (writeLabel before behind label) := by
  cases label with
  | none => exact ⟨rfl, rfl⟩
  | some s => exact (hbefore.append (isPart_of_isWord (hlabel s rfl))).append hbehind

lemma isPart_write {l : Line} (hl : l.Canonical) : IsPart l.write := by
  have hparens : ∀ {label : Option String}, (∀ s ∈ label, IsWord s) →
      IsPart (writeLabel " (" ")" label) := isPart_writeLabel ⟨rfl, rfl⟩ ⟨rfl, rfl⟩
  have hbetween : ∀ {before behind s : String}, IsPart before → IsWord s → IsPart behind →
      IsPart (before ++ s ++ behind) := fun hbefore hs hbehind =>
    (hbefore.append (isPart_of_isWord hs)).append hbehind
  cases l with
  | step s =>
    cases s with
    | action label color => exact hbetween ⟨rfl, rfl⟩ hl.1 ⟨rfl, rfl⟩
    | arrow | note => exact hl.elim
    | _ => exact ⟨rfl, rfl⟩
  | choice c => exact (hbetween ⟨rfl, rfl⟩ hl.1 ⟨rfl, rfl⟩).append (hparens hl.2.1)
  | elseIf before condition label =>
    exact (hbetween ⟨rfl, rfl⟩ hl.2.1 ⟨rfl, rfl⟩).append (hparens hl.2.2)
  | otherwise label | endWhile label => exact IsPart.append ⟨rfl, rfl⟩ (hparens hl)
  | whileLoop l =>
    obtain ⟨-, hcondition, hagain, -⟩ := hl
    exact (hbetween ⟨rfl, rfl⟩ hcondition ⟨rfl, rfl⟩).append
      (isPart_writeLabel ⟨rfl, rfl⟩ ⟨rfl, rfl⟩ hagain)
  | repeatLoop l =>
    obtain ⟨start, hstart, rfl⟩ := hl
    exact IsPart.append ⟨rfl, rfl⟩ (isPart_writeLabel ⟨rfl, rfl⟩ ⟨rfl, rfl⟩ hstart)
  | repeatWhile condition again out =>
    obtain ⟨hcondition, hagain, hout⟩ := hl
    exact ((hbetween ⟨rfl, rfl⟩ hcondition ⟨rfl, rfl⟩).append
      (isPart_writeLabel ⟨rfl, rfl⟩ ⟨rfl, rfl⟩ hagain)).append
        (isPart_writeLabel ⟨rfl, rfl⟩ ⟨rfl, rfl⟩ hout)
  | switch condition color => exact hbetween ⟨rfl, rfl⟩ hl.1 ⟨rfl, rfl⟩
  | case label => exact hbetween ⟨rfl, rfl⟩ hl ⟨rfl, rfl⟩
  | partition name color => exact hbetween ⟨rfl, rfl⟩ hl.1 ⟨rfl, rfl⟩
  | fork isSplit | forkAgain isSplit | endFork isSplit => cases isSplit <;> exact ⟨rfl, rfl⟩
  | endChoice | endSwitch | closePartition => exact ⟨rfl, rfl⟩
  | title | lane | text | arrow => exact hl.elim

/-- The canonical notation of a line reaches the dialect as it is. -/
theorem tidy_write {l : Line} (hl : l.Canonical) : Source.Tidy l.write.toList := by
  have hpart := isPart_write hl
  have hbegins := begins_write hl
  have hsigns : ∀ {c : Char}, isSign c = false → c ∉ l.write.toList := by
    intro c hc hmem
    rw [List.all_eq_true.1 hpart.signs c hmem] at hc
    exact nomatch hc
  refine ⟨hsigns rfl, hsigns rfl, hsigns rfl, hbegins.head, fun c hc => ?_, hbegins.shown⟩
  have hlast := hpart.last
  rwa [hc, Option.any_some] at hlast

end Line

namespace Reader

/-- A line in its canonical notation does what the line says. -/
theorem step_write {r : Reader} (hr : r.text = none) {l : Line} (hl : l.Canonical) :
    r.step ⟨l.write.toList, l.write.toList⟩ = r.apply l := by
  rw [step, hr]
  dsimp only
  rw [readLine, (Line.begins_write hl).meant, if_neg Bool.false_ne_true, Line.read?_write hl]

end Reader
end Activity
end UmlDraw
