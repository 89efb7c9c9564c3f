/-
# Lines that end a block that is not open

Blocks are ended, or gone on with, by lines of their own.  No form that is tried before that of such
a line has a reading of it, as it begins with other words, so the line is read as what it is.  It
counts only if the innermost open block is one that it is for; otherwise it leaves no trace in the
state of the reader.

The main statements are

* `Activity.Closer.fails_before` and `Activity.Closer.apply_eq_self_iff`: a line of an activity
  diagram is read as what it is, and when it counts;
* `Sequence.Line.fails_before_end` and `Sequence.Line.fails_before_else`: lines of fragments;
* `Nesting.close_eq_self_iff`: the ends of packages, containers and groups;
* `Source.closers_without_block`: which of these lines change nothing, in each dialect.
-/
import UmlDraw.Class.Reader
import UmlDraw.Description.Reader
import UmlDraw.Proofs.Activity.Order
import UmlDraw.Proofs.Sequence.Line
import UmlDraw.Sequence.Reader
import UmlDraw.State.Reader

namespace UmlDraw

/-! ## Activity diagrams -/

namespace Activity

open Scan

namespace Line

open Token

/-- The words that the forms of lines begin with, up to the last one that goes on with a block. -/
def openings : List (List (List String)) := [
  [["title"]], [["|"]], [["start"]], [["stop"]], [["kill"]], [["detach"]], [["break"]],
  [["end", "if"]], [["("], ["else", "if"]], [["else"]], [["end", "while"], ["while", "end"]],
  [["repeat", "while"]], [["end", "switch"]], [["end", "fork"], ["fork", "end"]],
  [["end", "split"], ["split", "end"]], [["\x7d"]], [["end"]], [["#"], ["if"]], [["#"], ["if"]],
  [["#"], ["while"]], [["#"], ["repeat"]], [["#"], ["switch"]], [["case"]], [["fork", "again"]],
  [["fork"]], [["split", "again"]]]

lemma opensWith_plainColor : plainColor.OpensWith [["#"]] :=
  .captured ((OpensWith.char (by decide)).bind _)

lemma opensWith_color : color.OpensWith [["#"]] :=
  .captured (opensWith_plainColor.bind _)

lemma opensWith_inParentheses : inParentheses.OpensWith [["("]] :=
  (OpensWith.char (by decide)).bind _

/-- What comes after a color and a colon, or after neither. -/
lemma opensWith_colorBefore_bind {f : Option String → Scan Line} {heads : List (List String)}
    (hf : (f none).OpensWith heads) : (colorBefore >>= f).OpensWith ([["#"]] ++ heads) := by
  have hcolor : (do
      let c ← color
      Scan.blanks
      let _ ← Scan.char ':'
      pure c : Scan String).OpensWith [["#"]] :=
    opensWith_color.bind _
  have hbehind : (Scan.blanks >>= fun _ => f none).OpensWith heads :=
    .blanks_bind (f := fun _ => f none) (Cuts.skip _) fun _ => hf
  exact .optional_bind (f := fun c => Scan.blanks >>= fun _ => f c) hcolor hbehind

lemma opensWith_isDisplay : isDisplay.OpensWith [["hide"], ["show"]] :=
  ((OpensWith.keyword "hide").either (OpensWith.keyword "show")).bind _

/-- At the end of a line stands at most a semicolon. -/
lemma stops_of_semicolonEnd {β : Type} {s : List Char} {next : Unit → List Char → Option β}
    {b : β} (h : semicolonEnd.run s next = some b) : Stops s := by
  obtain ⟨x, _, t, rfl, hx, h⟩ := (Cuts.skip _).of_bind h
  refine stops_of_blanks hx ?_
  rcases run_optional_bind h with ⟨next', h⟩ | h
  · obtain ⟨_, _, u, rfl, rfl, -⟩ := Cuts.char ';' _ _ _ h
    exact stops_of_head (by decide) u
  · obtain ⟨y, _, u, rfl, hy, h⟩ := (Cuts.skip _).of_bind h
    refine stops_of_blanks hy ?_
    obtain ⟨_, _, v, rfl, ⟨rfl, hv⟩, -⟩ := Cuts.ahead _ _ _ _ h
    obtain rfl := List.isEmpty_iff.1 hv
    exact nofun

lemma stops_of_labelAtEnd {β : Type} {s : List Char} {next : Option String → List Char → Option β}
    {b : β} (h : labelAtEnd.run s next = some b) : Stops s := by
  obtain ⟨x, _, t, rfl, hx, h⟩ := (Cuts.skip _).of_bind h
  refine stops_of_blanks hx ?_
  rcases run_optional_bind h with ⟨next', h⟩ | h
  · obtain ⟨_, _, u, rfl, rfl, -⟩ := (Cuts.char '(').of_bind h
    exact stops_of_head (by decide) u
  · exact stops_of_semicolonEnd h

lemma opensWith_forms : List.Forall₂ OpensWith (forms.take 26) openings := by
  have halone (words : List String) (l : Line) : (readClose words l).OpensWith [words] :=
    ((OpensWith.joined words).bind _).bind _
  have hfork (words : List String) (l : Line) : (readFork words l).OpensWith [words] :=
    ((OpensWith.phrase words).bind _).bind _
  refine .cons ?_ <| .cons ?_ <| .cons ?_ <| .cons ?_ <| .cons ?_ <| .cons ?_ <| .cons ?_ <|
    .cons ?_ <| .cons ?_ <| .cons ?_ <| .cons ?_ <| .cons ?_ <| .cons ?_ <| .cons ?_ <|
    .cons ?_ <| .cons ?_ <| .cons ?_ <| .cons ?_ <| .cons ?_ <| .cons ?_ <| .cons ?_ <|
    .cons ?_ <| .cons ?_ <| .cons ?_ <| .cons ?_ <| .cons ?_ .nil
  · exact ((OpensWith.keyword _).bind _).bind _
  · exact (OpensWith.char (by decide)).bind _
  · exact halone _ _
  · exact halone _ _
  · exact halone _ _
  · exact halone _ _
  · exact halone _ _
  · exact halone _ _
  · exact .optional_bind (opensWith_inParentheses.bind _) ((OpensWith.joined _).bind _)
  · exact (OpensWith.keyword _).bind _
  · exact ((OpensWith.joined _).either (OpensWith.joined _)).bind _
  · exact (OpensWith.joined _).bind _
  · exact halone _ _
  · exact ((OpensWith.joined _).either (OpensWith.joined _)).bind _
  · exact ((OpensWith.joined _).either (OpensWith.joined _)).bind _
  · exact (OpensWith.char (by decide)).bind _
  · exact halone _ _
  · exact opensWith_colorBefore_bind ((OpensWith.keyword _).bind _)
  · exact opensWith_colorBefore_bind ((OpensWith.keyword _).bind _)
  · exact opensWith_colorBefore_bind ((OpensWith.keyword _).bind _)
  · exact opensWith_colorBefore_bind ((OpensWith.keyword _).bind _)
  · exact opensWith_colorBefore_bind ((OpensWith.keyword _).bind _)
  · exact (OpensWith.keyword _).bind _
  · exact hfork _ _
  · exact hfork _ _
  · exact hfork _ _

end Line

/-! ### Lines that end or go on with a block -/

/-- The kinds of blocks that different lines end or go on with. -/
inductive BlockKind where
  | firstBranch
  | otherBranch
  | lastBranch
  /-- A loop that tests before each pass, or one that tests after it. -/
  | loop (testsBefore : Bool)
  | switch
  /-- A fork or a split. -/
  | fork (isSplit : Bool)
  | partition
deriving DecidableEq

/-- The kind of an open block. -/
def OpenBlock.kind : OpenBlock → BlockKind
  | firstBranch _ => .firstBranch
  | otherBranch .. => .otherBranch
  | lastBranch .. => .lastBranch
  | loop l => .loop (match l.test with | .before => true | .after _ => false)
  | switch .. => .switch
  | fork isSplit _ => .fork isSplit
  | partition .. => .partition

/-- The lines that end a block or go on with the next part of it. -/
inductive Closer where
  | endIf
  | elseIf
  | otherwise
  | endWhile
  | repeatWhile
  | case
  | endSwitch
  /-- A further branch of a fork or a split. -/
  | forkAgain (isSplit : Bool)
  /-- The end of a fork or a split. -/
  | endFork (isSplit : Bool)
  /-- A closing brace, which ends a partition. -/
  | brace

namespace Closer

/-- How the line is written. -/
def form : Closer → Scan Line
  | endIf => Line.readClose ["end", "if"] .endChoice
  | elseIf => Line.readElseIf
  | otherwise => Line.readOtherwise
  | endWhile => Line.readEndWhile
  | repeatWhile => Line.readRepeatWhile
  | case => Line.readCase
  | endSwitch => Line.readClose ["end", "switch"] .endSwitch
  | forkAgain false => Line.readFork ["fork", "again"] (.forkAgain false)
  | forkAgain true => Line.readFork ["split", "again"] (.forkAgain true)
  | endFork false => Line.readEndFork
  | endFork true => Line.readEndSplit
  | brace => Line.readClosePartition

/-- The kinds of blocks that the line is for. -/
def kinds : Closer → List BlockKind
  | endIf => [.firstBranch, .otherBranch, .lastBranch]
  | elseIf => [.firstBranch, .otherBranch]
  | otherwise => [.firstBranch, .otherBranch]
  | endWhile => [.loop true]
  | repeatWhile => [.loop false]
  | case => [.switch]
  | endSwitch => [.switch]
  | forkAgain isSplit => [.fork isSplit]
  | endFork isSplit => [.fork isSplit]
  | brace => [.partition]

/-- The place of the form among the forms of lines. -/
def place : Closer → Nat
  | endIf => 7
  | elseIf => 8
  | otherwise => 9
  | endWhile => 10
  | repeatWhile => 11
  | endSwitch => 12
  | endFork false => 13
  | endFork true => 14
  | brace => 15
  | case => 22
  | forkAgain false => 23
  | forkAgain true => 25

lemma getElem?_place (k : Closer) : Line.forms[k.place]? = some k.form := by
  rcases k with _ | _ | _ | _ | _ | _ | _ | (_ | _) | (_ | _) | _ <;> rfl

/-- What the line means. -/
inductive Means : Closer → Line → Prop
  | endIf : Means endIf .endChoice
  | elseIf (elseLabel : Option String) (condition : String) (label : Option String) :
      Means elseIf (.elseIf elseLabel condition label)
  | otherwise (label : Option String) : Means otherwise (.otherwise label)
  | endWhile (label : Option String) : Means endWhile (.endWhile label)
  | repeatWhile (condition : String) (again out : Option String) :
      Means repeatWhile (.repeatWhile condition again out)
  | case (label : String) : Means case (.case label)
  | endSwitch : Means endSwitch .endSwitch
  | forkAgain (isSplit : Bool) : Means (forkAgain isSplit) (.forkAgain isSplit)
  | endFork (isSplit : Bool) : Means (endFork isSplit) (.endFork isSplit)
  | brace : Means brace .closePartition

lemma yields_form (k : Closer) : k.form.Yields k.Means := by
  cases k with
  | endIf => exact Yields.bind fun _ => Yields.pure .endIf
  | elseIf =>
    unfold form Line.readElseIf
    iterate 7 refine Yields.bind fun _ => ?_
    exact Yields.pure (.elseIf ..)
  | otherwise =>
    unfold form Line.readOtherwise
    iterate 2 refine Yields.bind fun _ => ?_
    exact Yields.pure (.otherwise _)
  | endWhile =>
    unfold form Line.readEndWhile
    iterate 2 refine Yields.bind fun _ => ?_
    exact Yields.pure (.endWhile _)
  | repeatWhile =>
    unfold form Line.readRepeatWhile
    iterate 5 refine Yields.bind fun _ => ?_
    exact Yields.pure (.repeatWhile ..)
  | case =>
    unfold form Line.readCase
    iterate 4 refine Yields.bind fun _ => ?_
    exact Yields.pure (.case _)
  | endSwitch => exact Yields.bind fun _ => Yields.pure .endSwitch
  | forkAgain isSplit =>
    cases isSplit <;> exact Yields.bind fun _ => Yields.pure (.forkAgain _)
  | endFork isSplit =>
    cases isSplit with
    | false =>
      unfold form Line.readEndFork
      iterate 4 refine Yields.bind fun _ => ?_
      exact Yields.pure (.endFork false)
    | true => exact Yields.bind fun _ => Yields.bind fun _ => Yields.pure (.endFork true)
  | brace => exact Yields.bind fun _ => Yields.bind fun _ => Yields.pure .brace

end Closer

namespace Reader

variable {kinds : List BlockKind}

lemma closeBlock_eq_self_iff {change : OpenBlock → Option OpenBlock}
    (h : ∀ b, change b = none ↔ b.kind ∉ kinds) (r : Reader) :
    r.closeBlock change = r ↔ ∀ f ∈ r.frames.head?, f.block.kind ∉ kinds := by
  unfold closeBlock
  cases hframes : r.frames with
  | nil => simp
  | cons f rest =>
    simp only [List.head?_cons, Option.mem_some_iff, forall_eq', ← h]
    cases hchange : change f.block with
    | none => simp
    | some b =>
      refine iff_of_false (fun he => ?_) (by simp)
      have hlength := congrArg (fun r : Reader => r.frames.length) he
      simp [hframes] at hlength

lemma nextPart_eq_self_iff {change : List Instruction → OpenBlock → Option OpenBlock}
    (h : ∀ body b, change body b = none ↔ b.kind ∉ kinds)
    (hne : ∀ body b b', change body b = some b' → b' ≠ b) (r : Reader) :
    r.nextPart change = r ↔ ∀ f ∈ r.frames.head?, f.block.kind ∉ kinds := by
  unfold nextPart
  cases hframes : r.frames with
  | nil => simp
  | cons f rest =>
    simp only [List.head?_cons, Option.mem_some_iff, forall_eq', ← h r.body]
    cases hchange : change r.body f.block with
    | none => simp
    | some b =>
      refine iff_of_false (fun he => hne _ _ _ hchange ?_) (by simp)
      have hhead := congrArg (fun r : Reader => r.frames.head?.map Frame.block) he
      simpa [hframes] using hhead

end Reader

namespace Closer

/-- A line changes nothing if and only if the innermost block is none that it is for. -/
lemma apply_eq_self_iff {k : Closer} {l : Line} (h : k.Means l) (r : Reader) :
    r.apply l = r ↔ ∀ f ∈ r.frames.head?, f.block.kind ∉ k.kinds := by
  cases h with
  | endIf =>
    refine Reader.closeBlock_eq_self_iff (fun b => ?_) r
    cases b <;> simp [OpenBlock.endChoice, OpenBlock.kind, kinds]
  | elseIf elseLabel condition label =>
    refine Reader.nextPart_eq_self_iff (fun body b => ?_) (fun body b b' hb => ?_) r
    · cases b <;> simp [OpenBlock.elseIf, OpenBlock.kind, kinds]
    · cases b <;> simp [OpenBlock.elseIf] at hb <;> subst hb <;> simp
  | otherwise label =>
    refine Reader.nextPart_eq_self_iff (fun body b => ?_) (fun body b b' hb => ?_) r
    · cases b <;> simp [OpenBlock.otherwise, OpenBlock.kind, kinds]
    · cases b <;> simp [OpenBlock.otherwise] at hb <;> subst hb <;> simp
  | endWhile label =>
    refine Reader.closeBlock_eq_self_iff (fun b => ?_) r
    cases b with
    | loop l => cases htest : l.test <;> simp [OpenBlock.endWhile, OpenBlock.kind, kinds, htest]
    | _ => simp [OpenBlock.endWhile, OpenBlock.kind, kinds]
  | repeatWhile condition again out =>
    refine Reader.closeBlock_eq_self_iff (fun b => ?_) r
    cases b with
    | loop l => cases htest : l.test <;> simp [OpenBlock.repeatWhile, OpenBlock.kind, kinds, htest]
    | _ => simp [OpenBlock.repeatWhile, OpenBlock.kind, kinds]
  | case label =>
    refine Reader.nextPart_eq_self_iff (fun body b => ?_) (fun body b b' hb => ?_) r
    · cases b <;> simp [OpenBlock.nextCase, OpenBlock.kind, kinds]
    · cases b with
      | switch condition color cases label' =>
        obtain rfl := Option.some.inj hb
        cases label' <;> simp [closeCase]
      | _ => cases hb
  | endSwitch =>
    refine Reader.closeBlock_eq_self_iff (fun b => ?_) r
    cases b <;> simp [OpenBlock.endSwitch, OpenBlock.kind, kinds]
  | forkAgain isSplit =>
    refine Reader.nextPart_eq_self_iff (fun body b => ?_) (fun body b b' hb => ?_) r
    · cases b <;> simp [OpenBlock.forkAgain, OpenBlock.kind, kinds, eq_comm]
    · cases b <;> simp [OpenBlock.forkAgain] at hb
      obtain ⟨-, rfl⟩ := hb
      simp
  | endFork isSplit =>
    refine Reader.closeBlock_eq_self_iff (fun b => ?_) r
    cases b <;> simp [OpenBlock.endFork, OpenBlock.kind, kinds, eq_comm]
  | brace =>
    refine Reader.closeBlock_eq_self_iff (fun b => ?_) r
    cases b <;> simp [OpenBlock.closePartition, OpenBlock.kind, kinds]

/-- The words that the line begins with. -/
def words (k : Closer) : List (List String) :=
  Line.openings[k.place]?.getD []

lemma opensWith_form (k : Closer) : k.form.OpensWith k.words := by
  refine opensWith_of_getElem? Line.opensWith_forms ?_
  rcases k with _ | _ | _ | _ | _ | _ | _ | (_ | _) | (_ | _) | _ <;> rfl

/-- The forms before that of a line begin with other words, but for the word of the last branch. -/
lemma apart_before {k : Closer} (hk : k ≠ otherwise) : ∀ heads ∈ Line.openings.take k.place,
    ∀ vs ∈ heads, ∀ ws ∈ k.words, apart vs ws = true := by
  rcases k with _ | _ | _ | _ | _ | _ | _ | (_ | _) | (_ | _) | _
  case otherwise => exact absurd rfl hk
  all_goals decide

lemma apart_display (k : Closer) :
    ∀ vs ∈ [["hide"], ["show"]], ∀ ws ∈ k.words, apart vs ws = true := by
  rcases k with _ | _ | _ | _ | _ | _ | _ | (_ | _) | (_ | _) | _ <;> decide

/-- The word for the last branch is no beginning of that for a further one. -/
lemma fails_elseIf {s : List Char} (h : otherwise.form.reads s = true) :
    Line.readElseIf.Fails s := by
  obtain ⟨l, hl⟩ := Option.isSome_iff_exists.1 h
  obtain ⟨cs, _, t, rfl, hword, hrest⟩ := (cuts_keyword "else").of_bind hl
  have hstops : Stops t := Line.stops_of_labelAtEnd (s := t) hrest
  refine OpensWith.fails_of_not elseIf.opensWith_form fun ws hws => ?_
  rcases List.mem_pair.1 (show ws ∈ [["("], ["else", "if"]] from hws) with rfl | rfl
  · exact not_beginsWith_of_apart (.word hword (.nil t)) (by decide)
  · exact not_beginsWith_of_stops (by decide) hword hstops (by decide)

/-- The forms before that of a line have no reading of it. -/
lemma fails_before {k : Closer} {s : List Char} (h : k.form.reads s = true) :
    ∀ p ∈ Line.forms.take k.place, p.Fails s := by
  have htake (n : Nat) (hn : n ≤ 26) :
      List.Forall₂ OpensWith (Line.forms.take n) (Line.openings.take n) := by
    have htake := List.forall₂_take n Line.opensWith_forms
    rwa [List.take_take, Nat.min_eq_left hn] at htake
  have hplace : k.place ≤ 26 := by
    rcases k with _ | _ | _ | _ | _ | _ | _ | (_ | _) | (_ | _) | _ <;> decide
  obtain ⟨ws, hws, hs⟩ := k.opensWith_form.of_reads h
  by_cases hk : k = otherwise
  · subst hk
    have hforms : Line.forms.take 9 = Line.forms.take 8 ++ [Line.readElseIf] := rfl
    obtain rfl := List.mem_singleton.1 (show ws ∈ [["else"]] from hws)
    change ∀ p ∈ Line.forms.take 9, p.Fails s
    rw [hforms, List.forall_mem_append, List.forall_mem_singleton]
    exact ⟨fails_of_apart (htake 8 (by decide)) hs (by decide), fails_elseIf h⟩
  · exact fails_of_apart (htake k.place hplace) hs fun heads hheads vs hvs =>
      apart_before hk heads hheads vs hvs ws hws

lemma read?_eq {k : Closer} {s : List Char} {l : Line} (h : k.form.whole s = some l) :
    Line.read? s = some l :=
  whole_anyOf k.place k.getElem?_place (fails_anyOf (fails_before (by rw [reads, h]; rfl)) _) h

end Closer

/-- A line that ends a block or goes on with it changes nothing if and only if the innermost block
is none that it is for. -/
lemma Reader.step_closer {r : Reader} {line : SourceLine} {k : Closer} (htext : r.text = none)
    (hform : k.form.reads line.text = true) :
    r.step line = r ↔ ∀ f ∈ r.frames.head?, f.block.kind ∉ k.kinds := by
  obtain ⟨l, hl⟩ := Option.isSome_iff_exists.1 hform
  obtain ⟨ws, hws, hs⟩ := k.opensWith_form.of_reads hform
  have hapart : ∀ vs ∈ [["hide"], ["show"]], apart vs ws = true :=
    fun vs hvs => k.apart_display vs hvs ws hws
  have hne : line.text.isEmpty = false :=
    isEmpty_of_apart hs (hapart _ (List.mem_cons_self ..))
  have hdisplay : Line.isDisplay.begins line.text = false :=
    (Line.opensWith_isDisplay.fails hs hapart).begins
  have hstep : r.step line = r.apply l := by
    rw [step, htext]
    simp only [readLine, hne, hdisplay, Bool.or_self, Bool.false_eq_true, if_false,
      Closer.read?_eq hl]
  rw [hstep, Closer.apply_eq_self_iff (k.yields_form.of_whole hl)]

end Activity

/-! ## Sequence diagrams -/

namespace Sequence

open Scan

namespace Line

/-- The forms before that of a further section. -/
lemma fails_before_else (w : WrittenWord ["else", "also"]) (t : List Char) :
    ∀ p ∈ forms.take 19, p.Fails (w.chars ++ t) := by
  have hforms : forms.take 19 = forms.take 9 ++ ([readLife, readReply] ++
      ([readNoteAcross, readNote, readNoteStart, readArrowNote, readArrowNoteStart] ++
        [readReference, readReferenceStart, readFragmentStart])) := rfl
  rw [hforms]
  simp only [List.forall_mem_append]
  exact ⟨fails_first (.of_word w (by decide) t) (unmarked_of_word w (by decide) t),
    fails_life (.of_word w (by decide) t), fails_note (.of_word w (by decide) t),
    fails_start (.of_word w (by decide) t)⟩

/-- The forms before that of the end of a box. -/
lemma fails_before_boxEnd (w : WrittenWord ["end"]) (t : List Char) :
    ∀ p ∈ forms.take 3, p.Fails (w.chars ++ t) := by
  have hlacks : Lacks ["title", "autonumber", "box"] (w.chars ++ t) := .of_word w (by decide) t
  change ∀ p ∈ [readTitle, readAutoNumber, readBoxStart], _
  simp only [List.forall_mem_cons]
  exact ⟨((hlacks.keyword (by decide)).bind _).bind _, (hlacks.keyword (by decide)).bind _,
    (hlacks.keyword (by decide)).bind _, List.forall_mem_nil _⟩

/-- The word that ends a fragment is no beginning of the line that ends a box. -/
lemma fails_boxEnd (w : WrittenWord ["end"]) {t : List Char} (ht : Stops t) :
    readBoxEnd.Fails (w.chars ++ t) := by
  have hopens : readBoxEnd.OpensWith [["end", "box"]] :=
    .keyword_bind "end" (f := fun _ => Scan.blanks >>= fun _ => _)
      (.blanks_bind (Cuts.skip _) fun _ => (OpensWith.keyword "box").bind _)
  obtain ⟨word, hword, hspells⟩ := w.spells
  obtain rfl := List.mem_singleton.1 hword
  refine hopens.fails_of_not fun ws hws => ?_
  obtain rfl := List.mem_singleton.1 hws
  exact not_beginsWith_of_stops (by decide) hspells ht (by decide)

/-- The forms before that of the end of a fragment. -/
lemma fails_before_end (w : WrittenWord ["end"]) {t : List Char} (ht : Stops t) :
    ∀ p ∈ forms.take 20, p.Fails (w.chars ++ t) := by
  have hforms : forms.take 20 = forms.take 3 ++ ([readBoxEnd] ++ ([readDeclare, readCreate] ++
      ([readDivider, readDelay, readSpace] ++ ([readLife, readReply] ++
      ([readNoteAcross, readNote, readNoteStart, readArrowNote, readArrowNoteStart] ++
        ([readReference, readReferenceStart, readFragmentStart] ++ [readFragmentElse])))))) := rfl
  have helse : Lacks ["else", "also"] (w.chars ++ t) := .of_word w (by decide) t
  rw [hforms]
  simp only [List.forall_mem_append, List.forall_mem_singleton]
  exact ⟨fails_before_boxEnd w t, fails_boxEnd w ht, fails_declare (.of_word w (by decide) t),
    fails_separators (unmarked_of_word w (by decide) t), fails_life (.of_word w (by decide) t),
    fails_note (.of_word w (by decide) t), fails_start (.of_word w (by decide) t),
    (helse.oneOf (List.Subset.refl _)).bind _⟩

end Line

namespace Reader

variable {r : Reader} {line : SourceLine}

/-- A line that begins with a word of its own is handled as the first form that fits. -/
lemma step_eq_apply (hblock : r.block = none) {words : List String} (w : WrittenWord words)
    {t : List Char} (htext : line.text = w.chars ++ t) (hletters : Line.AllLetters words)
    (hdisplay : Line.AllDiffer words Line.displayWords) {p : Scan Line} {l : Line} (n : Nat)
    (hn : Line.forms[n]? = some p) (hbefore : ∀ q ∈ Line.forms.take n, q.Fails (w.chars ++ t))
    (hp : p.whole line.text = some l) : r.step line = r.apply l := by
  rw [htext] at hp
  have hne : w.chars ++ t ≠ [] := by
    simp [w.chars_ne_nil fun v hv => (hletters v hv).1]
  obtain ⟨hhides, hshown⟩ := Line.not_display (.of_word w hdisplay t) hne
  have hread := Line.read?_eq_some n hn (fun q hq => hbefore q hq _) hp
  rw [step, hblock]
  simp only [readLine, htext, hhides, hshown, hread, Bool.false_eq_true, if_false]

lemma closeFragment_eq_self_iff : r.closeFragment = r ↔ r.fragments = [] := by
  unfold closeFragment
  cases hfragments : r.fragments with
  | nil => simp
  | cons f rest =>
    refine iff_of_false (fun he => ?_) (List.cons_ne_nil _ _)
    have hlength := congrArg (fun r : Reader => r.fragments.length) he
    simp [hfragments] at hlength

lemma splitFragment_eq_self_iff (condition : String) :
    r.splitFragment condition = r ↔ r.fragments = [] := by
  unfold splitFragment
  cases hfragments : r.fragments with
  | nil => simp
  | cons f rest =>
    refine iff_of_false (fun he => ?_) (List.cons_ne_nil _ _)
    have hsections := congrArg (fun r : Reader => r.fragments.head?.map OpenFragment.sections) he
    simp [hfragments] at hsections

/-- A line that goes on with a fragment changes nothing if and only if none is open. -/
lemma step_fragmentElse (hblock : r.block = none)
    (hform : Line.readFragmentElse.reads line.text = true) :
    r.step line = r ↔ r.fragments = [] := by
  obtain ⟨l, hl⟩ := Option.isSome_iff_exists.1 hform
  obtain ⟨x, _, t, hs, hx, -⟩ := (cuts_oneOf ["else", "also"]).of_bind hl
  have hyields :
      Line.readFragmentElse.Yields fun l => ∃ condition, l = .fragmentElse condition := by
    unfold Line.readFragmentElse
    iterate 6 refine Yields.bind fun _ => ?_
    exact Yields.pure ⟨_, rfl⟩
  obtain ⟨condition, rfl⟩ := hyields.of_whole hl
  let w : WrittenWord ["else", "also"] := ⟨x, hx⟩
  rw [step_eq_apply hblock w hs (by decide) (by decide) 19 rfl (Line.fails_before_else w t) hl]
  exact splitFragment_eq_self_iff condition

/-- A line that ends a fragment changes nothing if and only if none is open. -/
lemma step_fragmentEnd (hblock : r.block = none)
    (hform : Line.readFragmentEnd.reads line.text = true) :
    r.step line = r ↔ r.fragments = [] := by
  obtain ⟨l, hl⟩ := Option.isSome_iff_exists.1 hform
  obtain ⟨x, _, t, hs, hx, hrest⟩ := (cuts_keyword "end").of_bind hl
  obtain ⟨y, _, u, rfl, hy, hend⟩ := (Cuts.skip _).of_bind hrest
  have hyields : Line.readFragmentEnd.Yields (· = .fragmentEnd) :=
    Yields.bind fun _ => Yields.bind fun _ => Yields.pure rfl
  obtain rfl := hyields.of_whole hl
  -- nothing but blanks stands behind the word
  have hempty : (if u.isEmpty then some Line.fragmentEnd else none) = some .fragmentEnd := hend
  obtain rfl : u = [] := by
    split at hempty
    · next hu => exact List.isEmpty_iff.1 hu
    · cases hempty
  have hstops : Stops (y ++ []) := stops_of_blanks hy nofun
  let w : WrittenWord ["end"] := ⟨x, "end", List.mem_singleton_self _, hx⟩
  rw [step_eq_apply hblock w hs (by decide) (by decide) 20 rfl (Line.fails_before_end w hstops) hl]
  exact closeFragment_eq_self_iff

/-- A line that ends a box changes nothing if and only if none is open. -/
lemma step_boxEnd (hblock : r.block = none) (hform : Line.readBoxEnd.reads line.text = true) :
    r.step line = r ↔ r.inBox = false := by
  obtain ⟨l, hl⟩ := Option.isSome_iff_exists.1 hform
  obtain ⟨x, _, t, hs, hx, -⟩ := (cuts_keyword "end").of_bind hl
  have hyields : Line.readBoxEnd.Yields (· = .boxEnd) :=
    Yields.bind fun _ => Yields.bind fun _ => Yields.bind fun _ => Yields.bind fun _ =>
      Yields.pure rfl
  obtain rfl := hyields.of_whole hl
  let w : WrittenWord ["end"] := ⟨x, "end", List.mem_singleton_self _, hx⟩
  rw [step_eq_apply hblock w hs (by decide) (by decide) 3 rfl (Line.fails_before_boxEnd w t) hl]
  exact ⟨fun he => (congrArg Reader.inBox he).symm, fun h => by cases r; cases h; rfl⟩

end Reader

end Sequence

/-! ## State, class and description diagrams -/

namespace State

open Scan

namespace Line

/-- The words that the forms of lines begin with, up to the one that ends a composite state. -/
def openings : List (List (List String)) := [
  [["hide", "empty", "description"]], [["hide"], ["show"]], [["title"]],
  [["left", "to", "right", "direction"], ["top", "to", "bottom", "direction"]], [["state"]]]

lemma opensWith_forms (isInside : Bool) :
    List.Forall₂ OpensWith ((forms isInside).take 5) openings := by
  refine .cons ?_ <| .cons ?_ <| .cons ?_ <| .cons ?_ <| .cons ?_ .nil
  · exact (OpensWith.phrase _).bind _
  · exact (OpensWith.oneOf _).bind _
  · exact ((OpensWith.keyword _).bind _).bind _
  · exact ((OpensWith.phrase _).bind _).either ((OpensWith.phrase _).bind _)
  · exact (OpensWith.withText (((OpensWith.keyword "state").bind _).bind _)).bind _

lemma opensWith_readBlockEnd : readBlockEnd.OpensWith [["end", "state"], ["\x7d"]] := by
  have hblank : (Scan.optional (Scan.satisfy Letter.isBlank)).Cuts fun x _ _ =>
      ∀ c ∈ x, Letter.isBlank c = true := by
    refine (Cuts.optional (Cuts.satisfy _)).imp ?_
    rintro x _ _ (⟨-, rfl⟩ | ⟨c, -, rfl, hc⟩)
    · exact List.forall_mem_nil _
    · exact List.forall_mem_singleton.2 hc
  have hword : (do
      Scan.keyword "end"
      let _ ← Scan.optional (Scan.satisfy Letter.isBlank)
      Scan.keyword "state" : Scan Unit).OpensWith [["end", "state"]] :=
    .keyword_bind "end"
      (f := fun _ => Scan.optional (Scan.satisfy Letter.isBlank) >>= fun _ => Scan.keyword "state")
      (.blanks_bind hblank fun _ => .keyword "state")
  exact (hword.either (.text (by decide))).bind _

end Line

/-- A line that ends a composite state changes nothing if and only if none is open. -/
lemma Reader.step_blockEnd {r : Reader} {line : SourceLine} (hnote : r.note = none)
    (hform : Line.readBlockEnd.reads line.text = true) : r.step line = r ↔ r.stack = [] := by
  obtain ⟨l, hl⟩ := Option.isSome_iff_exists.1 hform
  have hyields : Line.readBlockEnd.Yields (· = .blockEnd) :=
    Yields.bind fun _ => Yields.pure rfl
  obtain rfl := hyields.of_whole hl
  obtain ⟨ws, hws, hs⟩ := Line.opensWith_readBlockEnd.of_reads hform
  have hapart : ∀ heads ∈ Line.openings, ∀ vs ∈ heads, apart vs ws = true := by
    rcases List.mem_pair.1 hws with rfl | rfl <;> decide
  have hread : Line.read? (!r.stack.isEmpty) line.text = some .blockEnd := by
    have hfails := fails_anyOf (fails_of_apart (Line.opensWith_forms (!r.stack.isEmpty)) hs hapart)
    rw [Line.read?, whole_anyOf 5 rfl (hfails _) hl, Option.some_or]
  have hne : line.text.isEmpty = false :=
    isEmpty_of_apart hs (hapart _ (List.mem_cons_self ..) _ (List.mem_cons_self ..))
  rw [step, hnote]
  simp only [hne, hread, Bool.false_eq_true, if_false]
  constructor
  · intro he
    have hlength := congrArg (fun r : Reader => r.stack.length) he
    cases hstack : r.stack with
    | nil => rfl
    | cons code rest => simp [apply, hstack] at hlength
  · intro h
    cases r
    cases h
    rfl

end State

namespace Nesting

variable {α : Type} {n : Nesting α}

lemma length_attach? {f : Folder α} {blocks blocks' : List (OpenGroup α)}
    (h : attach? f blocks = some blocks') : blocks'.length = blocks.length := by
  induction blocks generalizing blocks' with
  | nil => cases h
  | cons b rest ih =>
    cases b with
    | folder =>
      obtain rfl := Option.some.inj h
      rfl
    | together codes =>
      obtain ⟨rest', hrest, rfl⟩ := Option.map_eq_some_iff.1 h
      rw [List.length_cons, List.length_cons, ih hrest]

/-- Only without an open block nothing is closed. -/
lemma close_eq_self_iff : n.close = n ↔ n.blocks = [] := by
  constructor
  · intro he
    have hlength := congrArg (fun n : Nesting α => n.blocks.length) he
    unfold close at hlength
    split at hlength
    · assumption
    · next hblocks =>
      unfold attach at hlength
      split at hlength
      · next hattach =>
        simp only [length_attach? hattach, hblocks, List.length_cons] at hlength
        omega
      · simp [hblocks] at hlength
    · next hblocks => simp [hblocks] at hlength
  · intro h
    rw [close, h]

end Nesting

namespace Class

open Scan

namespace Line

/-- The words that the forms of lines begin with, up to the one that ends a block. -/
def openings : List (List (List String)) := [
  [["title"]], [["hide"], ["show"]], [["remove"]], [["together"]], [["package"], ["namespace"]]]

lemma opensWith_firstForms : List.Forall₂ OpensWith (firstForms.take 5) openings := by
  refine .cons ?_ <| .cons ?_ <| .cons ?_ <| .cons ?_ <| .cons ?_ .nil
  · exact ((OpensWith.keyword _).bind _).bind _
  · exact (OpensWith.oneOf _).bind _
  · exact (OpensWith.keyword _).bind _
  · exact (OpensWith.keyword _).bind _
  · exact (OpensWith.oneOf _).bind _

end Line

/-- A line that ends a package or a group changes nothing if and only if none is open. -/
lemma Reader.step_blockEnd {r : Reader} {line : SourceLine} (hbody : r.body = none)
    (hform : Line.readBlockEnd.reads line.text = true) :
    r.step line = r ↔ r.nesting.blocks = [] := by
  obtain ⟨l, hl⟩ := Option.isSome_iff_exists.1 hform
  have hyields : Line.readBlockEnd.Yields (· = .blockEnd) :=
    Yields.bind fun _ => Yields.bind fun _ => Yields.pure rfl
  obtain rfl := hyields.of_whole hl
  have hopens : Line.readBlockEnd.OpensWith [["\x7d"]] := (OpensWith.char (by decide)).bind _
  obtain ⟨ws, hws, hs⟩ := hopens.of_reads hform
  obtain rfl := List.mem_singleton.1 hws
  have hread : Line.read? line.text = some .blockEnd := by
    have hfails := fails_anyOf (fails_of_apart Line.opensWith_firstForms hs (by decide))
    rw [Line.read?, whole_anyOf 5 rfl (hfails _) hl, Option.some_or]
  have hapart : apart ["title"] ["\x7d"] = true := by decide
  have hne : line.text.isEmpty = false := isEmpty_of_apart hs hapart
  rw [step, hbody, ← Nesting.close_eq_self_iff]
  simp only [hne, readLine, hread, Bool.false_eq_true, if_false]
  exact ⟨fun he => congrArg Reader.nesting he, fun h => by rw [apply, h]⟩

end Class

namespace Description

open Scan

namespace Line

lemma opensWith_containerHead :
    containerHead.OpensWith (ElementKind.containerWords.map Prod.fst) := by
  refine OpensWith.bind (OpensWith.bind (OpensWith.anyOf fun p hp => ?_) _) _
  obtain ⟨⟨words, kind⟩, hwords, rfl⟩ := List.mem_map.1 hp
  refine (OpensWith.phrase words).captured.mono ?_
  exact List.cons_subset.2 ⟨List.mem_map_of_mem hwords, List.nil_subset _⟩

lemma opensWith_forms : List.Forall₂ OpensWith [readTitle, readDirection, readTogether]
    [[["title"]], [["left", "to", "right", "direction"], ["top", "to", "bottom", "direction"]],
      [["together"]]] := by
  refine .cons ?_ <| .cons ?_ <| .cons ?_ .nil
  · exact ((OpensWith.keyword _).bind _).bind _
  · exact (((OpensWith.phrase _).bind _).either ((OpensWith.phrase _).bind _)).bind _
  · exact (OpensWith.keyword _).bind _

end Line

/-- A line that ends a container or a group changes nothing if and only if none is open. -/
lemma Reader.step_blockEnd {r : Reader} {line : SourceLine} (hbody : r.body = none)
    (hform : Line.readBlockEnd.reads line.text = true) :
    r.step line = r ↔ r.nesting.blocks = [] := by
  obtain ⟨l, hl⟩ := Option.isSome_iff_exists.1 hform
  have hyields : Line.readBlockEnd.Yields (· = .blockEnd) :=
    Yields.bind fun _ => Yields.bind fun _ => Yields.pure rfl
  obtain rfl := hyields.of_whole hl
  have hopens : Line.readBlockEnd.OpensWith [["\x7d"]] := (OpensWith.char (by decide)).bind _
  obtain ⟨ws, hws, hs⟩ := hopens.of_reads hform
  obtain rfl := List.mem_singleton.1 hws
  have hread : Line.read? r.dialect line.text = some .blockEnd := by
    have hfirst := fails_anyOf (fails_of_apart Line.opensWith_forms hs (by decide))
    have hcontainer : Line.container? line.text = none := by
      have hfails := Line.opensWith_containerHead.fails hs (by decide)
      rw [Line.container?, whole, hfails]
      rfl
    have hthird : (anyOf ([Line.readBlockEnd, Line.readDisplay] ++
        Line.labelStarts r.dialect)).whole line.text = some .blockEnd :=
      run_anyOf_cons hl _
    have hnone : (anyOf [Line.readTitle, Line.readDirection, Line.readTogether]).whole line.text =
        none :=
      hfirst _
    rw [Line.read?]
    dsimp only
    rw [hnone, hcontainer, hthird, Option.none_or, Option.none_or, Option.some_or]
  have hapart : apart ["title"] ["\x7d"] = true := by decide
  have hne : line.text.isEmpty = false := isEmpty_of_apart hs hapart
  rw [step, hbody, ← Nesting.close_eq_self_iff]
  simp only [hne, hread, Bool.false_eq_true, if_false]
  exact ⟨fun he => congrArg Reader.nesting he, fun h => by rw [apply, h]⟩

end Description

/-! ## All dialects -/

namespace Source

/-- A line that ends a block or goes on with it, met outside of notes and other texts, changes the
state of a reader if and only if the innermost open block is one that it is for.  In an activity
diagram that depends on the kind of the block; in the other dialects it is enough that a fragment, a
box, a composite state, a package, a container or a group is open. -/
theorem closers_without_block (line : SourceLine) :
    (∀ (r : Activity.Reader) (k : Activity.Closer), r.text = none →
      k.form.reads line.text = true →
      (r.step line = r ↔ ∀ f ∈ r.frames.head?, f.block.kind ∉ k.kinds)) ∧
    (∀ r : Sequence.Reader, r.block = none →
      (Sequence.Line.readFragmentElse.reads line.text = true ∨
        Sequence.Line.readFragmentEnd.reads line.text = true) →
      (r.step line = r ↔ r.fragments = [])) ∧
    (∀ r : Sequence.Reader, r.block = none → Sequence.Line.readBoxEnd.reads line.text = true →
      (r.step line = r ↔ r.inBox = false)) ∧
    (∀ r : State.Reader, r.note = none → State.Line.readBlockEnd.reads line.text = true →
      (r.step line = r ↔ r.stack = [])) ∧
    (∀ r : Class.Reader, r.body = none → Class.Line.readBlockEnd.reads line.text = true →
      (r.step line = r ↔ r.nesting.blocks = [])) ∧
    (∀ r : Description.Reader, r.body = none →
      Description.Line.readBlockEnd.reads line.text = true →
      (r.step line = r ↔ r.nesting.blocks = [])) := by
  refine ⟨fun r k htext hform => Activity.Reader.step_closer htext hform, ?_,
    fun r hblock hform => Sequence.Reader.step_boxEnd hblock hform,
    fun r hnote hform => State.Reader.step_blockEnd hnote hform,
    fun r hbody hform => Class.Reader.step_blockEnd hbody hform,
    fun r hbody hform => Description.Reader.step_blockEnd hbody hform⟩
  rintro r hblock (hform | hform)
  · exact Sequence.Reader.step_fragmentElse hblock hform
  · exact Sequence.Reader.step_fragmentEnd hblock hform

/-- The end of a split inside of a fork, those of a fragment and a box before there is one, and a
closing brace in the dialects that know it, at last with an open group. -/
theorem closers_without_block_split :
    let line (s : String) : SourceLine := ⟨s.toList, s.toList⟩
    let fork : Activity.Reader := { frames := [⟨[], ⟨1, none⟩, .fork false []⟩] }
    let group : Description.Reader :=
      { dialect := .components, nesting := { blocks := [.together []] } }
    ((Activity.Closer.endFork true).form.reads (line "end split").text = true ∧
      fork.step (line "end split") = fork) ∧
    (Sequence.Line.readFragmentEnd.reads (line "END").text = true ∧
      Sequence.Reader.step {} (line "END") = {}) ∧
    (Sequence.Line.readBoxEnd.reads (line "end box").text = true ∧
      Sequence.Reader.step {} (line "end box") = {}) ∧
    (State.Line.readBlockEnd.reads (line "\x7d").text = true ∧
      State.Reader.step {} (line "\x7d") = {}) ∧
    (Class.Line.readBlockEnd.reads (line "\x7d").text = true ∧
      Class.Reader.step {} (line "\x7d") = {}) ∧
    (Description.Line.readBlockEnd.reads (line "\x7d").text = true ∧
      group.step (line "\x7d") ≠ group) := by
  intro line fork group
  have hsplit : (Activity.Closer.endFork true).form.reads (line "end split").text = true := by
    decide +kernel
  have hend : Sequence.Line.readFragmentEnd.reads (line "END").text = true := by decide +kernel
  have hbox : Sequence.Line.readBoxEnd.reads (line "end box").text = true := by decide +kernel
  have hstate : State.Line.readBlockEnd.reads (line "\x7d").text = true := by decide +kernel
  have hclass : Class.Line.readBlockEnd.reads (line "\x7d").text = true := by decide +kernel
  have hgroup : Description.Line.readBlockEnd.reads (line "\x7d").text = true := by decide +kernel
  have hfork : ∀ f ∈ fork.frames.head?, f.block.kind ∉ (Activity.Closer.endFork true).kinds := by
    intro f hf
    obtain rfl := Option.some.inj hf
    decide
  obtain ⟨hactivity, -⟩ := closers_without_block (line "end split")
  obtain ⟨-, hfragments, -⟩ := closers_without_block (line "END")
  obtain ⟨-, -, hboxes, -⟩ := closers_without_block (line "end box")
  obtain ⟨-, -, -, hstates, hpackages, hgroups⟩ := closers_without_block (line "\x7d")
  refine ⟨⟨hsplit, (hactivity fork _ rfl hsplit).2 hfork⟩,
    ⟨hend, (hfragments {} rfl (.inr hend)).2 rfl⟩, ⟨hbox, (hboxes {} rfl hbox).2 rfl⟩,
    ⟨hstate, (hstates {} rfl hstate).2 rfl⟩, ⟨hclass, (hpackages {} rfl hclass).2 rfl⟩,
    ⟨hgroup, fun he => ?_⟩⟩
  exact List.cons_ne_nil _ _ ((hgroups group rfl hgroup).1 he)

end Source
end UmlDraw
