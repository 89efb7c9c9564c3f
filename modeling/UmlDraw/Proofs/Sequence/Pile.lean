/-
# The open bars of a sequence diagram

The bars that are open while a diagram is drawn form a *pile*: they are listed in the order in which
they were opened, latest first.  A leaf may open a bar on top of the pile, and it may end the latest
bar of a participant, or all of them.  Which leaves do follows from the leaves alone, but for the
heights, and for returns, which have to pick their bar.  The sheet keeps no pile but the bars of each
column; it has the bars of the pile, and draws those that end.

The main statements are

* `Sequence.Sheet.Standing.messageBetween`, `Sequence.Sheet.Standing.border` and
  `Sequence.Sheet.Standing.life`: a leaf changes the pile as it should;
* `Sequence.Sheet.Standing.finish`: in the end the bars of the pile are closed.
-/
import UmlDraw.Proofs.Sequence.Arrows
import UmlDraw.Proofs.Sequence.Bars

namespace UmlDraw
namespace Sequence

/-- The open bars of a participant in a pile, innermost first. -/
def barsIn (pile : List (String × Bar)) (code : String) : List Bar :=
  (pile.filter (·.1 == code)).map Prod.snd

/-- The bars that end at a leaf. -/
inductive Ending where
  | none
  /-- The latest bar of a participant. -/
  | latest (code : String)
  /-- All bars of a participant. -/
  | all (code : String)

namespace Ending

/-- The bars of a pile that end, in the order in which they are closed. -/
def closed : Ending → List (String × Bar) → List (String × Bar)
  | none, _ => []
  | latest code, pile => (pile.find? (·.1 == code)).toList
  | all code, pile => pile.filter (·.1 == code)

/-- The bars of a pile that stay open. -/
def left : Ending → List (String × Bar) → List (String × Bar)
  | none, pile => pile
  | latest code, pile => pile.eraseP (·.1 == code)
  | all code, pile => pile.filter (·.1 != code)

lemma left_subset (ending : Ending) (pile : List (String × Bar)) : ending.left pile ⊆ pile := by
  cases ending with
  | none => exact List.Subset.refl _
  | latest code => exact List.eraseP_subset
  | all code => exact List.filter_subset_self _

end Ending

/-- The bars that end at a message, unless it is a return. -/
def Message.ending (m : Message) : Ending :=
  if Sheet.closes m.activation then .latest m.source
  else if m.activation == some "!!" then .all m.target else .none

/-- The bars that end at a message from or to the border. -/
def BorderMessage.ending (m : BorderMessage) : Ending :=
  if !m.kind.isIncoming && Sheet.closes m.activation then .latest m.participant
  else if m.activation == some "!!" then .all m.participant else .none

/-- The bars that end at an event. -/
def LifeEvent.ending (e : LifeEvent) : Ending :=
  match e.kind with
  | .deactivate => .latest e.participant
  | .destroy => .all e.participant
  | _ => .none

namespace Element

/-- The bars that end at a leaf, unless it is a return. -/
def ending : Element → Ending
  | .message m => m.ending
  | .border m => m.ending
  | .life e => e.ending
  | _ => .none

/-- The color of the bar that a leaf opens. -/
def barColor? : Element → Option String
  | .message m => m.activationColor
  | .life e => e.color
  | _ => none

/-- Whom a leaf that opens a bar may record as its caller: a message its source, an event the source
of the last message, if that went to the same participant, or nobody. -/
def Records (last : Option (String × String)) (caller : Option String) : Element → Prop
  | .message m => caller = some m.source
  | .life e => ∀ source, caller = some source → last = some (source, e.participant)
  | _ => caller = none

/-- A leaf behind a last message makes the one pile the other: it opens a bar on top, if it opens
one, and counts the bars of the participant below it. -/
inductive Loads (last : Option (String × String)) (pile : List (String × Bar)) (e : Element) :
    List (String × Bar) → Prop
  | nothing : e.opener? = none → Loads last pile e pile
  | bar {code : String} {bar : Bar} : e.opener? = some code →
      bar.depth = (barsIn pile code).length → bar.color = e.barColor? → e.Records last bar.caller →
      Loads last pile e ((code, bar) :: pile)

end Element

/-- A leaf that names participants among the given codes opens a bar of one of them, for one of
them. -/
lemma Element.opener_within {codes : List String} {e : Element} {code : String}
    {last : Option (String × String)} {caller : Option String} (he : e.Within codes)
    (hreturn : e.isReturn = false) (hopener : e.opener? = some code)
    (hlast : ∀ source target, last = some (source, target) → source ∈ codes ∧ target ∈ codes)
    (hcaller : e.Records last caller) :
    code ∈ codes ∧ ∀ name, caller = some name → name ∈ codes := by
  cases e with
  | message m =>
    have hcodes := he.mem hreturn
    simp only [opener?, Option.ite_none_right_eq_some, Option.some.injEq] at hopener
    refine ⟨hopener.2 ▸ hcodes m.target (by simp), fun name hname => ?_⟩
    cases hcaller.symm.trans hname
    exact hcodes m.source (by simp)
  | border m =>
    simp only [opener?, Option.ite_none_right_eq_some, Option.some.injEq] at hopener
    exact ⟨hopener.2 ▸ he, fun name hname => absurd (hcaller.symm.trans hname) (by simp)⟩
  | life e =>
    simp only [opener?, Option.ite_none_right_eq_some, Option.some.injEq] at hopener
    exact ⟨hopener.2 ▸ he, fun name hname => (hlast _ _ (hcaller name hname)).1⟩
  | _ => cases hopener

/-- The bars of a pile that are closed in the end, from left to right. -/
def swept (codes : List String) (pile : List (String × Bar)) : List (String × Bar) :=
  codes.flatMap fun code => (Ending.all code).closed pile

section Pile

lemma barsIn_cons (code : String) (bar : Bar) (pile : List (String × Bar)) :
    barsIn ((code, bar) :: pile) =
      Function.update (barsIn pile) code (bar :: barsIn pile code) := by
  funext other
  by_cases h : other = code
  · subst h
    simp [barsIn]
  · simp [barsIn, h, Ne.symm h]

lemma barsIn_left_latest (code : String) (pile : List (String × Bar)) :
    barsIn ((Ending.latest code).left pile) =
      Function.update (barsIn pile) code (barsIn pile code).tail := by
  induction pile with
  | nil => simp [Ending.left, barsIn]
  | cons x rest ih =>
    obtain ⟨code', bar⟩ := x
    show barsIn (((code', bar) :: rest).eraseP (·.1 == code)) = _
    rw [List.eraseP_cons, barsIn_cons]
    by_cases h : code' = code
    · subst h
      simp
    · have hne : (code' == code) = false := by simpa using h
      have ih : barsIn (rest.eraseP (·.1 == code)) = _ := ih
      rw [hne, cond_false, barsIn_cons, ih, Function.update_of_ne h,
        Function.update_of_ne (Ne.symm h), Function.update_comm h]

lemma barsIn_left_all (code : String) (pile : List (String × Bar)) :
    barsIn ((Ending.all code).left pile) = Function.update (barsIn pile) code [] := by
  funext other
  show ((pile.filter (·.1 != code)).filter (·.1 == other)).map Prod.snd = _
  rw [List.filter_filter]
  by_cases h : other = code
  · subst h
    simp
  · rw [Function.update_of_ne h]
    refine congrArg _ (List.filter_congr fun x _ => ?_)
    rw [Bool.and_eq_left_iff_imp, beq_iff_eq, bne_iff_ne]
    rintro rfl
    exact h

lemma closed_latest (code : String) (pile : List (String × Bar)) :
    (Ending.latest code).closed pile = ((barsIn pile code).head?.map (code, ·)).toList := by
  show (pile.find? (·.1 == code)).toList = _
  rw [barsIn, List.head?_map, List.head?_filter, Option.map_map]
  cases hfind : pile.find? (·.1 == code) with
  | none => rfl
  | some x =>
    have hcode := List.find?_some hfind
    rw [beq_iff_eq] at hcode
    rw [Option.map_some, Function.comp_apply, ← hcode]

lemma closed_all (code : String) (pile : List (String × Bar)) :
    (Ending.all code).closed pile = (barsIn pile code).map (code, ·) := by
  show pile.filter (·.1 == code) = _
  rw [barsIn, List.map_map]
  refine (List.map_id _).symm.trans (List.map_congr_left fun x hx => ?_)
  have hcode := (List.mem_filter.1 hx).2
  rw [beq_iff_eq] at hcode
  simp [← hcode]

end Pile

namespace Sheet

/-- The open bars of the participants are those of the table, and the bars drawn so far are the
closed ones. -/
structure Standing (codes : List String) (table : String → List Bar) (closed : List (String × Bar))
    (s : Sheet) : Prop where
  codes_eq : s.bars.map Prod.fst = codes
  lanes_eq : s.ground.lanes.map Lane.code = codes
  open_eq : s.barsOf = table
  shows : List.Forall₂ s.ground.ShowsBar closed s.layers.bars

namespace Standing

variable {codes : List String} {table : String → List Bar} {closed : List (String × Bar)}
  {s s' : Sheet} {code : String}

lemma of_posts (h : Standing codes table closed s) (hposts : s'.posts = s.posts) :
    Standing codes table closed s' := by
  have hground : s'.ground = s.ground := congrArg Posts.ground hposts
  have hbars : s'.bars = s.bars := congrArg Posts.bars hposts
  have hdrawn : s'.layers.bars = s.layers.bars := congrArg Posts.drawn hposts
  refine ⟨hbars ▸ h.codes_eq, hground ▸ h.lanes_eq, (barsOf_congr hbars).trans h.open_eq, ?_⟩
  rw [hground, hdrawn]
  exact h.shows

lemma hasColumn (h : Standing codes table closed s) (hcode : code ∈ codes) :
    s.hasColumn code = true :=
  hasColumn_iff.2 (h.lanes_eq ▸ hcode)

lemma mem_codes (h : Standing codes table closed s) (hcode : table code ≠ []) : code ∈ codes := by
  rw [← h.open_eq] at hcode
  exact h.codes_eq ▸ mem_keys_of_barsOf hcode

lemma activate (h : Standing codes table closed s) (hcode : code ∈ codes) (y : Number)
    (caller color : Option String) :
    Standing codes
      (Function.update table code (⟨y, (table code).length, caller, color⟩ :: table code)) closed
      (s.activate code y caller color) := by
  obtain ⟨rfl, hlanes, rfl, hshows⟩ := h
  exact ⟨s.keys_setBars code _, hlanes, barsOf_setBars hcode _, hshows⟩

/-- The top bar of a participant is closed and drawn. -/
lemma deactivate (h : Standing codes table closed s) (code : String) (y : Number) :
    Standing codes (Function.update table code (table code).tail)
      (closed ++ ((table code).head?.map (code, ·)).toList) (s.deactivate code y) := by
  cases hbars : table code with
  | nil =>
    have hsame : s.deactivate code y = s := by rw [Sheet.deactivate, h.open_eq, hbars]
    rw [hsame, List.tail_nil, ← hbars, Function.update_eq_self]
    simpa [hbars] using h
  | cons bar rest =>
    have hcode : code ∈ codes := h.mem_codes (by simp [hbars])
    obtain ⟨c, hc, hposts⟩ := exists_deactivate (h.open_eq ▸ hbars) (h.hasColumn hcode) y
    have hground : (s.deactivate code y).ground = s.ground := congrArg Posts.ground hposts
    have hdrawn : (s.deactivate code y).layers.bars = s.layers.bars ++ [c] :=
      congrArg Posts.drawn hposts
    refine ⟨?_, hground ▸ h.lanes_eq, ?_, ?_⟩
    · rw [← h.codes_eq, ← s.keys_setBars code rest]
      exact congrArg (fun p => p.bars.map Prod.fst) hposts
    · rw [barsOf_congr (congrArg Posts.bars hposts)]
      rw [barsOf_setBars (h.codes_eq ▸ hcode), h.open_eq, List.tail_cons]
    · rw [hground, hdrawn]
      exact List.rel_append h.shows (.cons hc .nil)

lemma deactivateAll (h : Standing codes table closed s) (code : String) (y : Number) :
    Standing codes (Function.update table code []) (closed ++ (table code).map (code, ·))
      (s.deactivateAll code y) := by
  unfold Sheet.deactivateAll
  rw [h.open_eq]
  generalize hbars : table code = bars
  induction bars generalizing s table closed with
  | nil =>
    rw [List.foldl_nil, List.map_nil, List.append_nil, ← hbars, Function.update_eq_self]
    exact h
  | cons bar rest ih =>
    have hstep := h.deactivate code y
    rw [hbars, List.tail_cons] at hstep
    have hrest := ih hstep (Function.update_self ..)
    rw [Function.update_idem] at hrest
    simpa using hrest

lemma destroy (h : Standing codes table closed s) (code : String) (y : Number) :
    Standing codes (Function.update table code []) (closed ++ (table code).map (code, ·))
      (s.destroy code y) :=
  (h.deactivateAll code y).of_posts (s.quiet_destroy code y).posts_eq

section Pile

variable {pile : List (String × Bar)}

lemma load (h : Standing codes (barsIn pile) closed s) (hcode : code ∈ codes) (y : Number)
    (caller color : Option String) :
    Standing codes (barsIn ((code, ⟨y, (barsIn pile code).length, caller, color⟩) :: pile)) closed
      (s.activate code y caller color) := by
  rw [barsIn_cons]
  exact h.activate hcode y caller color

lemma endLatest (h : Standing codes (barsIn pile) closed s) (code : String) (y : Number) :
    Standing codes (barsIn ((Ending.latest code).left pile))
      (closed ++ (Ending.latest code).closed pile) (s.deactivate code y) := by
  rw [barsIn_left_latest, closed_latest]
  exact h.deactivate code y

lemma endAll (h : Standing codes (barsIn pile) closed s) (code : String) (y : Number) :
    Standing codes (barsIn ((Ending.all code).left pile))
      (closed ++ (Ending.all code).closed pile) (s.destroy code y) := by
  rw [barsIn_left_all, closed_all]
  exact h.destroy code y

lemma endNone (h : Standing codes (barsIn pile) closed s) :
    Standing codes (barsIn (Ending.none.left pile)) (closed ++ Ending.none.closed pile) s := by
  rw [show Ending.none.closed pile = [] from rfl, List.append_nil]
  exact h

/-- A leaf with a shortcut opens the bar that it should. -/
lemma beforeMessage (h : Standing codes (barsIn pile) closed s) {e : Element}
    {last : Option (String × String)} {shortcut source color : Option String} {target : String}
    (hopener : e.opener? = if opens shortcut then some target else none)
    (hcolor : e.barColor? = color) (hcaller : e.Records last source) (htarget : target ∈ codes)
    (y : Number) :
    ∃ pile', e.Loads last pile pile' ∧
      Standing codes (barsIn pile') closed (s.beforeMessage shortcut source target y color) := by
  unfold Sheet.beforeMessage
  split
  · next hopens =>
    rw [if_pos hopens] at hopener
    exact ⟨_, .bar hopener rfl hcolor.symm hcaller, h.load htarget y source color⟩
  · next hopens =>
    rw [if_neg hopens] at hopener
    refine ⟨pile, .nothing hopener, ?_⟩
    split
    · exact h.of_posts rfl
    · exact h

/-- A message with a shortcut ends the bars that it should. -/
lemma afterMessage (h : Standing codes (barsIn pile) closed s) (m : Message) (y : Number) :
    Standing codes (barsIn (m.ending.left pile)) (closed ++ m.ending.closed pile)
      (s.afterMessage m.activation m.source m.target y) := by
  unfold Sheet.afterMessage Message.ending
  split
  · exact h.endLatest _ _
  · split
    · exact h.endAll _ _
    · exact h.endNone

lemma messageBetween (h : Standing codes (barsIn pile) closed s) {m : Message}
    (hreturn : m.isReturn = false) (htarget : m.target ∈ codes)
    (last : Option (String × String)) :
    ∃ pile', (Element.message m).Loads last pile pile' ∧
      Standing codes (barsIn (m.ending.left pile')) (closed ++ m.ending.closed pile')
        (s.messageBetween m m.source m.target) := by
  obtain ⟨s₁, s₂, y, hrow, harrow, hend⟩ := s.posts_messageBetween m m.source m.target
  have hcaller : (Element.message m).Records last (some m.source) := rfl
  obtain ⟨pile', hloads, hbefore⟩ := (h.of_posts hrow).beforeMessage rfl rfl hcaller htarget y
  rw [hreturn, if_neg Bool.false_ne_true] at hend
  exact ⟨pile', hloads, ((hbefore.of_posts harrow).afterMessage m y).of_posts hend⟩

/-- A message that is drawn as a return ends the latest bar of its source. -/
lemma returnBetween (h : Standing codes (barsIn pile) closed s) {m : Message}
    (hreturn : m.isReturn = true) (hm : m.Within codes) (source target : String) :
    Standing codes (barsIn ((Ending.latest source).left pile))
      (closed ++ (Ending.latest source).closed pile) (s.messageBetween m source target) := by
  obtain ⟨s₁, s₂, y, hrow, harrow, hend⟩ := s.posts_messageBetween m source target
  rw [hreturn, if_pos rfl, hm.activation_eq hreturn] at hend
  rw [hm.activation_eq hreturn] at harrow
  exact (((h.of_posts hrow).of_posts harrow).endLatest source y).of_posts hend

lemma border (h : Standing codes (barsIn pile) closed s) {m : BorderMessage}
    (hm : m.participant ∈ codes) (last : Option (String × String)) :
    ∃ pile', (Element.border m).Loads last pile pile' ∧
      Standing codes (barsIn (m.ending.left pile')) (closed ++ m.ending.closed pile')
        (s.border m) := by
  obtain ⟨s₁, s₂, y, hrow, harrow, hend⟩ := s.posts_border m (h.hasColumn hm)
  have hbefore : ∃ pile', (Element.border m).Loads last pile pile' ∧
      Standing codes (barsIn pile') closed (if m.kind.isIncoming then
        s₁.beforeMessage m.activation none m.participant y none else s₁) := by
    split
    · next hincoming =>
      have hcaller : (Element.border m).Records last none := rfl
      refine (h.of_posts hrow).beforeMessage ?_ rfl hcaller hm y
      simp [Element.opener?, hincoming]
    · next hincoming =>
      exact ⟨pile, .nothing (by simp [Element.opener?, hincoming]), h.of_posts hrow⟩
  obtain ⟨pile', hloads, hbefore⟩ := hbefore
  have hdrawn := hbefore.of_posts harrow
  refine ⟨pile', hloads, of_posts ?_ hend⟩
  unfold BorderMessage.ending
  split
  · exact hdrawn.endLatest _ _
  · split
    · exact hdrawn.endAll _ _
    · exact hdrawn.endNone

lemma life (h : Standing codes (barsIn pile) closed s) {e : LifeEvent}
    (he : e.participant ∈ codes) :
    ∃ pile', (Element.life e).Loads s.lastEnds pile pile' ∧
      Standing codes (barsIn (e.ending.left pile')) (closed ++ e.ending.closed pile')
        (s.life e) := by
  obtain ⟨y, caller, hcaller, hposts⟩ := s.posts_life e (h.hasColumn he)
  have hnothing : e.kind ≠ .activate → (Element.life e).Loads s.lastEnds pile pile := fun hkind =>
    .nothing (if_neg hkind)
  unfold LifeEvent.ending
  cases hkind : e.kind with
  | activate =>
    rw [hkind] at hposts
    refine ⟨(e.participant, ⟨y, (barsIn pile e.participant).length, caller, e.color⟩) :: pile,
      .bar (if_pos hkind) rfl rfl hcaller, ?_⟩
    exact (h.load he y caller e.color).endNone.of_posts hposts
  | deactivate =>
    rw [hkind] at hposts
    exact ⟨pile, hnothing (by simp [hkind]), (h.endLatest _ y).of_posts hposts⟩
  | destroy =>
    rw [hkind] at hposts
    exact ⟨pile, hnothing (by simp [hkind]), (h.endAll _ y).of_posts hposts⟩
  | create =>
    rw [hkind] at hposts
    exact ⟨pile, hnothing (by simp [hkind]), h.endNone.of_posts hposts⟩
  | other =>
    rw [hkind] at hposts
    exact ⟨pile, hnothing (by simp [hkind]), h.endNone.of_posts hposts⟩

end Pile

end Standing

/-- A diagram starts with an empty pile. -/
lemma Standing.start (d : Diagram) (parent : String) :
    Standing d.codes (barsIn []) [] (Sheet.start d parent) := by
  have hlogged := Logged.start d parent
  have hdrawn : (Sheet.start d parent).layers.bars = [] :=
    congrArg Posts.drawn (views_start d parent).2.2
  refine ⟨hlogged.codes_eq, hlogged.lanes_eq, barsOf_start d parent, ?_⟩
  rw [hdrawn]
  exact .nil

/-- A sweep over different columns closes their bars, from left to right. -/
lemma Standing.sweep {codes : List String} {table : String → List Bar}
    {closed : List (String × Bar)} {s : Sheet} (h : Standing codes table closed s) (y : Number)
    (cs : List Column) (hnodup : (cs.map (·.participant.code)).Nodup) :
    ∃ table', Standing codes table'
      (closed ++ (cs.map (·.participant.code)).flatMap fun code => (table code).map (code, ·))
      (cs.foldl (fun t c => t.deactivateAll c.participant.code y) s) := by
  induction cs generalizing s table closed with
  | nil => exact ⟨table, by simpa using h⟩
  | cons c rest ih =>
    rw [List.map_cons, List.nodup_cons] at hnodup
    obtain ⟨table', hrest⟩ := ih (h.deactivateAll c.participant.code y) hnodup.2
    refine ⟨table', ?_⟩
    -- what is left of the table is as it was for the columns to come
    have hsame : ((rest.map (·.participant.code)).flatMap fun code =>
        (Function.update table c.participant.code [] code).map (code, ·)) =
        (rest.map (·.participant.code)).flatMap fun code => (table code).map (code, ·) := by
      rw [List.flatMap_def, List.flatMap_def]
      refine congrArg _ (List.map_congr_left fun code hcode => ?_)
      rw [Function.update_of_ne]
      rintro rfl
      exact hnodup.1 hcode
    rw [hsame, List.append_assoc] at hrest
    exact hrest

/-- The finished sheet has the bars that were closed and those of the last pile. -/
lemma Standing.finish {codes : List String} {pile closed : List (String × Bar)} {s : Sheet}
    (h : Standing codes (barsIn pile) closed s) (hnodup : codes.Nodup) (d : Diagram) :
    List.Forall₂ (s.finish d).ground.ShowsBar (closed ++ swept codes pile)
      (s.finish d).layers.bars := by
  have hcodes : s.columns.map (·.participant.code) = codes := by
    rw [← h.lanes_eq, ground, List.map_map]
    rfl
  obtain ⟨table, hswept⟩ := h.sweep (s.cursor + 10) s.columns (hcodes ▸ hnodup)
  simp only [swept, closed_all]
  rw [hcodes] at hswept
  exact (hswept.of_posts (s.quiet_finish d).posts_eq).shows

end Sheet
end Sequence
end UmlDraw
