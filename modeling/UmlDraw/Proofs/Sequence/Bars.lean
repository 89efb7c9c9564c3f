/-
# The activation bars of a sequence diagram

A leaf opens a bar if it is a message with a shortcut that does, coming in if it comes from the
border, or an event that activates a participant.  A *history* of a drawing lists its leaves as they
come, the bars that they open, and the bars that are closed in between, each with the bars that are
open then.  A closed bar is drawn at once.  So the bars that are drawn are those that were opened,
each once, as soon as none is left open; and none is left open, because the columns are swept in
the end.

The main statements are

* `Sequence.History.perm`: what was opened was closed or is open;
* `Sequence.Sheet.carried_logged`: drawing a leaf goes on with the history;
* `Sequence.Sheet.barsOf_finish`: no bar is left open;
* `Sequence.Diagram.bars_read`.
-/
import Mathlib.Data.List.Forall2
import Mathlib.Data.List.Perm.Basic
import Mathlib.Logic.Function.Basic
import UmlDraw.Proofs.Sequence.Sheet

namespace UmlDraw
namespace Sequence

/-- The participant whose bar a leaf opens, if it opens one. -/
def Element.opener? : Element → Option String
  | .message m => if Sheet.opens m.activation then some m.target else none
  | .border m => if m.kind.isIncoming && Sheet.opens m.activation then some m.participant else none
  | .life e => if e.kind = .activate then some e.participant else none
  | _ => none

/-- An entry of a history. -/
inductive BarEvent where
  /-- A leaf that opens no bar. -/
  | passed (leaf : Element)
  /-- A leaf, and the bar of a participant that it opens. -/
  | opened (leaf : Element) (code : String) (bar : Bar)
  /-- A bar of a participant that is closed. -/
  | closed (code : String) (bar : Bar)

namespace BarEvent

/-- The leaf of an entry. -/
def leaf? : BarEvent → Option Element
  | passed e => some e
  | opened e _ _ => some e
  | closed _ _ => none

/-- The bar that is opened. -/
def opened? : BarEvent → Option (String × Bar)
  | opened _ code bar => some (code, bar)
  | _ => none

/-- The bar that is closed. -/
def closed? : BarEvent → Option (String × Bar)
  | closed code bar => some (code, bar)
  | _ => none

end BarEvent

/-- The open bars of each participant after the entries of a history, innermost first.  A bar is
opened on top of the others of its participant and counts them; the top one is closed. -/
inductive History : List BarEvent → (String → List Bar) → Prop
  | nil : History [] fun _ => []
  | passed {log table} {e : Element} : History log table → e.opener? = none →
      History (log ++ [.passed e]) table
  | opened {log table} {e : Element} {code : String} {bar : Bar} : History log table →
      e.opener? = some code → bar.depth = (table code).length →
      History (log ++ [.opened e code bar]) (Function.update table code (bar :: table code))
  | closed {log table} {code : String} {bar : Bar} {rest : List Bar} : History log table →
      table code = bar :: rest →
      History (log ++ [.closed code bar]) (Function.update table code rest)

namespace History

variable {log : List BarEvent} {table : String → List Bar}

/-- Bars are opened for the leaves that open one, in their order. -/
lemma opened_eq (h : History log table) :
    (log.filterMap BarEvent.opened?).map Prod.fst =
      (log.filterMap BarEvent.leaf?).filterMap Element.opener? := by
  induction h with
  | nil => rfl
  | passed _ hopener ih =>
    simp [ih, List.filterMap_cons, BarEvent.opened?, BarEvent.leaf?, hopener]
  | opened _ hopener _ ih =>
    simp [ih, BarEvent.opened?, BarEvent.leaf?, hopener]
  | closed _ _ ih => simp [ih, List.filterMap_cons, BarEvent.opened?, BarEvent.leaf?]

open Classical in
/-- Of equal bars of a participant, as many were opened as were closed or are open. -/
lemma count_opened (h : History log table) (code : String) (bar : Bar) :
    (log.filterMap BarEvent.opened?).count (code, bar) =
      (log.filterMap BarEvent.closed?).count (code, bar) + (table code).count bar := by
  induction h with
  | nil => rfl
  | passed _ _ ih =>
    simpa [List.filterMap_cons, BarEvent.opened?, BarEvent.closed?] using ih
  | @opened log table e code' bar' _ _ _ ih =>
    simp only [List.filterMap_append, List.filterMap_cons, List.filterMap_nil, BarEvent.opened?,
      BarEvent.closed?, List.count_append, List.append_nil, ih]
    by_cases hcode : code = code'
    · subst hcode
      simp only [Function.update_self, List.count_cons, List.count_nil, Prod.mk.injEq, true_and,
        beq_iff_eq]
      omega
    · simp [Function.update_of_ne hcode, Ne.symm hcode]
  | @closed log table code' bar' rest _ hstack ih =>
    simp only [List.filterMap_append, List.filterMap_cons, List.filterMap_nil, BarEvent.opened?,
      BarEvent.closed?, List.count_append, List.append_nil, ih]
    by_cases hcode : code = code'
    · subst hcode
      simp only [hstack, Function.update_self, List.count_cons, List.count_nil, Prod.mk.injEq,
        true_and, beq_iff_eq]
      omega
    · simp [Function.update_of_ne hcode, Ne.symm hcode]

/-- Once no bar is open, the bars that were opened are those that were closed. -/
theorem perm (h : History log fun _ => []) :
    (log.filterMap BarEvent.opened?).Perm (log.filterMap BarEvent.closed?) := by
  classical
  refine List.perm_iff_count.2 fun x => ?_
  have hcount := h.count_opened x.1 x.2
  rwa [List.count_nil, Nat.add_zero] at hcount

end History

/-- The shape draws a bar of a participant: on its lane, further right by what is below it. -/
structure Ground.ShowsBar (g : Ground) (x : String × Bar) (c : Cell) : Prop where
  kind_eq : c.vertex = true ∧ c.edge = false
  style_eq : c.style = (barStyle x.2.color).render
  place : ∃ l place, g.lane? x.1 = some l ∧ c.geometry = some place ∧
    place.x = l.center - .real 5.0 + .int (x.2.depth * 5) ∧ place.y = x.2.start ∧ place.width = 10

namespace Sheet

variable {s s' : Sheet} {code : String}

lemma barsOf_congr (h : s'.bars = s.bars) : s'.barsOf = s.barsOf := by
  funext code
  rw [barsOf, barsOf, h]

lemma barsOf_setBars (hcode : code ∈ s.bars.map Prod.fst) (bars : List Bar) :
    (s.setBars code bars).barsOf = Function.update s.barsOf code bars := by
  have hset : (s.setBars code bars).bars =
      s.bars.map fun entry => (entry.1, if entry.1 = code then bars else entry.2) := by
    refine List.map_congr_left fun entry _ => ?_
    by_cases h : entry.1 = code <;> simp [h]
  funext other
  have hlookup : (s.setBars code bars).bars.lookup other =
      (s.bars.lookup other).map fun bs => if other = code then bars else bs :=
    hset ▸ Keyed.lookup_map_values (fun c bs => if c = code then bars else bs) s.bars other
  unfold barsOf
  rw [hlookup]
  by_cases h : other = code
  · subst h
    obtain ⟨stack, hstack⟩ : ∃ stack, s.bars.lookup other = some stack :=
      Option.ne_none_iff_exists'.1 fun hnone => by
        obtain ⟨entry, hentry, rfl⟩ := List.mem_map.1 hcode
        simpa using List.lookup_eq_none_iff.1 hnone entry hentry
    simp [hstack]
  · simp [h]

lemma keys_setBars (s : Sheet) (code : String) (bars : List Bar) :
    (s.setBars code bars).bars.map Prod.fst = s.bars.map Prod.fst := by
  unfold setBars
  rw [List.map_map]
  refine List.map_congr_left fun entry _ => ?_
  show (if entry.1 == code then (entry.1, bars) else (entry.1, entry.2)).1 = entry.1
  split
  · rfl
  · rfl

lemma mem_keys_of_barsOf (h : s.barsOf code ≠ []) : code ∈ s.bars.map Prod.fst := by
  by_contra hcode
  have hnone : s.bars.lookup code = none := by
    rw [List.lookup_eq_none_iff]
    intro entry hentry
    rw [bne_iff_ne]
    rintro rfl
    exact hcode (List.mem_map_of_mem hentry)
  exact h (by rw [barsOf, hnone, Option.getD_none])

/-- Closing the top bar of a participant draws it. -/
lemma exists_deactivate {bar : Bar} {rest : List Bar} (h : s.barsOf code = bar :: rest)
    (hcolumn : s.hasColumn code = true) (y : Number) :
    ∃ c, s.ground.ShowsBar (code, bar) c ∧ (s.deactivate code y).posts =
      { (s.setBars code rest).posts with drawn := s.layers.bars ++ [c] } := by
  obtain ⟨c, hc, hlane⟩ := exists_lane hcolumn
  have hcenter : s.center code = c.lane.center := by
    rw [center, hc]
    rfl
  unfold Sheet.deactivate
  rw [h]
  exact ⟨_, ⟨⟨rfl, rfl⟩, rfl, c.lane, _, hlane, rfl,
    congrArg (· - .real 5.0 + .int (bar.depth * 5)) hcenter, rfl, rfl⟩, rfl⟩

/-- The leaves so far have a history that ends with the open bars of the sheet and closes those that
are drawn on it, in their order. -/
structure Logged (codes : List String) (es : List Element) (s : Sheet) : Prop where
  codes_eq : s.bars.map Prod.fst = codes
  lanes_eq : s.ground.lanes.map Lane.code = codes
  log : ∃ log, History log s.barsOf ∧ log.filterMap BarEvent.leaf? = es ∧
    List.Forall₂ (s.ground.ShowsBar) (log.filterMap BarEvent.closed?) s.layers.bars

namespace Logged

variable {codes : List String} {es : List Element} {e : Element}

lemma of_posts (h : Logged codes es s) (hposts : s'.posts = s.posts) : Logged codes es s' := by
  obtain ⟨hcodes, hlanes, log, hhistory, hleaves, hdraws⟩ := h
  have hground : s'.ground = s.ground := congrArg Posts.ground hposts
  have hbars : s'.bars = s.bars := congrArg Posts.bars hposts
  have hdrawn : s'.layers.bars = s.layers.bars := congrArg Posts.drawn hposts
  have hopen : s'.barsOf = s.barsOf := barsOf_congr hbars
  refine ⟨hbars ▸ hcodes, hground ▸ hlanes, log, hopen ▸ hhistory, hleaves, ?_⟩
  rw [hground, hdrawn]
  exact hdraws

/-- A leaf that opens no bar goes by. -/
lemma pass (h : Logged codes es s) (he : e.opener? = none) : Logged codes (es ++ [e]) s := by
  obtain ⟨log, hhistory, hleaves, hdraws⟩ := h.log
  refine ⟨h.codes_eq, h.lanes_eq, _, hhistory.passed he, ?_, ?_⟩
  · simp [hleaves, BarEvent.leaf?]
  · simpa [List.filterMap_cons, BarEvent.closed?] using hdraws

/-- A leaf opens a bar. -/
lemma activate (h : Logged codes es s) (he : e.opener? = some code) (hcode : code ∈ codes)
    (y : Number) (caller color : Option String) :
    Logged codes (es ++ [e]) (s.activate code y caller color) := by
  obtain ⟨log, hhistory, hleaves, hdraws⟩ := h.log
  have hopen := barsOf_setBars (h.codes_eq ▸ hcode)
    (⟨y, (s.barsOf code).length, caller, color⟩ :: s.barsOf code)
  have hnext := hhistory.opened he
    (rfl : (⟨y, (s.barsOf code).length, caller, color⟩ : Bar).depth = (s.barsOf code).length)
  rw [← hopen] at hnext
  refine ⟨(s.keys_setBars code _).trans h.codes_eq, h.lanes_eq, _, hnext, ?_, ?_⟩
  · simp [hleaves, BarEvent.leaf?]
  · show List.Forall₂ s.ground.ShowsBar _ s.layers.bars
    simpa [List.filterMap_cons, BarEvent.closed?] using hdraws

/-- The top bar of a participant is closed and drawn. -/
lemma deactivate (h : Logged codes es s) (code : String) (y : Number) :
    Logged codes es (s.deactivate code y) := by
  cases hbars : s.barsOf code with
  | nil =>
    have hsame : s.deactivate code y = s := by rw [Sheet.deactivate, hbars]
    exact hsame.symm ▸ h
  | cons bar rest =>
    obtain ⟨log, hhistory, hleaves, hdraws⟩ := h.log
    have hkey : code ∈ s.bars.map Prod.fst := mem_keys_of_barsOf (by simp [hbars])
    obtain ⟨c, hc, hposts⟩ := exists_deactivate hbars
      (hasColumn_iff.2 (h.lanes_eq ▸ h.codes_eq ▸ hkey)) y
    have hground : (s.deactivate code y).ground = s.ground := congrArg Posts.ground hposts
    have hdrawn : (s.deactivate code y).layers.bars = s.layers.bars ++ [c] :=
      congrArg Posts.drawn hposts
    have hnext := hhistory.closed hbars
    rw [← barsOf_setBars hkey rest, ← barsOf_congr (congrArg Posts.bars hposts)] at hnext
    refine ⟨?_, hground ▸ h.lanes_eq, _, hnext, ?_, ?_⟩
    · rw [← h.codes_eq, ← s.keys_setBars code rest]
      exact congrArg (fun p => p.bars.map Prod.fst) hposts
    · simpa [List.filterMap_cons, BarEvent.leaf?] using hleaves
    · rw [List.filterMap_append, hground, hdrawn]
      exact List.rel_append hdraws (.cons hc .nil)

lemma deactivateAll (h : Logged codes es s) (code : String) (y : Number) :
    Logged codes es (s.deactivateAll code y) :=
  List.foldlRecOn _ _ h fun _ ht _ _ => ht.deactivate code y

lemma destroy (h : Logged codes es s) (code : String) (y : Number) :
    Logged codes es (s.destroy code y) :=
  (h.deactivateAll code y).of_posts (s.quiet_destroy code y).posts_eq

lemma beforeMessage (h : Logged codes es s) {shortcut : Option String} {target : String}
    (he : e.opener? = if opens shortcut then some target else none) (htarget : target ∈ codes)
    (source : Option String) (y : Number) (color : Option String) :
    Logged codes (es ++ [e]) (s.beforeMessage shortcut source target y color) := by
  unfold Sheet.beforeMessage
  split
  · next hopens => exact h.activate (he.trans (if_pos hopens)) htarget y source color
  · next hopens =>
    have hpass : Logged codes (es ++ [e]) s := h.pass (he.trans (if_neg hopens))
    split
    · exact hpass.of_posts rfl
    · exact hpass

lemma afterMessage (h : Logged codes es s) (shortcut : Option String) (source target : String)
    (y : Number) : Logged codes es (s.afterMessage shortcut source target y) := by
  unfold Sheet.afterMessage
  split
  · exact h.deactivate _ _
  · split
    · exact h.destroy _ _
    · exact h

lemma messageBetween (h : Logged codes es s) {m : Message} {source target : String}
    (he : e.opener? = if opens m.activation then some target else none) (htarget : target ∈ codes) :
    Logged codes (es ++ [e]) (s.messageBetween m source target) := by
  obtain ⟨s₁, s₂, y, hrow, harrow, hend⟩ := s.posts_messageBetween m source target
  have hbefore := (h.of_posts hrow).beforeMessage he htarget (some source) y m.activationColor
  have hafter := (hbefore.of_posts harrow).afterMessage m.activation source target y
  refine of_posts ?_ hend
  split
  · exact hafter.deactivate _ _
  · exact hafter

lemma mem_codes (h : Logged codes es s) (hcode : s.hasColumn code = true) : code ∈ codes :=
  h.lanes_eq ▸ hasColumn_iff.1 hcode

lemma hasColumn (h : Logged codes es s) (hcode : code ∈ codes) : s.hasColumn code = true :=
  hasColumn_iff.2 (h.lanes_eq ▸ hcode)

lemma message (h : Logged codes es s) {m : Message} (hm : m.Within codes) :
    Logged codes (es ++ [.message m]) (s.message m) := by
  cases hreturn : m.isReturn with
  | false =>
    have hcodes := hm.mem hreturn
    have hmessage := message_eq hreturn (h.hasColumn (hcodes m.source (by simp)))
      (h.hasColumn (hcodes m.target (by simp)))
    exact hmessage ▸ h.messageBetween rfl (hcodes m.target (by simp))
  | true =>
    -- a return has no shortcut, whatever ends it gets
    have hopener : (Element.message m).opener? = none := by
      simp [Element.opener?, hm.activation_eq hreturn, opens]
    rw [Sheet.message, hreturn, if_pos rfl]
    split
    · exact h.pass hopener
    · split
      · next hcolumns =>
        rw [Bool.and_eq_true] at hcolumns
        refine h.messageBetween ?_ (h.mem_codes hcolumns.2)
        rw [hopener, hm.activation_eq hreturn]
        rfl
      · exact h.pass hopener

lemma border (h : Logged codes es s) {m : BorderMessage} (hm : m.participant ∈ codes) :
    Logged codes (es ++ [.border m]) (s.border m) := by
  obtain ⟨s₁, s₂, y, hrow, harrow, hend⟩ := s.posts_border m (h.hasColumn hm)
  have hbefore : Logged codes (es ++ [.border m]) (if m.kind.isIncoming then
      s₁.beforeMessage m.activation none m.participant y none else s₁) := by
    split
    · next hincoming =>
      refine (h.of_posts hrow).beforeMessage ?_ hm none y none
      simp [Element.opener?, hincoming]
    · next hincoming => exact (h.of_posts hrow).pass (by simp [Element.opener?, hincoming])
  have hdrawn := hbefore.of_posts harrow
  refine of_posts ?_ hend
  split
  · exact hdrawn.deactivate _ _
  · split
    · exact hdrawn.destroy _ _
    · exact hdrawn

lemma life (h : Logged codes es s) {e : LifeEvent} (he : e.participant ∈ codes) :
    Logged codes (es ++ [.life e]) (s.life e) := by
  obtain ⟨y, caller, -, hposts⟩ := s.posts_life e (h.hasColumn he)
  refine of_posts ?_ hposts
  have hpass : e.kind ≠ .activate → Logged codes (es ++ [.life e]) s := fun hkind =>
    h.pass (if_neg hkind)
  cases hkind : e.kind with
  | activate =>
    have hopener : (Element.life e).opener? = some e.participant := if_pos hkind
    exact h.activate hopener he y caller e.color
  | deactivate => exact (hpass (by simp [hkind])).deactivate _ _
  | destroy => exact (hpass (by simp [hkind])).destroy _ _
  | create => exact hpass (by simp [hkind])
  | other => exact hpass (by simp [hkind])

end Logged

/-- Drawing a leaf goes on with the history. -/
lemma carried_logged (codes : List String) : Carried (Logged codes) (Element.Within codes) where
  quiet h hquiet := h.of_posts hquiet.posts_eq
  forget h := h.of_posts rfl
  message h he := h.message he
  border h he := h.border he
  life h he := h.life he
  renumber a h := (h.pass rfl).of_posts (posts_renumber _ a)
  mark {es s e} h he := by
    cases e with
    | note n => exact h.pass rfl
    | divider label => exact h.pass rfl
    | delay label => exact h.pass rfl
    | space size => exact h.pass rfl
    | reference r => exact h.pass rfl
    | _ => cases he

lemma barsOf_deactivate (s : Sheet) (code : String) (y : Number) :
    (s.deactivate code y).barsOf = Function.update s.barsOf code (s.barsOf code).tail := by
  unfold deactivate
  cases hbars : s.barsOf code with
  | nil =>
    have hsame : Function.update s.barsOf code [] = s.barsOf := by
      rw [← hbars, Function.update_eq_self]
    exact hsame.symm
  | cons bar rest =>
    have hkey : code ∈ s.bars.map Prod.fst := mem_keys_of_barsOf (by simp [hbars])
    exact barsOf_setBars hkey rest

lemma barsOf_deactivateAll (s : Sheet) (code : String) (y : Number) :
    (s.deactivateAll code y).barsOf = Function.update s.barsOf code [] := by
  unfold deactivateAll
  generalize hbars : s.barsOf code = bars
  induction bars generalizing s with
  | nil => rw [List.foldl_nil, ← hbars, Function.update_eq_self]
  | cons bar rest ih =>
    have htail : (s.deactivate code y).barsOf code = rest := by
      rw [barsOf_deactivate, Function.update_self, hbars, List.tail_cons]
    rw [List.foldl_cons, ih _ htail, barsOf_deactivate, Function.update_idem]

/-- After a sweep over columns their participants have no open bars. -/
lemma barsOf_sweep (cs : List Column) (y : Number) (s : Sheet) (code : String) :
    (cs.foldl (fun t c => t.deactivateAll c.participant.code y) s).barsOf code =
      if code ∈ cs.map fun c => c.participant.code then [] else s.barsOf code := by
  induction cs generalizing s with
  | nil => simp
  | cons c rest ih =>
    rw [List.foldl_cons, ih, barsOf_deactivateAll]
    by_cases h : code = c.participant.code
    · simp [h]
    · simp [h]

/-- No bar is left open on the finished sheet. -/
lemma barsOf_finish {codes : List String} {es : List Element} (h : Logged codes es s)
    (d : Diagram) (code : String) : (s.finish d).barsOf code = [] := by
  have hbars := congrArg Posts.bars (s.quiet_finish d).posts_eq
  have hfinish : (s.finish d).barsOf code = _ := congrArg (fun bs => (bs.lookup code).getD []) hbars
  rw [hfinish]
  show barsOf _ code = []
  rw [barsOf_sweep]
  split
  · rfl
  · next hcode =>
    -- a participant without a column has no bars to begin with
    by_contra hopen
    have hlane : code ∈ s.ground.lanes.map Lane.code := by
      rw [h.lanes_eq, ← h.codes_eq]
      exact mem_keys_of_barsOf hopen
    rw [ground, List.map_map] at hlane
    exact hcode hlane

lemma barsOf_start (d : Diagram) (parent : String) :
    (Sheet.start d parent).barsOf = fun _ => [] := by
  have hbars : (Sheet.start d parent).bars = d.codes.map fun c => (c, []) :=
    congrArg Posts.bars (views_start d parent).2.2
  funext code
  rw [barsOf, hbars]
  cases hlookup : (d.codes.map fun c => (c, ([] : List Bar))).lookup code with
  | none => rfl
  | some stack =>
    obtain ⟨before, after, hentries, -⟩ := List.lookup_eq_some_iff.1 hlookup
    have hmem : (code, stack) ∈ d.codes.map fun c => (c, ([] : List Bar)) := by simp [hentries]
    obtain ⟨_, -, heq⟩ := List.mem_map.1 hmem
    exact (Prod.mk.inj heq).2.symm

/-- A diagram starts with an empty history. -/
lemma Logged.start (d : Diagram) (parent : String) :
    Logged d.codes [] (Sheet.start d parent) := by
  obtain ⟨hcodes, -, hposts⟩ := views_start d parent
  have hbars : (Sheet.start d parent).bars = d.codes.map fun c => (c, []) :=
    congrArg Posts.bars hposts
  have hdrawn : (Sheet.start d parent).layers.bars = [] := congrArg Posts.drawn hposts
  refine ⟨?_, hcodes, [], ?_, rfl, hdrawn ▸ .nil⟩
  · rw [hbars, List.map_map]
    exact List.map_id _
  · rw [barsOf_start]
    exact .nil

lemma Logged.finish {codes : List String} {es : List Element} (h : Logged codes es s)
    (d : Diagram) : Logged codes es (s.finish d) := by
  refine of_posts ?_ (s.quiet_finish d).posts_eq
  exact List.foldlRecOn _ _ h fun _ ht _ _ => ht.deactivateAll _ _

end Sheet

namespace Diagram

/-- The bars of a diagram that was read: the leaves have a history in which each leaf that opens a
bar opens one; no bar is left open in the end, and the bars on the sheet are those that were closed,
which are those that were opened. -/
theorem bars_read {text : String} {d : Diagram} (hread : Diagram.read text = .ok d)
    (parent : String) :
    (∀ cells, d.draw parent = .ok cells → cells = (d.sheet parent).layers.all) ∧
      (d.sheet parent).layers.bars.length =
        ((leavesAll d.elements).filterMap Element.opener?).length ∧
      (∀ code, (d.sheet parent).barsOf code = []) ∧
      ∃ log, History log (d.sheet parent).barsOf ∧
        log.filterMap BarEvent.leaf? = leavesAll d.elements ∧
        List.Forall₂ (d.sheet parent).ground.ShowsBar (log.filterMap BarEvent.closed?)
          (d.sheet parent).layers.bars ∧
        (log.filterMap BarEvent.opened?).Perm (log.filterMap BarEvent.closed?) := by
  have hdrawn := (Sheet.carried_logged d.codes).drawAll 0 (.start d parent) d.elements
    (within_read hread)
  have hopen : (d.sheet parent).barsOf = fun _ => [] := funext (Sheet.barsOf_finish hdrawn d)
  obtain ⟨log, hhistory, hleaves, hbars⟩ := (hdrawn.finish d).log
  have hperm := History.perm (hopen ▸ hhistory)
  refine ⟨fun cells hcells => (Fault.check_eq_ok_iff.1 hcells).2.symm, ?_, congrFun hopen, log,
    hhistory, hleaves, hbars, hperm⟩
  calc (d.sheet parent).layers.bars.length
      = (log.filterMap BarEvent.closed?).length := hbars.length_eq.symm
    _ = ((log.filterMap BarEvent.opened?).map Prod.fst).length := by
        rw [List.length_map, hperm.length_eq]
    _ = ((leavesAll d.elements).filterMap Element.opener?).length := by
        rw [hhistory.opened_eq, hleaves, List.nil_append]

/-- Bars of two participants, one of them nested, closed by a return, by a shortcut and in the
end. -/
theorem bars_read_nested :
    let text := "A -> B ++ : x\nloop\nB -> B ++\n[-> A ++\nreturn\nend\nB --> A --\nactivate B"
    ∃ d, Diagram.read text = .ok d ∧
      (leavesAll d.elements).filterMap Element.opener? = ["B", "B", "A", "B"] ∧
      (d.sheet "1").layers.bars.length = 4 ∧ ∀ code, (d.sheet "1").barsOf code = [] := by
  intro text
  obtain ⟨d, hread, hd⟩ := Fault.exists_of_any (by decide +kernel :
    (Diagram.read text).toOption.any (fun d =>
      (leavesAll d.elements).filterMap Element.opener? == ["B", "B", "A", "B"]) = true)
  obtain ⟨-, hlength, hopen, -⟩ := bars_read hread "1"
  rw [beq_iff_eq] at hd
  rw [hd] at hlength
  exact ⟨d, hread, hd, hlength, hopen⟩

end Diagram
end Sequence
end UmlDraw
