/-
# Labels at the ways out of loops

An activity is drawn list by list, and the label of the way out of a loop is kept only by the list
in which the loop stands.  So it is written at the connector to the next instruction of that list,
if there is one and no connector line brings a label of its own.  A loop that ends a branch, a case,
the branch of a fork or the body of another loop is left without its label, and so is a loop that
ends a partition.

The main statements are

* `Instruction.traced_draw` and the three lemmas beside it: the loops that an instruction, a list
  and branches draw, and the connectors that leave them;
* `Diagram.exits_read`: the connectors that leave the loops of a text.
-/
import UmlDraw.Proofs.Activity.ExitLoop
import UmlDraw.Proofs.Activity.Flow

namespace UmlDraw
namespace Activity

open Cell Sketch

namespace Instruction

lemma before_le {k : Canvas} {cs : List Cell} {before : Option Nat}
    (h : ∀ b, before = some b → b ≤ k.count) :
    ∀ b, before = some b → b ≤ (k.add cs).count :=
  fun b hb => (h b hb).trans (k.count_add cs ▸ Nat.le_add_right _ _)

-- The four lemmas go through an instruction as the four functions do.
mutual

lemma traced_draw (lanes : Keyed Rat) (cx y : Rat) (k : Canvas) (out : Behind) :
    (i : Instruction) → (draw lanes cx y i).Appends k fun ends cs =>
      Traced k (exits out i) (out.labels i.exitLabel) ends cs ∧ ends.entry.isSome = !i.isAside
  | step n s => by
    unfold draw
    exact appends_drawStep cx y n s _ k
  | choice n c first others last => by
    unfold draw
    split
    · next honly =>
      refine ((appends_drawDiamond _ _ _ _ k).imp ?_).returns
      rintro _ _ ⟨rfl, b, rfl, hb⟩
      simp only [onlyLeaves, Bool.and_eq_true, List.isEmpty_iff] at honly
      obtain ⟨⟨⟨rfl, rfl⟩, -⟩, hfirst⟩ := honly
      have hexits : exits out (choice n c first [] []) = [] := by
        rw [exits, exitsAll_of_all_isLeave hfirst]
        rfl
      rw [hexits]
      exact ⟨traced_box hb _, rfl⟩
    · refine (appends_drawDiamond _ _ _ _ k).bind ?_
      rintro _ _ ⟨rfl, b, rfl, hb⟩
      refine (appends_drawMerge _ _ _ _).bind ?_
      rintro _ _ ⟨rfl, b', rfl, hb'⟩
      refine appends_branch (appends_body rfl
        (chained_drawAll lanes _ _ none rfl (fun _ => nofun) (fun _ => rfl) first)) _
        (by simp) (by simp) fun cs₁ ss₁ h₁ hexits₁ => ?_
      refine (closed_drawOthers lanes _ _ _ (h₁.old_le_add (.inr rfl))
        (h₁.old_le_add (.inl rfl)) others).bind ?_
      rintro ⟨_, left⟩ cs₂ ⟨d, ss₂, rfl, h₂, hexits₂, hlast⟩
      refine appends_branch (appends_body rfl
        (chained_drawAll lanes _ _ none rfl (fun _ => nofun) (fun _ => rfl) last)) _
        ?_ ?_ fun cs₃ ss₃ h₃ hexits₃ => Appends.pure ⟨?_, rfl⟩
      · rcases hlast with hlast | rfl
        · exact (Canvas.count_add _ cs₂).symm ▸ hlast.1.2
        · exact h₂.old_le_add (.inl rfl)
      · exact h₂.old_le_add (.inr rfl)
      · have hbetween := h₁.seq (h₂.seq h₃ ?_) fun n => .inr
        · have htraced := traced_between hb hb' hbetween (out.labels none)
          rw [List.map_append, List.map_append, hexits₁, hexits₂, hexits₃] at htraced
          rw [List.append_nil, exits, List.append_assoc]
          exact htraced
        · rintro n (rfl | rfl)
          · exact hlast.imp_right .inl
          · exact .inr (.inr rfl)
  | loop n l body => by
    refine traced_loop ?_ out
    unfold draw
    cases l.test with
    | before =>
      refine (appends_drawDiamond _ _ _ _ k).bind ?_
      rintro _ _ ⟨rfl, b, rfl, hb⟩
      exact looped_before hb
        (appends_body rfl (chained_drawAll lanes _ _ none rfl (fun _ => nofun) (fun _ => rfl) body))
    | after startLabel =>
      have hbody : ∀ (y : Rat) (k : Canvas),
          (drawAll lanes cx { y := y, lastY := y } body).Appends k
            (Traced k (exitsAll .close body) [""]) := fun y k =>
        appends_body rfl (chained_drawAll lanes _ _ none rfl (fun _ => nofun) (fun _ => rfl) body)
      cases startLabel with
      | none =>
        have hagain := looped_again none (fun _ => nofun) (hbody y (k.add [])) l cx
          (y + (sizeAll body).height + Size.rowGap)
        rw [Canvas.add_nil] at hagain
        refine hagain.imp fun ends cs h => ?_
        rw [← k.add_nil] at h
        exact h.behind (Closed.nil fun _ => False.elim) (fun _ => nofun)
      | some label =>
        refine (appends_drawAround _ _ _ _ _ k).bind ?_
        rintro _ _ ⟨rfl, b, rfl, hb⟩
        refine (looped_again (some (k.count + 1)) ?_ (hbody _ (k.add [b])) l cx _).imp
          fun ends cs h => h.behind (Closed.box hb fun _ => False.elim) ?_
        · rintro n ⟨⟩
          simp
        · rintro n ⟨⟩
          simp [Among]
  | switch n condition color cases => by
    unfold draw
    refine (appends_drawDiamond _ _ _ _ k).bind ?_
    rintro _ _ ⟨rfl, b, rfl, hb⟩
    refine (appends_drawMerge _ _ _ _).bind ?_
    rintro _ _ ⟨rfl, b', rfl, hb'⟩
    refine ((closed_drawBranches lanes _ _ _ ?_ ?_ cases).imp ?_).returns
    · simp
    · simp
    · rintro _ cs ⟨ss, h, hexits⟩
      rw [exits, ← hexits]
      exact ⟨traced_between hb hb' h _, rfl⟩
  | fork n isSplit branches => by
    unfold draw
    dsimp only
    refine (appends_shape _ _ _ _ _ _ k).bind ?_
    rintro _ _ ⟨rfl, b, rfl, hb⟩
    refine (appends_shape _ _ _ _ _ _ _).bind ?_
    rintro _ _ ⟨rfl, b', rfl, hb'⟩
    refine ((closed_drawBranches lanes _ _ _ ?_ ?_ branches).imp ?_).returns
    · simp
    · simp
    · rintro _ cs ⟨ss, h, hexits⟩
      rw [exits, ← hexits]
      exact ⟨traced_between hb hb' h _, rfl⟩
  | partition n name color body => by
    unfold draw
    refine (appends_drawAround _ _ _ _ _ k).bind ?_
    rintro _ _ ⟨rfl, b, rfl, hb⟩
    refine Appends.bind (Appends.imp
      (chained_drawAll lanes _ _ none rfl (fun _ => nofun) out.labels_past_eq body)
        fun _ _ h => h.traced rfl) ?_
    rintro _ cs ⟨entry, exit, ss, rfl, htrace, hexits, hwaits⟩
    have hframe : Trace k none entry exit ([b] ++ cs) ss :=
      htrace.behind (Closed.box hb fun _ => False.elim)
    rw [exits, ← hexits]
    cases entry with
    | none =>
      obtain rfl := htrace.no_flow rfl
      have hamong : Among k ([b] ++ cs) (k.count + 1) := by simp [Among]
      refine Appends.pure ⟨?_, rfl⟩
      rw [List.append_nil]
      exact hframe.closed.traced hamong hamong (htrace.hosts.ne_diamond (by simp)) _
    | some e =>
      refine Appends.pure ⟨⟨some e, exit, ss, rfl, ?_, rfl, ?_⟩, rfl⟩
      · exact (List.append_nil cs).symm ▸ hframe
      · exact fun s hs hexit => (hwaits s hs hexit).trans (out.labels_past none)

lemma chained_drawAll (lanes : Keyed Rat) (cx : Rat) (k : Canvas) {c : Chain}
    (before : Option Nat) (hc : c.exit = before.map cellId)
    (hbefore : ∀ b, before = some b → b ≤ k.count) {out : Behind}
    (hout : ∀ label, out.labels label = out.labels none) :
    (is : List Instruction) → (drawAll lanes cx c is).Appends k (Chained c k before out is)
  | [] => by
    unfold drawAll
    exact Appends.pure ⟨none, none, [], Option.or_none.symm, hc, goes_nil⟩
  | i :: rest => by
    unfold drawAll
    split
    · next heq => cases heq
    · next nd a _ heq =>
      obtain ⟨rfl, rfl⟩ := List.cons.inj heq
      have hnil : Closed k (fun _ => False) [] [] := Closed.nil fun _ => False.elim
      have hrest := chained_drawAll lanes cx (k.add []) (c := { c with pending := some a })
        before hc (before_le hbefore) hout rest
      rw [Canvas.add_nil] at hrest
      refine hrest.imp fun ends cs h => ?_
      rw [← k.add_nil] at h
      show Chained c k before out _ ends ([] ++ cs)
      exact h.aside rfl rfl rfl rfl hbefore hnil
    · next nd note _ heq =>
      obtain ⟨rfl, rfl⟩ := List.cons.inj heq
      refine (appends_drawNote _ _ note k).bind ?_
      rintro _ _ ⟨b, rfl, hb⟩
      have hrest : ∀ d : Chain, d.entry = c.entry → d.exit = c.exit →
          d.exitLabel = c.exitLabel → d.pending = none →
            (drawAll lanes cx d rest).Appends (k.add [b]) fun ends cs =>
              Chained c k before out (step nd (.note note) :: rest) ends ([b] ++ cs) := by
        intro d hentry hexit hlabel hpending
        refine (chained_drawAll lanes cx (k.add [b]) before (hexit.trans hc)
          (before_le hbefore) hout rest).imp fun ends cs h => ?_
        refine h.aside rfl ?_ hentry hlabel hbefore (Closed.box hb fun _ => False.elim)
        rw [hpending]
        rfl
      cases note.isLeft with
      | true => exact hrest _ rfl rfl rfl rfl
      | false => exact hrest _ rfl rfl rfl rfl
    · next harrow hnote heq =>
      obtain ⟨rfl, rfl⟩ := List.cons.inj heq
      refine (traced_draw lanes _ _ k (behind out none rest) i).bind ?_
      rintro _ cs ⟨⟨entry, exit, ss, rfl, htrace, hexits, hwaits⟩, hflow⟩
      cases entry with
      | none =>
        obtain rfl := htrace.no_flow rfl
        have hi : i.isAside = true := by simpa using hflow
        rw [exits_of_isAside hi, List.map_eq_nil_iff] at hexits
        have hclosed : Closed k (fun _ => False) cs [] := hexits ▸ htrace.closed
        have hrest := chained_drawAll lanes cx (k.add cs) (c := { c with pending := none })
          before hc (before_le hbefore) hout rest
        simp only [Option.map_none, join_aside, pure_bind, hi, if_true]
        refine hrest.imp fun ends cs₁ h => h.aside hi ?_ rfl rfl hbefore hclosed
        exact behind_aside hi (fun n a heq => harrow n a heq) c.pending
      | some e =>
        have hi : i.isAside = false := by simpa using hflow
        refine (appends_join c hc e _ _ _).bind ?_
        rintro d cs₁ ⟨hjoin, hentry, hexit, hlabel, hpending⟩
        have hrest : ∀ d' : Chain, d'.entry = d.entry → d'.exit = d.exit →
            d'.exitLabel = d.exitLabel → d'.pending = d.pending →
              (drawAll lanes cx d' rest).Appends ((k.add cs).add cs₁) fun ends cs₂ =>
                Chained c k before out (i :: rest) ends (cs ++ (cs₁ ++ cs₂)) := by
          intro d' hentry' hexit' hlabel' hpending'
          refine (chained_drawAll lanes cx ((k.add cs).add cs₁) _ (hexit'.trans hexit) ?_
            hout rest).imp ?_
          · refine before_le fun b hb => ?_
            rw [Canvas.count_add]
            exact (htrace.among_exit b hb).2
          · rintro ends cs₂ ⟨entry'', exit'', tt, hentry'', hexit'', hgoes⟩
            refine ⟨some e, _, ss ++ tt, ?_, hexit'', hgoes.cons hi hout hbefore htrace hexits
              hwaits hjoin (hpending'.trans hpending) (hlabel'.trans hlabel)⟩
            rw [hentry'', hentry', hentry, Option.or_assoc]
            rfl
        rw [hi]
        exact hrest _ rfl rfl rfl rfl

lemma closed_drawOthers (lanes : Keyed Rat) (y left : Rat) {merge before : Nat} (k : Canvas)
    (hmerge : merge ≤ k.count) (hbefore : before ≤ k.count) :
    (others : List (Branch Instruction)) →
      (drawOthers lanes y (cellId merge) (cellId before) left others).Appends k fun r cs =>
        ∃ last ss, r.1 = cellId last ∧ Closed k (fun n => n = before ∨ n = merge) cs ss ∧
          ss.map Spot.toExit = exitsBranches others ∧
            ((Among k cs last ∧ ∀ s ∈ ss, s.diamond ≠ last) ∨ last = before)
  | [] => by
    unfold drawOthers
    refine Appends.pure ⟨before, [], rfl, Closed.nil ?_, rfl, .inr rfl⟩
    rintro n (rfl | rfl)
    · exact hbefore
    · exact hmerge
  | ⟨condition, label, body⟩ :: rest => by
    unfold drawOthers
    refine (appends_drawDiamond _ _ _ _ k).bind ?_
    rintro _ _ ⟨rfl, b, rfl, hb⟩
    refine (appends_drawPlain (a := some before) (b := some (k.count + 1)) rfl rfl _ _).bind
      fun _ cs₁ hin => ?_
    refine appends_branch
      (appends_body rfl (chained_drawAll lanes _ _ none rfl (fun _ => nofun) (fun _ => rfl) body)) _
      ?_ ?_ fun cs₂ ss₂ h₂ hexits₂ => ?_
    · simp only [Canvas.count_add, List.length_singleton]
      omega
    · simp only [Canvas.count_add]
      omega
    refine (closed_drawOthers lanes _ _ _ (h₂.old_le_add (.inr rfl)) (h₂.old_le_add (.inl rfl))
      rest).imp ?_
    rintro r cs₃ ⟨last, ss₃, hr, h₃, hexits₃, hlast⟩
    refine ⟨last, ss₂ ++ ss₃, hr, closed_further hb hbefore hmerge hin h₂ h₃, ?_, .inl ?_⟩
    · rw [List.map_append, hexits₂, hexits₃, exitsBranches]
    rcases hlast with ⟨hamong, hne⟩ | rfl
    · refine ⟨hamong.right.right.right, List.forall_mem_append.2 ⟨fun s hs heq => ?_, hne⟩⟩
      have hle := (h₂.hosts.among hs).2
      have hlt := hamong.1
      rw [Canvas.count_add] at hlt
      omega
    · have hcount : k.count + 1 ≤ ((k.add [b]).add cs₁).count := by
        simp only [Canvas.count_add, List.length_singleton]
        omega
      refine ⟨by simp [Among], List.forall_mem_append.2 ⟨h₂.hosts.ne_diamond hcount, ?_⟩⟩
      exact h₃.hosts.ne_diamond (hcount.trans (Canvas.count_add _ cs₂ ▸ Nat.le_add_right _ _))

lemma closed_drawBranches (lanes : Keyed Rat) (y left : Rat) {source target : Nat} (k : Canvas)
    (hsource : source ≤ k.count) (htarget : target ≤ k.count) :
    (branches : List (Branch Instruction)) →
      (drawBranches lanes y (cellId source) (cellId target) left branches).Appends k fun _ cs =>
        ∃ ss, Closed k (fun n => n = source ∨ n = target) cs ss ∧
          ss.map Spot.toExit = exitsBranches branches
  | [] => by
    unfold drawBranches
    refine Appends.pure ⟨[], Closed.nil ?_, rfl⟩
    rintro n (rfl | rfl)
    · exact hsource
    · exact htarget
  | ⟨condition, _, body⟩ :: rest => by
    unfold drawBranches
    refine appends_strand
      (appends_body rfl (chained_drawAll lanes _ _ none rfl (fun _ => nofun) (fun _ => rfl) body)) _
      hsource htarget fun cs ss h hexits => ?_
    refine (closed_drawBranches lanes _ _ _ (h.old_le_add (.inl rfl)) (h.old_le_add (.inr rfl))
      rest).imp ?_
    rintro _ cs' ⟨ss', h', hexits'⟩
    refine ⟨ss ++ ss', h.seq h' fun n => .inr, ?_⟩
    rw [List.map_append, hexits, hexits', exitsBranches]

end

end Instruction

/-! ### The drawing of a text -/

namespace Diagram

lemma closed_drawLanes (places : Keyed (Nat × Nat)) (y height : Nat) (ls : List Lane)
    (k : Canvas) :
    (drawLanes places y height ls).Appends k fun _ cs => Closed k (fun _ => False) cs [] := by
  induction ls generalizing k with
  | nil => exact Appends.pure (Closed.nil fun _ => False.elim)
  | cons l rest ih =>
    unfold drawLanes
    split
    · refine (appends_shape _ _ _ _ _ _ k).bind ?_
      rintro _ _ ⟨rfl, b, rfl, hb⟩
      exact (ih _).imp fun _ cs h => (Closed.box hb fun _ => False.elim).seq h fun _ => False.elim
    · exact ih k

/-- The loops of a diagram are drawn among its cells. -/
lemma hosts_sketch (d : Diagram) (k : Canvas) :
    d.sketch.Appends k fun _ cs =>
      ∃ ss, ss.map Spot.toExit = d.exits ∧ Closed k (fun _ => False) cs ss := by
  have hall : ∀ (lanes : Keyed Rat) (cx y : Rat) k',
      (Instruction.drawAll lanes cx { y := y, lastY := y } d.instructions).Appends k' fun _ cs =>
        ∃ ss, ss.map Spot.toExit = d.exits ∧ Closed k' (fun _ => False) cs ss := by
    intro lanes cx y k'
    refine (Instruction.chained_drawAll lanes cx k' none rfl (fun _ => nofun) ?_ _).imp
      fun _ _ h => (h.traced rfl).closed
    exact fun _ => rfl
  have hbody : ∀ (top : Nat) (size : Size) k', (
      if d.lanes.keys.isEmpty then do
        let _ ← Instruction.drawAll Keyed.empty (margin + size.width / 2)
          { y := top, lastY := top } d.instructions
      else do
        let places := d.placeLanes margin d.laneNames Keyed.empty
        let centers : Keyed Rat := places.map fun _ place => place.1 + place.2 / 2
        drawLanes places (top - margin) (size.height + laneHeader + margin * 2) d.lanes.values
        let first := (d.laneNames.head?.bind centers.get?).getD 0
        let y : Rat := top + laneHeader
        let _ ← Instruction.drawAll centers first { y := y, lastY := y } d.instructions :
      Sketch Unit).Appends k' fun _ cs =>
        ∃ ss, ss.map Spot.toExit = d.exits ∧ Closed k' (fun _ => False) cs ss := by
    intro top size k'
    split
    · exact (hall _ _ _ k').returns
    · refine (closed_drawLanes _ _ _ _ k').bind fun _ cs hlanes => ?_
      refine ((hall _ _ _ _).imp fun _ cs' h => ?_).returns
      obtain ⟨ss, hexits, h⟩ := h
      exact ⟨ss, hexits, hlanes.seq h fun _ => False.elim⟩
  unfold sketch
  cases d.title.filter fun t => !t.isEmpty with
  | none => exact hbody _ _ k
  | some t =>
    refine (appends_shape _ _ _ _ _ _ k).bind ?_
    rintro _ _ ⟨rfl, b, rfl, hb⟩
    refine (hbody _ _ _).imp fun _ cs h => ?_
    obtain ⟨ss, hexits, h⟩ := h
    exact ⟨ss, hexits, (Closed.box hb fun _ => False.elim).seq h fun _ => False.elim⟩

/-- The ids of a stretch of a drawing are the numbered ones at its place. -/
lemma cellId_mem_ids {k : Canvas} {cs after : List Cell} {d : Diagram} {parent : String}
    (h : d.draw parent = k.cells ++ (cs ++ after)) {n : Nat} (hn : Among k cs n) :
    cellId n ∈ cs.map Cell.id := by
  obtain ⟨j, hj, rfl⟩ : ∃ j, j < cs.length ∧ n = k.cells.length + j + 1 := by
    refine ⟨n - k.count - 1, ?_, ?_⟩ <;> simp only [Among, Canvas.count] at hn ⊢ <;> omega
  have hids := congrArg (·[k.cells.length + j]?) (d.ids_draw parent)
  have hlt : k.cells.length + j < (k.cells ++ (cs ++ after)).length := by
    rw [List.length_append, List.length_append]
    omega
  simp only [Document.numberedIds, List.getElem?_map, List.getElem?_range hlt, h,
    List.getElem?_append_right (Nat.le_add_right _ _), Nat.add_sub_cancel_left,
    List.getElem?_append_left hj, List.getElem?_eq_getElem hj, Option.map_some] at hids
  exact List.mem_map.2 ⟨cs[j], List.getElem_mem hj, Option.some.inj hids⟩

/-- In the drawing of a text each loop has a place of its own, in the order in which the loops are
written, and at this place it is drawn by itself: its decision is one of its own cells, and the
connectors of these stay among them.  All other connectors that start at its decision leave the
loop, and they have the labels that follow from what is behind the loop.  So the label of the way
out is written at a connector that leaves the loop if the next instruction of the flow stands in the
same list, behind no connector line with a label of its own, and only then. -/
theorem exits_read (text parent : String) :
    let d := read text
    let cells := d.draw parent
    d.exits.map Exit.instruction = (Instruction.walkAll d.instructions).filter Instruction.isLoop ∧
      ∃ ss : List Spot, ss.map Spot.toExit = d.exits ∧ ss.Pairwise Spot.Before ∧ ∀ s ∈ ss,
        (∃ lanes cx y entry, (s.instruction.draw lanes cx y).run s.canvas =
          (⟨some entry, some (cellId s.diamond)⟩, s.canvas.add s.own)) ∧
        (∃ c ∈ s.own, c.id = cellId s.diamond ∧ c.vertex = true ∧ c.value = s.loop.condition) ∧
        (∀ c ∈ s.own, ∀ id, c.target = some id → id ∈ s.own.map Cell.id) ∧
        ∃ after, cells = s.canvas.cells ++ (s.own ++ after) ∧
          labelsFrom (cellId s.diamond) (s.canvas.cells ++ after) = s.labels := by
  intro d cells
  refine ⟨Instruction.map_instruction_exitsAll _ _, ?_⟩
  obtain ⟨cs, hcs, ss, hexits, hclosed⟩ := hosts_sketch d { parent := parent }
  obtain rfl : cells = cs := congrArg Canvas.cells hcs
  refine ⟨ss, hexits, hclosed.hosts.order, fun s hs => ?_⟩
  obtain ⟨⟨hrun, ⟨c, hmem, hc⟩, -, hlinks⟩, before, after, hcanvas, hcells, hlabels⟩ :=
    hclosed.hosts.spots s hs
  have hbefore : s.canvas.cells = before := congrArg Canvas.cells hcanvas
  rw [← hbefore] at hcells hlabels
  refine ⟨hrun, ⟨c, hmem, hc.id, hc.vertex, hc.value⟩, fun c' hc' id hid => ?_, after, hcells, ?_⟩
  · obtain ⟨n, hn, rfl⟩ := hlinks.target c' hc' id hid
    exact cellId_mem_ids hcells hn
  · rw [if_neg nofun] at hlabels
    exact hlabels

example :
    let d := read "while (b)\n:x;\nendwhile (no)\n:y;"
    (d.exits.map Exit.labels, labelsFrom (cellId 1) (d.draw "1")) = ([["no"]], ["", "no"]) := by
  decide +kernel

/-- A loop that ends a branch is left without its label, though the connector leads on from its
decision; so is a loop that ends a partition. -/
theorem not_labelled_exit :
    let branch := read "if (a) then\nwhile (b)\n:x;\nendwhile (no)\nendif"
    let inside := read "partition p \x7b\nwhile (b)\n:x;\nendwhile (no)\n\x7d\n:y;"
    (branch.exits.map fun e => (e.loop.exitLabel, e.behind)) = [(some "no", .close)] ∧
      (∃ c ∈ branch.draw "1", c.source = some "puml-3" ∧ c.target = some "puml-2" ∧ c.value = "") ∧
      (inside.exits.map fun e => (e.loop.exitLabel, e.behind)) = [(some "no", .beyond none)] ∧
      ∃ c ∈ inside.draw "1",
        c.source = some "puml-2" ∧ c.target = some "puml-6" ∧ c.value = "" := by
  decide +kernel

end Diagram

end Activity
end UmlDraw
