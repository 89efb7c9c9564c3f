/-
# Columns of instructions

The lists of instructions in an instruction stand side by side in columns around its center line; a
loop and a partition have one column.  An instruction of a list stands around the center line of its
column, unless it has a lane of its own: then it stands around the center line of the lane, and in
none of the columns around it.

As each column is as wide as what stands in it, and the columns together are no wider than their
instruction, whatever stands in different columns of an instruction keeps apart.

The main statements are

* `Instruction.spread_columnWidths_le`: the columns of an instruction are no wider than it;
* `Instruction.apart_columns`: there is a gap between any two of them;
* `Instruction.stands_plan` and the two lemmas beside it: what stands in a column has room in it;
* `Stands.apart`: instructions in different columns of one instruction keep apart.
-/
import UmlDraw.Proofs.Activity.Place

namespace UmlDraw
namespace Activity

/-- A column of instructions one below the other. -/
structure Column where
  /-- The number of the instruction that it is in. -/
  owner : Nat
  left : Rat
  width : Nat
deriving DecidableEq

namespace Column

/-- The center line. -/
def center (c : Column) : Rat :=
  c.left + c.width / 2

/-- The right side. -/
def right (c : Column) : Rat :=
  c.left + c.width

/-- Columns of the given widths side by side, from a given left side on. -/
def sideBySide (owner : Nat) (left : Rat) : List Nat → List Column
  | [] => []
  | w :: rest => ⟨owner, left, w⟩ :: sideBySide owner (left + w + Size.columnGap) rest

/-- Where the next column starts behind columns of the given widths. -/
def next (left : Rat) : List Nat → Rat
  | [] => left
  | w :: rest => next (left + w + Size.columnGap) rest

/-- The column has room for something around a center line. -/
structure Holds (c : Column) (cx : Rat) (width : Nat) : Prop where
  left : c.left ≤ cx - width / 2
  right : cx + width / 2 ≤ c.right

/-- One column lies inside the other one. -/
structure Inside (c d : Column) : Prop where
  left : d.left ≤ c.left
  right : c.right ≤ d.right

/-- One column ends before the other one starts, with the gap between them. -/
def Before (c c' : Column) : Prop :=
  c.right + Size.columnGap ≤ c'.left

/-- There is a gap between two columns. -/
def Apart (c c' : Column) : Prop :=
  c.Before c' ∨ c'.Before c

end Column

namespace Instruction

/-- The instruction draws nothing and has no place. -/
def isSilent : Instruction → Bool
  | step _ (.arrow _) => true
  | step _ .leave => true
  | _ => false

/-- The widths of the columns in an instruction. -/
def columnWidths : Instruction → List Nat
  | step _ _ => []
  | choice _ _ first others last =>
    if onlyLeaves first others last then []
    else Size.columns Size.diamond (sizeAll first :: branchSizes others ++ [sizeAll last])
  | loop _ _ body => [(sizeAll body).width]
  | switch _ _ _ cases => Size.columns Size.boxWidth (branchSizes cases)
  | fork _ _ branches => Size.columns Size.boxWidth (branchSizes branches)
  | partition _ _ _ body => [(sizeAll body).width]

/-- The columns in an instruction around a center line. -/
def columns (cx : Rat) (i : Instruction) : List Column :=
  Column.sideBySide i.node.id (cx - Size.spread i.columnWidths / 2) i.columnWidths

end Instruction

/-- An instruction with its place from left to right. -/
structure Seat where
  instruction : Instruction
  /-- The center line. -/
  center : Rat
  /-- The columns in which it stands, from the innermost one. -/
  columns : List Column

/-- The columns in which an instruction of a list stands: those of the list, or none if it has a
lane. -/
def keptColumns (lanes : Keyed Rat) (n : Node) (columns : List Column) : List Column :=
  match n.lane with
  | some name => if name.isEmpty || (lanes.get? name).isNone then columns else []
  | none => columns

namespace Instruction

mutual

/-- The places of an instruction around a center line and of those inside. -/
def plan (lanes : Keyed Rat) (around : List Column) (cx : Rat) : Instruction → List Seat
  | i@(step _ _) => [⟨i, cx, around⟩]
  | i@(choice n _ first others last) =>
    ⟨i, cx, around⟩ ::
      if onlyLeaves first others last then []
      else
        let c : Column := ⟨n.id, cx - Size.spread i.columnWidths / 2,
          max (sizeAll first).width Size.diamond⟩
        let left := c.right + Size.columnGap
        let c' : Column := ⟨n.id, Column.next left (Size.columns Size.diamond (branchSizes others)),
          max (sizeAll last).width Size.diamond⟩
        planAll lanes (c :: around) c.center first ++
          (planBranches lanes around n.id Size.diamond left others ++
            planAll lanes (c' :: around) c'.center last)
  | i@(loop n _ body) =>
    let c : Column := ⟨n.id, cx - (sizeAll body).width / 2, (sizeAll body).width⟩
    ⟨i, cx, around⟩ :: planAll lanes (c :: around) c.center body
  | i@(switch n _ _ cases) =>
    ⟨i, cx, around⟩ :: planBranches lanes around n.id Size.boxWidth
      (cx - Size.spread i.columnWidths / 2) cases
  | i@(fork n _ branches) =>
    ⟨i, cx, around⟩ :: planBranches lanes around n.id Size.boxWidth
      (cx - Size.spread i.columnWidths / 2) branches
  | i@(partition n _ _ body) =>
    let c : Column := ⟨n.id, cx - (sizeAll body).width / 2, (sizeAll body).width⟩
    ⟨i, cx, around⟩ :: planAll lanes (c :: around) c.center body

/-- The places of the instructions of a list around a center line and of those inside. -/
def planAll (lanes : Keyed Rat) (around : List Column) (cx : Rat) : List Instruction → List Seat
  | [] => []
  | i :: rest =>
    (if i.isSilent then []
      else plan lanes (keptColumns lanes i.node around) (centerOf lanes i.node cx) i) ++
      planAll lanes around cx rest

/-- The places of the instructions of branches, in columns at least as wide as given, from a given
left side on. -/
def planBranches (lanes : Keyed Rat) (around : List Column) (owner least : Nat) (left : Rat) :
    List (Branch Instruction) → List Seat
  | [] => []
  | ⟨_, _, body⟩ :: rest =>
    let c : Column := ⟨owner, left, max (sizeAll body).width least⟩
    planAll lanes (c :: around) c.center body ++
      planBranches lanes around owner least (c.right + Size.columnGap) rest

end

end Instruction

/-! ### The columns of an instruction -/

namespace Size

lemma spread_singleton (w : Nat) : spread [w] = w := by
  simp [spread]

lemma spread_cons (w : Nat) {ws : List Nat} (h : ws ≠ []) :
    spread (w :: ws) = w + columnGap + spread ws := by
  have hlength := List.length_pos_iff.2 h
  have hfold : ws.foldl (· + ·) w = w + ws.foldl (· + ·) 0 :=
    @List.foldl_assoc Nat (· + ·) _ ws w 0
  simp only [spread, List.foldl_cons, List.length_cons, Nat.zero_add, columnGap]
  omega

end Size

namespace Column

instance : Std.Symm Apart := ⟨fun _ _ h => h.symm⟩

variable {owner : Nat} {left : Rat} {ws ws' : List Nat} {c : Column}

lemma sideBySide_append (owner : Nat) (left : Rat) (ws ws' : List Nat) :
    sideBySide owner left (ws ++ ws') =
      sideBySide owner left ws ++ sideBySide owner (next left ws) ws' := by
  induction ws generalizing left with
  | nil => rfl
  | cons w rest ih => rw [List.cons_append, sideBySide, ih, sideBySide, next, List.cons_append]

/-- Columns side by side are as wide as their widths and the gaps between them. -/
lemma bounds_of_mem_sideBySide (h : c ∈ sideBySide owner left ws) :
    c.owner = owner ∧ left ≤ c.left ∧ c.right ≤ left + Size.spread ws := by
  induction ws generalizing left with
  | nil => cases h
  | cons w rest ih =>
    rcases List.mem_cons.1 h with rfl | h
    · refine ⟨rfl, le_rfl, ?_⟩
      have hwidth : (w : Rat) ≤ Size.spread (w :: rest) :=
        Nat.cast_le.2 (Size.le_spread List.mem_cons_self)
      simp only [right]
      linarith
    · have hne : rest ≠ [] := by
        rintro rfl
        cases h
      obtain ⟨howner, hleft, hright⟩ := ih h
      rw [Size.spread_cons w hne]
      push_cast
      have hw : (0 : Rat) ≤ w := Nat.cast_nonneg w
      have hgap : (0 : Rat) ≤ Size.columnGap := Nat.cast_nonneg _
      exact ⟨howner, by linarith, by linarith⟩

lemma pairwise_sideBySide (owner : Nat) (left : Rat) (ws : List Nat) :
    (sideBySide owner left ws).Pairwise Before := by
  induction ws generalizing left with
  | nil => exact .nil
  | cons w rest ih =>
    exact .cons (fun c hc => (bounds_of_mem_sideBySide hc).2.1) (ih _)

lemma Holds.mono {cx : Rat} {w w' : Nat} (h : c.Holds cx w) (hw : w' ≤ w) : c.Holds cx w' := by
  have hw' : (w' : Rat) ≤ w := Nat.cast_le.2 hw
  exact ⟨h.left.trans (by linarith), le_trans (by linarith) h.right⟩

/-- A column has room for what is no wider than it. -/
lemma holds_center (c : Column) {w : Nat} (h : w ≤ c.width) : c.Holds c.center w := by
  have hw : (w : Rat) ≤ c.width := Nat.cast_le.2 h
  constructor <;> simp only [center, right] <;> linarith

/-- A column around another one has room for what the other one has room for. -/
lemma Holds.of_inside {d : Column} {cx : Rat} {w : Nat} (h : c.Holds cx w) (hinside : c.Inside d) :
    d.Holds cx w :=
  ⟨hinside.left.trans h.left, h.right.trans hinside.right⟩

end Column

namespace Instruction

/-- The columns of an instruction with the gaps between them are no wider than it. -/
theorem spread_columnWidths_le (i : Instruction) :
    Size.spread i.columnWidths ≤ (size i).width := by
  cases i with
  | step n s => exact Nat.zero_le _
  | choice n c first others last =>
    rw [columnWidths, size]
    split
    · exact Nat.zero_le _
    · exact le_rfl
  | loop n l body =>
    rw [columnWidths, Size.spread_singleton]
    exact (sizeAll_le_width_loop n l body).1
  | switch n condition color cases => exact le_max_left _ _
  | fork n isSplit branches => exact le_max_left _ _
  | partition n name color body =>
    rw [columnWidths, Size.spread_singleton]
    exact Nat.le_add_right _ _

/-- There is a gap between any two columns of an instruction. -/
theorem apart_columns (cx : Rat) (i : Instruction) {c c' : Column} (hc : c ∈ i.columns cx)
    (hc' : c' ∈ i.columns cx) (hne : c ≠ c') : c.Apart c' := by
  have hpairwise : (i.columns cx).Pairwise Column.Apart :=
    (Column.pairwise_sideBySide _ _ _).imp fun h => .inl h
  exact hpairwise.forall hc hc' hne

/-- The columns of an instruction lie inside it. -/
lemma bounds_of_mem_columns {cx : Rat} {i : Instruction} {c : Column} (hc : c ∈ i.columns cx) :
    cx - (size i).width / 2 ≤ c.left ∧ c.right ≤ cx + (size i).width / 2 := by
  obtain ⟨-, hleft, hright⟩ := Column.bounds_of_mem_sideBySide hc
  have hspread : (Size.spread i.columnWidths : Rat) ≤ (size i).width :=
    Nat.cast_le.2 (spread_columnWidths_le i)
  constructor <;> linarith

lemma columns_choice {n : Node} {c : Choice} {first last : List Instruction}
    {others : List (Branch Instruction)} (h : ¬ onlyLeaves first others last = true) (cx : Rat) :
    (choice n c first others last).columns cx =
      ⟨n.id, cx - Size.spread (choice n c first others last).columnWidths / 2,
        max (sizeAll first).width Size.diamond⟩ ::
      (Column.sideBySide n.id
        (Column.right ⟨n.id, cx - Size.spread (choice n c first others last).columnWidths / 2,
          max (sizeAll first).width Size.diamond⟩ + Size.columnGap)
        (Size.columns Size.diamond (branchSizes others)) ++
      [⟨n.id, Column.next
        (Column.right ⟨n.id, cx - Size.spread (choice n c first others last).columnWidths / 2,
          max (sizeAll first).width Size.diamond⟩ + Size.columnGap)
        (Size.columns Size.diamond (branchSizes others)),
        max (sizeAll last).width Size.diamond⟩]) := by
  have hwidths : (choice n c first others last).columnWidths =
      max (sizeAll first).width Size.diamond ::
        (Size.columns Size.diamond (branchSizes others) ++
          [max (sizeAll last).width Size.diamond]) := by
    rw [columnWidths, if_neg h, Size.columns, List.map_append]
    rfl
  rw [columns]
  generalize cx - Size.spread (choice n c first others last).columnWidths / 2 = left
  rw [hwidths, Column.sideBySide, Column.sideBySide_append]
  rfl

end Instruction

/-! ### What stands in columns -/

/-- The columns in which instructions stand are known, and have room for the instructions. -/
structure Stands (around : List Column) (seats : List Seat) : Prop where
  known : ∀ s ∈ seats, ∀ c ∈ s.columns,
    c ∈ around ∨ ∃ o ∈ seats, c ∈ o.instruction.columns o.center
  holds : ∀ s ∈ seats, s.instruction.isAside = false → ∀ c ∈ s.columns,
    c.Holds s.center s.instruction.size.width

variable {around around' : List Column} {ss ss' : List Seat}

lemma stands_nil (around : List Column) : Stands around [] :=
  ⟨fun _ h => (nomatch h), fun _ h => nomatch h⟩

lemma Stands.mono (h : Stands around ss) (hsub : around ⊆ around') : Stands around' ss where
  known := fun s hs c hc => (h.known s hs c hc).imp (@hsub c) id
  holds := h.holds

/-- There may be more columns around. -/
lemma Stands.widen {cs cs' : List Column} (h : Stands (cs ++ around) ss) (hsub : cs ⊆ cs') :
    Stands (cs' ++ around) ss :=
  h.mono (List.append_subset.2 ⟨List.subset_append_of_subset_left _ hsub,
    List.subset_append_right _ _⟩)

/-- The column may be one of several. -/
lemma Stands.of_mem {c : Column} {cs : List Column} (h : Stands (c :: around) ss) (hc : c ∈ cs) :
    Stands (cs ++ around) ss :=
  Stands.widen (List.singleton_append ▸ h) (List.cons_subset.2 ⟨hc, List.nil_subset _⟩)

lemma Stands.append (h : Stands around ss) (h' : Stands around ss') :
    Stands around (ss ++ ss') where
  known := by
    intro s hs c hc
    rcases List.mem_append.1 hs with hs | hs
    · refine (h.known s hs c hc).imp_right ?_
      rintro ⟨o, ho, hco⟩
      exact ⟨o, List.mem_append_left _ ho, hco⟩
    · refine (h'.known s hs c hc).imp_right ?_
      rintro ⟨o, ho, hco⟩
      exact ⟨o, List.mem_append_right _ ho, hco⟩
  holds := List.forall_mem_append.2 ⟨h.holds, h'.holds⟩

/-- An instruction goes before what stands in its columns. -/
lemma Stands.cons {i : Instruction} {cx : Rat} (hi : i.isAside = false → ∀ c ∈ around,
      c.Holds cx i.size.width) {cs : List Column} (hcs : cs ⊆ i.columns cx)
    (h : Stands (cs ++ around) ss) : Stands around (⟨i, cx, around⟩ :: ss) where
  known := by
    intro s hs c hc
    rcases List.mem_cons.1 hs with rfl | hs
    · exact .inl hc
    · rcases h.known s hs c hc with hmem | ⟨o, ho, hco⟩
      · rcases List.mem_append.1 hmem with hmem | hmem
        · exact .inr ⟨_, List.mem_cons_self, hcs hmem⟩
        · exact .inl hmem
      · exact .inr ⟨o, List.mem_cons_of_mem _ ho, hco⟩
  holds := List.forall_mem_cons.2 ⟨hi, h.holds⟩

namespace Instruction

variable {lanes : Keyed Rat} {cx : Rat}

/-- An instruction stands where its list puts it, or in no column at all. -/
lemma keptColumns_cases (lanes : Keyed Rat) (n : Node) (around : List Column) (cx : Rat) :
    keptColumns lanes n around = [] ∨
      keptColumns lanes n around = around ∧ centerOf lanes n cx = cx := by
  unfold keptColumns centerOf
  cases n.lane with
  | none => exact .inr ⟨rfl, rfl⟩
  | some name =>
    dsimp only
    cases hname : name.isEmpty with
    | true => exact .inr ⟨rfl, rfl⟩
    | false =>
      cases hlane : lanes.get? name with
      | none => exact .inr ⟨rfl, rfl⟩
      | some center => exact .inl rfl

/-- A column with room for a list has room for each of its instructions. -/
lemma forall_holds {body : List Instruction}
    (h : ∀ c ∈ around, c.Holds cx (sizeAll body).width) :
    ∀ i ∈ body, i.isAside = false → ∀ c ∈ around, c.Holds cx (size i).width :=
  fun _ hi hroom c hc => (h c hc).mono (width_le_sizeAll hi hroom)

/-- The columns of an instruction lie inside of those that have room for it. -/
lemma inside_of_holds {i : Instruction} {cs : List Column}
    (hi : ∀ d ∈ around, d.Holds cx (size i).width) (hcs : cs ⊆ i.columns cx) :
    ∀ d ∈ around, ∀ c ∈ cs, c.Inside d := by
  intro d hd c hc
  have hbounds := bounds_of_mem_columns (hcs hc)
  exact ⟨(hi d hd).left.trans hbounds.1, hbounds.2.trans (hi d hd).right⟩

/-- What is in a column stands in it and in those around it. -/
lemma holds_column {c : Column} {body : List Instruction} (hinside : ∀ d ∈ around, c.Inside d)
    (hbody : (sizeAll body).width ≤ c.width) :
    ∀ d ∈ c :: around, d.Holds c.center (sizeAll body).width :=
  List.forall_mem_cons.2 ⟨c.holds_center hbody, fun d hd =>
    (c.holds_center hbody).of_inside (hinside d hd)⟩

lemma mem_columns_of_singleton {i : Instruction} {w : Nat} (h : i.columnWidths = [w]) (cx : Rat) :
    ⟨i.node.id, cx - w / 2, w⟩ ∈ i.columns cx := by
  rw [columns, h, Size.spread_singleton]
  exact List.mem_cons_self

-- The three lemmas go through an instruction as the three functions do.
mutual

theorem stands_plan {around : List Column} {cx : Rat} : (i : Instruction) →
    (i.isAside = false → ∀ c ∈ around, c.Holds cx (size i).width) →
    Stands around (plan lanes around cx i)
  | step n s, hi => by
    rw [plan]
    exact Stands.cons hi (List.nil_subset _) (stands_nil _)
  | choice n ch first others last, hi => by
    rw [plan]
    split
    · exact Stands.cons hi (List.nil_subset _) (stands_nil _)
    · next honly =>
      dsimp only
      have hcolumns := columns_choice (n := n) (c := ch) honly cx
      generalize hc : (⟨n.id, cx - Size.spread (choice n ch first others last).columnWidths / 2,
        max (sizeAll first).width Size.diamond⟩ : Column) = c at hcolumns ⊢
      generalize hc' : (⟨n.id, Column.next (c.right + Size.columnGap)
        (Size.columns Size.diamond (branchSizes others)),
        max (sizeAll last).width Size.diamond⟩ : Column) = c' at hcolumns ⊢
      have hmem : c ∈ (choice n ch first others last).columns cx := by
        rw [hcolumns]
        exact List.mem_cons_self
      have hmem' : c' ∈ (choice n ch first others last).columns cx := by
        rw [hcolumns]
        simp
      have hothers : Column.sideBySide n.id (c.right + Size.columnGap)
          (Size.columns Size.diamond (branchSizes others)) ⊆
            (choice n ch first others last).columns cx := by
        rw [hcolumns]
        exact fun d hd => List.mem_cons_of_mem _ (List.mem_append_left _ hd)
      refine Stands.cons hi (List.Subset.refl ((choice n ch first others last).columns cx)) ?_
      have hinside := inside_of_holds (hi rfl) (List.Subset.refl _)
      refine Stands.append ?_ (Stands.append ?_ ?_)
      · refine (stands_planAll first (forall_holds (holds_column (fun d hd => hinside d hd c hmem)
          ?_))).of_mem hmem
        rw [← hc]
        exact le_max_left _ _
      · exact (stands_planBranches others (inside_of_holds (hi rfl) hothers)).widen hothers
      · refine (stands_planAll last (forall_holds (holds_column (fun d hd => hinside d hd c' hmem')
          ?_))).of_mem hmem'
        rw [← hc']
        exact le_max_left _ _
  | loop n l body, hi => by
    rw [plan]
    have hmem := mem_columns_of_singleton (i := loop n l body) rfl cx
    exact Stands.cons hi (List.cons_subset.2 ⟨hmem, List.nil_subset _⟩)
      (stands_planAll body (forall_holds (holds_column
        (fun d hd => inside_of_holds (hi rfl) (List.Subset.refl _) d hd _ hmem) le_rfl)))
  | switch n condition color cases, hi => by
    rw [plan]
    have hcolumns := List.Subset.refl ((switch n condition color cases).columns cx)
    exact Stands.cons hi hcolumns (stands_planBranches cases (inside_of_holds (hi rfl) hcolumns))
  | fork n isSplit branches, hi => by
    rw [plan]
    have hcolumns := List.Subset.refl ((fork n isSplit branches).columns cx)
    exact Stands.cons hi hcolumns (stands_planBranches branches (inside_of_holds (hi rfl) hcolumns))
  | partition n name color body, hi => by
    rw [plan]
    have hmem := mem_columns_of_singleton (i := partition n name color body) rfl cx
    exact Stands.cons hi (List.cons_subset.2 ⟨hmem, List.nil_subset _⟩)
      (stands_planAll body (forall_holds (holds_column
        (fun d hd => inside_of_holds (hi rfl) (List.Subset.refl _) d hd _ hmem) le_rfl)))

theorem stands_planAll {around : List Column} {cx : Rat} : (is : List Instruction) →
    (∀ i ∈ is, i.isAside = false → ∀ c ∈ around, c.Holds cx (size i).width) →
    Stands around (planAll lanes around cx is)
  | [], _ => by
    rw [planAll]
    exact stands_nil _
  | i :: rest, his => by
    obtain ⟨hi, hrest⟩ := List.forall_mem_cons.1 his
    rw [planAll]
    refine Stands.append ?_ (stands_planAll rest hrest)
    split
    · exact stands_nil _
    · rcases keptColumns_cases lanes i.node around cx with hkept | ⟨hkept, hcenter⟩
      · rw [hkept]
        exact (stands_plan i fun _ c hc => absurd hc List.not_mem_nil).mono (List.nil_subset _)
      · rw [hkept, hcenter]
        exact stands_plan i hi

theorem stands_planBranches {around : List Column} {owner least : Nat} {left : Rat} :
    (branches : List (Branch Instruction)) →
    (∀ d ∈ around, ∀ c ∈ Column.sideBySide owner left (Size.columns least (branchSizes branches)),
      c.Inside d) →
    Stands (Column.sideBySide owner left (Size.columns least (branchSizes branches)) ++ around)
      (planBranches lanes around owner least left branches)
  | [], _ => by
    rw [planBranches]
    exact stands_nil _
  | ⟨condition, label, body⟩ :: rest, hbranches => by
    rw [planBranches]
    have hcolumns : Column.sideBySide owner left
          (Size.columns least (branchSizes (⟨condition, label, body⟩ :: rest))) =
        ⟨owner, left, max (sizeAll body).width least⟩ :: Column.sideBySide owner
          (Column.right ⟨owner, left, max (sizeAll body).width least⟩ + Size.columnGap)
          (Size.columns least (branchSizes rest)) := by
      rw [branchSizes]
      rfl
    rw [hcolumns] at hbranches ⊢
    generalize hc : (⟨owner, left, max (sizeAll body).width least⟩ : Column) = c at hbranches ⊢
    have hwidth : (sizeAll body).width ≤ c.width := by
      rw [← hc]
      exact le_max_left _ _
    refine Stands.append ?_ ?_
    · exact (stands_planAll body (forall_holds (holds_column
        (fun d hd => hbranches d hd c List.mem_cons_self) hwidth))).of_mem List.mem_cons_self
    · exact (stands_planBranches rest fun d hd c₁ hc₁ =>
        hbranches d hd c₁ (List.mem_cons_of_mem _ hc₁)).widen (List.subset_cons_self _ _)

end

end Instruction

/-! ### The instructions of a plan -/

namespace Instruction

/-- The instructions that have a place. -/
def shown (is : List Instruction) : List Instruction :=
  is.filter fun i => !i.isSilent

lemma shown_append (is is' : List Instruction) : shown (is ++ is') = shown is ++ shown is' :=
  List.filter_append _ _

lemma shown_cons {i : Instruction} (h : i.isSilent = false) (is : List Instruction) :
    shown (i :: is) = i :: shown is :=
  List.filter_cons_of_pos (by rw [h]; rfl)

lemma shown_walkAll_of_all_isLeave {is : List Instruction} (h : is.all isLeave = true) :
    shown (walkAll is) = [] := by
  rw [walkAll_of_all_isLeave h, shown, List.filter_eq_nil_iff]
  intro i hi
  obtain ⟨n, rfl⟩ := exists_eq_of_isLeave (List.all_eq_true.1 h i hi)
  exact Bool.false_ne_true

variable {lanes : Keyed Rat} {around : List Column} {cx : Rat}

-- Each list of instructions has its places where the walk through the tree has its instructions.
mutual

lemma map_instruction_plan {around : List Column} {cx : Rat} : (i : Instruction) →
    i.isSilent = false → (plan lanes around cx i).map Seat.instruction = shown i.walk
  | step n s, hi => by
    rw [plan, walk, shown_cons hi]
    rfl
  | choice n c first others last, hi => by
    rw [plan, walk, shown_cons hi, List.map_cons, shown_append, shown_append]
    refine congrArg (List.cons _) ?_
    split
    · next honly =>
      simp only [onlyLeaves, Bool.and_eq_true, List.isEmpty_iff] at honly
      obtain ⟨⟨⟨rfl, rfl⟩, -⟩, hfirst⟩ := honly
      rw [shown_walkAll_of_all_isLeave hfirst]
      rfl
    · dsimp only
      rw [List.map_append, List.map_append, map_instruction_planAll first,
        map_instruction_planBranches others, map_instruction_planAll last, List.append_assoc]
  | loop n l body, hi => by
    rw [plan, walk, shown_cons hi, List.map_cons, map_instruction_planAll body]
  | switch n condition color cases, hi => by
    rw [plan, walk, shown_cons hi, List.map_cons, map_instruction_planBranches cases]
  | fork n isSplit branches, hi => by
    rw [plan, walk, shown_cons hi, List.map_cons, map_instruction_planBranches branches]
  | partition n name color body, hi => by
    rw [plan, walk, shown_cons hi, List.map_cons, map_instruction_planAll body]

lemma map_instruction_planAll {around : List Column} {cx : Rat} : (is : List Instruction) →
    (planAll lanes around cx is).map Seat.instruction = shown (walkAll is)
  | [] => by
    rw [planAll]
    rfl
  | i :: rest => by
    rw [planAll, walkAll, shown_append, List.map_append, map_instruction_planAll rest]
    refine congrArg (· ++ shown (walkAll rest)) ?_
    split
    · next hsilent =>
      cases i with
      | step n s =>
        rw [walk, shown, List.filter_cons_of_neg (by rw [hsilent]; decide)]
        rfl
      | _ => cases hsilent
    · next hsilent => exact map_instruction_plan i (by simpa using hsilent)

lemma map_instruction_planBranches {around : List Column} {owner least : Nat} {left : Rat} :
    (branches : List (Branch Instruction)) →
    (planBranches lanes around owner least left branches).map Seat.instruction =
      shown (walkBranches branches)
  | [] => by
    rw [planBranches]
    rfl
  | ⟨_, _, body⟩ :: rest => by
    rw [planBranches, walkBranches, shown_append, List.map_append, map_instruction_planAll body,
      map_instruction_planBranches rest]

end

end Instruction

/-! ### Instructions in different columns -/

namespace Seat

/-- The left side of the room of an instruction. -/
def left (s : Seat) : Rat :=
  s.center - s.instruction.size.width / 2

/-- The right side of the room of an instruction. -/
def right (s : Seat) : Rat :=
  s.center + s.instruction.size.width / 2

/-- There is a gap between the rooms of two instructions. -/
def Apart (s s' : Seat) : Prop :=
  s.right + Size.columnGap ≤ s'.left ∨ s'.right + Size.columnGap ≤ s.left

/-- What stands in columns with a gap between them has a gap between it. -/
lemma apart_of_holds {s s' : Seat} {c c' : Column} (hcolumns : c.Apart c')
    (hs : c.Holds s.center s.instruction.size.width)
    (hs' : c'.Holds s'.center s'.instruction.size.width) : s.Apart s' := by
  unfold Apart right left
  rcases hcolumns with h | h
  · have hgap : c.right + Size.columnGap ≤ c'.left := h
    exact .inl (le_trans (by linarith [hs.right]) hs'.left)
  · have hgap : c'.right + Size.columnGap ≤ c.left := h
    exact .inr (le_trans (by linarith [hs'.right]) hs.left)

end Seat

/-- Instructions in different columns of one instruction keep apart, if no two of those that have
columns have the same number. -/
theorem Stands.apart {ss : List Seat} (h : Stands [] ss)
    (hnodup : (ss.map fun s => s.instruction.node.id).Nodup) {s s' : Seat} (hs : s ∈ ss)
    (hs' : s' ∈ ss) (hroom : s.instruction.isAside = false)
    (hroom' : s'.instruction.isAside = false) {c c' : Column} (hc : c ∈ s.columns)
    (hc' : c' ∈ s'.columns) (howner : c.owner = c'.owner) (hne : c ≠ c') : s.Apart s' := by
  obtain ⟨o, ho, hco⟩ := (h.known s hs c hc).resolve_left List.not_mem_nil
  obtain ⟨o', ho', hco'⟩ := (h.known s' hs' c' hc').resolve_left List.not_mem_nil
  obtain rfl : o = o' := by
    refine List.inj_on_of_nodup_map hnodup ho ho' ?_
    exact (Column.bounds_of_mem_sideBySide hco).1.symm.trans
      (howner.trans (Column.bounds_of_mem_sideBySide hco').1)
  exact Seat.apart_of_holds (Instruction.apart_columns _ _ hco hco' hne) (h.holds s hs hroom c hc)
    (h.holds s' hs' hroom' c' hc')

namespace Diagram

/-- The places of the instructions of a diagram. -/
def seats (d : Diagram) : List Seat :=
  if d.lanes.keys.isEmpty then
    Instruction.planAll Keyed.empty [] (margin + (Instruction.sizeAll d.instructions).width / 2)
      d.instructions
  else
    Instruction.planAll d.centers [] ((d.laneNames.head?.bind d.centers.get?).getD 0) d.instructions

lemma map_instruction_seats (d : Diagram) :
    d.seats.map Seat.instruction = Instruction.shown (Instruction.walkAll d.instructions) := by
  unfold seats
  split <;> exact Instruction.map_instruction_planAll _

lemma stands_seats (d : Diagram) : Stands [] d.seats := by
  have hall : ∀ lanes cx, Stands [] (Instruction.planAll lanes [] cx d.instructions) :=
    fun _ _ => Instruction.stands_planAll _ fun _ _ _ _ hc => absurd hc List.not_mem_nil
  unfold seats
  split <;> exact hall _ _

/-- The instructions of the tree of a text have different numbers. -/
lemma nodup_ids_seats_read (text : String) :
    ((read text).seats.map fun s => s.instruction.node.id).Nodup := by
  have hordered := Reader.stable_ordered.read (fun _ => trivial) (fun _ _ => trivial)
    (Source.lines text) fun _ _ _ _ => trivial
  have hsub : ((Instruction.walkAll (read text).instructions).map Instruction.mark).Sublist
      ((Source.lines text).foldl Reader.step {}).marks :=
    Reader.marks_unwind_sublist _ _
  have hids : ((Instruction.walkAll (read text).instructions).map fun i => i.node.id).Nodup := by
    rw [List.Nodup, List.pairwise_map]
    exact (List.pairwise_map.1 (hordered.before.sublist hsub)).imp fun h => by simpa using h.1
  have hshown : (read text).seats.map (fun s => s.instruction.node.id) =
      ((read text).seats.map Seat.instruction).map fun i => i.node.id := by
    rw [List.map_map]
    rfl
  rw [hshown, map_instruction_seats]
  exact hids.sublist (List.filter_sublist.map _)

end Diagram

end Activity
end UmlDraw
