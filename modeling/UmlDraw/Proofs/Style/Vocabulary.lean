/-
# The vocabulary of styles

A style holds entries of three kinds: constants, numbers that were computed, and colors.  The text of
a color may come from the source.  It can only change what the entry says, as long as it holds no
semicolon: then the parts between the semicolons of the written style are its entries.

The main statements are

* `Style.knows_of` and `Style.Knows.update`: what styles are put together from;
* `Color.fits_of_unbroken`: colors are written without a semicolon if they are given without one;
* `Style.Knows.written`: the parts of a written style;
* `Style.read_render`: a style is read back, with its values as texts;
* `Style.read_merge`: the entries of a style that was written with some keys changed.
-/
import Mathlib.Data.List.TakeWhile
import UmlDraw.Drawing.Color
import UmlDraw.Proofs.Data.Keyed
import UmlDraw.Proofs.Markup.Cell
import UmlDraw.Proofs.Text.Lines

namespace UmlDraw
namespace Style

/-- The keys with the values that are constants. -/
inductive Constant : String → StyleValue → Prop
  | align {s : String} (h : s ∈ ["center", "left", "right"]) : Constant "align" (.text s)
  | arcSize {n : Nat} (h : n ∈ [10, 20, 40, 50]) : Constant "arcSize" (.number (.int n))
  | aspect : Constant "aspect" (.text "fixed")
  | childLayout : Constant "childLayout" (.text "stackLayout")
  | collapsible {n : Nat} (h : n ∈ [0, 1]) : Constant "collapsible" (.number (.int n))
  | container : Constant "container" 1
  | curved : Constant "curved" 1
  | dashPattern {s : String} (h : s ∈ ["1 1", "1 2", "1 4", "4 4", "6 4"]) :
    Constant "dashPattern" (.text s)
  | dashed : Constant "dashed" 1
  | direction {s : String} (h : s ∈ ["south", "west"]) : Constant "direction" (.text s)
  | dx : Constant "dx" 6
  | edgeLabel : Constant "edgeLabel" .bare
  | edgeStyle : Constant "edgeStyle" (.text "orthogonalEdgeStyle")
  | ellipse : Constant "ellipse" .bare
  | endArrow {s : String} (h : s ∈ ["ERmandOne", "ERmany", "ERoneToMany", "ERzeroToOne", "block",
      "box", "cross", "diamond", "halfCircle", "none", "open", "openThin", "oval"]) :
    Constant "endArrow" (.text s)
  | endFill {n : Nat} (h : n ∈ [0, 1]) : Constant "endFill" (.number (.int n))
  | endFillFlag (b : Bool) : Constant "endFill" (.flag b)
  | endSize : Constant "endSize" 8
  | entryDx : Constant "entryDx" 0
  | entryDy : Constant "entryDy" 0
  | entryX : Constant "entryX" 0
  | entryY : Constant "entryY" (.text "0.5")
  | exitDx : Constant "exitDx" 0
  | exitDy : Constant "exitDy" 0
  | exitX : Constant "exitX" 0
  | exitY : Constant "exitY" (.text "0.5")
  | fillColor {s : String} (h : s ∈ ["#000000", "#444444", "#E1F5FE", "#FAFAFA", "#FF0000",
      "#FFD700", "#FFF2CC", "#FFF3E0", "#FFFDE7", "#dae8fc", "#e6e6e6", "#eeeeee", "#f5f5f5",
      "#ffffff", "none"]) :
    Constant "fillColor" (.text s)
  | fillOpacity : Constant "fillOpacity" 20
  | fixedSize : Constant "fixedSize" 1
  | flipH : Constant "flipH" 1
  | fontColor {s : String} (h : s ∈ ["#666666", "#D32F2F"]) : Constant "fontColor" (.text s)
  | fontSize {n : Nat} (h : n ∈ [9, 10, 12, 14, 16]) : Constant "fontSize" (.number (.int n))
  | fontStyle {n : Nat} (h : n ∈ [1, 2]) : Constant "fontStyle" (.number (.int n))
  | horizontal : Constant "horizontal" 1
  | horizontalStack : Constant "horizontalStack" 0
  | html : Constant "html" 1
  | labelBackgroundColor : Constant "labelBackgroundColor" (.text "#FFFFFF")
  | labelPosition {s : String} (h : s ∈ ["left", "right"]) : Constant "labelPosition" (.text s)
  | labelX : Constant "labelX" 90
  | line : Constant "line" .bare
  | marginBottom : Constant "marginBottom" 0
  | opacity {n : Nat} (h : n ∈ [0, 30, 50]) : Constant "opacity" (.number (.int n))
  | outlineConnect : Constant "outlineConnect" 0
  | overflow : Constant "overflow" (.text "hidden")
  | perimeter : Constant "perimeter" (.text "hexagonPerimeter2")
  | points {s : String} (h : s ∈ ["[[0,0.5],[1,0.5]]", "[]"]) : Constant "points" (.text s)
  | portConstraint : Constant "portConstraint" (.text "eastwest")
  | resizable : Constant "resizable" 0
  | resizeLast : Constant "resizeLast" 0
  | resizeParent : Constant "resizeParent" 1
  | resizeParentMax : Constant "resizeParentMax" 0
  | rhombus : Constant "rhombus" .bare
  | rotatable : Constant "rotatable" 0
  | rounded {n : Nat} (h : n ∈ [0, 1]) : Constant "rounded" (.number (.int n))
  | shadow : Constant "shadow" 1
  | shape {s : String} (h : s ∈ ["card", "cloud", "component", "cube", "cylinder3", "ellipse",
      "folder", "hexagon", "mxgraph.basic.layered_rect", "mxgraph.basic.x", "mxgraph.sysml.package",
      "note", "process", "rectangle", "rhombus", "swimlane", "umlActor", "umlBoundary",
      "umlControl", "umlEntity"]) :
    Constant "shape" (.text s)
  | sizeText : Constant "size" (.text "0.25")
  | size {n : Nat} (h : n ∈ [6, 8, 10, 12, 14, 15, 18]) : Constant "size" (.number (.int n))
  | sizeReal : Constant "size" (.number (.real 0.1))
  | spacingLeft {n : Nat} (h : n ∈ [3, 4, 6, 8, 36, 66]) : Constant "spacingLeft" (.number (.int n))
  | spacingRight {n : Nat} (h : n ∈ [3, 4, 8]) : Constant "spacingRight" (.number (.int n))
  | spacingTop : Constant "spacingTop" (.number (.int (-1)))
  | startArrow {s : String} (h : s ∈ ["ERmandOne", "ERmany", "ERoneToMany", "ERzeroToOne", "block",
      "box", "cross", "diamond", "halfCircle", "none", "open", "openThin", "oval"]) :
    Constant "startArrow" (.text s)
  | startFill {n : Nat} (h : n ∈ [0, 1]) : Constant "startFill" (.number (.int n))
  | startFillFlag (b : Bool) : Constant "startFill" (.flag b)
  | startSize {n : Nat} (h : n ∈ [10, 26, 30]) : Constant "startSize" (.number (.int n))
  | strokeColor {s : String} (h : s ∈ ["#000000", "#0288D1", "#1565C0", "#444444", "#666666",
      "#6c8ebf", "#999999", "#D32F2F", "#D6B656", "#E0E0E0", "#F57C00", "#FF0000", "inherit",
      "none"]) :
    Constant "strokeColor" (.text s)
  | strokeWidth {n : Nat} (h : n ∈ [1, 2, 3]) : Constant "strokeWidth" (.number (.int n))
  | strokeWidthRatio : Constant "strokeWidth" (.number (.ratio (3 / 2)))
  | swimlane : Constant "swimlane" .bare
  | swimlaneLine : Constant "swimlaneLine" 1
  | tabHeight : Constant "tabHeight" 20
  | tabPosition : Constant "tabPosition" (.text "left")
  | tabWidth : Constant "tabWidth" 80
  | text : Constant "text" .bare
  | textOpacity : Constant "textOpacity" 0
  | verticalAlign {s : String} (h : s ∈ ["bottom", "middle", "top"]) :
    Constant "verticalAlign" (.text s)
  | verticalLabelPosition {s : String} (h : s ∈ ["bottom", "top"]) :
    Constant "verticalLabelPosition" (.text s)
  | whiteSpace : Constant "whiteSpace" (.text "wrap")

/-- The keys whose values may be computed: fonts, and room for the head and the indent of a label. -/
def computedKeys : List String :=
  ["fontStyle", "spacingLeft", "startSize"]

/-- The keys whose values may be colors of the source. -/
def colorKeys : List String :=
  ["fillColor", "fontColor", "strokeColor"]

/-- The text holds no semicolon, so it stays one part where it stands in a style. -/
def Unbroken (s : String) : Prop :=
  ';' ∉ s.toList

instance (s : String) : Decidable (Unbroken s) :=
  inferInstanceAs (Decidable (';' ∉ s.toList))

/-- An entry of a style, whose color, if it has one, is as described. -/
inductive Known (S : String → Prop) : String × StyleValue → Prop
  | constant {key : String} {value : StyleValue} (h : Constant key value) : Known S (key, value)
  | computed {key : String} (hkey : key ∈ computedKeys) (n : Nat) :
    Known S (key, .number (.int n))
  | color {key s : String} (hkey : key ∈ colorKeys) (hs : S s) : Known S (key, .text s)

/-- Entries of a style, whose colors are as described. -/
inductive Knows (S : String → Prop) : List (String × StyleValue) → Prop
  | nil : Knows S []
  | cons {e : String × StyleValue} {es : List (String × StyleValue)} (h : Known S e)
    (hs : Knows S es) : Knows S (e :: es)

variable {S : String → Prop} {es es' : List (String × StyleValue)} {st : Style}

lemma knows_iff : Knows S es ↔ ∀ e ∈ es, Known S e := by
  constructor
  · intro h
    induction h with
    | nil => exact List.forall_mem_nil _
    | cons h _ ih => exact List.forall_mem_cons.2 ⟨h, ih⟩
  · intro h
    induction es with
    | nil => exact .nil
    | cons e es ih =>
      obtain ⟨he, hes⟩ := List.forall_mem_cons.1 h
      exact .cons he (ih hes)

lemma Knows.append (h : Knows S es) (h' : Knows S es') : Knows S (es ++ es') :=
  knows_iff.2 (List.forall_mem_append.2 ⟨knows_iff.1 h, knows_iff.1 h'⟩)

lemma Knows.insert (h : Knows S st.entries) {key : String} {value : StyleValue}
    (hvalue : Known S (key, value)) : Knows S (st.insert key value).entries := by
  refine knows_iff.2 fun e he => ?_
  have hget := Keyed.get?_eq_some_iff.2 he
  rw [Keyed.get?_insert] at hget
  split at hget
  · next hkey =>
    obtain rfl := Option.some.inj hget
    obtain rfl : key = e.1 := hkey.symm
    exact hvalue
  · exact knows_iff.1 h e (Keyed.get?_eq_some_iff.1 hget)

/-- The entries of a style that is changed. -/
theorem Knows.update (h : Knows S st.entries) (hes : Knows S es) :
    Knows S (st.update es).entries := by
  induction hes generalizing st with
  | nil => exact h
  | cons he _ ih => exact ih (h.insert he)

/-- The entries of a style that is put together. -/
theorem knows_of (h : Knows S es) : Knows S (Style.of es).entries :=
  Knows.update .nil h

end Style

/-! ### Colors -/

namespace Color

open Style (Constant Known Knows Unbroken colorKeys)

/-- The written form of a color, if it has one, is as described. -/
def Fits (S : String → Prop) (color : Option String) : Prop :=
  ∀ s, normalize? color = some s → S s

variable {S : String → Prop} {color color' : Option String} {key default : String}

lemma fits_none : Fits S none :=
  fun _ h => nomatch h

lemma fits_any : Fits (fun _ => True) color :=
  fun _ _ => trivial

lemma Fits.or (h : Fits S color) (h' : Fits S color') : Fits S (color.or color') := by
  cases color with
  | none => exact h'
  | some _ => exact h

/-- The entry for a color, or for a constant in its place. -/
lemma Fits.getD (h : Fits S color) (hkey : key ∈ colorKeys) (hdefault : Constant key (.text default)) :
    Known S (key, .text (Color.getD color default)) := by
  unfold Color.getD
  cases hs : normalize? color with
  | none => exact .constant hdefault
  | some s => exact .color hkey (h s hs)

lemma Fits.fillColor (h : Fits S color) (default : String)
    (hdefault : Constant "fillColor" (.text default)) :
    Known S ("fillColor", .text (Color.getD color default)) :=
  h.getD (by decide) hdefault

/-- The entry for a color, if it is given. -/
lemma Fits.entry (h : Fits S color) (hkey : key ∈ colorKeys) : Knows S (Color.entry key color) := by
  unfold Color.entry
  cases hs : normalize? color with
  | none => exact .nil
  | some s => exact .cons (.color hkey (h s hs)) .nil

/-- No character but itself has a semicolon as its capital. -/
lemma capital_ne_semicolon {c : Char} (h : c ≠ ';') : Letter.capital c ≠ ';' := by
  have hletters : ∀ n < 123, 97 ≤ n → Letter.capital (Char.ofNat n) ≠ ';' := by decide +kernel
  by_cases hlower : c.isLower = true
  · have hcode : (decide (c.val ≥ 'a'.val) && decide (c.val ≤ 'z'.val)) = true := hlower
    obtain ⟨hlow, hhigh⟩ := Bool.and_eq_true_iff.1 hcode
    have hlow : 97 ≤ c.toNat := of_decide_eq_true hlow
    have hhigh : c.toNat ≤ 122 := of_decide_eq_true hhigh
    rw [← Char.ofNat_toNat c]
    exact hletters _ (by omega) hlow
  · rwa [Letter.capital, if_neg hlower]

lemma isHexDigit_of_mem {s digits : List Char} (h : hexDigits? s = some digits) {c : Char}
    (hc : c ∈ digits) : isHexDigit c = true := by
  unfold hexDigits? at h
  dsimp only at h
  split_ifs at h with hall
  rw [← Option.some.inj h] at hc
  exact List.all_eq_true.1 (Bool.and_eq_true_iff.1 hall).1 c hc

/-- A color without semicolons is written without semicolons: by the code of its name, with
hexadecimal digits, or as it is. -/
lemma unbroken_normalize {s : String} (h : Unbroken s) : Unbroken (normalize s) := by
  have hcodes : ∀ p ∈ names, ';' ∉ p.2.toList := by decide +kernel
  have htrim : ';' ∉ Chars.trim s.toList := fun hmem => h (Chars.mem_of_mem_trim hmem)
  unfold Unbroken normalize
  dsimp only
  split
  · next code hcode =>
    obtain ⟨l, r, hnames, -⟩ := List.lookup_eq_some_iff.1 hcode
    exact hcodes _ (hnames ▸ List.mem_append_right _ List.mem_cons_self)
  · split
    · next digits hdigits =>
      have hdigits' : ∀ c ∈ digits, c ≠ ';' := by
        rintro c hc rfl
        exact absurd (isHexDigit_of_mem hdigits hc) (by decide)
      rw [String.toList_ofList, List.mem_cons, List.mem_map]
      rintro (h' | ⟨c, hc, hcapital⟩)
      · exact absurd h' (by decide)
      · exact capital_ne_semicolon (hdigits' c hc) hcapital
    · rwa [String.toList_ofList]

/-- A color is written without a semicolon if it is given without one. -/
theorem fits_of_unbroken (h : ∀ s, color = some s → Unbroken s) : Fits Unbroken color := by
  intro s hs
  cases color with
  | none => cases hs
  | some c =>
    unfold normalize? at hs
    dsimp only at hs
    split at hs
    · cases hs
    · rw [← Option.some.inj hs]
      exact unbroken_normalize (h c rfl)

end Color

/-! ### Written styles -/

namespace Style

/-- The written entry holds no semicolon, and before its first equality sign stands the key. -/
structure IsEntry (key : String) (value : StyleValue) : Prop where
  closed : ';' ∉ (value.entry key).toList
  key : (value.entry key).toList.takeWhile (· != '=') = key.toList

/-- The key holds neither a semicolon nor an equality sign. -/
def IsKey (key : String) : Prop :=
  ∀ c ∈ key.toList, c ≠ ';' ∧ c ≠ '='

instance (key : String) : Decidable (IsKey key) :=
  inferInstanceAs (Decidable (∀ c ∈ key.toList, c ≠ ';' ∧ c ≠ '='))

variable {key s : String} {value : StyleValue}

lemma isEntry_bare (hkey : IsKey key) : IsEntry key .bare where
  closed := fun h => (hkey _ h).1 rfl
  key := List.takeWhile_eq_self_iff.2 fun c hc => by simp [(hkey c hc).2]

/-- A key with a text behind the equality sign. -/
lemma isEntry_of_text (hkey : IsKey key) (hs : Unbroken s)
    (hentry : value.entry key = key ++ "=" ++ s) : IsEntry key value := by
  have hchars : (value.entry key).toList = key.toList ++ '=' :: s.toList := by
    rw [hentry]
    simp
  refine ⟨?_, ?_⟩
  · rw [hchars, List.mem_append, List.mem_cons]
    rintro (h | h | h)
    · exact (hkey _ h).1 rfl
    · exact absurd h (by decide)
    · exact hs h
  · rw [hchars, List.takeWhile_append_of_pos fun c hc => by simp [(hkey c hc).2]]
    simp

lemma isEntry_number (hkey : IsKey key) (n : Number) : IsEntry key (.number n) := by
  refine isEntry_of_text hkey ?_ rfl
  rw [Unbroken, Number.text, String.toList_ofList]
  intro h
  exact absurd (n.numeric_chars _ h) (by decide)

lemma isEntry_flag (hkey : IsKey key) (b : Bool) : IsEntry key (.flag b) := by
  cases b with
  | false =>
    refine isEntry_of_text hkey (s := "0") (by decide) ?_
    rw [String.append_assoc]
    rfl
  | true =>
    refine isEntry_of_text hkey (s := "1") (by decide) ?_
    rw [String.append_assoc]
    rfl

lemma Constant.isEntry (h : Constant key value) : IsEntry key value := by
  cases h
  all_goals first
    | exact isEntry_bare (by decide +kernel)
    | exact isEntry_number (by decide +kernel) _
    | exact isEntry_flag (by decide +kernel) _
    | exact isEntry_of_text (by decide +kernel) (by decide +kernel +revert) rfl

lemma Known.isEntry {e : String × StyleValue} (h : Known Unbroken e) :
    IsEntry e.1 e.2 := by
  cases h with
  | constant h => exact h.isEntry
  | @computed key hkey n =>
    have hkeys : ∀ key ∈ computedKeys, IsKey key := by decide +kernel
    exact isEntry_number (hkeys key hkey) _
  | @color key s hkey hs =>
    have hkeys : ∀ key ∈ colorKeys, IsKey key := by decide +kernel
    exact isEntry_of_text (hkeys key hkey) hs rfl

/-- A written style is split at its semicolons into the written forms of entries with different
keys, and the empty text behind the last one.  A key stands before the first equality sign of its
part, and apart from colors the values are constants and computed numbers. -/
structure Written (style : String) (entries : List (String × StyleValue)) : Prop where
  nodup : (entries.map Prod.fst).Nodup
  known : Knows Unbroken entries
  parts : Chars.split ';' style.toList = entries.map (fun e => (e.2.entry e.1).toList) ++ [[]]
  key : ∀ e ∈ entries, (e.2.entry e.1).toList.takeWhile (· != '=') = e.1.toList

/-- A style whose written entries hold no semicolons is split into them, and the empty text behind
the last one. -/
lemma split_render {st : Style} (h : ∀ e ∈ st.entries, ';' ∉ (e.2.entry e.1).toList) :
    Chars.split ';' st.render.toList =
      st.entries.map (fun e => (e.2.entry e.1).toList) ++ [[]] := by
  have hclosed : ∀ part ∈ st.entries.map (fun e => (e.2.entry e.1).toList), ';' ∉ part :=
    List.forall_mem_map.2 h
  have hrender : ∀ es : List (String × StyleValue),
      (Text.join ";" (es.map fun e => e.2.entry e.1) ++ ";").toList =
        Chars.join [';'] (es.map fun e => (e.2.entry e.1).toList) ++ [';'] := by
    intro es
    rw [String.toList_append, Text.join, String.toList_intercalate, List.map_map]
    rfl
  unfold render
  split
  · next hnil =>
    rw [hnil]
    rfl
  · next hne =>
    refine (congrArg (Chars.split ';') (hrender st.entries)).trans ?_
    exact Chars.split_terminated (by simpa using hne) hclosed

/-- The parts of a written style whose colors hold no semicolon. -/
theorem Knows.written {st : Style} (h : Knows Unbroken st.entries) :
    Written st.render st.entries where
  nodup := st.nodup
  known := h
  parts := split_render fun e he => (knows_iff.1 h e he).isEntry.closed
  key := fun e he => (knows_iff.1 h e he).isEntry.key

end Style
end UmlDraw

/-! ## Reading written styles

A written style is read part by part.  Empty parts count nothing, a part without an equality sign is
a key alone, and of a key that is written again the last value counts at the first place.  Numbers
are read back as their texts.  So a written style is read back as it was, if its keys and values let
themselves be read; and those that were read from any text do. -/

namespace UmlDraw

/-- The text in front of the first occurrence of a character, and the text behind it. -/
lemma Chars.cut?_append {q : Char} {x : List Char} (hx : q ∉ x) (s : List Char) :
    cut? [q] (x ++ q :: s) = some (x, s) := by
  induction x with
  | nil => simp [cut?, after?]
  | cons c x ih =>
    rw [List.mem_cons, not_or] at hx
    rw [List.cons_append, cut?, after?, if_neg hx.1, ih hx.2]
    rfl

namespace StyleValue

/-- The text behind the equality sign of a written entry, if it has one. -/
def written? : StyleValue → Option String
  | bare => none
  | text s => some s
  | number n => some n.text
  | flag b => some (if b then "1" else "0")

/-- The value as it is read back. -/
def spelled (v : StyleValue) : StyleValue :=
  match v.written? with
  | some s => text s
  | none => bare

variable {v : StyleValue} {key s : String}

lemma toList_entry_of_written (h : v.written? = some s) :
    (v.entry key).toList = key.toList ++ '=' :: s.toList := by
  cases v with
  | bare => cases h
  | text s' =>
    obtain rfl := Option.some.inj h
    simp [entry]
  | number n =>
    obtain rfl := Option.some.inj h
    simp [entry]
  | flag b =>
    obtain rfl := Option.some.inj h
    cases b <;> simp [entry]

lemma eq_bare_of_written? (h : v.written? = none) : v = bare := by
  cases v with
  | bare => rfl
  | text s => cases h
  | number n => cases h
  | flag b => cases h

@[simp] lemma spelled_spelled (v : StyleValue) : v.spelled.spelled = v.spelled := by
  unfold spelled
  cases v.written? <;> rfl

/-- A value is written as the text that is read back. -/
lemma entry_spelled (v : StyleValue) (key : String) : v.spelled.entry key = v.entry key := by
  refine String.toList_injective ?_
  cases h : v.written? with
  | none =>
    obtain rfl := eq_bare_of_written? h
    rfl
  | some s =>
    have hspelled : v.spelled = text s := by
      rw [spelled, h]
    rw [hspelled, toList_entry_of_written h, toList_entry_of_written (v := text s) rfl]

end StyleValue

namespace Style

/-- An entry that is read back as it was written: the key holds no semicolon and no equality sign,
the text behind it no semicolon, and a key alone is not empty. -/
structure Readable (e : String × StyleValue) : Prop where
  key : IsKey e.1
  text : ∀ s, e.2.written? = some s → Unbroken s
  alone : e.2 = .bare → e.1 ≠ ""

variable {e : String × StyleValue} {st : Style} {es : List (String × StyleValue)}

lemma Readable.equality_not_mem (h : Readable e) : '=' ∉ e.1.toList :=
  fun hmem => (h.key _ hmem).2 rfl

lemma Readable.spelled (h : Readable e) : Readable (e.1, e.2.spelled) := by
  refine ⟨h.key, fun s hs => h.text s ?_, fun hbare => h.alone ?_⟩
  · unfold StyleValue.spelled at hs
    split at hs
    · next s' hs' => rwa [hs']
    · cases hs
  · unfold StyleValue.spelled at hbare
    split at hbare
    · cases hbare
    · next hnone => exact StyleValue.eq_bare_of_written? hnone

lemma Readable.closed (h : Readable e) : ';' ∉ (e.2.entry e.1).toList := by
  have hkey : ';' ∉ e.1.toList := fun hmem => (h.key _ hmem).1 rfl
  cases hw : e.2.written? with
  | none =>
    rw [StyleValue.eq_bare_of_written? hw]
    exact hkey
  | some s =>
    rw [StyleValue.toList_entry_of_written hw, List.mem_append, List.mem_cons]
    rintro (hmem | hmem | hmem)
    · exact hkey hmem
    · exact absurd hmem (by decide)
    · exact h.text s hw hmem

lemma Readable.entry_ne_nil (h : Readable e) : (e.2.entry e.1).toList ≠ [] := by
  cases hw : e.2.written? with
  | none =>
    have hbare := StyleValue.eq_bare_of_written? hw
    rw [hbare]
    exact fun hnil => h.alone hbare (String.toList_eq_nil_iff.1 hnil)
  | some s =>
    rw [StyleValue.toList_entry_of_written hw]
    simp

/-- The written form of an entry is read as the entry. -/
lemma Readable.readEntry_entry (h : Readable e) :
    readEntry (e.2.entry e.1).toList = (e.1, e.2.spelled) := by
  cases hw : e.2.written? with
  | none =>
    rw [StyleValue.eq_bare_of_written? hw, StyleValue.entry, readEntry,
      Chars.cut?_of_not_mem h.equality_not_mem]
    simp [StyleValue.spelled, StyleValue.written?]
  | some s =>
    rw [StyleValue.toList_entry_of_written hw, readEntry, Chars.cut?_append h.equality_not_mem]
    simp [StyleValue.spelled, hw]

/-- A part of a text without semicolons is read as an entry that is read back as it is. -/
lemma readable_readEntry {part : List Char} (hne : part ≠ []) (hclosed : ';' ∉ part) :
    Readable (readEntry part) ∧ (readEntry part).2.spelled = (readEntry part).2 := by
  by_cases hequal : '=' ∈ part
  · obtain ⟨key, s, rfl, hkey⟩ := List.eq_append_cons_of_mem hequal
    rw [List.mem_append, List.mem_cons, not_or, not_or] at hclosed
    have hread : readEntry (key ++ '=' :: s) = (String.ofList key, .text (String.ofList s)) := by
      rw [readEntry, Chars.cut?_append hkey]
    rw [hread]
    refine ⟨⟨?_, ?_, nofun⟩, rfl⟩
    · intro c hc
      rw [String.toList_ofList] at hc
      exact ⟨fun h => hclosed.1 (h ▸ hc), fun h => hkey (h ▸ hc)⟩
    · intro s' hs'
      rw [← Option.some.inj hs', Unbroken, String.toList_ofList]
      exact hclosed.2.2
  · have hread : readEntry part = (String.ofList part, .bare) := by
      rw [readEntry, Chars.cut?_of_not_mem hequal]
    rw [hread]
    refine ⟨⟨?_, nofun, fun _ hempty => hne ?_⟩, rfl⟩
    · intro c hc
      rw [String.toList_ofList] at hc
      exact ⟨fun h => hclosed (h ▸ hc), fun h => hequal (h ▸ hc)⟩
    · simpa using congrArg String.toList hempty

/-- What is read from a text. -/
theorem readable_read (s : String) :
    ∀ e ∈ (read s).entries, Readable e ∧ e.2.spelled = e.2 := by
  intro e he
  have hmem := Keyed.of_get?_enter (t := Keyed.empty) (Keyed.get?_eq_some_iff.2 he)
  rw [or_iff_left (fun h => by cases h)] at hmem
  obtain ⟨part, hpart, hread⟩ := List.mem_map.1 hmem
  obtain ⟨hpart, hne⟩ := List.mem_filter.1 hpart
  obtain rfl : readEntry part = e := hread
  exact readable_readEntry (by simpa using hne)
    (Chars.not_mem_of_mem_splitWhen (by decide) hpart)

lemma readable_update (h : ∀ e ∈ st.entries, Readable e) (hes : ∀ e ∈ es, Readable e) :
    ∀ e ∈ (st.update es).entries, Readable e := by
  intro e he
  rcases Keyed.of_get?_enter (Keyed.get?_eq_some_iff.2 he) with hmem | hmem
  · exact hes e hmem
  · exact h e (Keyed.get?_eq_some_iff.1 hmem)

/-- The style with its values as they are read back. -/
def spelled (st : Style) : Style :=
  st.map fun _ => StyleValue.spelled

lemma spelled_spelled (st : Style) : st.spelled.spelled = st.spelled := by
  refine Keyed.eq_of_entries ?_
  show (st.entries.map _).map _ = st.entries.map _
  rw [List.map_map]
  exact List.map_congr_left fun e _ => Prod.ext rfl (StyleValue.spelled_spelled e.2)

lemma render_spelled (st : Style) : st.spelled.render = st.render := by
  have hentries : st.spelled.entries = st.entries.map fun e => (e.1, e.2.spelled) := rfl
  rw [render, render, hentries]
  cases st.entries with
  | nil => rfl
  | cons e es => simp [StyleValue.entry_spelled, Function.comp_def]

lemma spelled_update (st : Style) (es : List (String × StyleValue)) :
    (st.update es).spelled = st.spelled.update (es.map fun e => (e.1, e.2.spelled)) :=
  Keyed.map_enter _ _ _

/-- A style of entries that can be read is read back, with its values as texts. -/
theorem read_render (h : ∀ e ∈ st.entries, Readable e) : read st.render = st.spelled := by
  have hparts : (Chars.split ';' st.render.toList).filter (fun part => !part.isEmpty) =
      st.entries.map fun e => (e.2.entry e.1).toList := by
    rw [split_render fun e he => (h e he).closed, List.filter_append]
    refine (List.append_nil _).trans (List.filter_eq_self.2 (List.forall_mem_map.2 fun e he => ?_))
    simpa using (h e he).entry_ne_nil
  have hentries : (st.entries.map fun e => (e.2.entry e.1).toList).map readEntry =
      st.spelled.entries := by
    rw [List.map_map]
    exact List.map_congr_left fun e he => (h e he).readEntry_entry
  refine Keyed.eq_of_entries ?_
  rw [read, hparts, hentries]
  exact Keyed.entries_ofList st.spelled.nodup

lemma spelled_read (s : String) : (read s).spelled = read s := by
  refine Keyed.eq_of_entries ((List.map_congr_left fun e he => ?_).trans (List.map_id _))
  exact Prod.ext rfl (readable_read s e he).2

/-- What is read from a text is written and read back as it is. -/
theorem read_render_read (s : String) : read (read s).render = read s := by
  rw [read_render fun e he => (readable_read s e he).1, spelled_read]

/-- Keys and values as they are given to change a style: the key is not empty and holds no semicolon
and no equality sign, and the text of the value, if it has one, no semicolon. -/
structure IsOverride (e : String × StyleValue) : Prop where
  nonempty : e.1 ≠ ""
  key : IsKey e.1
  text : ∀ s, e.2.written? = some s → Unbroken s

lemma IsOverride.readable (h : IsOverride e) : Readable e :=
  ⟨h.key, h.text, fun _ => h.nonempty⟩

/-- The style that is read back when some keys were changed has the entries that were read before,
each with its new value as a text if it has a new one, and behind them the new keys in order.
Changing the same keys again changes nothing, and so does writing what is read from any text. -/
theorem read_merge (base : String) {overrides : List (String × StyleValue)}
    (hkeys : (overrides.map Prod.fst).Nodup) (h : ∀ e ∈ overrides, IsOverride e) :
    (read (merge base overrides)).entries =
        Keyed.overridden (read base).entries (overrides.map fun e => (e.1, e.2.spelled)) ∧
      merge (merge base overrides) overrides = merge base overrides ∧
      ∀ s, (read (read s).render).render = (read s).render := by
  have hreadable : ∀ e ∈ ((read base).update overrides).entries, Readable e :=
    readable_update (fun e he => (readable_read base e he).1) fun e he => (h e he).readable
  have hread : read (merge base overrides) = ((read base).update overrides).spelled :=
    read_render hreadable
  refine ⟨?_, ?_, fun s => by rw [read_render_read]⟩
  · have hspelled : ((overrides.map fun e => (e.1, e.2.spelled)).map Prod.fst).Nodup := by
      rwa [List.map_map]
    rw [hread, spelled_update, spelled_read]
    exact Keyed.entries_enter hspelled
  · have htwice : ((read base).update overrides).update overrides = (read base).update overrides :=
      Keyed.enter_enter hkeys
    calc merge (merge base overrides) overrides
        = (((read base).update overrides).spelled.update overrides).render := by
          rw [merge, hread]
      _ = (((read base).update overrides).spelled.update overrides).spelled.render :=
          (render_spelled _).symm
      _ = (((read base).update overrides).update overrides).spelled.render := by
          rw [spelled_update, spelled_spelled, ← spelled_update]
      _ = merge base overrides := by
          rw [htwice, render_spelled, merge]

/-- A key of the style is changed, a key alone is added, and a number is read back as a text. -/
theorem read_merge_again :
    (read (merge "text;a=1;b==2;;a=3" [("b", .number (.int 7)), ("html", .bare)])).entries =
      [("text", .bare), ("a", .text "3"), ("b", .text "7"), ("html", .bare)] := by
  have hkeys : (([("b", .number (.int 7)), ("html", .bare)] : List (String × StyleValue)).map
      Prod.fst).Nodup := by decide
  have hoverride : ∀ e ∈ ([("b", .number (.int 7)), ("html", .bare)] :
      List (String × StyleValue)), IsOverride e := by
    simp only [List.forall_mem_cons]
    refine ⟨⟨by decide, by decide, fun s hs => ?_⟩, ⟨by decide, by decide, fun s hs => ?_⟩,
      List.forall_mem_nil _⟩
    · rw [← Option.some.inj hs]
      decide
    · cases hs
  refine (read_merge "text;a=1;b==2;;a=3" hkeys hoverride).1.trans ?_
  rfl

end Style
end UmlDraw
