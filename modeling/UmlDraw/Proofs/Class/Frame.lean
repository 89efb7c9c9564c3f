/-
# The frames of packages and what stands in them

The layout goes through the packages of a diagram one by one and places each of them with its
contents, but what it places it keeps by codes and by paths.  So an entity that is listed again
leaves the first of its packages, and a package that is opened again leaves its first place.  What
is left of a package is in its frame, and nothing else is.

The main statements are

* `Layout.placesIn_placePackage`: all that a package places is in its frame;
* `Layout.passes_placeTop`: what happens before and after a package;
* `Diagram.contains_layout`: what the frame of a package holds in the end;
* `Diagram.encloses_read_iff`: whether it holds all that the text has in the package.
-/
import UmlDraw.Proofs.Class.Place

namespace UmlDraw

namespace Box

/-- A box lies between a left, an upper, a right and a lower side. -/
structure Within (x y right bottom : Rat) (b : Box) : Prop where
  left_le : x ≤ b.x
  top_le : y ≤ b.y
  le_right : b.right ≤ right
  le_bottom : b.bottom ≤ bottom

lemma Within.mono {x y right bottom x' y' right' bottom' : Rat} {b : Box}
    (h : b.Within x y right bottom) (hx : x' ≤ x) (hy : y' ≤ y) (hright : right ≤ right')
    (hbottom : bottom ≤ bottom') : b.Within x' y' right' bottom' :=
  ⟨hx.trans h.left_le, hy.trans h.top_le, h.le_right.trans hright, h.le_bottom.trans hbottom⟩

/-- All of the second box is in the first one. -/
def Contains (b b' : Box) : Prop :=
  b'.Within b.x b.y b.right b.bottom

end Box

namespace Keyed

variable {α : Type} {Q R : α → Prop} {t t' t'' : Keyed α} {keys keys' : List String}

/-- The second table has new values with a property for the given keys, and the values of the first
one for all others. -/
structure Updates (Q : α → Prop) (t : Keyed α) (keys : List String) (t' : Keyed α) : Prop where
  old : ∀ key, key ∉ keys → t'.get? key = t.get? key
  new : ∀ key ∈ keys, ∃ a, t'.get? key = some a ∧ Q a

lemma Updates.refl (Q : α → Prop) (t : Keyed α) : t.Updates Q [] t :=
  ⟨fun _ _ => rfl, fun _ h => nomatch h⟩

lemma Updates.trans (h : t.Updates Q keys t') (h' : t'.Updates Q keys' t'') :
    t.Updates Q (keys ++ keys') t'' where
  old := by
    intro key hkey
    rw [List.mem_append, not_or] at hkey
    rw [h'.old key hkey.2, h.old key hkey.1]
  new := by
    intro key hkey
    by_cases hlast : key ∈ keys'
    · exact h'.new key hlast
    · rw [h'.old key hlast]
      exact h.new key ((List.mem_append.1 hkey).resolve_right hlast)

lemma Updates.imp (h : t.Updates Q keys t') (hQ : ∀ a, Q a → R a) : t.Updates R keys t' :=
  ⟨h.old, fun key hkey => (h.new key hkey).imp fun _ ha => ⟨ha.1, hQ _ ha.2⟩⟩

lemma Updates.congr (h : t.Updates Q keys t') (hkeys : ∀ key, key ∈ keys ↔ key ∈ keys') :
    t.Updates Q keys' t' :=
  ⟨fun key hkey => h.old key (mt (hkeys key).1 hkey),
    fun key hkey => h.new key ((hkeys key).2 hkey)⟩

lemma updates_insert (t : Keyed α) (key : String) {a : α} (ha : Q a) :
    t.Updates Q [key] (t.insert key a) where
  old := by
    intro other hother
    rw [get?_insert, if_neg (by simpa using hother)]
  new := by
    intro other hother
    rw [get?_insert, if_pos (List.mem_singleton.1 hother)]
    exact ⟨a, rfl, ha⟩

end Keyed

namespace Class
namespace Layout

variable {groups : List (List String)} {sizes : Keyed Size} {l l' l'' : Layout} {Q R : Box → Prop}
  {codes codes' paths paths' : List String} {x y : Rat}

/-! ### What a package places -/

/-- The second layout has new places with a property for the given codes, as far as they have a
size, and for the given paths; everything else stays where it is. -/
structure PlacesIn (sizes : Keyed Size) (Q : Box → Prop) (l : Layout) (codes paths : List String)
    (l' : Layout) : Prop where
  entities : l.entities.Updates Q (codes.filter sizes.contains) l'.entities
  frames : l.frames.Updates Q paths l'.frames

lemma PlacesIn.refl (sizes : Keyed Size) (Q : Box → Prop) (l : Layout) :
    PlacesIn sizes Q l [] [] l :=
  ⟨.refl Q _, .refl Q _⟩

lemma PlacesIn.trans (h : PlacesIn sizes Q l codes paths l')
    (h' : PlacesIn sizes Q l' codes' paths' l'') :
    PlacesIn sizes Q l (codes ++ codes') (paths ++ paths') l'' where
  entities := List.filter_append _ _ ▸ h.entities.trans h'.entities
  frames := h.frames.trans h'.frames

lemma PlacesIn.imp (h : PlacesIn sizes Q l codes paths l') (hQ : ∀ b, Q b → R b) :
    PlacesIn sizes R l codes paths l' :=
  ⟨h.entities.imp hQ, h.frames.imp hQ⟩

lemma PlacesIn.congr (h : PlacesIn sizes Q l codes paths l') (hcodes : codes = codes')
    (hpaths : ∀ path, path ∈ paths ↔ path ∈ paths') : PlacesIn sizes Q l codes' paths' l' :=
  ⟨hcodes ▸ h.entities, h.frames.congr hpaths⟩

/-- A package goes before the packages behind it. -/
lemma PlacesIn.cons {p : Folder PackageHead} {ps : List (Folder PackageHead)}
    (h : PlacesIn sizes Q l (Folder.allMembers [p]) ((Folder.walkAll [p]).map Folder.path) l')
    (h' : PlacesIn sizes Q l' (Folder.allMembers ps) ((Folder.walkAll ps).map Folder.path) l'') :
    PlacesIn sizes Q l (Folder.allMembers (p :: ps)) ((Folder.walkAll (p :: ps)).map Folder.path)
      l'' := by
  have hboth := h.trans h'
  rwa [← Folder.allMembers_append, ← List.map_append, ← Folder.walkAll_append] at hboth

lemma placesIn_frame (sizes : Keyed Size) (l : Layout) (path : String) {b : Box} (hb : Q b) :
    PlacesIn sizes Q l [] [path] { l with frames := l.frames.insert path b } :=
  ⟨.refl Q _, Keyed.updates_insert _ path hb⟩

lemma updates_grid (sizes : Keyed Size) {X Y x0 : Rat} {c : Cursor} (places : Keyed Box)
    (codes : List String) (hx0 : X ≤ x0) (hc : c.IsBehind X Y) :
    places.Updates (fun b => X ≤ b.x ∧ Y ≤ b.y) (codes.filter sizes.contains)
      (grid sizes x0 c places codes).1 := by
  induction codes generalizing c places with
  | nil => exact .refl _ _
  | cons first rest ih =>
    rw [grid]
    cases hsize : sizes.get? first with
    | none =>
      rw [List.filter_cons_of_neg (by simp [Keyed.contains, hsize])]
      exact ih places hc
    | some s =>
      rw [List.filter_cons_of_pos (by simp [Keyed.contains, hsize])]
      exact (Keyed.updates_insert places first ⟨hc.x, hc.y⟩).trans (ih _ (hc.next hx0 s))

/-- A frame reaches beyond all entities of its package. -/
lemma le_rightOf (l : Layout) (least : Rat) (codes : List String) :
    least ≤ l.rightOf least codes ∧
      ∀ code ∈ codes, ∀ b, l.entities.get? code = some b →
        b.right + padding ≤ l.rightOf least codes := by
  induction codes generalizing least with
  | nil => exact ⟨le_rfl, fun _ h => nomatch h⟩
  | cons first rest ih =>
    have hfirst : l.rightOf least (first :: rest) = l.rightOf (l.rightOf least [first]) rest := rfl
    obtain ⟨hleast, hrest⟩ := ih (l.rightOf least [first])
    rw [hfirst]
    refine ⟨le_trans ?_ hleast, List.forall_mem_cons.2 ⟨fun b hb => le_trans ?_ hleast, hrest⟩⟩
    · rw [rightOf, List.foldl_cons, List.foldl_nil]
      split
      · exact Fraction.le_larger_left _ _
      · exact le_rfl
    · rw [rightOf, List.foldl_cons, List.foldl_nil, hb]
      exact Fraction.le_larger_right _ _

/-- The entities of a package are placed between its sides. -/
lemma placesIn_placeMembers (h : Settled sizes y l) (groups : List (List String)) (x least : Rat)
    (members : List String) :
    PlacesIn sizes (Box.Within x (y + packageHeader)
        ((placeMembers groups sizes x (y + packageHeader) l members).1.rightOf least
          (members.filter sizes.contains) - padding)
        (placeMembers groups sizes x (y + packageHeader) l members).2) l members []
      (placeMembers groups sizes x (y + packageHeader) l members).1 := by
  have hbottom := (settled_placeMembers h groups x members).1.entities
  have hupdates : l.entities.Updates (fun b => x ≤ b.x ∧ y + packageHeader ≤ b.y)
      (members.filter sizes.contains)
      (placeMembers groups sizes x (y + packageHeader) l members).1.entities := by
    unfold placeMembers
    dsimp only
    split
    · next hempty =>
      rw [List.isEmpty_iff.1 hempty]
      exact .refl _ _
    · have hcorner : Cursor.IsBehind x (y + packageHeader) ⟨0, x, y + packageHeader, 0⟩ :=
        ⟨le_rfl, le_rfl, le_rfl⟩
      have hgrid := updates_grid sizes l.entities (gather groups (members.filter sizes.contains))
        (le_refl x) hcorner
      refine hgrid.congr fun code => ?_
      simp [mem_gather]
  have hframes :
      (placeMembers groups sizes x (y + packageHeader) l members).1.frames = l.frames := by
    unfold placeMembers
    dsimp only
    split <;> rfl
  refine ⟨⟨hupdates.old, fun code hcode => ?_⟩, hframes ▸ .refl _ _⟩
  obtain ⟨b, hb, hleft, htop⟩ := hupdates.new code hcode
  have hright := (le_rightOf _ least _).2 code hcode b hb
  exact ⟨b, hb, hleft, htop, le_sub_iff_add_le.2 hright, le_of_add_le_add_right (hbottom _ _ hb)⟩

lemma right_le_placePackages (groups : List (List String)) (sizes : Keyed Size) (x y right : Rat)
    (l : Layout) (ps : List (Folder PackageHead)) :
    right ≤ (placePackages groups sizes x y right l ps).2.1 := by
  induction ps generalizing y right l with
  | nil => exact le_rfl
  | cons p rest ih =>
    rw [placePackages]
    exact (Fraction.le_larger_left _ _).trans (ih _ _ _)

/-- All that is placed in the frame of a package is placed between its sides. -/
lemma placesIn_placeInside (groups : List (List String)) (x0 : Rat) {y0 : Rat}
    (h : Settled sizes y0 l) (p : Folder PackageHead)
    (hinner : ∀ (right : Rat) {y : Rat} {l : Layout}, Settled sizes (y + padding) l →
      PlacesIn sizes (Box.Within (x0 + padding) (y + padding)
          ((placePackages groups sizes (x0 + padding) y right l p.inner).2.1 - padding)
          (placePackages groups sizes (x0 + padding) y right l p.inner).2.2) l
        (Folder.allMembers p.inner) ((Folder.walkAll p.inner).map Folder.path)
        (placePackages groups sizes (x0 + padding) y right l p.inner).1) :
    PlacesIn sizes (Box.Within x0 y0 (placeInside groups sizes x0 y0 l p).2.1
        ((placeInside groups sizes x0 y0 l p).2.2 + padding)) l
      (Folder.allMembers [p]) ((Folder.walkAll p.inner).map Folder.path)
      (placeInside groups sizes x0 y0 l p).1 := by
  obtain ⟨hsettled, hy⟩ := settled_placeMembers h groups (x0 + padding) p.members
  have hmembers := placesIn_placeMembers h groups (x0 + padding)
    (x0 + (max 160 (textWidth p.head.name) : Nat) + 2 * padding) p.members
  unfold placeInside
  dsimp only
  generalize placeMembers groups sizes (x0 + padding) (y0 + packageHeader) l p.members = placed at *
  generalize placed.1.rightOf (x0 + (max 160 (textWidth p.head.name) : Nat) + 2 * padding)
    (p.members.filter sizes.contains) = right at *
  have hinner := hinner right hsettled
  have hright := right_le_placePackages groups sizes (x0 + padding) placed.2 right placed.1 p.inner
  have hbottom := (settled_placePackages groups (x0 + padding) right hsettled p.inner).2
  simp only [padding, packageHeader] at *
  refine PlacesIn.congr ((hmembers.imp fun b hb => ?_).trans (hinner.imp fun b hb => ?_))
    (Folder.allMembers_singleton p).symm fun path => Iff.rfl
  · exact hb.mono (by linarith) (by linarith) (by linarith) (by linarith)
  · exact hb.mono (by linarith) (by linarith) (by linarith) (by linarith)

mutual

/-- A package places all that is in it inside of its frame, which it places, too. -/
theorem placesIn_placePackage (groups : List (List String)) (x0 : Rat) {y0 : Rat} {l : Layout}
    (h : Settled sizes y0 l) : (p : Folder PackageHead) →
    PlacesIn sizes (Box.Within x0 y0 (placePackage groups sizes x0 y0 l p).2.1
        (placePackage groups sizes x0 y0 l p).2.2) l
      (Folder.allMembers [p]) ((Folder.walkAll [p]).map Folder.path)
      (placePackage groups sizes x0 y0 l p).1
  | .node head path members inner => by
    have hinside := placesIn_placeInside groups x0 h
      (.node head path members inner) fun right _ _ hl =>
        placesIn_placePackages groups (x0 + padding) right hl inner
    rw [placePackage_eq]
    dsimp only
    generalize placeInside groups sizes x0 y0 l (.node head path members inner) = inside at *
    have hframe : (frameBox x0 y0 inside).Within x0 y0 inside.2.1 (inside.2.2 + padding) :=
      ⟨le_rfl, le_rfl, (add_sub_cancel x0 _).le, (add_sub_cancel y0 _).le⟩
    refine (hinside.trans (placesIn_frame sizes inside.1 path hframe)).congr (List.append_nil _) ?_
    intro other
    rw [Folder.walkAll_singleton]
    simp only [List.mem_append, List.map_cons, List.mem_cons, Folder.inner, Folder.path,
      List.not_mem_nil, or_false]
    exact or_comm

/-- Some packages are placed between their sides. -/
theorem placesIn_placePackages (groups : List (List String)) (x right : Rat) {y : Rat}
    {l : Layout} (h : Settled sizes (y + padding) l) : (ps : List (Folder PackageHead)) →
    PlacesIn sizes (Box.Within x (y + padding)
        ((placePackages groups sizes x y right l ps).2.1 - padding)
        (placePackages groups sizes x y right l ps).2.2) l
      (Folder.allMembers ps) ((Folder.walkAll ps).map Folder.path)
      (placePackages groups sizes x y right l ps).1
  | [] => .refl sizes _ l
  | p :: rest => by
    have hfirst := placesIn_placePackage groups x h p
    obtain ⟨hsettled, hy⟩ := settled_placePackage groups x h p
    have hrest := placesIn_placePackages groups x
      (Fraction.larger right ((placePackage groups sizes x (y + padding) l p).2.1 + padding))
      hsettled rest
    have hbottom := (settled_placePackages groups x
      (Fraction.larger right ((placePackage groups sizes x (y + padding) l p).2.1 + padding))
      hsettled rest).2
    have hright := (Fraction.le_larger_right right _).trans
      (right_le_placePackages groups sizes x (placePackage groups sizes x (y + padding) l p).2.2
        (Fraction.larger right ((placePackage groups sizes x (y + padding) l p).2.1 + padding))
        (placePackage groups sizes x (y + padding) l p).1 rest)
    rw [placePackages]
    refine (hfirst.imp fun b hb => ?_).cons (hrest.imp fun b hb => ?_)
    · exact hb.mono le_rfl le_rfl (le_sub_iff_add_le.2 hright) hbottom
    · refine hb.mono le_rfl ?_ le_rfl le_rfl
      simp only [padding, packageHeader] at hy ⊢
      linarith

end

lemma placesIn_placeTop (groups : List (List String)) (x : Rat) (h : Settled sizes y l)
    (ps : List (Folder PackageHead)) :
    PlacesIn sizes (fun b => y ≤ b.y) l (Folder.allMembers ps)
      ((Folder.walkAll ps).map Folder.path) (placeTop groups sizes x y l ps).1 := by
  induction ps generalizing y l with
  | nil => exact .refl sizes _ l
  | cons p rest ih =>
    obtain ⟨hsettled, hy⟩ := settled_placePackage groups x h p
    rw [placeTop]
    have hbelow : Settled sizes ((placePackage groups sizes x y l p).2.2 + rowGap)
        (placePackage groups sizes x y l p).1 := hsettled.mono (by
      simp only [rowGap, padding]
      linarith)
    have hrest := ih hbelow
    refine ((placesIn_placePackage groups x h p).imp fun b hb => hb.top_le).cons
      (hrest.imp fun b hb => le_trans ?_ hb)
    simp only [packageHeader, rowGap] at hy ⊢
    linarith

/-! ### Before and after a package

When a package is placed, all that was placed before ends above it.  What is placed afterwards is
below it or, for the frames of the packages around, starts on its left.  So none of the other boxes
comes into its frame. -/

/-- A package is placed at a corner into the first layout on the way to the second one; the packages
around it and those behind it are placed later. -/
structure PlacedAt (groups : List (List String)) (sizes : Keyed Size) (f : Folder PackageHead)
    (around behind : List (Folder PackageHead)) (x y : Rat) (l l' : Layout) : Prop where
  before : Settled sizes y l
  after : PlacesIn sizes
    (fun b => (placePackage groups sizes x y l f).2.2 < b.y ∨ b.x < x)
    (placePackage groups sizes x y l f).1 (behind.flatMap Folder.members)
    ((around ++ behind).map Folder.path) l'

variable {f p : Folder PackageHead} {ps around behind rest : List (Folder PackageHead)}
variable {x₁ y₁ : Rat}
  {l₁ : Layout}

/-- Further packages below come behind. -/
lemma PlacedAt.append (h : PlacedAt groups sizes f around behind x₁ y₁ l₁ l)
    (hrest : PlacesIn sizes (fun b => (placePackage groups sizes x₁ y₁ l₁ f).2.2 < b.y) l
      (Folder.allMembers rest) ((Folder.walkAll rest).map Folder.path) l') :
    PlacedAt groups sizes f around (behind ++ Folder.walkAll rest) x₁ y₁ l₁ l' where
  before := h.before
  after := by
    refine (h.after.trans (hrest.imp fun b hb => .inl hb)).congr ?_ fun path => ?_
    · rw [List.flatMap_append]
      rfl
    · simp only [List.map_append, List.append_assoc]

/-- The frame of the package around comes after all that is in it. -/
lemma PlacedAt.frame (h : PlacedAt groups sizes f around behind x₁ y₁ l₁ l) {b : Box}
    (hb : b.x < x₁) :
    PlacedAt groups sizes f (p :: around) behind x₁ y₁ l₁
      { l with frames := l.frames.insert p.path b } where
  before := h.before
  after := by
    refine (h.after.trans (placesIn_frame sizes l p.path (.inr hb))).congr (List.append_nil _) ?_
    intro path
    simp only [List.map_append, List.map_cons, List.mem_append, List.mem_cons, List.not_mem_nil,
      List.cons_append, or_false]
    exact or_comm

/-- A package inside of another one is placed when this one is. -/
lemma exists_placedAt_placePackage {groups : List (List String)} (x0 : Rat) {y0 : Rat}
    (hinner : ∀ (x right : Rat) {y : Rat} {l : Layout}, Settled sizes (y + padding) l →
      ∃ x₁ y₁ l₁, x ≤ x₁ ∧ (placePackage groups sizes x₁ y₁ l₁ f).2.2 ≤
          (placePackages groups sizes x y right l p.inner).2.2 ∧
        PlacedAt groups sizes f around behind x₁ y₁ l₁
          (placePackages groups sizes x y right l p.inner).1)
    (h : Settled sizes y0 l) :
    ∃ x₁ y₁ l₁, x0 ≤ x₁ ∧
      (placePackage groups sizes x₁ y₁ l₁ f).2.2 ≤ (placePackage groups sizes x0 y0 l p).2.2 ∧
      PlacedAt groups sizes f (p :: around) behind x₁ y₁ l₁
        (placePackage groups sizes x0 y0 l p).1 := by
  obtain ⟨x₁, y₁, l₁, hx, hbottom, hplaced⟩ := hinner (x0 + padding) _
    (settled_placeMembers h groups (x0 + padding) p.members).1
  rw [placePackage_eq]
  have hx : x0 < x₁ := lt_of_lt_of_le (lt_add_of_pos_right x0 (by norm_num [padding])) hx
  refine ⟨x₁, y₁, l₁, hx.le, hbottom.trans ?_, hplaced.frame hx⟩
  exact le_add_of_nonneg_right (by norm_num [padding])

/-- A package that stands in others is placed when they are. -/
theorem exists_placedAt_placePackages (h : Folder.Stands f ps around behind)
    (groups : List (List String)) (x right : Rat) {y : Rat} {l : Layout}
    (hl : Settled sizes (y + padding) l) :
    ∃ x₁ y₁ l₁, x ≤ x₁ ∧
      (placePackage groups sizes x₁ y₁ l₁ f).2.2 ≤ (placePackages groups sizes x y right l ps).2.2 ∧
      PlacedAt groups sizes f around behind x₁ y₁ l₁
        (placePackages groups sizes x y right l ps).1 := by
  induction h generalizing x right y l with
  | here rest =>
    obtain ⟨hsettled, -⟩ := settled_placePackage groups x hl f
    rw [placePackages]
    refine ⟨x, y + padding, l, le_rfl, (settled_placePackages groups x _ hsettled rest).2, hl, ?_⟩
    refine (placesIn_placePackages groups x _ hsettled rest).imp fun b hb => .inl ?_
    exact lt_of_lt_of_le (lt_add_of_pos_right _ (by norm_num [padding])) hb.top_le
  | @inside p rest around behind _ ih =>
    obtain ⟨hsettled, -⟩ := settled_placePackage groups x hl p
    obtain ⟨x₁, y₁, l₁, hx, hbottom, hplaced⟩ := exists_placedAt_placePackage x ih hl
    rw [placePackages]
    refine ⟨x₁, y₁, l₁, hx,
      hbottom.trans (settled_placePackages groups x _ hsettled rest).2, hplaced.append ?_⟩
    refine (placesIn_placePackages groups x _ hsettled rest).imp fun b hb => ?_
    refine lt_of_le_of_lt hbottom (lt_of_lt_of_le ?_ hb.top_le)
    exact lt_add_of_pos_right _ (by norm_num [padding])
  | @next p rest around behind _ ih =>
    rw [placePackages]
    exact ih x _ (settled_placePackage groups x hl p).1

/-- A package of a diagram is placed on the way to the layout. -/
theorem exists_placedAt_placeTop (h : Folder.Stands f ps around behind)
    (groups : List (List String)) (x : Rat) (hl : Settled sizes y l) :
    ∃ x₁ y₁ l₁, PlacedAt groups sizes f around behind x₁ y₁ l₁
      (placeTop groups sizes x y l ps).1 := by
  induction ps generalizing around behind y l with
  | nil => cases h
  | cons p rest ih =>
    have hsettled : Settled sizes ((placePackage groups sizes x y l p).2.2 + rowGap)
        (placePackage groups sizes x y l p).1 := by
      refine (settled_placePackage groups x hl p).1.mono ?_
      simp only [padding, rowGap]
      linarith
    have hbelow : ∀ {b : Box}, (placePackage groups sizes x y l p).2.2 + rowGap ≤ b.y →
        (placePackage groups sizes x y l p).2.2 < b.y := fun hb =>
      lt_of_lt_of_le (lt_add_of_pos_right _ (by norm_num [rowGap])) hb
    have hrest := placesIn_placeTop groups x hsettled rest
    rw [placeTop]
    cases h with
    | here => exact ⟨x, y, l, hl, hrest.imp fun b hb => .inl (hbelow hb)⟩
    | inside h =>
      obtain ⟨x₁, y₁, l₁, -, hbottom, hplaced⟩ := exists_placedAt_placePackage x
        (fun x right _ _ hl => exists_placedAt_placePackages h groups x right hl) hl
      exact ⟨x₁, y₁, l₁, hplaced.append (hrest.imp fun b hb => hbottom.trans_lt (hbelow hb))⟩
    | next h => exact ih h hsettled

/-- The first box holds what was placed in it and not anywhere else afterwards. -/
lemma contains_iff_of_updates {B : Box} {t t' t'' : Keyed Box} {keys keys' : List String}
    (hbefore : t.All fun b => b.bottom < B.y) (hinside : t.Updates B.Contains keys t')
    (hafter : t'.Updates (fun b => B.bottom < b.y ∨ b.x < B.x) keys' t'') {key : String} {b : Box}
    (hb : t''.get? key = some b) (hheight : 0 ≤ b.height) :
    B.Contains b ↔ key ∈ keys ∧ key ∉ keys' := by
  have hsides : b.y ≤ b.bottom := le_add_of_nonneg_right hheight
  by_cases hlater : key ∈ keys'
  · obtain ⟨b', hb', hout⟩ := hafter.new key hlater
    obtain rfl := Option.some.inj (hb.symm.trans hb')
    refine iff_of_false (fun h => ?_) fun h => h.2 hlater
    rcases hout with hbelow | hleft
    · exact absurd (hsides.trans h.le_bottom) (not_le.2 hbelow)
    · exact absurd h.left_le (not_le.2 hleft)
  rw [hafter.old key hlater] at hb
  by_cases hkey : key ∈ keys
  · obtain ⟨b', hb', hin⟩ := hinside.new key hkey
    obtain rfl := Option.some.inj (hb.symm.trans hb')
    exact iff_of_true hin ⟨hkey, hlater⟩
  · rw [hinside.old key hkey] at hb
    refine iff_of_false (fun h => ?_) fun h => hkey h.1
    exact absurd (h.top_le.trans hsides) (not_le.2 (hbefore _ _ hb))

lemma Measured.height_nonneg {places : Keyed Box} (h : Measured sizes places) {code : String}
    {b : Box} (hb : places.get? code = some b) : code ∈ sizes.keys ∧ 0 ≤ b.height := by
  obtain ⟨s, hs, -, hheight⟩ := h code b hb
  exact ⟨Keyed.mem_keys_iff.2 ⟨s, hs⟩, hheight ▸ Nat.cast_nonneg s.height⟩

/-- What the frame of a package holds in the end. -/
structure IsFrame (l : Layout) (f : Folder PackageHead) (around behind : List (Folder PackageHead))
    (B : Box) : Prop where
  frame : f.path ∉ (around ++ behind).map Folder.path → l.frames.get? f.path = some B
  entities : ∀ code b, l.entities.get? code = some b →
    (B.Contains b ↔ code ∈ Folder.allMembers [f] ∧ code ∉ behind.flatMap Folder.members)
  frames : ∀ path b, l.frames.get? path = some b →
    (B.Contains b ↔ path ∈ (Folder.walkAll [f]).map Folder.path ∧
      path ∉ (around ++ behind).map Folder.path)

/-- The frame of a package when it is placed. -/
lemma exists_frame_placePackage (groups : List (List String)) (sizes : Keyed Size) (x y : Rat)
    (l : Layout) (f : Folder PackageHead) :
    ∃ B : Box, (placePackage groups sizes x y l f).1.frames.get? f.path = some B ∧
      B.x = x ∧ B.y = y ∧ B.right = (placePackage groups sizes x y l f).2.1 ∧
      B.bottom = (placePackage groups sizes x y l f).2.2 := by
  rw [placePackage_eq]
  refine ⟨frameBox x y (placeInside groups sizes x y l f), ?_, rfl, rfl, ?_, ?_⟩
  · rw [Keyed.get?_insert, if_pos rfl]
  · exact add_sub_cancel x _
  · exact add_sub_cancel y _

theorem PlacedAt.exists_isFrame (h : PlacedAt groups sizes f around behind x₁ y₁ l₁ l)
    (hl : Settled sizes y l) : ∃ B, l.IsFrame f around behind B := by
  obtain ⟨B, hframe, hx, hy, hright, hbottom⟩ :=
    exists_frame_placePackage groups sizes x₁ y₁ l₁ f
  have habove : ∀ {b : Box}, b.bottom + padding ≤ y₁ → b.bottom < B.y := fun hb =>
    hy ▸ lt_of_lt_of_le (lt_add_of_pos_right _ (by norm_num [padding])) hb
  have hinside := (placesIn_placePackage groups x₁ h.before f).imp (R := B.Contains) fun b hb => by
    rwa [Box.Contains, hx, hy, hright, hbottom]
  have hafter := h.after.imp (R := fun b => B.bottom < b.y ∨ b.x < B.x) fun b hb => by
    rwa [hx, hbottom]
  refine ⟨B, fun hpath => ?_, ?_, ?_⟩
  · rw [hafter.frames.old _ hpath, hframe]
  · intro code b hb
    obtain ⟨hcode, hheight⟩ := hl.measured.height_nonneg hb
    have hcontains := contains_iff_of_updates (h.before.entities.imp fun _ => habove)
      hinside.entities hafter.entities hb hheight
    simpa [Keyed.contains_iff, hcode] using hcontains
  · intro path b hb
    exact contains_iff_of_updates (h.before.frames.imp fun _ hb => habove hb.2)
      hinside.frames hafter.frames hb (hl.frames _ _ hb).1

end Layout

/-! ### The packages of a text -/

namespace Reader

variable {r : Reader}

lemma nesting_create (r : Reader) (code : String) : (r.create code).nesting = r.nesting := by
  unfold create
  split <;> rfl

lemma nesting_mentionNote (r : Reader) (n : Note) : (r.mentionNote n).nesting = r.nesting := by
  unfold mentionNote
  split
  · exact nesting_mention r _
  · rfl
  · rfl

lemma moves_declare {r' : Reader} (h : r'.nesting = r.nesting) (e : Entity) :
    r.nesting.Moves (r'.declare e).nesting := by
  unfold declare
  rw [h]
  exact .enter e.code _

lemma moves_of_eq {n n' : Nesting PackageHead} (h : n' = n) : n.Moves n' :=
  h ▸ .stay

lemma moves_apply (r : Reader) (line : Line) : r.nesting.Moves (r.apply line).nesting := by
  cases line with
  | title | display | nothing | remove | faulty => exact .stay
  | together => exact .openTogether
  | package head => exact .openFolder head head.name
  | blockEnd => exact .close
  | note n => cases n <;> exact moves_of_eq (nesting_mentionNote r _)
  | declare e hasBody =>
    have hmentions := (r.foldl_mention (e.parents ++ e.interfaces)).2
    cases hasBody with
    | true => exact moves_of_eq hmentions
    | false => exact moves_declare hmentions e
  | link l => exact moves_of_eq ((nesting_mention _ _).trans (nesting_mention r _))
  | member code m => exact moves_of_eq (nesting_create r code)

/-- What a line does to the packages and groups. -/
theorem moves_step (r : Reader) (line : SourceLine) : r.nesting.Moves (r.step line).nesting := by
  unfold step
  split
  · split <;> exact .stay
  · split
    · exact .stay
    · unfold memberLine
      split
      · exact moves_declare rfl _
      · exact .stay
  · split
    · exact .stay
    · unfold entryLine
      split
      · exact moves_declare rfl _
      · split
        · exact .stay
        · dsimp only
          split
          · exact .stay
          · exact moves_of_eq (nesting_mention r _)
  · split
    · exact .stay
    · unfold documentLine
      dsimp only
      split
      · exact moves_declare rfl _
      · exact .stay
  · split
    · exact .stay
    · unfold readLine
      split
      · exact moves_apply r _
      · exact .stay

end Reader

namespace Diagram

open Folder

variable {d : Diagram} {f p : Folder PackageHead} {around behind : List (Folder PackageHead)}

/-- The path of a package is longer than those of the packages around it. -/
lemma deepens_read {text : String} (hread : read text = .ok d) : Deepens d.packages := by
  obtain ⟨-, rfl⟩ := Fault.check_eq_ok_iff.1 hread
  have hlines : ((Source.lines text).foldl Reader.step {}).nesting.Deepens :=
    List.foldlRecOn _ Reader.step (motive := fun r => r.nesting.Deepens) Nesting.deepens_empty
      fun r hr line _ => hr.moves (r.moves_step line)
  exact hlines.allFolders

/-- The frame of a package holds what was placed with it and not anywhere else afterwards. -/
theorem exists_isFrame_layout (h : Stands f d.packages around behind) (x y : Rat) :
    ∃ B, (d.layout x y).1.IsFrame f around behind B := by
  have hsettled := d.settled_layout x y
  unfold layout at hsettled ⊢
  obtain ⟨x₁, y₁, l₁, hplaced⟩ :=
    Layout.exists_placedAt_placeTop h d.groups x (d.settled_roots x y _)
  exact hplaced.exists_isFrame hsettled

/-- In a layout the frame of a package holds the boxes of all entities in the package that are
drawn, and the frames of the packages inside. -/
def Encloses (d : Diagram) (l : Layout) (p : Folder PackageHead) : Prop :=
  ∃ B, l.frames.get? p.path = some B ∧
    (∀ e ∈ d.drawn, e.code ∈ allMembers [p] →
      ∃ b, l.entities.get? e.code = some b ∧ B.Contains b) ∧
    ∀ q ∈ walkAll p.inner, ∃ b, l.frames.get? q.path = some b ∧ B.Contains b

/-- A package is left with all that is in it: no package behind it lists an entity in it that is
drawn, or has the path of a package inside. -/
structure Keeps (d : Diagram) (behind : List (Folder PackageHead)) (p last : Folder PackageHead) :
    Prop where
  entities : ∀ e ∈ d.drawn, e.code ∈ allMembers [p] →
    e.code ∈ allMembers [last] ∧ e.code ∉ behind.flatMap members
  packages : ∀ q ∈ walkAll p.inner,
    q.path ∈ (walkAll last.inner).map path ∧ q.path ∉ behind.map path

lemma encloses_layout_iff (hdeep : Deepens d.packages) (h : Stands f d.packages around behind)
    (hp : p ∈ walkAll d.packages) (hpath : f.path = p.path) (hbehind : f.path ∉ behind.map path)
    (x y : Rat) : d.Encloses (d.layout x y).1 p ↔ d.Keeps behind p f := by
  obtain ⟨B, hB⟩ := exists_isFrame_layout h x y
  have haround : ∀ q ∈ walkAll [f], q.path ∉ around.map path := fun q hq =>
    h.path_not_mem_around hdeep hq
  have hself : f ∈ walkAll [f] := by simp [walkAll_singleton]
  have hframe : (d.layout x y).1.frames.get? p.path = some B := by
    rw [← hpath]
    refine hB.frame ?_
    rw [List.map_append, List.mem_append]
    exact not_or.2 ⟨haround f hself, hbehind⟩
  have hinner : ∀ q ∈ walkAll p.inner, ∀ b, (d.layout x y).1.frames.get? q.path = some b →
      (B.Contains b ↔ q.path ∈ (walkAll f.inner).map path ∧ q.path ∉ behind.map path) := by
    intro q hq b hb
    have hlength := hdeep p hp q hq
    have hne : q.path ≠ f.path := fun heq => by
      rw [heq, hpath] at hlength
      exact lt_irrefl _ hlength
    rw [hB.frames _ b hb, walkAll_singleton, List.map_cons, List.mem_cons, or_iff_right hne,
      List.map_append, List.mem_append, not_or]
    refine and_congr_right fun hmem => and_iff_right ?_
    obtain ⟨q', hq', heq⟩ := List.mem_map.1 hmem
    rw [← heq]
    exact haround q' (by simp [walkAll_singleton, hq'])
  constructor
  · rintro ⟨B', hB', hentities, hpackages⟩
    obtain rfl := Option.some.inj (hframe.symm.trans hB')
    constructor
    · intro e he hmem
      obtain ⟨b, hb, hcontains⟩ := hentities e he hmem
      exact (hB.entities _ b hb).1 hcontains
    · intro q hq
      obtain ⟨b, hb, hcontains⟩ := hpackages q hq
      exact (hinner q hq b hb).1 hcontains
  · intro hkeeps
    refine ⟨B, hframe, fun e he hmem => ?_, fun q hq => ?_⟩
    · obtain ⟨b, hb⟩ := Keyed.mem_keys_iff.1 (mem_keys_entities_layout he x y)
      exact ⟨b, hb, (hB.entities _ b hb).2 (hkeeps.entities e he hmem)⟩
    · obtain ⟨b, hb⟩ := Keyed.mem_keys_iff.1
        (mem_keys_frames_layout (walkAll_inner_subset hp hq) x y)
      exact ⟨b, hb, (hinner q hq b hb).2 (hkeeps.packages q hq)⟩

/-- The frame of a package is the one of the last package with its path.  It holds all that is in
the package if and only if this last one has all of that, too, and no package behind it takes
something away. -/
theorem encloses_read_iff {text : String} (hread : read text = .ok d)
    (hp : p ∈ walkAll d.packages) (x y : Rat) :
    ∃ last around behind, Stands last d.packages around behind ∧ last.path = p.path ∧
      p.path ∉ behind.map path ∧
      (d.Encloses (d.layout x y).1 p ↔ d.Keeps behind p last) := by
  obtain ⟨last, around, behind, hstands, hpath, hbehind⟩ :=
    exists_stands_last (fun q => q.path = p.path) d.packages ⟨p, hp, rfl⟩
  have hbehind : p.path ∉ behind.map path := by
    intro hmem
    obtain ⟨q, hq, heq⟩ := List.mem_map.1 hmem
    exact hbehind q hq heq
  exact ⟨last, around, behind, hstands, hpath, hbehind,
    encloses_layout_iff (deepens_read hread) hstands hp hpath (hpath ▸ hbehind) x y⟩

/-- A package in a package that is opened again, and an entity that is listed in both. -/
theorem encloses_read_iff_packages :
    let text := "package P \x7b\nclass A\npackage Q \x7b\nclass B\n\x7d\n\x7d\n" ++
      "package P \x7b\nclass A\nclass C\n\x7d"
    ∃ d p, Diagram.read text = .ok d ∧ p ∈ walkAll d.packages ∧ p.path = "P.Q" ∧
      ∃ last around behind, Stands last d.packages around behind ∧ last.path = "P.Q" ∧
        "P.Q" ∉ behind.map path ∧
        (d.Encloses (d.layout 40 40).1 p ↔ d.Keeps behind p last) := by
  intro text
  obtain ⟨d, hread, hd⟩ := Fault.exists_of_any (by decide +kernel :
    (Diagram.read text).toOption.any (fun d =>
      (walkAll d.packages).any fun p => p.path == "P.Q") = true)
  obtain ⟨p, hp, hpath⟩ := List.any_eq_true.1 hd
  have hpath := beq_iff_eq.1 hpath
  obtain ⟨last, around, behind, hstands, hlast, hbehind, hiff⟩ := encloses_read_iff hread hp 40 40
  rw [hpath] at hlast hbehind
  exact ⟨d, p, hread, hp, hpath, last, around, behind, hstands, hlast, hbehind, hiff⟩

/-- A package that is opened again leaves the entities of its first block without a frame. -/
theorem not_encloses_opened_again :
    ∃ d p, Diagram.read "package P \x7b\nclass A\n\x7d\npackage P \x7b\nclass B\n\x7d" = .ok d ∧
      p ∈ walkAll d.packages ∧ p.members = ["A"] ∧ (∃ e ∈ d.drawn, e.code = "A") ∧
      ¬ d.Encloses (d.layout d.originX d.originY).1 p := by
  obtain ⟨d, hread, hd⟩ := Fault.exists_of_any (by decide +kernel :
    (Diagram.read "package P \x7b\nclass A\n\x7d\npackage P \x7b\nclass B\n\x7d").toOption.any
      (fun d => (d.drawn.any fun e => e.code == "A") &&
        (d.packages.map fun p => (p.path, p.members, p.inner.map path)) ==
          [("P", ["A"], []), ("P", ["B"], [])]) = true)
  obtain ⟨hdrawn, hpackages⟩ := Bool.and_eq_true_iff.1 hd
  obtain ⟨e, he, hcode⟩ := List.any_eq_true.1 hdrawn
  have hcode := beq_iff_eq.1 hcode
  obtain ⟨f, rest, hpackages, hf, hrest⟩ := List.map_eq_cons_iff.1 (beq_iff_eq.1 hpackages)
  obtain ⟨g, rest, rfl, hg, hrest⟩ := List.map_eq_cons_iff.1 hrest
  obtain rfl := List.map_eq_nil_iff.1 hrest
  simp only [Prod.mk.injEq, List.map_eq_nil_iff] at hf hg
  obtain ⟨hfpath, hfmembers, hfinner⟩ := hf
  obtain ⟨hgpath, hgmembers, hginner⟩ := hg
  have hstands : Stands f d.packages [] (walkAll [g]) := hpackages ▸ .here [g]
  have hlast : Stands g d.packages [] (walkAll []) := hpackages ▸ .next (.here [])
  refine ⟨d, f, hread, hstands.mem, hfmembers, ⟨e, he, hcode⟩, fun hencloses => ?_⟩
  have hkeeps := (encloses_layout_iff (deepens_read hread) hlast hstands.mem
    (hgpath.trans hfpath.symm) List.not_mem_nil _ _).1 hencloses
  have hmem := (hkeeps.entities e he (by simp [hcode, allMembers_singleton, hfmembers])).1
  rw [hcode, allMembers_singleton, hgmembers, hginner] at hmem
  simp [allMembers, walkAll] at hmem

/-- If no package is opened again and no entity is listed twice, every frame holds what is in its
package. -/
theorem encloses_of_nodup {text : String} (hread : read text = .ok d)
    (hpaths : ((walkAll d.packages).map path).Nodup) (hmembers : (allMembers d.packages).Nodup)
    (hp : p ∈ walkAll d.packages) (x y : Rat) : d.Encloses (d.layout x y).1 p := by
  obtain ⟨_, around, behind, hstands, rfl, -⟩ :=
    exists_stands_last (· = p) d.packages ⟨p, hp, rfl⟩
  obtain ⟨before, hwalk⟩ := hstands.exists_walkAll
  rw [hwalk, List.map_append, List.map_append] at hpaths
  rw [allMembers, hwalk, List.flatMap_append, List.flatMap_append] at hmembers
  have hpaths := List.disjoint_of_nodup_append hpaths.of_append_right
  have hmembers := List.disjoint_of_nodup_append hmembers.of_append_right
  rw [walkAll_singleton, List.map_cons, List.disjoint_cons_left] at hpaths
  refine (encloses_layout_iff (deepens_read hread) hstands hp rfl hpaths.1 x y).2 ⟨?_, ?_⟩
  · exact fun e _ hmem => ⟨hmem, fun h => hmembers hmem h⟩
  · intro q hq
    have hmem : q.path ∈ (walkAll _).map path := List.mem_map_of_mem hq
    exact ⟨hmem, fun h => hpaths.2 hmem h⟩

end Diagram
end Class
end UmlDraw
