/-
# Tables in order of first entry

A table maps keys to values and remembers the order in which the keys came first.  Entering a key
again changes its value and keeps its place.  No key stands twice; this is part of the type.

The main statements are `keys_insert`, `get?_insert` and `get?_modify`.
-/

namespace UmlDraw

/-- A table with keys in order of first entry. -/
structure Keyed (α : Type) where
  /-- The entries in order. -/
  entries : List (String × α)
  /-- No key stands twice. -/
  nodup : (entries.map Prod.fst).Nodup

namespace Keyed

variable {α β : Type}

/-- The table without entries. -/
def empty : Keyed α :=
  ⟨[], List.nodup_nil⟩

instance : Inhabited (Keyed α) := ⟨empty⟩

/-- The keys in order. -/
def keys (t : Keyed α) : List String :=
  t.entries.map Prod.fst

/-- The values in the order of their keys. -/
def values (t : Keyed α) : List α :=
  t.entries.map Prod.snd

/-- The value of a key. -/
def get? (t : Keyed α) (key : String) : Option α :=
  t.entries.lookup key

/-- The key has a value. -/
def contains (t : Keyed α) (key : String) : Bool :=
  (t.get? key).isSome

/-- Applies a function to the values. -/
def map (f : String → α → β) (t : Keyed α) : Keyed β :=
  ⟨t.entries.map fun (k, a) => (k, f k a), by
    have : (t.entries.map fun (k, a) => (k, f k a)).map Prod.fst = t.entries.map Prod.fst := by
      simp [List.map_map, Function.comp_def]
    rw [this]
    exact t.nodup⟩

/-- Changes the value of one key, if it has one. -/
def modify (t : Keyed α) (key : String) (f : α → α) : Keyed α :=
  t.map fun k a => if k = key then f a else a

/-- Adds an entry for a key without one. -/
def append (t : Keyed α) (key : String) (value : α) (fresh : key ∉ t.keys) : Keyed α :=
  ⟨t.entries ++ [(key, value)], by
    rw [List.map_append, List.nodup_append]
    refine ⟨t.nodup, by simp, ?_⟩
    intro k hk k' hk' h
    simp only [List.map_cons, List.map_nil, List.mem_singleton] at hk'
    exact fresh (hk' ▸ h ▸ hk)⟩

/-- Gives a value to a key: in the key's place if it has one, else at the end. -/
def insert (t : Keyed α) (key : String) (value : α) : Keyed α :=
  if h : key ∈ t.keys then t.modify key fun _ => value else t.append key value h

/-- Removes a key. -/
def erase (t : Keyed α) (key : String) : Keyed α :=
  ⟨t.entries.filter fun (k, _) => k != key, by
    refine List.Nodup.sublist ?_ t.nodup
    exact List.Sublist.map _ List.filter_sublist⟩

/-- Enters a list of keys and values one after the other. -/
def ofList (pairs : List (String × α)) : Keyed α :=
  pairs.foldl (fun t (k, a) => t.insert k a) empty

@[simp] theorem keys_empty : (empty : Keyed α).keys = [] := rfl

@[simp] theorem keys_map (f : String → α → β) (t : Keyed α) : (t.map f).keys = t.keys := by
  simp [keys, map, List.map_map, Function.comp_def]

@[simp] theorem keys_modify (t : Keyed α) (key : String) (f : α → α) :
    (t.modify key f).keys = t.keys := by
  simp [modify]

theorem keys_insert (t : Keyed α) (key : String) (value : α) :
    (t.insert key value).keys = if key ∈ t.keys then t.keys else t.keys ++ [key] := by
  unfold insert
  split
  · rw [keys_modify]
  · simp [append, keys]

theorem get?_eq_none_iff {t : Keyed α} {key : String} : t.get? key = none ↔ key ∉ t.keys := by
  simp only [get?, keys, List.lookup_eq_none_iff, List.mem_map, not_exists, not_and]
  constructor
  · intro h e he hk
    simpa [hk] using h e he
  · intro h e he
    simpa using fun hk => h e he hk.symm

theorem contains_iff {t : Keyed α} {key : String} : t.contains key = true ↔ key ∈ t.keys := by
  rw [contains, Option.isSome_iff_ne_none, ne_eq, get?_eq_none_iff, Decidable.not_not]

theorem lookup_map_values (f : String → α → β) (es : List (String × α)) (key : String) :
    (es.map fun (k, a) => (k, f k a)).lookup key = (es.lookup key).map (f key) := by
  induction es with
  | nil => rfl
  | cons e es ih =>
    obtain ⟨k, a⟩ := e
    simp only [List.map_cons, List.lookup_cons]
    split
    · next h => rw [eq_of_beq h]; rfl
    · exact ih

theorem get?_map (f : String → α → β) (t : Keyed α) (key : String) :
    (t.map f).get? key = (t.get? key).map (f key) :=
  lookup_map_values f t.entries key

theorem get?_modify (t : Keyed α) (key other : String) (f : α → α) :
    (t.modify key f).get? other =
      if other = key then (t.get? other).map f else t.get? other := by
  rw [modify, get?_map]
  split <;> simp

theorem get?_insert (t : Keyed α) (key other : String) (value : α) :
    (t.insert key value).get? other = if other = key then some value else t.get? other := by
  unfold insert
  split
  · next h =>
    rw [get?_modify]
    split
    · next e =>
      subst e
      cases hv : t.get? other with
      | none => exact absurd h (get?_eq_none_iff.1 hv)
      | some a => simp
    · rfl
  · next h =>
    unfold append get?
    simp only [List.lookup_append]
    split
    · next e =>
      subst e
      have : t.get? other = none := get?_eq_none_iff.2 h
      unfold get? at this
      simp [this]
    · next e =>
      have : (other == key) = false := by simpa using e
      simp [List.lookup_cons, this]

end Keyed
end UmlDraw
