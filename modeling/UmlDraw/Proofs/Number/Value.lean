/-
# Numbers by their values

Integers, fractions and finite doubles have values, by which they are compared.

The main statements are

* `Double.valueOfDouble?_eq`: the value of a double is that of its parts;
* `Double.lt_iff`: doubles are compared by value;
* `Number.lt_iff`: numbers are compared by value;
* `Number.value?_max`: the value of the greater of two numbers.
-/
import Mathlib
import UmlDraw.Number.Basic

namespace UmlDraw

/-! ## Doubles by their values

A double is a sign, a mantissa and a power of two, or it has no value.  Doubles with values are
compared by them. -/

namespace Double

open Float.Model (UnpackedFloat Format)
open Float.Model.UnpackedFloat (Sign unpackMantissa unpackExponent unpackSign)

/-- The value of an unpacked double, if it is finite. -/
def valueOf? : UnpackedFloat → Option Rat
  | .zero _ => some 0
  | .finite s m e _ => some ((s.apply m : Int) * (2 : Rat) ^ e)
  | _ => none

/-- The parts of a double. -/
def unpacked (x : Float) : UnpackedFloat :=
  x.toModel.unpack

/-! ### The bits of a double -/

lemma toNat_unpackMantissa (b : BitVec 64) :
    (@unpackMantissa Format.binary64 b).toNat = b.toNat % 2 ^ 52 := by
  simp [unpackMantissa]

lemma toNat_unpackExponent (b : BitVec 64) :
    (@unpackExponent Format.binary64 b).toNat =
      b.toNat / 2 ^ 52 % 2 ^ 11 := by
  simp [unpackExponent, Nat.shiftRight_eq_div_pow]

lemma toNat_unpackSign (b : BitVec 64) :
    (@unpackSign Format.binary64 b).toNat = b.toNat / 2 ^ 63 := by
  have hb := b.isLt
  simp [unpackSign, Nat.shiftRight_eq_div_pow]
  omega

/-- The sign of a double. -/
def signOf (x : Float) : Sign :=
  if isNegative x then .negative else .positive

lemma ofBitVec_unpackSign (x : Float) :
    Sign.ofBitVec (@unpackSign Format.binary64
      x.toBits.toBitVec) = signOf x := by
  have hsign := toNat_unpackSign x.toBits.toBitVec
  have hb := x.toBits.toBitVec.isLt
  rw [Sign.ofBitVec, signOf, isNegative, pow2]
  by_cases hneg : 2 ^ 63 ≤ x.toBits.toNat
  · rw [if_neg, if_pos (by simpa using hneg)]
    intro h
    rw [h] at hsign
    have hnat : x.toBits.toBitVec.toNat = x.toBits.toNat := rfl
    simp at hsign
    omega
  · rw [if_pos, if_neg (by simpa using hneg)]
    refine BitVec.eq_of_toNat_eq ?_
    have hnat : x.toBits.toBitVec.toNat = x.toBits.toNat := rfl
    rw [hsign]
    simp
    omega

/-- A double in terms of its bits. -/
lemma unpacked_cases (x : Float) :
    (parts? x = none ∧ valueOf? (unpacked x) = none) ∨
    (parts? x = some (0, -1074) ∧ unpacked x = .zero (signOf x)) ∨
    ∃ m e, ∃ h : 0 < m, parts? x = some (m, e) ∧ unpacked x = .finite (signOf x) m e h ∧
      m < 2 ^ 53 ∧ -1074 ≤ e ∧ e ≤ 971 ∧ (2 ^ 52 ≤ m ∨ e = -1074) := by
  have hsign := ofBitVec_unpackSign x
  have hm := toNat_unpackMantissa x.toBits.toBitVec
  have he := toNat_unpackExponent x.toBits.toBitVec
  have hnat : x.toBits.toBitVec.toNat = x.toBits.toNat := rfl
  rw [hnat] at hm he
  have hparts : parts? x =
      if x.toBits.toNat / 2 ^ 52 % 2 ^ 11 = 2047 then none
      else if x.toBits.toNat / 2 ^ 52 % 2 ^ 11 = 0 then some (x.toBits.toNat % 2 ^ 52, -1074)
      else some (x.toBits.toNat % 2 ^ 52 + 2 ^ 52,
        ((x.toBits.toNat / 2 ^ 52 % 2 ^ 11 : Nat) : Int) - 1075) := by
    simp only [parts?, pow2, beq_iff_eq]
    rfl
  have hunpacked : unpacked x =
      Float.Model.UnpackedFloat.unpack Format.binary64 x.toBits.toBitVec := rfl
  rw [hparts, ← hm, ← he, hunpacked, Float.Model.UnpackedFloat.unpack]
  have hmantissa := (@unpackMantissa Format.binary64 x.toBits.toBitVec).isLt
  have hexponent := (@unpackExponent Format.binary64 x.toBits.toBitVec).isLt
  have hones : ∀ b : BitVec 11, b = -1#_ ↔ b.toNat = 2047 := fun b =>
    ⟨fun h => by rw [h]; rfl, fun h => BitVec.eq_of_toNat_eq h⟩
  have hzero : ∀ n (b : BitVec n), b = 0#_ ↔ b.toNat = 0 := fun n b =>
    ⟨fun h => by rw [h]; simp, fun h => BitVec.eq_of_toNat_eq (by simpa using h)⟩
  by_cases hinf : (@unpackExponent Format.binary64 x.toBits.toBitVec).toNat = 2047
  · left
    rw [if_pos hinf, if_pos ((hones _).2 hinf)]
    refine ⟨rfl, ?_⟩
    split <;> rfl
  · right
    rw [if_neg hinf, if_neg (mt (hones _).1 hinf)]
    by_cases hsub : (@unpackExponent Format.binary64 x.toBits.toBitVec).toNat = 0
    · rw [if_pos hsub, if_pos ((hzero _ _).2 hsub)]
      by_cases hnull : (@unpackMantissa Format.binary64 x.toBits.toBitVec).toNat = 0
      · left
        rw [dif_pos ((hzero _ _).2 hnull), hnull, hsign]
        exact ⟨rfl, rfl⟩
      · right
        rw [dif_neg (mt (hzero _ _).1 hnull)]
        refine ⟨_, -1074, Nat.pos_of_ne_zero hnull, rfl, ?_, ?_⟩
        · simp only [hsign, hsub]
          rfl
        · change _ < 2 ^ 52 at hmantissa
          exact ⟨by omega, by omega, by omega, Or.inr rfl⟩
    · right
      rw [if_neg hsub, if_neg (mt (hzero _ _).1 hsub)]
      have happend : (1#1 ++ @unpackMantissa Format.binary64 x.toBits.toBitVec).toNat =
          (@unpackMantissa Format.binary64 x.toBits.toBitVec).toNat + 2 ^ 52 := by
        rw [BitVec.toNat_append, ← Nat.shiftLeft_add_eq_or_of_lt hmantissa]
        exact Nat.add_comm _ _
      refine ⟨_, _, by omega, rfl, ?_, ?_⟩
      · simp only [hsign, happend]
        rfl
      · change _ < 2 ^ 52 at hmantissa
        change _ < 2 ^ 11 at hexponent
        exact ⟨by omega, by omega, by omega, Or.inl (by omega)⟩

/-- The value of a double with the given parts. -/
lemma valueOfDouble?_of_parts {x : Float} {m : Nat} {k : Int} (h : parts? x = some (m, k)) :
    Number.valueOfDouble? x = some (((signOf x).apply m : Int) * (2 : Rat) ^ k) := by
  have hsign : (if isNegative x then -(m : Rat) else m) = ((signOf x).apply m : Int) := by
    rw [signOf]
    split <;> simp [Sign.apply]
  rw [Number.valueOfDouble?, ratio?, h, Option.map_some, Option.map_some, ← hsign]
  refine congrArg some ?_
  by_cases hk : 0 ≤ k
  · obtain ⟨n, rfl⟩ := Int.eq_ofNat_of_zero_le hk
    simp only [if_pos hk, Rat.mkRat_eq_div, pow2, Nat.pow_eq, Int.toNat_natCast, Nat.cast_one,
      div_one]
    split
    · push_cast
      rw [zpow_natCast, neg_mul]
    · push_cast
      rw [zpow_natCast]
  · obtain ⟨n, hn⟩ := Int.eq_ofNat_of_zero_le (a := -k) (by omega)
    obtain rfl : k = -(n : Int) := by omega
    simp only [if_neg hk, Rat.mkRat_eq_div, pow2, Nat.pow_eq, neg_neg, Int.toNat_natCast]
    split <;> push_cast <;> rw [zpow_neg, zpow_natCast] <;> rfl

/-- The value of a double is that of its parts. -/
theorem valueOfDouble?_eq (x : Float) : Number.valueOfDouble? x = valueOf? (unpacked x) := by
  rcases unpacked_cases x with ⟨hparts, hvalue⟩ | ⟨hparts, hunpacked⟩ |
    ⟨m, e, h, hparts, hunpacked, -⟩
  · rw [hvalue, Number.valueOfDouble?, ratio?, hparts]
    rfl
  · rw [valueOfDouble?_of_parts hparts, hunpacked, valueOf?]
    simp [Sign.apply]
    split <;> simp
  · rw [valueOfDouble?_of_parts hparts, hunpacked, valueOf?]

/-! ### Comparison -/

/-- The mantissa is as long as it can be, or the power is the lowest one. -/
structure Canonical (m : Nat) (e : Int) : Prop where
  mantissa : m < 2 ^ 53
  lowest : -1074 ≤ e
  normal : 2 ^ 52 ≤ m ∨ e = -1074

lemma exists_of_finite {x : Float} {s : Sign} {m : Nat} {e : Int} {h : 0 < m}
    (hx : unpacked x = .finite s m e h) : Canonical m e ∧ e ≤ 971 := by
  rcases unpacked_cases x with ⟨-, hvalue⟩ | ⟨-, hunpacked⟩ |
    ⟨m', e', h', -, hunpacked, hm, he, he', hnormal⟩
  · rw [hx] at hvalue
    cases hvalue
  · rw [hx] at hunpacked
    cases hunpacked
  · rw [hx] at hunpacked
    obtain ⟨-, rfl, rfl⟩ := Float.Model.UnpackedFloat.finite.inj hunpacked
    exact ⟨⟨hm, he, hnormal⟩, he'⟩

/-- Canonical mantissas and powers are compared one after the other. -/
lemma Canonical.lt_iff {m m' : Nat} {e e' : Int} (h : Canonical m e) (h' : Canonical m' e') :
    (m : Rat) * 2 ^ e < m' * 2 ^ e' ↔ e < e' ∨ e = e' ∧ m < m' := by
  have hless : ∀ {m m' : Nat} {e e' : Int}, Canonical m e → Canonical m' e' → e < e' →
      (m : Rat) * 2 ^ e < m' * 2 ^ e' := by
    intro m m' e e' h h' he
    have hm : (m : Rat) < 2 ^ (53 : Int) := by exact_mod_cast h.mantissa
    have hm' : (2 : Rat) ^ (52 : Int) ≤ m' := by
      exact_mod_cast h'.normal.resolve_right (by have := h.lowest; omega)
    calc (m : Rat) * 2 ^ e < 2 ^ (53 : Int) * 2 ^ e := by gcongr
      _ = 2 ^ (52 : Int) * 2 ^ (e + 1) := by
        rw [← zpow_add₀ two_ne_zero, ← zpow_add₀ two_ne_zero]
        congr 1
        ring
      _ ≤ m' * 2 ^ e' := by
        gcongr
        · norm_num
        · omega
  rcases lt_trichotomy e e' with he | rfl | he
  · exact ⟨fun _ => .inl he, fun _ => hless h h' he⟩
  · have hpos : (0 : Rat) < 2 ^ e := by positivity
    rw [mul_lt_mul_iff_of_pos_right hpos]
    simp
  · have hgreater := hless h' h he
    constructor
    · intro hlt
      exact absurd hlt hgreater.asymm
    · rintro (hlt | ⟨rfl, -⟩)
      · exact absurd hlt he.asymm
      · exact absurd he (lt_irrefl _)

lemma exists_of_valueOf? {u : UnpackedFloat} {q : Rat} (h : valueOf? u = some q) :
    (∃ s, u = .zero s ∧ q = 0) ∨
      ∃ s m e, ∃ hm : 0 < m, u = .finite s m e hm ∧ q = (s.apply m : Int) * (2 : Rat) ^ e := by
  cases u with
  | infinity s => cases h
  | notANumber => cases h
  | zero s => exact .inl ⟨s, rfl, (Option.some.inj h).symm⟩
  | finite s m e hm => exact .inr ⟨s, m, e, hm, rfl, (Option.some.inj h).symm⟩

/-- Doubles are compared by value. -/
theorem lt_iff {x y : Float} {p q : Rat} (hx : Number.valueOfDouble? x = some p)
    (hy : Number.valueOfDouble? y = some q) : x < y ↔ p < q := by
  rw [valueOfDouble?_eq] at hx hy
  have hdef : x < y ↔ (unpacked x).compare (unpacked y) = some .lt := by
    have hlt : x < y ↔ ((unpacked x).compare (unpacked y) == some .lt) = true := by
      change decide (x.toModel < y.toModel) = true ↔ _
      rw [decide_eq_true_iff]
      rfl
    rw [hlt, beq_iff_eq]
  have hpos : ∀ {m : Nat} {e : Int}, 0 < m → (0 : Rat) < m * 2 ^ e := fun {m e} hm => by
    have hm : (0 : Rat) < m := by exact_mod_cast hm
    positivity
  rw [hdef]
  rcases exists_of_valueOf? hx with ⟨s, hs, rfl⟩ | ⟨s, m, e, hm, hs, rfl⟩ <;>
  rcases exists_of_valueOf? hy with ⟨s', hs', rfl⟩ | ⟨s', m', e', hm', hs', rfl⟩ <;>
  rw [hs, hs']
  · simp [UnpackedFloat.compare]
  · have hq := hpos (e := e') hm'
    cases s' <;> simp [UnpackedFloat.compare, Sign.apply] <;> linarith
  · have hp := hpos (e := e) hm
    cases s <;> simp [UnpackedFloat.compare, Sign.apply] <;> linarith
  · have hp := hpos (e := e) hm
    have hq := hpos (e := e') hm'
    have hc := (exists_of_finite hs).1
    have hc' := (exists_of_finite hs').1
    have hcompare : ∀ {m m' : Nat} {e e' : Int},
        (compare e e').then (compare m m') = .lt ↔ e < e' ∨ e = e' ∧ m < m' := by
      intro m m' e e'
      rw [Ordering.then_eq_lt, Int.compare_eq_lt, Int.compare_eq_eq, Nat.compare_eq_lt]
    cases s <;> cases s'
    · have hswap : ((compare e e').then (compare m m')).swap = .lt ↔ e' < e ∨ e' = e ∧ m' < m := by
        rw [Ordering.swap_eq_lt, Ordering.then_eq_gt, Int.compare_eq_gt, Int.compare_eq_eq,
          Nat.compare_eq_gt, eq_comm]
      simp only [UnpackedFloat.compare, Option.some.injEq, hswap, Sign.apply, Int.cast_neg,
        Int.cast_natCast, neg_mul, neg_lt_neg_iff]
      exact (hc'.lt_iff hc).symm
    · simp [UnpackedFloat.compare, Sign.apply]
      linarith
    · simp [UnpackedFloat.compare, Sign.apply]
      linarith
    · simp only [UnpackedFloat.compare, Option.some.injEq, hcompare, Sign.apply, Int.cast_natCast]
      exact (hc.lt_iff hc').symm

end Double

/-! ## Values of numbers

Integers, fractions and finite doubles have values.  Numbers with values are compared by them, and
the greater of two numbers has the greater value. -/

namespace Number

/-- The value of a number, if it has one. -/
def value? : Number → Option Rat
  | int n => some n
  | ratio q => some q
  | real x => valueOfDouble? x
  | tooLarge => none

/-- A number has a value, which is not below the given one. -/
def AtLeast (p : Rat) (a : Number) : Prop :=
  ∃ q, a.value? = some q ∧ p ≤ q

/-- A number is an integer or a fraction. -/
def IsExact (a : Number) : Prop :=
  (∃ n, a = int n) ∨ ∃ q, a = ratio q

variable {a b : Number} {p q : Rat}

@[simp]
lemma value?_int (n : Int) : (int n).value? = some (n : Rat) := rfl

@[simp]
lemma value?_ratio (q : Rat) : (ratio q).value? = some q := rfl

@[simp]
lemma value?_ofNat (n : Nat) : (no_index (OfNat.ofNat n) : Number).value? = some (n : Rat) := rfl

@[simp]
lemma atLeast_ratio : (ratio q).AtLeast p ↔ p ≤ q := by
  simp [AtLeast]

@[simp]
lemma atLeast_int {n : Int} : (int n).AtLeast p ↔ p ≤ n := by
  simp [AtLeast]

@[simp]
lemma isExact_int (n : Int) : (int n).IsExact :=
  .inl ⟨n, rfl⟩

@[simp]
lemma isExact_ratio (q : Rat) : (ratio q).IsExact :=
  .inr ⟨q, rfl⟩

@[simp]
lemma isExact_ofNat (n : Nat) : (no_index (OfNat.ofNat n) : Number).IsExact :=
  isExact_int n

/-- The sum of exact numbers is exact. -/
lemma IsExact.add (ha : a.IsExact) (hb : b.IsExact) :
    (a + b).IsExact ∧ ∃ p q, a.value? = some p ∧ b.value? = some q ∧
      (a + b).value? = some (p + q) := by
  obtain ⟨n, rfl⟩ | ⟨p, rfl⟩ := ha <;> obtain ⟨m, rfl⟩ | ⟨q, rfl⟩ := hb
  · refine ⟨isExact_int (n + m), n, m, rfl, rfl, ?_⟩
    change some ((n + m : Int) : Rat) = _
    rw [Int.cast_add]
  · exact ⟨isExact_ratio (n + q), n, q, rfl, rfl, rfl⟩
  · exact ⟨isExact_ratio (p + m), p, m, rfl, rfl, rfl⟩
  · exact ⟨isExact_ratio (p + q), p, q, rfl, rfl, rfl⟩

/-! ### Comparison -/

lemma cases_of_value? (h : a.value? = some p) :
    (∃ n : Int, a = int n ∧ p = n) ∨ a = ratio p ∨ ∃ x, a = real x ∧ valueOfDouble? x = some p := by
  cases a with
  | int n => exact .inl ⟨n, rfl, (Option.some.inj h).symm⟩
  | ratio q => exact .inr (.inl (congrArg ratio (Option.some.inj h)))
  | real x => exact .inr (.inr ⟨x, rfl, h⟩)
  | tooLarge => cases h

lemma compareRat_eq {x : Float} (h : valueOfDouble? x = some q) (p : Rat) :
    compareRat p x = some (if p < q then .lt else if p = q then .eq else .gt) := by
  rw [compareRat, h]

/-- Numbers are compared by value. -/
theorem lt_iff (ha : a.value? = some p) (hb : b.value? = some q) : a < b ↔ p < q := by
  have hlt : ∀ {p q : Rat}, (if p < q then Ordering.lt else if p = q then .eq else .gt) = .lt ↔
      p < q := by
    intro p q
    rcases lt_trichotomy p q with h | rfl | h
    · simp [h]
    · simp
    · simp [h.asymm, h.ne']
  have hgt : ∀ {p q : Rat}, (if p < q then Ordering.lt else if p = q then .eq else .gt).swap = .lt ↔
      q < p := by
    intro p q
    rcases lt_trichotomy p q with h | rfl | h
    · simp [h, h.asymm]
    · simp
    · simp [h, h.asymm, h.ne']
  change (compare? a b == some .lt) = true ↔ _
  rw [beq_iff_eq]
  obtain ⟨n, rfl, rfl⟩ | rfl | ⟨x, rfl, hx⟩ := cases_of_value? ha <;>
  obtain ⟨m, rfl, rfl⟩ | rfl | ⟨y, rfl, hy⟩ := cases_of_value? hb
  · rw [compare?, Option.some.injEq, Int.compare_eq_lt, Int.cast_lt]
  · rw [compare?, Option.some.injEq, hlt]
  · rw [compare?, compareRat_eq hy, Option.some.injEq, hlt]
  · rw [compare?, Option.some.injEq, hlt]
  · rw [compare?, Option.some.injEq, hlt]
  · rw [compare?, compareRat_eq hy, Option.some.injEq, hlt]
  · rw [compare?, compareRat_eq hx, Option.map_some, Option.some.injEq, hgt]
  · rw [compare?, compareRat_eq hx, Option.map_some, Option.some.injEq, hgt]
  · rw [compare?, ← Double.lt_iff hx hy]
    by_cases h : x < y
    · simp [h]
    · rw [if_neg h]
      split
      · simp [h]
      · split <;> simp [h]

lemma max_eq (hb : b.value? = some q) : max a b = if a < b then b else a := by
  cases b with
  | tooLarge => cases hb
  | _ => rfl

/-- The value of the greater of two numbers. -/
theorem value?_max (ha : a.value? = some p) (hb : b.value? = some q) :
    (max a b).value? = some (Max.max p q) := by
  rw [max_eq hb]
  by_cases h : p < q
  · rw [if_pos ((lt_iff ha hb).2 h), hb, max_eq_right h.le]
  · rw [if_neg (mt (lt_iff ha hb).1 h), ha, max_eq_left (not_lt.1 h)]

end Number
end UmlDraw
