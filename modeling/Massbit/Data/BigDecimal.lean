/-
The arithmetic of `scalar::BigDecimal`.
-/
import Massbit.Data.Decimal
import Massbit.Lib.LittleEndian
import Mathlib.Algebra.Order.Field.Power
import Mathlib.Data.Rat.Cast.Order

namespace Massbit

/-- What the crate `bigdecimal` computes, as far as `normalized` relies on it. Version 0.1.2 keeps
`withPrec_bounds` for positive numbers; of a negative one it can leave 35 digits, since
`BigDecimal.countDecimalDigits` is too low there. -/
structure DecimalCrate where
  scale : ℤ → ℤ
  scale_scale_add : ∀ a b, scale (scale a + b) = scale (a + b)
  withPrec : BigDecimal → BigDecimal
  withPrec_bounds : ∀ x : BigDecimal, x.digits ≠ 0 → (withPrec x).digits ≠ 0 ∧
    (withPrec x).digits.natAbs ≤ 10 ^ BigDecimal.maxSignificantDigits
  withPrec_exact : ∀ x : BigDecimal, x.digits ≠ 0 →
    x.digits.natAbs < 10 ^ BigDecimal.maxSignificantDigits →
      ∃ zeros : ℕ, withPrec x = ⟨x.digits * 10 ^ zeros, scale (x.exp + zeros)⟩
  fromStr : String → Option BigDecimal
  add : BigDecimal → BigDecimal → BigDecimal
  sub : BigDecimal → BigDecimal → BigDecimal
  mul : BigDecimal → BigDecimal → BigDecimal
  div : BigDecimal → BigDecimal → BigDecimal

namespace BigDecimal

theorem roundTo_bounds {self : BigDecimal} (h : self.digits ≠ 0) {prec : ℕ} (hp : 0 < prec) :
    (self.roundTo (digitCount self.digits) prec).digits ≠ 0 ∧
      (self.roundTo (digitCount self.digits) prec).digits.natAbs ≤ 10 ^ prec := by
  obtain ⟨digits, exp⟩ := self
  have hh := natAbs_lt_pow digits
  unfold roundTo
  dsimp only at h ⊢
  split
  next hlt =>
    have hl := pow_le_natAbs h
    set diff := digitCount digits - prec with hd
    have hqu : (digits.tdiv (10 ^ diff)).natAbs = digits.natAbs / 10 ^ diff := by
      rw [Int.natAbs_tdiv, Int.natAbs_pow]
      rfl
    have hq : digits.natAbs / 10 ^ diff < 10 ^ prec := by
      apply Nat.div_lt_of_lt_mul
      rw [← pow_add]
      convert hh using 2
      omega
    have hql : 0 < digits.natAbs / 10 ^ diff := by
      refine Nat.div_pos (le_trans (Nat.pow_le_pow_right (by decide) ?_) hl) (by positivity)
      omega
    dsimp only
    split
    next hr =>
      -- only a positive number is rounded up
      have hpo : (0 : ℤ) < 10 ^ diff := by positivity
      have hps : 0 < digits := by
        by_contra hn
        have hm := Int.tmod_nonneg (a := -digits) (10 ^ diff) (by omega)
        rw [Int.neg_tmod] at hm
        omega
      have := Int.tdiv_nonneg hps.le hpo.le
      omega
    next =>
      omega
  next hle =>
    refine ⟨mul_ne_zero h (by positivity), ?_⟩
    rw [natAbs_mul_pow]
    refine le_trans (Nat.mul_le_mul_right _ hh.le) ?_
    rw [← pow_add]
    exact Nat.pow_le_pow_right (by decide) (by omega)

end BigDecimal

namespace DecimalCrate

def rescaled (self : BigDecimal) (exp : ℤ) : ℤ := self.digits * 10 ^ (exp - self.exp).toNat

/-- A crate without limits for the scale that counts the digits of all numbers right. -/
def unbounded (precision : ℕ) : DecimalCrate where
  scale := id
  scale_scale_add _ _ := rfl
  withPrec self := self.roundTo (BigDecimal.digitCount self.digits) BigDecimal.maxSignificantDigits
  withPrec_bounds _ h := BigDecimal.roundTo_bounds h (by decide)
  withPrec_exact self _ hlt := by
    have hle : BigDecimal.digitCount self.digits ≤ BigDecimal.maxSignificantDigits :=
      (BigDecimal.digitCount_le_iff (by decide)).mpr hlt
    refine ⟨BigDecimal.maxSignificantDigits - BigDecimal.digitCount self.digits, ?_⟩
    rw [BigDecimal.roundTo, if_neg hle.not_gt]
    rfl
  fromStr := BigDecimal.readStr
  add self other :=
    let exp := max self.exp other.exp
    ⟨rescaled self exp + rescaled other exp, exp⟩
  sub self other :=
    let exp := max self.exp other.exp
    ⟨rescaled self exp - rescaled other exp, exp⟩
  mul self other := ⟨self.digits * other.digits, self.exp + other.exp⟩
  div self other :=
    ⟨(self.digits * 10 ^ precision).tdiv other.digits, self.exp + precision - other.exp⟩

end DecimalCrate

namespace Scalar

variable (crate : DecimalCrate)

def normalized (self : BigDecimal) : BigDecimal :=
  if self.digits = 0 then ⟨0, 0⟩
  else
    let truncated := (crate.withPrec self).truncateZeros
    ⟨truncated.digits, crate.scale truncated.exp⟩

def new (digits exp : ℤ) : BigDecimal := normalized crate ⟨digits, crate.scale (-exp)⟩

def fromStr (s : String) : Option BigDecimal := (crate.fromStr s).map (normalized crate)

def ofInt (n : ℤ) : BigDecimal := normalized crate ⟨n, 0⟩

def add (self other : BigDecimal) : BigDecimal := normalized crate (crate.add self other)

def sub (self other : BigDecimal) : BigDecimal := normalized crate (crate.sub self other)

def mul (self other : BigDecimal) : BigDecimal := normalized crate (crate.mul self other)

def div (self other : BigDecimal) : Option BigDecimal :=
  if other.digits = 0 then none else some (normalized crate (crate.div self other))

/-- The numbers that are obtained by constructors and operators. -/
inductive Obtained : BigDecimal → Prop
  | new (digits exp : ℤ) : Obtained (new crate digits exp)
  | fromStr {s : String} {x : BigDecimal} (h : fromStr crate s = some x) : Obtained x
  | ofInt (n : ℤ) : Obtained (ofInt crate n)
  | add {a b : BigDecimal} : Obtained a → Obtained b → Obtained (add crate a b)
  | sub {a b : BigDecimal} : Obtained a → Obtained b → Obtained (sub crate a b)
  | mul {a b : BigDecimal} : Obtained a → Obtained b → Obtained (mul crate a b)
  | div {a b x : BigDecimal} : Obtained a → Obtained b → div crate a b = some x → Obtained x

end Scalar

namespace BigDecimal

def value (self : BigDecimal) : ℚ := self.digits * (10 : ℚ) ^ (-self.exp)

theorem eq_mul_pow_of_value {x y : BigDecimal} (h : x.value = y.value) (hle : x.exp ≤ y.exp) :
    y.digits = x.digits * 10 ^ (y.exp - x.exp).toNat := by
  have ht : (10 : ℚ) ≠ 0 := by norm_num
  have hs : (10 : ℚ) ^ (-x.exp) = (10 : ℚ) ^ (y.exp - x.exp).toNat * (10 : ℚ) ^ (-y.exp) := by
    rw [← zpow_natCast, ← zpow_add₀ ht, Int.toNat_of_nonneg (sub_nonneg.2 hle)]
    congr 1
    ring
  have hq : (y.digits : ℚ) = x.digits * (10 : ℚ) ^ (y.exp - x.exp).toNat := by
    unfold value at h
    rw [hs, ← mul_assoc] at h
    exact (mul_right_cancel₀ (zpow_ne_zero _ ht) h).symm
  exact_mod_cast hq

namespace IsNormalized

variable {x y : BigDecimal}

theorem digits_eq_zero (h : x.IsNormalized) (hz : x.digits = 0) : x = ⟨0, 0⟩ := by
  obtain ⟨digits, exp⟩ := x
  obtain rfl : digits = 0 := hz
  unfold IsNormalized at h
  obtain rfl : exp = 0 := h
  rfl

theorem of_ne_zero (h : x.IsNormalized) (hne : x.digits ≠ 0) :
    ¬10 ∣ x.digits ∧ x.digits.natAbs < 10 ^ maxSignificantDigits := by
  unfold IsNormalized at h
  rwa [if_neg hne] at h

theorem digitCount_le (h : x.IsNormalized) : digitCount x.digits ≤ maxSignificantDigits := by
  rw [digitCount_le_iff (by decide)]
  by_cases hz : x.digits = 0
  · rw [hz]
    decide
  · exact (h.of_ne_zero hz).2

theorem unique_of_le (hx : x.IsNormalized) (hy : y.IsNormalized) (h : x.value = y.value)
    (hle : x.exp ≤ y.exp) : x = y := by
  have hd := eq_mul_pow_of_value h hle
  by_cases hz : y.digits = 0
  · have hz' : x.digits = 0 := by
      rw [hd] at hz
      exact (mul_eq_zero.mp hz).resolve_right (by positivity)
    rw [hx.digits_eq_zero hz', hy.digits_eq_zero hz]
  · -- digits that do not end with a zero have no zeros that could be put behind others
    have he : (y.exp - x.exp).toNat = 0 := by
      by_contra hne
      refine (hy.of_ne_zero hz).1 ?_
      rw [hd]
      exact dvd_mul_of_dvd_right (dvd_pow_self 10 hne) _
    rw [he, pow_zero, mul_one] at hd
    obtain ⟨digits, exp⟩ := x
    obtain ⟨ds', exp'⟩ := y
    obtain rfl : ds' = digits := hd
    obtain rfl : exp = exp' := by
      dsimp only at hle he
      omega
    rfl

theorem unique (hx : x.IsNormalized) (hy : y.IsNormalized) (h : x.value = y.value) : x = y := by
  rcases le_total x.exp y.exp with hle | hle
  · exact hx.unique_of_le hy h hle
  · exact (hy.unique_of_le hx h.symm hle).symm

end IsNormalized

end BigDecimal

def BigInt.stableHash (self : ℤ) : Bool × List UInt8 :=
  (self < 0, LittleEndian.toBytes (LittleEndian.byteCount self.natAbs) self.natAbs)

def BigDecimal.stableHash (self : BigDecimal) : ℤ × Bool × List UInt8 :=
  (self.exp, BigInt.stableHash self.digits)

namespace Scalar

variable {crate : DecimalCrate}

theorem scale_scale (crate : DecimalCrate) (a : ℤ) : crate.scale (crate.scale a) = crate.scale a := by
  have h := crate.scale_scale_add a 0
  rwa [add_zero, add_zero] at h

theorem isNormalized_normalized (crate : DecimalCrate) (x : BigDecimal) :
    (normalized crate x).IsNormalized := by
  unfold normalized
  split_ifs with hz
  · rfl
  · obtain ⟨hne, hle⟩ := crate.withPrec_bounds x hz
    obtain ⟨hdvd, hlt⟩ := BigDecimal.truncateZeros_bounds hne hle
    exact BigDecimal.isNormalized_of_not_dvd hdvd hlt

variable {x : BigDecimal}

theorem normalized_of_isNormalized (h : x.IsNormalized) (hs : crate.scale x.exp = x.exp) :
    normalized crate x = x := by
  by_cases hz : x.digits = 0
  · rw [h.digits_eq_zero hz]
    rfl
  · obtain ⟨hd, hlt⟩ := h.of_ne_zero hz
    obtain ⟨zs, hp⟩ := crate.withPrec_exact x hz hlt
    have ht := BigDecimal.truncateZeros_mul_pow hd (crate.scale (x.exp + zs) - zs) zs
    rw [sub_add_cancel] at ht
    have he : crate.scale (crate.scale (x.exp + zs) - zs) = x.exp := by
      rw [sub_eq_add_neg, crate.scale_scale_add, add_neg_cancel_right, hs]
    unfold normalized
    rw [if_neg hz, hp, ht]
    dsimp only
    rw [he]

theorem normalized_normalized (crate : DecimalCrate) (x : BigDecimal) :
    normalized crate (normalized crate x) = normalized crate x := by
  by_cases hz : x.digits = 0
  · have hx : normalized crate x = ⟨0, 0⟩ := if_pos hz
    rw [hx]
    rfl
  · refine normalized_of_isNormalized (isNormalized_normalized crate x) ?_
    unfold normalized
    rw [if_neg hz]
    exact scale_scale crate _

theorem Obtained.exists_normalized (h : Obtained crate x) : ∃ y, x = normalized crate y := by
  cases h with
  | new ds exp => exact ⟨_, rfl⟩
  | fromStr h =>
    obtain ⟨y, -, rfl⟩ := Option.map_eq_some_iff.1 h
    exact ⟨y, rfl⟩
  | ofInt n => exact ⟨_, rfl⟩
  | add ha hb => exact ⟨_, rfl⟩
  | sub ha hb => exact ⟨_, rfl⟩
  | mul ha hb => exact ⟨_, rfl⟩
  | div ha hb h =>
    obtain ⟨-, h⟩ := Option.ite_none_left_eq_some.1 h
    exact ⟨_, (Option.some.inj h).symm⟩

theorem Obtained.isNormalized (h : Obtained crate x) : x.IsNormalized := by
  obtain ⟨y, rfl⟩ := h.exists_normalized
  exact isNormalized_normalized crate y

/-- **Every number is in normal form**: at most 34 digits, the last of which is not zero unless the
number is `(0, 0)`. -/
theorem obtained_canonical (crate : DecimalCrate) :
    (∀ x, Obtained crate x → BigDecimal.digitCount x.digits ≤ BigDecimal.maxSignificantDigits ∧
      (x.digits ≠ 0 → ¬10 ∣ x.digits) ∧ (x.digits = 0 → x = ⟨0, 0⟩)) ∧
    (∀ x, normalized crate (normalized crate x) = normalized crate x) ∧
    (∀ x, Obtained crate x → normalized crate x = x) ∧
    ∀ x y, Obtained crate x → Obtained crate y → x.value = y.value →
      (x.digits = y.digits ∧ x.exp = y.exp) ∧ x.stableHash = y.stableHash := by
  refine ⟨fun x hx => ?_, normalized_normalized crate, fun x hx => ?_, fun x y hx hy hv => ?_⟩
  · have hn := hx.isNormalized
    exact ⟨hn.digitCount_le, fun hne => (hn.of_ne_zero hne).1, hn.digits_eq_zero⟩
  · obtain ⟨y, rfl⟩ := hx.exists_normalized
    exact normalized_normalized crate y
  · obtain rfl := hx.isNormalized.unique hy.isNormalized hv
    exact ⟨⟨rfl, rfl⟩, rfl⟩

/-- Thirty-five nines are rounded up to `10 ^ 34`, and are then the same number as `10 ^ 35`. -/
theorem nines_canonical :
    new (.unbounded 100) (10 ^ 35 - 1) 0 = ⟨1, -35⟩ ∧
      BigDecimal.digitCount (new (.unbounded 100) (10 ^ 35 - 1) 0).digits ≤ 34 ∧
      (new (.unbounded 100) (10 ^ 35 - 1) 0).stableHash =
        (ofInt (.unbounded 100) (10 ^ 35)).stableHash := by
  obtain ⟨hd, -, -, hu⟩ := obtained_canonical (.unbounded 100)
  refine ⟨by decide +kernel, (hd _ (.new _ _)).1, (hu _ _ (.new _ _) (.ofInt _) ?_).2⟩
  have hx : new (.unbounded 100) (10 ^ 35 - 1) 0 = ofInt (.unbounded 100) (10 ^ 35) := by
    decide +kernel
  rw [hx]

end Scalar

end Massbit
