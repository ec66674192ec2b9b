/-
The texts of numbers, and the normal form of `scalar::BigDecimal`, with what it uses of `num-bigint`
and `bigdecimal`.
-/
import Massbit.Data.Entity
import Mathlib.Data.Nat.Digits.Lemmas
import Mathlib.RingTheory.Multiplicity
import Mathlib.Tactic.Positivity

open List

namespace Massbit

def signText (negative : Bool) : List Char := if negative then ['-'] else []

theorem eq_of_mem_signText {negative : Bool} {c : Char} (h : c ∈ signText negative) : c = '-' := by
  cases negative
  · cases h
  · exact mem_singleton.1 h

namespace BigInt

def parseDigits (s : List Char) : Option ℕ :=
  if s = [] ∨ s.head? = some '_' then none
  else if (s.filter (· ≠ '_')).all Char.isDigit then
    some (Nat.ofDigitChars 10 (s.filter (· ≠ '_')) 0)
  else none

def parseNat (s : List Char) : Option ℕ :=
  parseDigits (if s.head? = some '+' ∧ s.tail.head? ≠ some '+' then s.tail else s)

def parse (s : List Char) : Option ℤ :=
  if s.head? = some '-' then
    (parseNat (if s.tail.head? = some '+' then s else s.tail)).map fun n : ℕ => -(n : ℤ)
  else (parseNat s).map fun n : ℕ => (n : ℤ)

def fromStr (s : String) : Option ℤ := parse s.toList

theorem ne_of_isDigit {c d : Char} (hc : c.isDigit = true) (hd : d.isDigit = false) : c ≠ d := by
  rintro rfl
  rw [hd] at hc
  cases hc

variable {s : List Char}

theorem parseNat_eq_some (hne : s ≠ []) (h : ∀ c ∈ s, c.isDigit = true) :
    parseNat s = some (Nat.ofDigitChars 10 s 0) := by
  have hh : ∀ {d : Char}, d.isDigit = false → s.head? ≠ some d := fun hd he =>
    ne_of_isDigit (h _ (mem_of_mem_head? he)) hd rfl
  have hf : s.filter (· ≠ '_') = s :=
    filter_eq_self.2 fun c hc => decide_eq_true (ne_of_isDigit (h c hc) rfl)
  rw [parseNat, if_neg fun hand => hh rfl hand.1, parseDigits,
    if_neg (not_or.2 ⟨hne, hh rfl⟩), hf, if_pos (all_eq_true.2 h)]

theorem parse_digits (hne : s ≠ []) (h : ∀ c ∈ s, c.isDigit = true) (negative : Bool) :
    parse (signText negative ++ s)
      = some (if negative then -(Nat.ofDigitChars 10 s 0 : ℤ) else (Nat.ofDigitChars 10 s 0 : ℤ)) := by
  have hh : ∀ {d : Char}, d.isDigit = false → s.head? ≠ some d := fun hd he =>
    ne_of_isDigit (h _ (mem_of_mem_head? he)) hd rfl
  cases negative with
  | false =>
    show parse s = _
    rw [parse, if_neg (hh rfl), parseNat_eq_some hne h]
    rfl
  | true =>
    show parse ('-' :: s) = _
    show Option.map _ (parseNat (if s.head? = some '+' then _ else s)) = _
    rw [if_neg (hh rfl), parseNat_eq_some hne h]
    rfl

theorem toList_toString (i : ℤ) : (toString i).toList
    = signText (i < 0) ++ Nat.toDigits 10 i.natAbs := by
  cases i with
  | ofNat n =>
    show n.repr.toList = _
    rw [Nat.repr_eq_ofList_toDigits, String.toList_ofList, decide_eq_false (by simp)]
    rfl
  | negSucc n =>
    show ("-" ++ (n + 1).repr).toList = _
    rw [String.toList_append, Nat.repr_eq_ofList_toDigits, String.toList_ofList,
      String.toList_ofList, decide_eq_true (Int.negSucc_lt_zero n)]
    rfl

theorem fromStr_toString (i : ℤ) : fromStr (toString i) = some i := by
  have hp := parse_digits (s := Nat.toDigits 10 i.natAbs) Nat.toDigits_ne_nil
    (fun c hc => Nat.isDigit_of_mem_toDigits (by decide) (by decide) hc) (decide (i < 0))
  rw [Nat.ofDigitChars_ten_toDigits] at hp
  simp only [decide_eq_true_eq] at hp
  rw [fromStr, toList_toString, hp]
  congr 1
  split <;> omega

end BigInt

namespace BigDecimal

def maxSignificantDigits : ℕ := 34

def digitCount (digits : ℤ) : ℕ := (Nat.toDigits 10 digits.natAbs).length

/-- The digits as `bigdecimal` counts them: the number of bits gives a guess, which is raised while
the number is not below that power of ten; for a negative number it never is. -/
def countDecimalDigits (digits : ℤ) : ℕ :=
  if digits < 0 then (digits.natAbs.log2 + 1) * 10000000000 / 33219280949 else digitCount digits

/-- Rounds a number with that many digits. -/
def roundTo (self : BigDecimal) (count prec : ℕ) : BigDecimal :=
  if prec < count then
    let diff := count - prec
    let quotient := self.digits.tdiv (10 ^ diff)
    let remainder := self.digits.tmod (10 ^ diff)
    ⟨if 10 ^ diff ≤ 2 * remainder then quotient + 1 else quotient, self.exp - diff⟩
  else
    let diff := prec - count
    ⟨self.digits * 10 ^ diff, self.exp + diff⟩

def withPrec (self : BigDecimal) (prec : ℕ) : BigDecimal :=
  self.roundTo (countDecimalDigits self.digits) prec

def truncateZeros (self : BigDecimal) : BigDecimal :=
  let digits := Nat.digits 10 self.digits.natAbs
  let trailingCount := (digits.takeWhile (· = 0)).length
  ⟨self.digits.sign * (Nat.ofDigits 10 (digits.drop trailingCount) : ℕ), self.exp - trailingCount⟩

def normalized (self : BigDecimal) : BigDecimal :=
  if self.digits = 0 then ⟨0, 0⟩
  else (self.withPrec maxSignificantDigits).truncateZeros

def new (digits exp : ℤ) : BigDecimal := normalized ⟨digits, -exp⟩

def IsNormalized (self : BigDecimal) : Prop :=
  if self.digits = 0 then self.exp = 0
  else ¬10 ∣ self.digits ∧ self.digits.natAbs < 10 ^ maxSignificantDigits

instance (self : BigDecimal) : Decidable self.IsNormalized :=
  inferInstanceAs (Decidable (if self.digits = 0 then _ else _))

variable {digits : ℤ} {self : BigDecimal}

theorem digitCount_le_iff {n : ℕ} (hn : 0 < n) : digitCount digits ≤ n ↔ digits.natAbs < 10 ^ n :=
  Nat.length_toDigits_le_iff (by decide) hn

theorem digitCount_pos (digits : ℤ) : 0 < digitCount digits := Nat.length_toDigits_pos

theorem natAbs_lt_pow (digits : ℤ) : digits.natAbs < 10 ^ digitCount digits :=
  (digitCount_le_iff (digitCount_pos digits)).1 le_rfl

theorem pow_le_natAbs (h : digits ≠ 0) : 10 ^ (digitCount digits - 1) ≤ digits.natAbs := by
  rcases Nat.eq_zero_or_pos (digitCount digits - 1) with h0 | hp
  · rw [h0]
    exact Int.natAbs_pos.2 h
  · by_contra hlt
    have := (digitCount_le_iff hp).2 (Nat.lt_of_not_le hlt)
    omega

theorem pow_le_of_ratio {p q k b : ℕ} (hq : q ≠ 0) (h : 10 ^ q ≤ 2 ^ p) (hle : p * k ≤ q * b) :
    10 ^ k ≤ 2 ^ b := by
  rw [← Nat.pow_le_pow_iff_left hq]
  calc (10 ^ k) ^ q = (10 ^ q) ^ k := by rw [← pow_mul, ← pow_mul, mul_comm]
    _ ≤ (2 ^ p) ^ k := Nat.pow_le_pow_left h k
    _ = 2 ^ (p * k) := (pow_mul 2 p k).symm
    _ ≤ 2 ^ (q * b) := Nat.pow_le_pow_right Nat.two_pos hle
    _ = (2 ^ b) ^ q := by rw [← pow_mul, mul_comm]

/-- The guess from the number of bits is never too large: the constant is a little more than the
logarithm of ten to the base two, which is below 325147 / 97879. -/
theorem pow_le_two_pow (b : ℕ) : 10 ^ (b * 10000000000 / 33219280949) ≤ 2 ^ b := by
  refine pow_le_of_ratio (p := 325147) (q := 97879) (by decide) (by decide +kernel) ?_
  have hk := Nat.div_mul_le_self (b * 10000000000) 33219280949
  omega

theorem natAbs_mul_pow (digits : ℤ) (zeros : ℕ) :
    (digits * 10 ^ zeros).natAbs = digits.natAbs * 10 ^ zeros := by
  rw [Int.natAbs_mul, Int.natAbs_pow]
  rfl

theorem digitCount_mul_pow (h : digits ≠ 0) (zeros : ℕ) :
    digitCount (digits * 10 ^ zeros) = digitCount digits + zeros := by
  have hp := digitCount_pos digits
  apply le_antisymm
  · rw [digitCount_le_iff (by omega), natAbs_mul_pow, pow_add]
    exact Nat.mul_lt_mul_of_pos_right (natAbs_lt_pow digits) (by positivity)
  · have hlt : 10 ^ (digitCount digits - 1 + zeros) < 10 ^ digitCount (digits * 10 ^ zeros) := by
      refine lt_of_le_of_lt ?_ (natAbs_lt_pow (digits * 10 ^ zeros))
      rw [natAbs_mul_pow, pow_add]
      exact Nat.mul_le_mul_right _ (pow_le_natAbs h)
    have := (Nat.pow_lt_pow_iff_right (by decide)).1 hlt
    omega

/-- The count is never above the number of digits. -/
theorem countDecimalDigits_le (h : digits ≠ 0) : countDecimalDigits digits ≤ digitCount digits := by
  unfold countDecimalDigits
  split_ifs with hn
  · have hb : 10 ^ ((digits.natAbs.log2 + 1) * 10000000000 / 33219280949) ≤ 2 * digits.natAbs := by
      refine (pow_le_two_pow _).trans ?_
      rw [pow_succ, mul_comm]
      exact Nat.mul_le_mul_left 2 (Nat.log2_self_le (Int.natAbs_ne_zero.2 h))
    generalize (digits.natAbs.log2 + 1) * 10000000000 / 33219280949 = k at hb
    have hlt := hb.trans_lt (Nat.mul_lt_mul_of_pos_left (natAbs_lt_pow digits) Nat.two_pos)
    have hle : 10 ^ k < 10 ^ (digitCount digits + 1) := by
      rw [pow_succ]
      omega
    exact Nat.le_of_lt_succ ((Nat.pow_lt_pow_iff_right (by decide)).1 hle)
  · exact le_rfl

/-- Zeros behind the digits are taken off or put on, if there are enough. -/
theorem exists_roundTo_mul_pow {prec count zeros : ℕ} (hpr : digitCount digits ≤ prec)
    (hc : count ≤ digitCount digits + zeros) (exp : ℤ) :
    ∃ z : ℕ, roundTo ⟨digits * 10 ^ zeros, exp + zeros⟩ count prec = ⟨digits * 10 ^ z, exp + z⟩ := by
  unfold roundTo
  split
  next hlt =>
    refine ⟨zeros - (count - prec), ?_⟩
    have hs : digits * 10 ^ zeros = digits * 10 ^ (zeros - (count - prec)) * 10 ^ (count - prec) := by
      rw [mul_assoc, ← pow_add]
      congr 2
      omega
    have hp : (0 : ℤ) < 10 ^ (count - prec) := by positivity
    dsimp only
    rw [hs, Int.mul_tmod_left, Int.mul_tdiv_cancel _ hp.ne', if_neg (by omega)]
    congr 1
    omega
  next hle =>
    refine ⟨zeros + (prec - count), ?_⟩
    dsimp only
    rw [mul_assoc, ← pow_add]
    congr 1
    omega

theorem truncateZeros_mul_pow (h : ¬10 ∣ digits) (exp : ℤ) (zeros : ℕ) :
    truncateZeros ⟨digits * 10 ^ zeros, exp + zeros⟩ = ⟨digits, exp⟩ := by
  have hp : 0 < digits.natAbs := Int.natAbs_pos.mpr fun h0 => h (h0 ▸ dvd_zero _)
  have hl : digits.natAbs % 10 ≠ 0 := by omega
  have hd : Nat.digits 10 (digits * 10 ^ zeros).natAbs
      = List.replicate zeros 0 ++ Nat.digits 10 digits.natAbs := by
    rw [natAbs_mul_pow, mul_comm]
    exact Nat.digits_base_pow_mul (by decide) hp
  have hc : ((Nat.digits 10 (digits * 10 ^ zeros).natAbs).takeWhile (· = 0)).length = zeros := by
    rw [hd, takeWhile_append_of_pos (by simp),
      Nat.digits_def' (by decide) hp, takeWhile_cons_of_neg (by simpa using hl)]
    simp
  have hs : (digits * 10 ^ zeros).sign = digits.sign := by
    have hpow : (0 : ℤ) < 10 ^ zeros := by positivity
    rw [Int.sign_mul, Int.sign_eq_one_of_pos hpow, mul_one]
  unfold truncateZeros
  simp only [hc, hs]
  rw [hd, drop_left' (length_replicate ..), Nat.ofDigits_digits]
  congr 1
  · exact Int.sign_mul_natAbs digits
  · omega

theorem normalized_mul_pow (h : self.IsNormalized) (zeros : ℕ) :
    normalized ⟨self.digits * 10 ^ zeros, self.exp + zeros⟩ = self := by
  obtain ⟨digits, exp⟩ := self
  unfold IsNormalized at h
  split at h
  next hz =>
    obtain rfl : digits = 0 := hz
    obtain rfl : exp = 0 := h
    rw [normalized, if_pos (zero_mul _)]
  next hne =>
    have hc : digitCount digits ≤ maxSignificantDigits := (digitCount_le_iff (by decide)).2 h.2
    have hm : digits * 10 ^ zeros ≠ 0 := mul_ne_zero hne (by positivity)
    have hle := countDecimalDigits_le hm
    rw [digitCount_mul_pow hne] at hle
    obtain ⟨z, hz⟩ := exists_roundTo_mul_pow hc hle exp
    rw [normalized, if_neg hm, withPrec, hz, truncateZeros_mul_pow h.1]

-- of a negative number 35 digits can be left
example : digitCount (normalized ⟨-(10 ^ 34 + 1), 0⟩).digits = 35 := by decide +kernel

theorem exists_truncateZeros (h : self.digits ≠ 0) :
    ∃ (n : ℤ) (zeros : ℕ), ¬10 ∣ n ∧ self.digits = n * 10 ^ zeros ∧
      self.truncateZeros = ⟨n, self.exp - zeros⟩ := by
  obtain ⟨digits, exp⟩ := self
  have hf : FiniteMultiplicity 10 digits := Int.finiteMultiplicity_iff.2 ⟨by decide, h⟩
  obtain ⟨n, hn, hd⟩ := hf.exists_eq_pow_mul_and_not_dvd
  generalize multiplicity 10 digits = zeros at hn
  obtain rfl : digits = n * 10 ^ zeros := hn.trans (mul_comm ..)
  have ht := truncateZeros_mul_pow hd (exp - zeros) zeros
  rw [sub_add_cancel] at ht
  exact ⟨n, zeros, hd, rfl, ht⟩

theorem truncateZeros_bounds (h : self.digits ≠ 0)
    (hle : self.digits.natAbs ≤ 10 ^ maxSignificantDigits) :
    ¬10 ∣ self.truncateZeros.digits ∧
      self.truncateZeros.digits.natAbs < 10 ^ maxSignificantDigits := by
  obtain ⟨n, zs, hdv, hd, ht⟩ := exists_truncateZeros h
  rw [ht]
  refine ⟨hdv, lt_of_le_of_ne ?_ ?_⟩
  · rw [hd, natAbs_mul_pow] at hle
    exact le_trans (Nat.le_mul_of_pos_right _ (by positivity)) hle
  · intro heq
    replace heq : n.natAbs = 10 ^ maxSignificantDigits := heq
    have : (10 : ℤ) ∣ n := by
      rw [← Int.dvd_natAbs, heq]
      decide
    exact hdv this

theorem isNormalized_of_not_dvd (hd : ¬10 ∣ self.digits)
    (hlt : self.digits.natAbs < 10 ^ maxSignificantDigits) : self.IsNormalized := by
  have hne : self.digits ≠ 0 := fun hz => hd (hz ▸ dvd_zero _)
  unfold IsNormalized
  rw [if_neg hne]
  exact ⟨hd, hlt⟩

def splitDigits (self : BigDecimal) : List Char × List Char :=
  let absInt := Nat.toDigits 10 self.digits.natAbs
  if absInt.length ≤ self.exp then
    (['0'], List.replicate (self.exp.toNat - absInt.length) '0' ++ absInt)
  else if self.exp < 0 then
    (absInt ++ List.replicate (-self.exp).toNat '0', [])
  else (absInt.take (absInt.length - self.exp.toNat), absInt.drop (absInt.length - self.exp.toNat))

def withPoint (before after : List Char) : List Char :=
  if after = [] then before else before ++ '.' :: after

def display (self : BigDecimal) : String :=
  String.ofList (signText (self.digits < 0) ++ withPoint self.splitDigits.1 self.splitDigits.2)

def parseI64 (s : List Char) : Option ℤ :=
  let digits := if s.head? = some '+' ∨ s.head? = some '-' then s.tail else s
  if digits = [] ∨ ¬digits.all Char.isDigit then none
  else
    let n : ℤ := Nat.ofDigitChars 10 digits 0
    let i := if s.head? = some '-' then -n else n
    if -2 ^ 63 ≤ i ∧ i < 2 ^ 63 then some i else none

def joinDigits (base : List Char) : List Char × ℕ :=
  match base.span (· ≠ '.') with
  | (lead, []) => (lead, 0)
  | (lead, _ :: trail) => (lead ++ trail, trail.length)

def parseExponent : List Char → Option ℤ
  | [] => some 0
  | _ :: exp => parseI64 (if exp.head? = some '+' then exp.tail else exp)

def ofParts (base : List Char) (exponentValue : ℤ) : Option BigDecimal :=
  if base = [] then none
  else (BigInt.parse (joinDigits base).1).map fun int =>
    ⟨int, (joinDigits base).2 - exponentValue⟩

/-- What `bigdecimal` reads. -/
def readStr (s : String) : Option BigDecimal :=
  let (base, rest) := s.toList.span fun c => c ≠ 'e' ∧ c ≠ 'E'
  (parseExponent rest).bind (ofParts base)

def fromStr (s : String) : Option BigDecimal := (readStr s).map normalized

theorem splitDigits_spec (self : BigDecimal) :
    self.splitDigits.1 ≠ [] ∧ (∀ c ∈ self.splitDigits.1 ++ self.splitDigits.2, c.isDigit = true) ∧
      ∃ zeros : ℕ, Nat.ofDigitChars 10 (self.splitDigits.1 ++ self.splitDigits.2) 0
          = self.digits.natAbs * 10 ^ zeros ∧
        (self.splitDigits.2.length : ℤ) = self.exp + zeros := by
  have hd : ∀ c ∈ Nat.toDigits 10 self.digits.natAbs, c.isDigit = true :=
    fun c hc => Nat.isDigit_of_mem_toDigits (by decide) (by decide) hc
  have hne : Nat.toDigits 10 self.digits.natAbs ≠ [] := Nat.toDigits_ne_nil
  have hv : Nat.ofDigitChars 10 (Nat.toDigits 10 self.digits.natAbs) 0 = self.digits.natAbs :=
    Nat.ofDigitChars_ten_toDigits
  unfold splitDigits
  dsimp only
  generalize Nat.toDigits 10 self.digits.natAbs = absInt at hd hne hv
  have hz : ∀ {n : ℕ}, ∀ c ∈ List.replicate n '0', c.isDigit = true := by
    simp
  split
  next hle =>
    refine ⟨by simp, ?_, 0, ?_, ?_⟩
    · intro c hc
      simp only [mem_append, mem_singleton] at hc
      rcases hc with rfl | hc | hc
      exacts [rfl, hz c hc, hd c hc]
    · rw [Nat.ofDigitChars_append, Nat.ofDigitChars_append]
      show Nat.ofDigitChars 10 absInt (Nat.ofDigitChars 10 (List.replicate _ '0') 0) = _
      rw [Nat.ofDigitChars_replicate_zero, mul_zero, hv, pow_zero, mul_one]
    · rw [length_append, length_replicate]
      omega
  next hlt =>
    split
    next hng =>
      refine ⟨by simp [hne], ?_, (-self.exp).toNat, ?_, ?_⟩
      · intro c hc
        simp only [append_nil, mem_append] at hc
        rcases hc with hc | hc
        exacts [hd c hc, hz c hc]
      · rw [append_nil, Nat.ofDigitChars_append, hv, Nat.ofDigitChars_replicate_zero, mul_comm]
      · show (0 : ℤ) = _
        omega
    next hn =>
      refine ⟨?_, ?_, 0, ?_, ?_⟩
      · intro ht
        have := congrArg List.length ht
        rw [length_take, length_nil] at this
        omega
      · rw [take_append_drop]
        exact hd
      · rw [take_append_drop, hv, pow_zero, mul_one]
      · rw [length_drop]
        omega

variable {p : Char → Bool} {s : List Char}

theorem span_of_forall (h : ∀ c ∈ s, p c = true) :
    s.span p = (s, []) := by
  have ht : (s ++ []).takeWhile p = s ++ [] := takeWhile_append_of_pos h
  have hd : (s ++ []).dropWhile p = [] := dropWhile_append_of_pos h
  rw [append_nil] at ht hd
  rw [span_eq_takeWhile_dropWhile, ht, hd]

theorem span_append_cons (h : ∀ c ∈ s, p c = true) {d : Char} (hd : p d = false) (t : List Char) :
    (s ++ d :: t).span p = (s, d :: t) := by
  rw [span_eq_takeWhile_dropWhile, takeWhile_append_of_pos h,
    dropWhile_append_of_pos h, takeWhile_cons, dropWhile_cons, hd]
  simp

section Read

variable {b a : List Char} (h : ∀ c ∈ b ++ a, c.isDigit = true) (n : Bool)

include h

theorem joinDigits_withPoint : joinDigits (signText n ++ withPoint b a)
    = (signText n ++ (b ++ a), a.length) := by
  have hp : ∀ c ∈ signText n ++ b, decide (c ≠ '.') = true := by
    intro c hc
    rcases mem_append.1 hc with hc | hc
    · rw [eq_of_mem_signText hc]
      rfl
    · exact decide_eq_true (BigInt.ne_of_isDigit (h c (mem_append_left _ hc)) rfl)
  rw [joinDigits, withPoint]
  split_ifs with ha
  · rw [span_of_forall hp, ha, append_nil]
    rfl
  · rw [← append_assoc, span_append_cons hp rfl, ← append_assoc]

theorem span_exponent : (signText n ++ withPoint b a).span
    (fun c => c ≠ 'e' ∧ c ≠ 'E') = (signText n ++ withPoint b a, []) := by
  apply span_of_forall
  intro c hc
  have hca : c = '-' ∨ c = '.' ∨ c.isDigit = true := by
    rcases mem_append.mp hc with hc | hc
    · exact .inl (eq_of_mem_signText hc)
    · rw [withPoint] at hc
      split at hc
      · exact .inr (.inr (h c (mem_append_left _ hc)))
      · rcases mem_append.mp hc with hc | hc
        · exact .inr (.inr (h c (mem_append_left _ hc)))
        · rcases mem_cons.mp hc with rfl | hc
          · exact .inr (.inl rfl)
          · exact .inr (.inr (h c (mem_append_right _ hc)))
  rcases hca with rfl | rfl | hc
  · rfl
  · rfl
  · exact decide_eq_true ⟨BigInt.ne_of_isDigit hc rfl, BigInt.ne_of_isDigit hc rfl⟩

theorem fromStr_withPoint (hne : b ≠ []) :
    fromStr (String.ofList (signText n ++ withPoint b a))
      = some (normalized ⟨if n then -(Nat.ofDigitChars 10 (b ++ a) 0 : ℤ)
          else Nat.ofDigitChars 10 (b ++ a) 0, a.length⟩) := by
  have hb : signText n ++ withPoint b a ≠ [] := by
    rw [withPoint]
    split_ifs <;> simp [hne]
  rw [fromStr, readStr, String.toList_ofList, span_exponent h]
  show (ofParts (signText n ++ withPoint b a) 0).map normalized = _
  rw [ofParts, if_neg hb, joinDigits_withPoint h, BigInt.parse_digits (by simp [hne]) h,
    Option.map_some, Option.map_some, sub_zero]

end Read

theorem fromStr_display (h : self.IsNormalized) : fromStr self.display = some self := by
  obtain ⟨hne, hd, zeros, hv, hl⟩ := self.splitDigits_spec
  have hs : (if decide (self.digits < 0) then -((self.digits.natAbs * 10 ^ zeros : ℕ) : ℤ)
      else ((self.digits.natAbs * 10 ^ zeros : ℕ) : ℤ)) = self.digits * 10 ^ zeros := by
    by_cases hneg : self.digits < 0
    · simp [hneg, abs_of_neg hneg]
    · simp [hneg, abs_of_nonneg (not_lt.mp hneg)]
  rw [display, fromStr_withPoint hd _ hne, hv, hl, hs, normalized_mul_pow h]

end BigDecimal

end Massbit
