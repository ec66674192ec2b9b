/-
Numbers of 256 and 64 bits and whole numbers (`data/store/scalar.rs`).
-/
import Massbit.Runtime.ToFrom

open LittleEndian

namespace Massbit

theorem U256.fromLittleEndian_eq_ok {bs : List UInt8} (h : bs.length ≤ 32) :
    U256.fromLittleEndian bs = .ok (BitVec.ofNat 256 (ofBytes bs)) :=
  if_neg (Nat.not_lt.2 h)

namespace BigInt

theorem two_pow_256 : (2 : ℕ) ^ 256 = 256 ^ 32 := pow_mul 2 8 32

theorem fromUnsignedU256_eq (n : U256) : fromUnsignedU256 n = n.toNat := by
  have hlt : n.toNat < 256 ^ 32 := two_pow_256 ▸ n.isLt
  exact congrArg Nat.cast (ofBytes_toBytes_of_lt hlt)

theorem fromSignedU256_eq (n : U256) : fromSignedU256 n = n.toInt := by
  have hlt : n.toNat < 256 ^ (31 + 1) := two_pow_256 ▸ n.isLt
  refine (LittleEndian.ofSignedBytes_toBytes_of_lt hlt).trans ?_
  rw [BitVec.toInt_eq_toNat_cond, two_pow_256]
  by_cases h : 2 * n.toNat < 256 ^ 32
  · rw [if_neg (Nat.not_le.mpr h), if_pos h]
  · rw [if_pos (Nat.not_lt.mp h), if_neg h]
    rfl

variable {i : ℤ}

theorem toUnsignedU256_eq_ok (hn : 0 ≤ i) (hlt : i.natAbs < 256 ^ 32) :
    toUnsignedU256 i = .ok (BitVec.ofNat 256 i.natAbs) := by
  unfold toUnsignedU256
  rw [if_neg (not_lt.mpr hn), U256.fromLittleEndian_eq_ok,
    ofBytes_toBytes_of_lt (lt_pow_byteCount _)]
  rw [length_toBytes]
  exact byteCount_le (by decide) hlt

theorem toSignedU256_eq_ok (h : LittleEndian.FitsSigned 32 i) :
    toSignedU256 i = .ok (BitVec.ofInt 256 i) := by
  have hw := signedWidth_le_of_fitsSigned (by decide) h
  have hc : ((2 ^ 256 : ℕ) : ℤ) = 256 ^ 32 := by rw [two_pow_256]; push_cast
  unfold toSignedU256
  by_cases hn : i < 0
  · have hl : (toSignedBytes i ++
        List.replicate (32 - (toSignedBytes i).length) 255).length = 32 := by
      simp
      omega
    have hv := ofBytes_toSignedBytes_append hn (32 - signedWidth i)
    rw [Nat.add_sub_cancel' hw] at hv
    simp only [if_pos hn]
    rw [if_neg (by simpa using hw), U256.fromLittleEndian_eq_ok hl.le, length_toSignedBytes]
    refine congrArg Outcome.ok (BitVec.eq_of_toNat_eq ?_)
    rw [← BitVec.ofInt_natCast, hv, ← hc, BitVec.toNat_ofInt, BitVec.toNat_ofInt,
      Int.add_emod_right]
  · simp only [if_neg hn]
    have hv := ofBytes_toSignedBytes i
    rw [if_pos (not_lt.1 hn)] at hv
    rw [U256.fromLittleEndian_eq_ok (by simpa using hw), ← BitVec.ofInt_natCast, hv]

theorem toUnsignedU256_fromUnsignedU256 (n : U256) : toUnsignedU256 (fromUnsignedU256 n) = .ok n := by
  have hlt : n.toNat < 256 ^ 32 := two_pow_256 ▸ n.isLt
  rw [fromUnsignedU256_eq]
  refine (toUnsignedU256_eq_ok (i := n.toNat) (Int.natCast_nonneg _) hlt).trans ?_
  exact congrArg Outcome.ok ((BitVec.ofNat_toNat 256 n).trans (BitVec.setWidth_eq n))

theorem natAbs_fromUnsignedU256_lt (n : U256) : (fromUnsignedU256 n).natAbs < 256 ^ 32 := by
  rw [fromUnsignedU256_eq]
  exact two_pow_256 ▸ n.isLt

theorem fitsSigned_fromSignedU256 (n : U256) : LittleEndian.FitsSigned 32 (fromSignedU256 n) := by
  have hl := BitVec.le_two_mul_toInt (x := n)
  have hh := BitVec.two_mul_toInt_lt (x := n)
  rw [fromSignedU256_eq]
  constructor <;> push_cast at * <;> omega

theorem toSignedU256_fromSignedU256 (n : U256) : toSignedU256 (fromSignedU256 n) = .ok n := by
  rw [toSignedU256_eq_ok (fitsSigned_fromSignedU256 n), fromSignedU256_eq, BitVec.ofInt_toInt]

theorem toUnsignedU256_eq_panic (h : ¬(0 ≤ i ∧ i.natAbs < 256 ^ 32)) :
    toUnsignedU256 i = .panic := by
  unfold toUnsignedU256
  split_ifs with hn
  · rfl
  · have hc : 32 < byteCount i.natAbs := by
      rw [← not_le, byteCount_le_iff (by decide)]
      exact fun hlt => h ⟨not_lt.mp hn, hlt⟩
    exact if_pos (by rwa [length_toBytes])

theorem toSignedU256_eq_panic (h : ¬LittleEndian.FitsSigned 32 i) : toSignedU256 i = .panic := by
  have hw : 32 < (toSignedBytes i).length := by
    rwa [length_toSignedBytes, ← not_le, signedWidth_le_iff (by decide)]
  unfold toSignedU256
  dsimp only
  split_ifs
  · rfl
  · exact if_pos hw

theorem fitsSigned_iff : LittleEndian.FitsSigned 32 i ↔ -2 ^ 255 ≤ i ∧ i < 2 ^ 255 := by
  have hp : (256 : ℤ) ^ 32 = 2 * 2 ^ 255 := by norm_num
  unfold LittleEndian.FitsSigned
  omega

theorem fitsUnsigned_iff : (0 ≤ i ∧ i.natAbs < 256 ^ 32) ↔ 0 ≤ i ∧ i < 2 ^ 256 := by
  have hc : ((256 ^ 32 : ℕ) : ℤ) = 2 ^ 256 := by norm_num
  rw [← hc]
  generalize (256 : ℕ) ^ 32 = bound
  omega

theorem fromSignedU256_of_eq_ok {n : U256} (h : toSignedU256 i = .ok n) :
    LittleEndian.FitsSigned 32 i ∧ fromSignedU256 n = i := by
  by_cases hf : LittleEndian.FitsSigned 32 i
  · rw [toSignedU256_eq_ok hf] at h
    obtain ⟨hl, hh⟩ := fitsSigned_iff.1 hf
    refine ⟨hf, ?_⟩
    rw [← Outcome.ok.inj h, fromSignedU256_eq]
    exact BitVec.toInt_ofInt_eq_self (by decide) hl hh
  · rw [toSignedU256_eq_panic hf] at h
    cases h

theorem fromUnsignedU256_of_eq_ok {n : U256} (h : toUnsignedU256 i = .ok n) :
    (0 ≤ i ∧ i.natAbs < 256 ^ 32) ∧ fromUnsignedU256 n = i := by
  by_cases hf : 0 ≤ i ∧ i.natAbs < 256 ^ 32
  · rw [toUnsignedU256_eq_ok hf.1 hf.2] at h
    refine ⟨hf, ?_⟩
    rw [← Outcome.ok.inj h, fromUnsignedU256_eq, BitVec.toNat_ofNat, two_pow_256,
      Nat.mod_eq_of_lt hf.2]
    exact Int.natAbs_of_nonneg hf.1
  · rw [toUnsignedU256_eq_panic hf] at h
    cases h

/-- **The conversions are inverse and never wrap.** A whole number is converted to a number of 256
bits if and only if it is in range, and then the result stands for it; otherwise the conversion
panics. -/
theorem u256_conversions :
    (∀ x : ℤ,
      ((∃ n, toSignedU256 x = .ok n) ↔ -2 ^ 255 ≤ x ∧ x < 2 ^ 255) ∧
      (∀ n, toSignedU256 x = .ok n → fromSignedU256 n = x) ∧
      (¬(-2 ^ 255 ≤ x ∧ x < 2 ^ 255) → toSignedU256 x = .panic) ∧
      ((∃ n, toUnsignedU256 x = .ok n) ↔ 0 ≤ x ∧ x < 2 ^ 256) ∧
      (∀ n, toUnsignedU256 x = .ok n → fromUnsignedU256 n = x) ∧
      (¬(0 ≤ x ∧ x < 2 ^ 256) → toUnsignedU256 x = .panic)) ∧
    ∀ n : U256, toSignedU256 (fromSignedU256 n) = .ok n ∧
      toUnsignedU256 (fromUnsignedU256 n) = .ok n := by
  refine ⟨fun x => ?_, fun n => ⟨toSignedU256_fromSignedU256 n, toUnsignedU256_fromUnsignedU256 n⟩⟩
  rw [← fitsSigned_iff, ← fitsUnsigned_iff]
  refine ⟨⟨?_, fun h => ⟨_, toSignedU256_eq_ok h⟩⟩, fun n h => (fromSignedU256_of_eq_ok h).2,
    toSignedU256_eq_panic, ⟨?_, fun h => ⟨_, toUnsignedU256_eq_ok h.1 h.2⟩⟩,
    fun n h => (fromUnsignedU256_of_eq_ok h).2, toUnsignedU256_eq_panic⟩
  · rintro ⟨n, h⟩
    exact (fromSignedU256_of_eq_ok h).1
  · rintro ⟨n, h⟩
    exact (fromUnsignedU256_of_eq_ok h).1

inductive Sign where
  | minus
  | noSign
  | plus
  deriving DecidableEq

def toBytesLe (self : ℤ) : Sign × List UInt8 :=
  (if self < 0 then .minus else if self = 0 then .noSign else .plus,
    toBytes (byteCount self.natAbs) self.natAbs)

inductive OutOfRangeError where
  | negative
  | overflow
  deriving DecidableEq

def accumulate (acc : UInt64 × ℕ) (b : UInt8) : Outcome OutOfRangeError (UInt64 × ℕ) :=
  if 64 ≤ acc.2 then .panic else .ok (b.toUInt64 <<< .ofNat acc.2 ||| acc.1, acc.2 + 8)

def tryIntoU64 (value : ℤ) : Outcome OutOfRangeError UInt64 :=
  if (toBytesLe value).1 = .minus then .err .negative
  else if 8 < (toBytesLe value).2.length then .err .overflow
  else do return (← (toBytesLe value).2.foldlM accumulate (0, 0)).1

theorem two_pow_64 : (2 : ℕ) ^ 64 = 256 ^ 8 := pow_mul 2 8 8

variable {n : UInt64}

theorem accumulate_eq {k : ℕ} (hn : n.toNat < 256 ^ k) (hk : k < 8) (b : UInt8) :
    ∃ m, accumulate (n, 8 * k) b = .ok (m, 8 * (k + 1)) ∧
      m.toNat = n.toNat + 256 ^ k * b.toNat := by
  have hp : 2 ^ (8 * k) = 256 ^ k := pow_mul 2 8 k
  refine ⟨_, if_neg (by omega), ?_⟩
  have hlt : b.toNat <<< (8 * k) < 2 ^ 64 := by
    have hb := b.toNat_lt
    rw [Nat.shiftLeft_eq, hp, two_pow_64]
    calc b.toNat * 256 ^ k < 256 * 256 ^ k := by gcongr
      _ = 256 ^ (k + 1) := (pow_succ' 256 k).symm
      _ ≤ 256 ^ 8 := Nat.pow_le_pow_right (by decide) hk
  have hs : (UInt64.ofNat (8 * k)).toNat % 64 = 8 * k := by
    rw [UInt64.toNat_ofNat']
    omega
  rw [UInt64.toNat_or, UInt64.toNat_shiftLeft, hs, UInt8.toNat_toUInt64, Nat.mod_eq_of_lt hlt,
    ← Nat.shiftLeft_add_eq_or_of_lt (hp ▸ hn), Nat.shiftLeft_eq, hp]
  ring

theorem foldlM_accumulate (bs : List UInt8) {k : ℕ} (hn : n.toNat < 256 ^ k)
    (hk : k + bs.length ≤ 8) : ∃ m, bs.foldlM accumulate (n, 8 * k) = .ok m ∧
      m.1.toNat = n.toNat + 256 ^ k * ofBytes bs := by
  induction bs generalizing n k with
  | nil => exact ⟨_, rfl, by simp [ofBytes]⟩
  | cons b bs ih =>
    rw [List.length_cons] at hk
    obtain ⟨m, hm, hv⟩ := accumulate_eq hn (by omega) b
    have hlt : m.toNat < 256 ^ (k + 1) := by
      have hb := b.toNat_lt
      rw [hv, pow_succ]
      nlinarith
    obtain ⟨m', hm', hv'⟩ := ih hlt (by omega)
    refine ⟨m', ?_, ?_⟩
    · rw [List.foldlM_cons, hm]
      exact hm'
    · rw [hv', hv, ofBytes, pow_succ]
      ring

/-- **`u64::try_from` converts exactly the numbers of 64 bits**, and tells a negative number from
one that is too large. -/
theorem tryIntoU64_spec (x : ℤ) :
    (∀ n, tryIntoU64 x = .ok n ↔ (n.toNat : ℤ) = x) ∧
      ((∃ n, tryIntoU64 x = .ok n) ↔ 0 ≤ x ∧ x < 2 ^ 64) ∧
      (tryIntoU64 x = .err .negative ↔ x < 0) ∧
      (tryIntoU64 x = .err .overflow ↔ 2 ^ 64 ≤ x) ∧
      tryIntoU64 x ≠ .panic := by
  have hc : ((2 ^ 64 : ℕ) : ℤ) = 2 ^ 64 := by norm_num
  have hl : (toBytesLe x).2.length ≤ 8 ↔ x.natAbs < 2 ^ 64 := by
    rw [toBytesLe, length_toBytes, byteCount_le_iff (by decide), two_pow_64]
  have hu (n : UInt64) := n.toNat_lt
  have hs : (toBytesLe x).1 = .minus ↔ x < 0 := by
    unfold toBytesLe
    grind
  unfold tryIntoU64
  split_ifs with h₁ h₂
  · have hx := hs.1 h₁
    refine ⟨fun n => ?_, ?_⟩ <;> simp <;> omega
  · have hx := mt hs.2 h₁
    have hb := mt hl.2 (Nat.not_le.2 h₂)
    refine ⟨fun n => ?_, ?_⟩ <;> simp <;> grind
  · have hx := mt hs.2 h₁
    have hb := hl.1 (Nat.not_lt.1 h₂)
    obtain ⟨m, hm, hv⟩ := foldlM_accumulate (toBytesLe x).2 (n := 0) (k := 0) (by decide)
      (by simpa using Nat.not_lt.1 h₂)
    have he : ofBytes (toBytesLe x).2 = x.natAbs := ofBytes_toBytes_of_lt (lt_pow_byteCount _)
    rw [he] at hv
    have hm1 : (m.1.toNat : ℤ) = x := by simp at hv; omega
    have hr : (do return (← (toBytesLe x).2.foldlM accumulate (0, 0)).1) =
        (.ok m.1 : Outcome OutOfRangeError UInt64) := by
      rw [show (0 : ℕ) = 8 * 0 from rfl, hm]
      rfl
    rw [hr]
    refine ⟨fun n => ?_, ?_⟩
    · rw [Outcome.ok.injEq, ← UInt64.toNat_inj]
      omega
    · simp
      omega
end BigInt

end Massbit
