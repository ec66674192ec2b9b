/-
Numbers as bytes, the lowest byte first, and signed numbers in two's complement.
-/
import Mathlib.Data.Nat.Basic
import Mathlib.Tactic.Ring
import Mathlib.Tactic.Linarith

open List

namespace LittleEndian

def toBytes : ℕ → ℕ → List UInt8
  | 0, _ => []
  | width + 1, n => UInt8.ofNat n :: toBytes width (n / 256)

def ofBytes : List UInt8 → ℕ
  | [] => 0
  | b :: bs => b.toNat + 256 * ofBytes bs

@[simp] theorem length_toBytes (width n : ℕ) : (toBytes width n).length = width := by
  induction width generalizing n with
  | zero => rfl
  | succ width ih => simp [toBytes, ih]

theorem ofBytes_toBytes (width n : ℕ) : ofBytes (toBytes width n) = n % 256 ^ width := by
  induction width generalizing n with
  | zero => simp [toBytes, ofBytes, Nat.mod_one]
  | succ width ih =>
    show (UInt8.ofNat n).toNat + 256 * ofBytes (toBytes width (n / 256)) = _
    rw [ih, UInt8.toNat_ofNat', pow_succ' 256 width, Nat.mod_mul]

variable {width n k : ℕ} {i : ℤ}

theorem ofBytes_toBytes_of_lt (h : n < 256 ^ width) : ofBytes (toBytes width n) = n := by
  rw [ofBytes_toBytes, Nat.mod_eq_of_lt h]

theorem ofBytes_append (bs bs' : List UInt8) :
    ofBytes (bs ++ bs') = ofBytes bs + 256 ^ bs.length * ofBytes bs' := by
  induction bs with
  | nil => simp [ofBytes]
  | cons b bs ih =>
    rw [cons_append, ofBytes, ofBytes, ih, length_cons, pow_succ']
    ring

theorem ofBytes_lt (bs : List UInt8) : ofBytes bs < 256 ^ bs.length := by
  induction bs with
  | nil => simp [ofBytes]
  | cons b bs ih =>
    have hb := b.toNat_lt
    rw [ofBytes, length_cons, pow_succ']
    omega

theorem ofBytes_replicate_zero (k : ℕ) : ofBytes (List.replicate k 0) = 0 := by
  induction k with
  | zero => rfl
  | succ k ih => simp [replicate_succ, ofBytes, ih]

theorem ofBytes_replicate_max (k : ℕ) : ofBytes (List.replicate k 255) + 1 = 256 ^ k := by
  induction k with
  | zero => rfl
  | succ k ih =>
    rw [replicate_succ, ofBytes, pow_succ', ← ih]
    show 255 + _ + 1 = _
    ring

theorem getLastD_toBytes (width n : ℕ) (b : UInt8) :
    (toBytes (width + 1) n).getLastD b = UInt8.ofNat (n / 256 ^ width) := by
  induction width generalizing n b with
  | zero => simp [toBytes]
  | succ width ih =>
    show (toBytes (width + 1) (n / 256)).getLastD (UInt8.ofNat n) = _
    rw [ih, Nat.div_div_eq_div_mul, pow_succ']

theorem highest_lt_getLastD (h : n < 256 ^ (width + 1)) (b : UInt8) :
    127 < (toBytes (width + 1) n).getLastD b ↔ 256 ^ (width + 1) ≤ 2 * n := by
  have hp : 256 ^ (width + 1) = 256 * 256 ^ width := pow_succ' 256 width
  have hq : n / 256 ^ width < 256 := Nat.div_lt_of_lt_mul (by rw [mul_comm, ← hp]; exact h)
  rw [getLastD_toBytes, UInt8.lt_iff_toNat_lt, UInt8.toNat_ofNat', Nat.mod_eq_of_lt hq]
  show 127 < n / 256 ^ width ↔ _
  rw [Nat.lt_iff_add_one_le, Nat.le_div_iff_mul_le (by positivity)]
  omega

def byteCount (n : ℕ) : ℕ := n.log2 / 8 + 1

theorem lt_pow_byteCount (n : ℕ) : n < 256 ^ byteCount n := by
  calc n < 2 ^ (n.log2 + 1) := Nat.lt_log2_self
    _ ≤ 2 ^ (8 * byteCount n) := Nat.pow_le_pow_right (by decide) (by unfold byteCount; omega)
    _ = 256 ^ byteCount n := pow_mul 2 8 _

theorem byteCount_le (hk : 0 < k) (h : n < 256 ^ k) : byteCount n ≤ k := by
  rcases Nat.eq_zero_or_pos n with rfl | hn
  · exact hk
  · have hl : n.log2 < 8 * k := by
      rw [Nat.log2_lt hn.ne', pow_mul]
      exact h
    unfold byteCount
    omega

theorem byteCount_le_iff (hk : 0 < k) : byteCount n ≤ k ↔ n < 256 ^ k := by
  constructor
  · intro hle
    exact (lt_pow_byteCount n).trans_le (Nat.pow_le_pow_right (by decide) hle)
  · exact byteCount_le hk

def FitsSigned (width : ℕ) (i : ℤ) : Prop := -(256 ^ width : ℤ) ≤ 2 * i ∧ 2 * i < 256 ^ width

instance (width : ℕ) (i : ℤ) : Decidable (FitsSigned width i) :=
  inferInstanceAs (Decidable (_ ∧ _))

def signedWidth (i : ℤ) : ℕ :=
  if FitsSigned (byteCount i.natAbs) i then byteCount i.natAbs else byteCount i.natAbs + 1

def toSignedBytes (i : ℤ) : List UInt8 :=
  toBytes (signedWidth i) (i % 256 ^ signedWidth i).toNat

def ofSignedBytes (bs : List UInt8) : ℤ :=
  if 127 < bs.getLastD 0 then ofBytes bs - 256 ^ bs.length else ofBytes bs

@[simp] theorem length_toSignedBytes (i : ℤ) : (toSignedBytes i).length = signedWidth i :=
  length_toBytes _ _

theorem signedWidth_pos (i : ℤ) : 0 < signedWidth i := by
  unfold signedWidth byteCount
  split <;> omega

theorem signedWidth_le (hk : 0 < k) (h : i.natAbs < 256 ^ k) : signedWidth i ≤ k + 1 := by
  have hc := byteCount_le hk h
  unfold signedWidth
  split <;> omega

theorem signedWidth_le_of_fitsSigned (hk : 0 < k) (h : FitsSigned k i) : signedWidth i ≤ k := by
  have ha : i.natAbs < 256 ^ k := by
    obtain ⟨hl, hh⟩ := h
    have hca : ((256 ^ k : ℕ) : ℤ) = 256 ^ k := by push_cast; rfl
    omega
  have hc := byteCount_le hk ha
  unfold signedWidth
  split
  next => exact hc
  next hf =>
    rcases hc.lt_or_eq with hlt | rfl
    · exact hlt
    · exact absurd h hf

theorem fitsSigned_signedWidth (i : ℤ) : FitsSigned (signedWidth i) i := by
  unfold signedWidth
  split
  next h => exact h
  next =>
    have ha : (i.natAbs : ℤ) < 256 ^ byteCount i.natAbs := by
      exact_mod_cast lt_pow_byteCount i.natAbs
    constructor <;> omega

theorem signedWidth_le_iff (hk : 0 < k) : signedWidth i ≤ k ↔ FitsSigned k i := by
  constructor
  · intro hle
    obtain ⟨hl, hh⟩ := fitsSigned_signedWidth i
    have hp : (256 : ℤ) ^ signedWidth i ≤ 256 ^ k := pow_le_pow_right₀ (by decide) hle
    exact ⟨by linarith, by linarith⟩
  · exact signedWidth_le_of_fitsSigned hk

theorem ofSignedBytes_toBytes (hw : 0 < width) (h : FitsSigned width i) :
    ofSignedBytes (toBytes width (i % 256 ^ width).toNat) = i := by
  obtain ⟨width, rfl⟩ := Nat.exists_eq_add_one.2 hw
  obtain ⟨hlo, hh⟩ := h
  have hp : (0 : ℤ) < 256 ^ (width + 1) := by positivity
  have hc : ((256 ^ (width + 1) : ℕ) : ℤ) = 256 ^ (width + 1) := by push_cast; rfl
  have hn : ((i % 256 ^ (width + 1)).toNat : ℤ) = i % 256 ^ (width + 1) :=
    Int.toNat_of_nonneg (Int.emod_nonneg _ hp.ne')
  have hlt : (i % 256 ^ (width + 1)).toNat < 256 ^ (width + 1) := by
    omega
  unfold ofSignedBytes
  rw [length_toBytes, ofBytes_toBytes_of_lt hlt, hn]
  rcases Int.lt_or_le i 0 with hne | hno
  -- a negative number is in the upper half
  · have hm : i % 256 ^ (width + 1) = i + 256 ^ (width + 1) := by
      rw [← Int.add_emod_right, Int.emod_eq_of_lt] <;> linarith
    rw [if_pos ((highest_lt_getLastD hlt 0).2 (by omega)), hm]
    ring
  · have hm : i % 256 ^ (width + 1) = i := Int.emod_eq_of_lt hno (by linarith)
    rw [if_neg (fun hl => ?_), hm]
    have := (highest_lt_getLastD hlt 0).1 hl
    omega

theorem ofSignedBytes_toBytes_of_lt (h : n < 256 ^ (width + 1)) :
    ofSignedBytes (toBytes (width + 1) n)
      = if 256 ^ (width + 1) ≤ 2 * n then (n : ℤ) - 256 ^ (width + 1) else n := by
  unfold ofSignedBytes
  rw [length_toBytes, ofBytes_toBytes_of_lt h]
  exact if_congr (highest_lt_getLastD h 0) rfl rfl

/-- **A signed number is read back.** -/
theorem ofSignedBytes_toSignedBytes (i : ℤ) : ofSignedBytes (toSignedBytes i) = i :=
  ofSignedBytes_toBytes (signedWidth_pos i) (fitsSigned_signedWidth i)

theorem ofBytes_toSignedBytes (i : ℤ) : (ofBytes (toSignedBytes i) : ℤ)
    = if 0 ≤ i then i else i + 256 ^ signedWidth i := by
  have hb := ofSignedBytes_toSignedBytes i
  have hlt : (ofBytes (toSignedBytes i) : ℤ) < 256 ^ signedWidth i := by
    have h := ofBytes_lt (toSignedBytes i)
    rw [length_toSignedBytes] at h
    exact_mod_cast h
  unfold ofSignedBytes at hb
  rw [length_toSignedBytes] at hb
  omega

theorem ofBytes_toSignedBytes_append (hi : i < 0) (k : ℕ) :
    (ofBytes (toSignedBytes i ++ List.replicate k 255) : ℤ) = i + 256 ^ (signedWidth i + k) := by
  have hv := ofBytes_toSignedBytes i
  have hm : (ofBytes (List.replicate k 255) : ℤ) + 1 = 256 ^ k := by
    exact_mod_cast ofBytes_replicate_max k
  rw [if_neg (not_le.2 hi)] at hv
  rw [ofBytes_append, length_toSignedBytes]
  push_cast
  rw [hv, pow_add, ← hm]
  ring

theorem ofSignedBytes_toSignedBytes_append (i : ℤ) (k : ℕ) :
    ofSignedBytes (toSignedBytes i ++ List.replicate k (if 0 ≤ i then 0 else 255)) = i := by
  cases k with
  | zero =>
    rw [replicate_zero, append_nil]
    exact ofSignedBytes_toSignedBytes i
  | succ k =>
    have hv := ofBytes_toSignedBytes i
    have hr (b : UInt8) : ofSignedBytes (toSignedBytes i ++ List.replicate (k + 1) b)
        = (ofBytes (toSignedBytes i) : ℤ) + 256 ^ signedWidth i * ofBytes (List.replicate (k + 1) b)
          - if 127 < b then 256 ^ signedWidth i * 256 ^ (k + 1) else 0 := by
      have hl : (toSignedBytes i ++ List.replicate (k + 1) b).getLastD 0 = b := by
        rw [replicate_succ', ← append_assoc]
        exact getLastD_concat
      unfold ofSignedBytes
      rw [hl, length_append, length_toSignedBytes, length_replicate, ofBytes_append,
        length_toSignedBytes, pow_add]
      push_cast
      split
      · rfl
      · rw [sub_zero]
    rcases Int.lt_or_le i 0 with hne | hn
    · have hm : (ofBytes (List.replicate (k + 1) 255) : ℤ) + 1 = 256 ^ (k + 1) := by
        exact_mod_cast ofBytes_replicate_max (k + 1)
      rw [if_neg (by omega)] at hv ⊢
      rw [hr, if_pos (by decide), hv, ← hm]
      ring
    · rw [if_pos hn] at hv ⊢
      rw [hr, if_neg (by decide), hv, ofBytes_replicate_zero]
      ring

end LittleEndian
