/-
Base 58, the text form of keys and of binary data.
-/
import Massbit.Lib.LittleEndian
import Mathlib.Data.Nat.Digits.Lemmas

open List LittleEndian

namespace Base58

def alphabet : List Char := "123456789ABCDEFGHJKLMNPQRSTUVWXYZabcdefghijkmnopqrstuvwxyz".toList

def digit (n : ℕ) : Char := alphabet.getD n '1'

def encode (bytes : List UInt8) : String :=
  String.ofList (List.replicate (bytes.takeWhile fun b => b = 0).length '1' ++
    (Nat.digits 58 (ofBytes bytes.reverse)).reverse.map digit)

def value (text : List Char) : ℕ := Nat.ofDigits 58 (text.reverse.map fun c => alphabet.idxOf c)

def decode (text : String) : Option (List UInt8) :=
  if text.toList.all fun c => c ∈ alphabet then
    some (List.replicate (text.toList.takeWhile fun c => c = '1').length 0 ++
      (Nat.digits 256 (value text.toList)).reverse.map UInt8.ofNat)
  else none

theorem idxOf_digit : ∀ n < 58, alphabet.idxOf (digit n) = n := by decide +kernel

theorem value_encode (bs : List UInt8) : value (encode bs).toList = ofBytes bs.reverse := by
  have hdi : ∀ n, (Nat.digits 58 n).map (fun d => alphabet.idxOf (digit d)) = Nat.digits 58 n := by
    intro n
    rw [map_congr_left fun d hd => idxOf_digit d (Nat.digits_lt_base (by decide) hd)]
    exact map_id _
  have hz : ∀ k, (List.replicate k '1').map (fun c => alphabet.idxOf c) = List.replicate k 0 := by
    intro k
    rw [map_replicate]
    rfl
  rw [value, encode, String.toList_ofList, reverse_append, map_append,
    reverse_replicate, hz, ← map_reverse, reverse_reverse, map_map,
    Nat.ofDigits_append_replicate_zero]
  exact (congrArg _ (hdi _)).trans (Nat.ofDigits_digits 58 _)

theorem digit_mem : ∀ n < 58, digit n ∈ alphabet := by decide +kernel

theorem digit_ne_one : ∀ n < 58, n ≠ 0 → digit n ≠ '1' := by decide +kernel

theorem ofBytes_eq_ofDigits (bs : List UInt8) :
    ofBytes bs = Nat.ofDigits 256 (bs.map UInt8.toNat) := by
  induction bs with
  | nil => rfl
  | cons b bs ih =>
    rw [ofBytes, map_cons, Nat.ofDigits_cons, ih]

theorem takeWhile_zero (bs : List UInt8) :
    bs.takeWhile (fun b => b = 0) = List.replicate (bs.takeWhile fun b => b = 0).length 0 :=
  eq_replicate_of_mem fun b hb =>
    of_decide_eq_true (all_eq_true.1 all_takeWhile b hb)

theorem digits_ofBytes_reverse (bs : List UInt8) :
    (Nat.digits 256 (ofBytes bs.reverse)).reverse =
      (bs.dropWhile fun b => b = 0).map UInt8.toNat := by
  have hn : LittleEndian.ofBytes bs.reverse =
      Nat.ofDigits 256 ((bs.dropWhile fun b => b = 0).reverse.map UInt8.toNat) := by
    conv_lhs => rw [← takeWhile_append_dropWhile (p := fun b => decide (b = 0)) (l := bs)]
    rw [takeWhile_zero, reverse_append, reverse_replicate, ofBytes_eq_ofDigits, map_append,
      map_replicate]
    exact Nat.ofDigits_append_replicate_zero _
  rw [hn, Nat.digits_ofDigits 256 (by decide), ← map_reverse, reverse_reverse]
  · intro d hd
    obtain ⟨b, -, rfl⟩ := mem_map.mp hd
    exact b.toNat_lt
  · intro hne h
    have hf : ∃ h', (bs.dropWhile fun b => b = 0).head h' = 0 := by
      rw [getLast_map, getLast_reverse] at h
      exact ⟨by simpa using hne, UInt8.toNat_inj.mp h⟩
    obtain ⟨h', hf⟩ := hf
    have hnot := head_dropWhile_not (fun b => decide (b = (0 : UInt8))) h'
    rw [hf] at hnot
    exact absurd hnot (by decide)

theorem decode_encode (bytes : List UInt8) : decode (encode bytes) = some bytes := by
  have hlt : ∀ d ∈ Nat.digits 58 (ofBytes bytes.reverse), d < 58 := fun d hd =>
    Nat.digits_lt_base (by decide) hd
  have ha : ((encode bytes).toList.all fun c => c ∈ alphabet) = true := by
    rw [all_eq_true, encode, String.toList_ofList]
    intro c hc
    rcases mem_append.1 hc with hc | hc
    · rw [eq_of_mem_replicate hc]
      decide
    · obtain ⟨d, hd, rfl⟩ := mem_map.1 hc
      exact decide_eq_true (digit_mem d (hlt d (mem_reverse.1 hd)))
  have ho : ((encode bytes).toList.takeWhile fun c => c = '1') =
      List.replicate (bytes.takeWhile fun b => b = 0).length '1' := by
    rw [encode, String.toList_ofList, takeWhile_append_of_pos
      fun c hc => decide_eq_true (eq_of_mem_replicate hc)]
    rcases hdi : (Nat.digits 58 (ofBytes bytes.reverse)).reverse with - | ⟨d, ds⟩
    · exact append_nil _
    · -- the first digit is not zero
      have heq : Nat.digits 58 (ofBytes bytes.reverse) = ds.reverse ++ [d] := by
        rw [← reverse_reverse (Nat.digits _ _), hdi, reverse_cons]
      have hne : Nat.digits 58 (ofBytes bytes.reverse) ≠ [] := by
        simp [heq]
      have hl : d ≠ 0 := by
        have h := Nat.getLast_digit_ne_zero 58 (Nat.digits_ne_nil_iff_ne_zero.1 hne)
        simpa only [heq, getLast_concat] using h
      have hd : d < 58 := hlt d (by simp [heq])
      rw [map_cons, takeWhile_cons_of_neg (by simpa using digit_ne_one d hd hl), append_nil]
  rw [decode, if_pos ha, ho, length_replicate, value_encode, digits_ofBytes_reverse, map_map]
  have hb : (bytes.dropWhile fun b => b = 0).map (UInt8.ofNat ∘ UInt8.toNat) =
      bytes.dropWhile fun b => b = 0 := by
    rw [show UInt8.ofNat ∘ UInt8.toNat = id from funext fun b => UInt8.ofNat_toNat, map_id]
  rw [← takeWhile_zero, hb, takeWhile_append_dropWhile]

theorem encode_injective : Function.Injective encode := by
  intro bs bs' h
  apply Option.some.inj
  rw [← decode_encode bs, h, decode_encode]

end Base58
