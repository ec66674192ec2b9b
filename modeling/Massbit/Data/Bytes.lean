/-
Byte arrays and their hexadecimal texts (`scalar::Bytes`).
-/
import Mathlib.Data.List.Basic
import Mathlib.Tactic.Common

open List String

namespace Massbit

def trimStartMatches (a b : Char) : List Char → List Char
  | c :: d :: s => if c = a ∧ d = b then trimStartMatches a b s else c :: d :: s
  | s => s

theorem trimStartMatches_eq_self {a b c d : Char} {s : List Char} (h : ¬(c = a ∧ d = b)) :
    trimStartMatches a b (c :: d :: s) = c :: d :: s := by
  rw [trimStartMatches, if_neg h]

inductive FromHexError where
  | invalidHexCharacter (c : Char) (index : ℕ)
  | oddLength
  deriving DecidableEq, Repr

namespace FromHexError

def display : FromHexError → String
  | invalidHexCharacter c index =>
    "Invalid character '" ++ String.singleton c ++ "' at position " ++ toString index
  | oddLength => "Odd number of digits"

end FromHexError

abbrev Bytes := List UInt8

namespace Bytes

def hexVal (c : UInt8) (index : ℕ) : Except FromHexError UInt8 :=
  if 65 ≤ c ∧ c ≤ 70 then .ok (c - 65 + 10)
  else if 97 ≤ c ∧ c ≤ 102 then .ok (c - 97 + 10)
  else if 48 ≤ c ∧ c ≤ 57 then .ok (c - 48)
  else .error (.invalidHexCharacter (Char.ofNat c.toNat) index)

def decodePairs : ℕ → List UInt8 → Except FromHexError Bytes
  | index, c :: d :: s => do
    let high ← hexVal c index
    let low ← hexVal d (index + 1)
    let rest ← decodePairs (index + 2) s
    return (high <<< 4 ||| low) :: rest
  | _, _ => .ok []

def decode (s : List UInt8) : Except FromHexError Bytes :=
  if s.length % 2 ≠ 0 then .error .oddLength else decodePairs 0 s

def fromStr (s : String) : Except FromHexError Bytes :=
  decode (String.ofList (trimStartMatches '0' 'x' s.toList)).toByteArray.data.toList

def hexDigit (n : UInt8) : Char := Char.ofNat (if n < 10 then 48 + n.toNat else 87 + n.toNat)

def encode (bs : Bytes) : String :=
  String.ofList (bs.flatMap fun b : UInt8 => [hexDigit (b >>> 4), hexDigit (b &&& 15)])

def display (bs : Bytes) : String := "0x" ++ encode bs

def hexByte (n : UInt8) : UInt8 := if n < 10 then 48 + n else 87 + n

structure IsDigit (n : UInt8) : Prop where
  utf8 : String.utf8EncodeChar (hexDigit n) = [hexByte n]
  val : hexVal (hexByte n) 0 = .ok n
  ne_x : hexDigit n ≠ 'x'

variable {n : UInt8}

theorem isDigit_of_lt (h : n < 16) : IsDigit n := by
  have ha : ∀ i ∈ List.range 16, String.utf8EncodeChar (hexDigit (UInt8.ofNat i))
      = [hexByte (UInt8.ofNat i)] ∧ hexVal (hexByte (UInt8.ofNat i)) 0 = .ok (UInt8.ofNat i) ∧
        hexDigit (UInt8.ofNat i) ≠ 'x' := by decide
  obtain ⟨hutf8, hv, hx⟩ := ha n.toNat (mem_range.2 h)
  rw [UInt8.ofNat_toNat] at hutf8 hv hx
  exact ⟨hutf8, hv, hx⟩

theorem isDigit_high (b : UInt8) : IsDigit (b >>> 4) := by
  apply isDigit_of_lt
  have hlt := b.toNat_lt
  rw [UInt8.lt_iff_toNat_lt, UInt8.toNat_shiftRight, Nat.shiftRight_eq_div_pow]
  show b.toNat / 16 < 16
  omega

theorem isDigit_low (b : UInt8) : IsDigit (b &&& 15) := by
  apply isDigit_of_lt
  have hle : b.toNat &&& 15 ≤ 15 := Nat.and_le_right
  exact Nat.lt_succ_of_le hle

theorem high_or_low (b : UInt8) : (b >>> 4) <<< 4 ||| (b &&& 15) = b := by
  have ha : ∀ i ∈ List.range 256,
      (UInt8.ofNat i >>> 4) <<< 4 ||| (UInt8.ofNat i &&& 15) = UInt8.ofNat i := by
    decide +kernel
  have h := ha b.toNat (mem_range.2 b.toNat_lt)
  rwa [UInt8.ofNat_toNat] at h

theorem IsDigit.hexVal (h : IsDigit n) (i : ℕ) : hexVal (hexByte n) i = .ok n := by
  have hv := h.val
  unfold Bytes.hexVal at hv ⊢
  split_ifs at hv ⊢ <;> exact hv

def hexBytes (bs : Bytes) : List UInt8 :=
  bs.flatMap fun b : UInt8 => [hexByte (b >>> 4), hexByte (b &&& 15)]

theorem hexBytes_cons (b : UInt8) (bs : Bytes) :
    hexBytes (b :: bs) = hexByte (b >>> 4) :: hexByte (b &&& 15) :: hexBytes bs := rfl

theorem utf8_encode (bs : Bytes) : (encode bs).toByteArray.data.toList = hexBytes bs := by
  rw [← utf8Encode_toList, encode, toList_ofList, List.utf8Encode,
    data_toByteArray, toList_toArray]
  induction bs with
  | nil => rfl
  | cons b bs ih =>
    rw [flatMap_cons, flatMap_append, ih, hexBytes_cons]
    simp [(isDigit_high b).utf8, (isDigit_low b).utf8]

theorem decodePairs_hexBytes (bs : Bytes) : ∀ i, decodePairs i (hexBytes bs) = .ok bs := by
  induction bs with
  | nil => exact fun _ => rfl
  | cons b bs ih =>
    intro i
    rw [hexBytes_cons, decodePairs, (isDigit_high b).hexVal, (isDigit_low b).hexVal, ih]
    show Except.ok (((b >>> 4) <<< 4 ||| (b &&& 15)) :: bs) = _
    rw [high_or_low]

theorem decode_encode (bs : Bytes) : decode (encode bs).toByteArray.data.toList = .ok bs := by
  have hl : (hexBytes bs).length % 2 = 0 := by
    rw [hexBytes, length_flatMap]
    simp
  rw [utf8_encode, decode, if_neg (not_not.2 hl), decodePairs_hexBytes]

theorem toList_encode_cons (b : UInt8) (bs : Bytes) : (encode (b :: bs)).toList
    = hexDigit (b >>> 4) :: hexDigit (b &&& 15) :: (encode bs).toList := by
  rw [encode, toList_ofList, encode, toList_ofList, flatMap_cons]
  rfl

theorem trimStartMatches_encode (a : Char) (bs : Bytes) :
    trimStartMatches a 'x' (encode bs).toList = (encode bs).toList := by
  cases bs with
  | nil => rfl
  | cons b bs =>
    rw [toList_encode_cons]
    exact trimStartMatches_eq_self fun h => (isDigit_low b).ne_x h.2

theorem fromStr_encode (bs : Bytes) : fromStr (encode bs) = .ok bs := by
  rw [fromStr, trimStartMatches_encode, ofList_toList, decode_encode]

def hexAlias (s : String) : ℕ → String
  | 0 => s
  | n + 1 => "0x" ++ hexAlias s n

theorem fromStr_hexAlias (s : String) : ∀ n, fromStr (hexAlias s n) = fromStr s
  | 0 => rfl
  | n + 1 => by
    have ht : trimStartMatches '0' 'x' (hexAlias s (n + 1)).toList
        = trimStartMatches '0' 'x' (hexAlias s n).toList := by
      rw [hexAlias, toList_append]
      exact if_pos ⟨rfl, rfl⟩
    rw [fromStr, ht]
    exact fromStr_hexAlias s n

theorem hexAlias_injective (s : String) : Function.Injective (hexAlias s) := by
  have hl : ∀ n, (hexAlias s n).length = 2 * n + s.length := by
    intro n
    induction n with
    | zero => simp [hexAlias]
    | succ n ih =>
      rw [hexAlias, String.length_append, ih]
      show 2 + (2 * n + s.length) = _
      omega
  intro m n h
  have heq := congrArg String.length h
  rw [hl, hl] at heq
  omega

end Bytes

end Massbit
