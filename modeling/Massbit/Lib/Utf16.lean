/-
UTF-16.
-/
import Mathlib.Tactic.Common

namespace Utf16

def encodeChar (c : Char) : List UInt16 :=
  if c.toNat < 0x10000 then [UInt16.ofNat c.toNat]
  else
    [UInt16.ofNat (0xD800 + (c.toNat - 0x10000) / 0x400),
      UInt16.ofNat (0xDC00 + (c.toNat - 0x10000) % 0x400)]

def encode (s : List Char) : List UInt16 := s.flatMap encodeChar

def decode : List UInt16 → Option (List Char)
  | [] => some []
  | u :: us =>
    if u < 0xD800 ∨ 0xDFFF < u then (decode us).map (Char.ofNat u.toNat :: ·)
    else if 0xDBFF < u then none
    else match us with
      | [] => none
      | w :: us =>
        if w < 0xDC00 ∨ 0xDFFF < w then none
        else (decode us).map
          (Char.ofNat (0x10000 + (u.toNat - 0xD800) * 0x400 + (w.toNat - 0xDC00)) :: ·)

theorem toNat_bounds (c : Char) : c.toNat < 0xD800 ∨ 0xDFFF < c.toNat ∧ c.toNat < 0x110000 :=
  c.valid

theorem decode_encodeChar (c : Char) (us : List UInt16) :
    decode (encodeChar c ++ us) = (decode us).map (c :: ·) := by
  have hb := toNat_bounds c
  unfold encodeChar
  split
  next hsm =>
    have hu : (UInt16.ofNat c.toNat).toNat = c.toNat := by
      exact Nat.mod_eq_of_lt hsm
    have hn : UInt16.ofNat c.toNat < 0xD800 ∨ 0xDFFF < UInt16.ofNat c.toNat := by
      rw [UInt16.lt_iff_toNat_lt, UInt16.lt_iff_toNat_lt, hu]
      exact hb.imp_right And.left
    show decode (UInt16.ofNat c.toNat :: us) = _
    rw [decode.eq_def]
    simp only [if_pos hn, hu, Char.ofNat_toNat]
  next hl =>
    generalize hh : UInt16.ofNat (0xD800 + (c.toNat - 0x10000) / 0x400) = u
    generalize hlo : UInt16.ofNat (0xDC00 + (c.toNat - 0x10000) % 0x400) = w
    have hu : u.toNat = 0xD800 + (c.toNat - 0x10000) / 0x400 := by
      rw [← hh, UInt16.toNat_ofNat']
      exact Nat.mod_eq_of_lt (by omega)
    have hw : w.toNat = 0xDC00 + (c.toNat - 0x10000) % 0x400 := by
      rw [← hlo, UInt16.toNat_ofNat']
      exact Nat.mod_eq_of_lt (by omega)
    have hs : ¬(u < 0xD800 ∨ 0xDFFF < u) := by
      rw [UInt16.lt_iff_toNat_lt, UInt16.lt_iff_toNat_lt, hu]
      show ¬(_ < 0xD800 ∨ 0xDFFF < _)
      omega
    have hf : ¬0xDBFF < u := by
      rw [UInt16.lt_iff_toNat_lt, hu]
      show ¬0xDBFF < _
      omega
    have hse : ¬(w < 0xDC00 ∨ 0xDFFF < w) := by
      rw [UInt16.lt_iff_toNat_lt, UInt16.lt_iff_toNat_lt, hw]
      show ¬(_ < 0xDC00 ∨ 0xDFFF < _)
      omega
    have hc : 0x10000 + (u.toNat - 0xD800) * 0x400 + (w.toNat - 0xDC00) = c.toNat := by omega
    show decode (u :: w :: us) = _
    rw [decode.eq_def]
    simp only [if_neg hs, if_neg hf, if_neg hse, hc, Char.ofNat_toNat]

/-- **What is encoded is decoded again.** -/
theorem decode_encode (s : List Char) : decode (encode s) = some s := by
  induction s with
  | nil => rfl
  | cons c s ih =>
    show decode (encodeChar c ++ encode s) = _
    rw [decode_encodeChar, ih]
    rfl

end Utf16
