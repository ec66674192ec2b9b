/-
The classes keep their contract.
-/
import Massbit.Runtime.Class
import Massbit.Runtime.HeapLaw

open List LittleEndian

namespace Massbit

class LawfulAscValue (A : Type) [AscType A] [MemSize A] : Prop where
  memSize_pos : 0 < memSize A
  exists_bytes : ∀ x : A, ∃ bytes, toAscBytes x = .ok bytes ∧ bytes.length = memSize A ∧
    ∀ apiVersion, fromAscBytes bytes apiVersion = .ok x

variable {n length : ℕ} {parts : List (List UInt8)} {size : ℕ} {A : Type}

theorem fromLeBytes_toBytes (type : String) (on : ℕ → A) (h : n < 256 ^ size) :
    fromLeBytes type size on (toBytes size n) = .ok (on n) := by
  unfold fromLeBytes
  rw [if_pos (length_toBytes size n), ofBytes_toBytes_of_lt h]
  rfl

theorem LawfulAscValue.of_leBytes [AscType A] [MemSize A] (type : String) (toNat : A → ℕ)
    (ofNat : ℕ → A) (hp : 0 < memSize A)
    (hto : ∀ x : A, toAscBytes x = .ok (toBytes (memSize A) (toNat x))) (hf : ∀ ascObj apiVersion,
      (fromAscBytes ascObj apiVersion : HostResult A) = fromLeBytes type (memSize A) ofNat ascObj)
    (hlt : ∀ x, toNat x < 256 ^ memSize A) (hi : ∀ x, ofNat (toNat x) = x) : LawfulAscValue A where
  memSize_pos := hp
  exists_bytes x := by
    refine ⟨_, hto x, length_toBytes _ _, fun _ => ?_⟩
    rw [hf, fromLeBytes_toBytes type ofNat (hlt x), hi]

instance : LawfulAscValue Bool where
  memSize_pos := by decide
  exists_bytes x := by
    refine ⟨_, rfl, rfl, fun _ => ?_⟩
    cases x <;> rfl

instance : LawfulAscValue UInt8 :=
  .of_leBytes "u8" UInt8.toNat UInt8.ofNat (by decide) (fun _ => rfl) (fun _ _ => rfl)
    UInt8.toNat_lt fun x => x.ofNat_toNat

instance : LawfulAscValue UInt16 :=
  .of_leBytes "u16" UInt16.toNat UInt16.ofNat (by decide) (fun _ => rfl) (fun _ _ => rfl)
    UInt16.toNat_lt fun x => x.ofNat_toNat

instance : LawfulAscValue UInt32 :=
  .of_leBytes "u32" UInt32.toNat UInt32.ofNat (by decide) (fun _ => rfl) (fun _ _ => rfl)
    UInt32.toNat_lt fun x => x.ofNat_toNat

instance : LawfulAscValue UInt64 :=
  .of_leBytes "u64" UInt64.toNat UInt64.ofNat (by decide) (fun _ => rfl) (fun _ _ => rfl)
    UInt64.toNat_lt fun x => x.ofNat_toNat

instance : LawfulAscValue Int8 :=
  .of_leBytes "i8" (fun x => x.toUInt8.toNat) (fun n => (UInt8.ofNat n).toInt8) (by decide)
    (fun _ => rfl) (fun _ _ => rfl) (fun x => x.toUInt8.toNat_lt) fun x => by
      rw [UInt8.ofNat_toNat, Int8.toInt8_toUInt8]

instance : LawfulAscValue Int32 :=
  .of_leBytes "i32" (fun x => x.toUInt32.toNat) (fun n => (UInt32.ofNat n).toInt32) (by decide)
    (fun _ => rfl) (fun _ _ => rfl) (fun x => x.toUInt32.toNat_lt) fun x => by
      rw [UInt32.ofNat_toNat, Int32.toInt32_toUInt32]

instance : LawfulAscValue Int64 :=
  .of_leBytes "i64" (fun x => x.toUInt64.toNat) (fun n => (UInt64.ofNat n).toInt64) (by decide)
    (fun _ => rfl) (fun _ _ => rfl) (fun x => x.toUInt64.toNat_lt) fun x => by
      rw [UInt64.ofNat_toNat, Int64.toInt64_toUInt64]

instance : LawfulAscValue Float32Bits :=
  .of_leBytes "f32" (fun x => x.bits.toNat) (fun n => ⟨UInt32.ofNat n⟩) (by decide)
    (fun _ => rfl) (fun _ _ => rfl) (fun x => x.bits.toNat_lt) fun x => by rw [UInt32.ofNat_toNat]

instance : LawfulAscValue Float64Bits :=
  .of_leBytes "f64" (fun x => x.bits.toNat) (fun n => ⟨UInt64.ofNat n⟩) (by decide)
    (fun _ => rfl) (fun _ _ => rfl) (fun x => x.bits.toNat_lt) fun x => by rw [UInt64.ofNat_toNat]

instance (C : Type) : LawfulAscValue (AscPtr C) where
  memSize_pos := Nat.succ_pos 3
  exists_bytes x := by
    obtain ⟨bytes, hb, hl, hf⟩ := LawfulAscValue.exists_bytes x.wasmPtr
    exact ⟨bytes, hb, hl, fun v => bind_eq_ok.2 ⟨_, hf v, rfl⟩⟩

instance : LawfulAscValue EnumPayload where
  memSize_pos := by decide
  exists_bytes x := by
    obtain ⟨bytes, hb, hl, hf⟩ := LawfulAscValue.exists_bytes x.val
    exact ⟨bytes, hb, hl, fun v => bind_eq_ok.2 ⟨_, hf v, rfl⟩⟩

instance : LawfulAscValue StoreValueKind where
  memSize_pos := by decide
  exists_bytes x := by
    refine ⟨_, rfl, length_toBytes _ _, fun _ => ?_⟩
    cases x <;> rfl

instance : LawfulAscValue EthereumValueKind where
  memSize_pos := by decide
  exists_bytes x := by
    refine ⟨_, rfl, length_toBytes _ _, fun _ => ?_⟩
    cases x <;> rfl

theorem structBytes_eq_ok {fs : List (HostResult (List UInt8))}
    (h : List.Forall₂ (fun f part => f = .ok part) fs parts) (hs : parts.flatten.length = size) :
    structBytes size fs = .ok parts.flatten := by
  refine bind_eq_ok.2 ⟨parts, Outcome.mapM_eq_ok.2 h, ?_⟩
  rw [if_pos hs]
  rfl

variable {apiVersion : Version} {bs : List UInt8}

theorem readField_append [AscType A] [MemSize A] {x : A} (hx : fromAscBytes bs apiVersion = .ok x)
    (hl : bs.length = memSize A) (f rest : List UInt8) {o : ℕ} (ho : f.length = o) :
    readField A (f ++ (bs ++ rest)) o apiVersion = .ok x := by
  subst ho
  unfold readField
  rw [if_pos (by simp [hl]), drop_left, take_left' hl]
  exact hx

structure IsStruct {C : Type} [AscType C] (apiVersion : Version) (size : ℕ) (obj : C)
    (bytes : List UInt8) : Prop where
  toAscBytes_eq : toAscBytes obj = .ok bytes
  length_eq : bytes.length = size
  fromAscBytes_eq : ∀ more, checkSize size (bytes ++ more) apiVersion = .ok () →
    fromAscBytes (bytes ++ more) apiVersion = .ok obj

theorem checkSize_of_le {ao : List UInt8} (hv : apiVersion ≤ .new 0 0 4) (h : size ≤ ao.length) :
    checkSize size ao apiVersion = .ok () := by
  unfold checkSize
  rw [if_pos hv, if_neg (Nat.not_lt.2 h)]
  rfl

theorem checkSize_padded (hv : ¬apiVersion ≤ .new 0 0 4) :
    checkSize bs.length (AscPtr.padded bs) apiVersion = .ok () := by
  have hne : headerSize + (AscPtr.padded bs).length
      ≠ paddingTo16 bs.length + bs.length := by
    rw [AscPtr.length_padded, headerSize]
    omega
  unfold checkSize
  rw [if_neg hv, if_neg hne]
  rfl

theorem IsStruct.isLayout {H C : Type} [AscHeap H] [AscType C] {view : HeapView H} {obj : C}
    (law : view.Lawful) (h : IsStruct apiVersion size obj bs) (hs : size ≤ 16) {len : ℕ}
    (hl : size ≤ len ∧ len ≤ 20)
    (ha : ∀ (heap : H) (p : AscPtr C), AscType.ascSize p heap = .ok (UInt32.ofNat len))
    (hc : ∀ ab, AscType.contentLen obj ab = .ok ab.length) :
    IsLayout view apiVersion obj bs len where
  toAscBytes_eq := h.toAscBytes_eq
  blockLength_le := by
    refine le_trans ?_ law.le_limit
    unfold blockLength headerSize paddingTo16
    have := h.length_eq
    split <;> omega
  readSize_lt := by omega
  ascSize hv := by
    refine ⟨fun heap p _ _ => ha heap p, fun more => ?_⟩
    rw [take_append, take_of_length_le (h.length_eq ▸ hl.1)]
    refine h.fromAscBytes_eq _ (checkSize_of_le hv ?_)
    rw [length_append, h.length_eq]
    exact Nat.le_add_right _ _
  contentLen hv := by
    refine ⟨_, le_rfl, hc _, ?_⟩
    rw [take_length]
    refine h.fromAscBytes_eq _ ?_
    rw [← h.length_eq]
    exact checkSize_padded hv

structure Field where
  {A : Type}
  [ascType : AscType A]
  [size : MemSize A]
  [lawful : LawfulAscValue A]
  value : A

attribute [instance] Field.ascType Field.size Field.lawful

def ReadsFields (ascObj : List UInt8) (apiVersion : Version) : ℕ → List Field → Prop
  | _, [] => True
  | offset, field :: fields =>
    readField field.A ascObj offset apiVersion = .ok field.value ∧
      ReadsFields ascObj apiVersion (offset + memSize field.A) fields

def Field.IsBytes (field : Field) (bytes : List UInt8) : Prop :=
  toAscBytes field.value = .ok bytes ∧ bytes.length = memSize field.A ∧
    ∀ apiVersion, fromAscBytes bytes apiVersion = .ok field.value

theorem readsFields_flatten {fields : List Field} (h : List.Forall₂ Field.IsBytes fields parts)
    (apiVersion : Version) (more : List UInt8) :
    ∀ f : List UInt8, ReadsFields (f ++ (parts.flatten ++ more)) apiVersion f.length fields := by
  induction h with
  | nil => exact fun _ => trivial
  | @cons field part fields parts hp _ ih =>
    obtain ⟨-, hl, hf⟩ := hp
    intro f
    rw [flatten_cons, append_assoc]
    refine ⟨readField_append (hf apiVersion) hl f _ rfl, ?_⟩
    have hr := ih (f ++ part)
    rw [append_assoc, length_append, hl] at hr
    exact hr

theorem length_flatten_fields {fs : List Field} (h : List.Forall₂ Field.IsBytes fs parts) :
    parts.flatten.length = (fs.map fun f => memSize f.A).sum := by
  induction h with
  | nil => rfl
  | cons hp _ ih => rw [flatten_cons, length_append, ih, hp.2.1]; rfl

theorem exists_isStruct {C : Type} [AscType C] {obj : C} (fields : List Field)
    (hs : (fields.map fun f => memSize f.A).sum = size)
    (hto : toAscBytes obj = structBytes size (fields.map fun f => toAscBytes f.value))
    (hf : ∀ ao, checkSize size ao apiVersion = .ok () →
      ReadsFields ao apiVersion 0 fields → fromAscBytes ao apiVersion = .ok obj) :
    ∃ bytes, IsStruct apiVersion size obj bytes := by
  obtain ⟨parts, hp⟩ : ∃ parts, List.Forall₂ Field.IsBytes fields parts :=
    exists_forall₂ fun f _ => LawfulAscValue.exists_bytes f.value
  have hl := (length_flatten_fields hp).trans hs
  refine ⟨parts.flatten, hto.trans (structBytes_eq_ok ?_ hl), hl, ?_⟩
  · rw [forall₂_map_left_iff]
    exact hp.imp fun _ _ h => h.1
  · intro more hc
    exact hf _ hc (readsFields_flatten hp apiVersion more [])

section

variable (apiVersion : Version) {T : Type}

theorem v0_0_4.TypedArray.exists_isStruct (t : v0_0_4.TypedArray T) :
    ∃ bytes, IsStruct apiVersion 12 t bytes := by
  apply Massbit.exists_isStruct [⟨t.buffer⟩, ⟨t.byteOffset⟩, ⟨t.byteLength⟩] rfl rfl
  rintro ao hc ⟨h₁, h₂, h₃, -⟩
  exact bind_eq_ok.2 ⟨_, hc, bind_eq_ok.2 ⟨_, h₁, bind_eq_ok.2 ⟨_, h₂, bind_eq_ok.2 ⟨_, h₃, rfl⟩⟩⟩⟩

theorem v0_0_5.TypedArray.exists_isStruct (t : v0_0_5.TypedArray T) :
    ∃ bytes, IsStruct apiVersion 12 t bytes := by
  apply Massbit.exists_isStruct [⟨t.buffer⟩, ⟨t.dataStart⟩, ⟨t.byteLength⟩] rfl rfl
  rintro ao hc ⟨h₁, h₂, h₃, -⟩
  exact bind_eq_ok.2 ⟨_, hc, bind_eq_ok.2 ⟨_, h₁, bind_eq_ok.2 ⟨_, h₂, bind_eq_ok.2 ⟨_, h₃, rfl⟩⟩⟩⟩

theorem v0_0_4.Array.exists_isStruct (a : v0_0_4.Array T) :
    ∃ bytes, IsStruct apiVersion 8 a bytes := by
  apply Massbit.exists_isStruct [⟨a.buffer⟩, ⟨a.length⟩] rfl rfl
  rintro ao hc ⟨h₁, h₂, -⟩
  exact bind_eq_ok.2 ⟨_, hc, bind_eq_ok.2 ⟨_, h₁,
    bind_eq_ok.2 ⟨_, h₂, rfl⟩⟩⟩

theorem v0_0_5.Array.exists_isStruct (a : v0_0_5.Array T) :
    ∃ bytes, IsStruct apiVersion 16 a bytes := by
  apply Massbit.exists_isStruct
    [⟨a.buffer⟩, ⟨a.bufferDataStart⟩, ⟨a.bufferDataLength⟩, ⟨a.length⟩] rfl rfl
  rintro ao hc ⟨h₁, h₂, h₃, h₄, -⟩
  exact bind_eq_ok.2 ⟨_, hc, bind_eq_ok.2 ⟨_, h₁,
    bind_eq_ok.2 ⟨_, h₂, bind_eq_ok.2 ⟨_, h₃, bind_eq_ok.2 ⟨_, h₄, rfl⟩⟩⟩⟩⟩

theorem AscEnum.exists_isStruct {D : Type} [AscType D] [MemSize D] [LawfulAscValue D]
    (hs : memSize D = 4) (e : AscEnum D) : ∃ bytes, IsStruct apiVersion 16 e bytes := by
  refine Massbit.exists_isStruct [⟨e.kind⟩, ⟨e.padding⟩, ⟨e.payload⟩] ?_ rfl ?_
  · show memSize D + (4 + (8 + 0)) = 16
    rw [hs]
  rintro ao hc ⟨h₁, h₂, h₃, -⟩
  rw [Nat.zero_add] at h₂ h₃
  exact bind_eq_ok.2 ⟨_, hc, bind_eq_ok.2 ⟨_, h₁,
    bind_eq_ok.2 ⟨_, h₂, bind_eq_ok.2 ⟨_, h₃, rfl⟩⟩⟩⟩

theorem AscBigDecimal.exists_isStruct (d : AscBigDecimal) :
    ∃ bytes, IsStruct apiVersion 8 d bytes := by
  apply Massbit.exists_isStruct [⟨d.digits⟩, ⟨d.exp⟩] rfl rfl
  rintro ao hc ⟨h₁, h₂, -⟩
  exact bind_eq_ok.2 ⟨_, hc, bind_eq_ok.2 ⟨_, h₁,
    bind_eq_ok.2 ⟨_, h₂, rfl⟩⟩⟩

end

theorem IsStruct.map {C D : Type} [AscType C] [AscType D] {obj : C} {bytes : List UInt8}
    (h : IsStruct apiVersion size obj bytes) (f : C → D) (hto : toAscBytes (f obj) = toAscBytes obj)
    (hf : ∀ ascObj, (fromAscBytes ascObj apiVersion : HostResult D) = (do
      let c ← (fromAscBytes ascObj apiVersion : HostResult C)
      pure (f c))) : IsStruct apiVersion size (f obj) bytes where
  toAscBytes_eq := hto.trans h.toAscBytes_eq
  length_eq := h.length_eq
  fromAscBytes_eq more hc := by
    rw [hf]
    exact bind_eq_ok.2 ⟨obj, h.fromAscBytes_eq more hc, rfl⟩

section

variable {H : Type} [AscHeap H] {view : HeapView H} (law : view.Lawful) {apiVersion : Version}
  {T : Type}

include law

theorem TypedArray.exists_isLayout_of_le (h : apiVersion ≤ .new 0 0 4) (t : v0_0_4.TypedArray T) :
    ∃ bytes, IsLayout view apiVersion (apiVersion0_0_4 t) bytes 16 := by
  obtain ⟨bytes, hb⟩ := v0_0_4.TypedArray.exists_isStruct apiVersion t
  refine ⟨bytes, (hb.map apiVersion0_0_4 rfl fun _ => if_pos h).isLayout
    law (by decide) (by decide) (fun _ _ => rfl) fun _ => rfl⟩

theorem TypedArray.exists_isLayout_of_not_le (h : ¬apiVersion ≤ .new 0 0 4)
    (t : v0_0_5.TypedArray T) :
    ∃ bytes, IsLayout view apiVersion (apiVersion0_0_5 t) bytes 16 := by
  obtain ⟨bytes, hb⟩ := v0_0_5.TypedArray.exists_isStruct apiVersion t
  refine ⟨bytes, (hb.map apiVersion0_0_5 rfl fun _ => if_neg h).isLayout
    law (by decide) (by decide) (fun _ _ => rfl) fun _ => rfl⟩

theorem Array.exists_isLayout_of_le (h : apiVersion ≤ .new 0 0 4) (a : v0_0_4.Array T) :
    ∃ bytes, IsLayout view apiVersion (apiVersion0_0_4 a) bytes 20 := by
  obtain ⟨bytes, hb⟩ := v0_0_4.Array.exists_isStruct apiVersion a
  refine ⟨bytes, (hb.map apiVersion0_0_4 rfl fun _ => if_pos h).isLayout
    law (by decide) (by decide) (fun _ _ => rfl) fun _ => rfl⟩

theorem Array.exists_isLayout_of_not_le (h : ¬apiVersion ≤ .new 0 0 4) (a : v0_0_5.Array T) :
    ∃ bytes, IsLayout view apiVersion (apiVersion0_0_5 a) bytes 20 := by
  obtain ⟨bytes, hb⟩ := v0_0_5.Array.exists_isStruct apiVersion a
  refine ⟨bytes, (hb.map apiVersion0_0_5 rfl fun _ => if_neg h).isLayout
    law (by decide) (by decide) (fun _ _ => rfl) fun _ => rfl⟩

theorem AscEnum.exists_isLayout {D : Type} [AscType D] [MemSize D] [LawfulAscValue D]
    (hs : memSize D = 4) (apiVersion : Version) (e : AscEnum D) :
    ∃ bytes, IsLayout view apiVersion e bytes 16 ∧ bytes.length = 16 := by
  obtain ⟨bytes, hb⟩ := exists_isStruct apiVersion hs e
  exact ⟨bytes, hb.isLayout law (by decide) (by decide) (fun _ _ => rfl) fun _ => rfl, hb.length_eq⟩

theorem AscBigDecimal.exists_isLayout (apiVersion : Version) (d : AscBigDecimal) :
    ∃ bytes, IsLayout view apiVersion d bytes 8 ∧ bytes.length = 8 := by
  obtain ⟨bytes, hb⟩ := exists_isStruct apiVersion d
  exact ⟨bytes, hb.isLayout law (by decide) (by decide) (fun _ _ => rfl) fun _ => rfl, hb.length_eq⟩

end

theorem le_nextPowerOfTwo (n : ℕ) : n ≤ nextPowerOfTwo n := by
  unfold nextPowerOfTwo
  split
  next h => exact h
  next =>
    have := Nat.lt_log2_self (n := n - 1)
    omega

theorem nextPowerOfTwo_le (h : 0 < n) : nextPowerOfTwo n ≤ 2 * n := by
  unfold nextPowerOfTwo
  split
  · omega
  · have := Nat.log2_self_le (n := n - 1) (by omega)
    omega

theorem dvd_nextPowerOfTwo (h : 16 < n) : 16 ∣ nextPowerOfTwo n := by
  unfold nextPowerOfTwo
  rw [if_neg (by omega)]
  refine (Nat.pow_dvd_pow 2 ?_ : 2 ^ 4 ∣ _)
  have : 4 ≤ (n - 1).log2 := (Nat.le_log2 (by omega)).2 (by omega)
  omega

theorem paddingTo16_nextPowerOfTwo (n : ℕ) :
    paddingTo16 (nextPowerOfTwo (n + headerSize) - headerSize) = 0 := by
  have hle := le_nextPowerOfTwo (n + headerSize)
  obtain ⟨k, hk⟩ := dvd_nextPowerOfTwo (n := n + headerSize) (by unfold headerSize; omega)
  unfold paddingTo16
  rw [Nat.add_sub_cancel' (by omega), hk, Nat.mul_mod_right]

def bufferBlockLength (apiVersion : Version) (length : ℕ) : ℕ :=
  nextPowerOfTwo (length + if apiVersion ≤ .new 0 0 4 then 8 else headerSize)

theorem length_lt_of_bufferBlockLength_lt (h : bufferBlockLength apiVersion length < 2 ^ 31) :
    length + 8 < 2 ^ 31 := by
  have hh : 8 ≤ if apiVersion ≤ .new 0 0 4 then 8 else headerSize := by split <;> decide
  exact (Nat.add_le_add_left hh length).trans_lt ((le_nextPowerOfTwo _).trans_lt h)

theorem bufferBlockLength_le (apiVersion : Version) (h : length ≤ 64) :
    bufferBlockLength apiVersion length ≤ 256 := by
  have hh : (if apiVersion ≤ .new 0 0 4 then 8 else headerSize) ≤ 20 := by
    split <;> decide
  have hp : 0 < if apiVersion ≤ .new 0 0 4 then 8 else headerSize := by split <;> decide
  have hle := nextPowerOfTwo_le (Nat.add_pos_right length hp)
  unfold bufferBlockLength
  omega

def ArrayBuffer.ofContent (apiVersion : Version) (content : List UInt8) : ArrayBuffer :=
  if apiVersion ≤ .new 0 0 4 then
    .apiVersion0_0_4 ⟨UInt32.ofNat content.length, List.replicate 4 0, content⟩
  else .apiVersion0_0_5 ⟨UInt32.ofNat content.length, content⟩

def ArrayBuffer.bytesOf (apiVersion : Version) (content : List UInt8) : List UInt8 :=
  if apiVersion ≤ .new 0 0 4 then
    toBytes 4 content.length ++ List.replicate 4 0 ++ content ++
      List.replicate (nextPowerOfTwo (content.length + 8) - (content.length + 8)) 0
  else content ++
    List.replicate (nextPowerOfTwo (content.length + headerSize) - (content.length + headerSize)) 0

theorem ArrayBuffer.length_bytesOf (apiVersion : Version) (content : List UInt8) :
    (bytesOf apiVersion content).length = bufferBlockLength apiVersion content.length
        - if apiVersion ≤ .new 0 0 4 then 0 else headerSize := by
  unfold bytesOf bufferBlockLength
  split
  · have hle := le_nextPowerOfTwo (content.length + 8)
    simp only [length_append, length_replicate, length_toBytes]
    omega
  · have hle := le_nextPowerOfTwo (content.length + headerSize)
    simp only [length_append, length_replicate]
    omega

theorem ArrayBuffer.padded_bytesOf (hv : ¬apiVersion ≤ .new 0 0 4) (content : List UInt8) :
    AscPtr.padded (bytesOf apiVersion content)
      = bytesOf apiVersion content := by
  unfold AscPtr.padded
  rw [length_bytesOf, bufferBlockLength, if_neg hv, if_neg hv,
    paddingTo16_nextPowerOfTwo, replicate_zero, append_nil]

theorem ArrayBuffer.blockLength_bytesOf (apiVersion : Version) (content : List UInt8) :
    blockLength apiVersion (bytesOf apiVersion content).length
      = bufferBlockLength apiVersion content.length := by
  unfold blockLength
  by_cases hv : apiVersion ≤ .new 0 0 4
  · rw [if_pos hv, length_bytesOf, if_pos hv, Nat.sub_zero]
  · rw [if_neg hv, ← AscPtr.length_padded, padded_bytesOf hv, length_bytesOf, if_neg hv]
    have hle := le_nextPowerOfTwo (content.length + headerSize)
    unfold bufferBlockLength
    rw [if_neg hv]
    omega

theorem ArrayBuffer.toAscBytes_ofContent (apiVersion : Version) {content : List UInt8}
    (h : content.length < 2 ^ 32) :
    toAscBytes (ofContent apiVersion content) = .ok (bytesOf apiVersion content) := by
  have hl : (UInt32.ofNat content.length).toNat = content.length := toNat_ofNat_u32 h
  have hc := length_bytesOf apiVersion content
  unfold ofContent
  unfold bytesOf bufferBlockLength at *
  split
  next hv =>
    simp only [if_pos hv, Nat.sub_zero] at hc
    show (if _ then _ else _) = _
    rw [hl, if_pos hc]
    rfl
  next hv =>
    show Outcome.ok (content ++ List.replicate _ 0) = _
    rw [hl]

section

variable {H : Type} [AscHeap H] {view : HeapView H} {apiVersion : Version}

theorem ArrayBuffer.new_eq_ok {T : Type} [AscType T] {vs : List T} {b : ArrayBuffer} :
    new vs apiVersion = .ok b ↔
      ∃ content, bufferContent vs = .ok content ∧ b = .ofContent apiVersion content := by
  have hn : new vs apiVersion
      = bufferContent vs >>= fun content => pure (.ofContent apiVersion content) := by
    unfold new ofContent
    split
    · exact bind_assoc _ _ _
    · exact bind_assoc _ _ _
  rw [hn, bind_eq_ok]
  simp only [pure, Outcome.ok.injEq, eq_comm]

variable {c : List UInt8}

theorem v0_0_4.ArrayBuffer.fromAscBytes_eq (h : c.length < 2 ^ 32) :
    (fromAscBytes (toBytes 4 c.length ++ List.replicate 4 0 ++ c)
      apiVersion : HostResult v0_0_4.ArrayBuffer)
      = .ok ⟨UInt32.ofNat c.length, List.replicate 4 0, c⟩ := by
  show (if _ then _ else if _ then _ else _) = _
  exact bind_eq_ok.2 ⟨_, fromLeBytes_toBytes _ _ h, rfl⟩

theorem ArrayBuffer.ascSize_of_le (rs : view.Reads) (hv : apiVersion ≤ .new 0 0 4)
    (hlt : c.length + 8 < 2 ^ 31) :
    (∀ (heap : H) (p : AscPtr ArrayBuffer), view.Inv heap →
      view.Holds heap p.wasmPtr.toNat (bytesOf apiVersion c) →
      AscType.ascSize p heap = .ok (UInt32.ofNat (c.length + 8))) ∧
    ∀ more, fromAscBytes ((bytesOf apiVersion c ++ more).take (c.length + 8)) apiVersion
        = .ok (ofContent apiVersion c) := by
  have hl : (UInt32.ofNat c.length).toNat = c.length := toNat_ofNat_u32 (by omega)
  rw [bytesOf, if_pos hv, ofContent, if_pos hv]
  generalize hfr : toBytes 4 c.length ++ List.replicate 4 0 ++ c = front
  have hf : front.length = c.length + 8 := by
    rw [← hfr]
    simp
    omega
  constructor
  · intro heap p hi hh
    rw [← hfr, append_assoc, append_assoc] at hh
    refine bind_eq_ok.2 ⟨_, rs.readU32 hi hh, ?_⟩
    have hs : (4 + 4 : UInt32).toNat + (UInt32.ofNat c.length).toNat < 2 ^ 32 := by
      rw [hl]
      show 8 + c.length < _
      omega
    refine (if_pos hs).trans (congrArg Outcome.ok (UInt32.toNat_inj.1 ?_))
    rw [toNat_ofNat_u32 (by omega), UInt32.toNat_add, Nat.mod_eq_of_lt hs, hl]
    exact Nat.add_comm 8 _
  · intro more
    rw [append_assoc, take_left' hf, ← hfr]
    refine (if_pos hv).trans ?_
    exact bind_eq_ok.2
      ⟨_, v0_0_4.ArrayBuffer.fromAscBytes_eq (by omega), rfl⟩

theorem ArrayBuffer.length_add_le_bytesOf (hv : apiVersion ≤ .new 0 0 4) (c : List UInt8) :
    c.length + 8 ≤ (bytesOf apiVersion c).length := by
  rw [length_bytesOf, bufferBlockLength, if_pos hv, if_pos hv]
  exact le_nextPowerOfTwo _

theorem ArrayBuffer.contentLen_of_not_le (hv : ¬apiVersion ≤ .new 0 0 4) (hlt : c.length < 2 ^ 32) :
    c.length ≤ (bytesOf apiVersion c).length ∧
    AscType.contentLen (ofContent apiVersion c)
      (bytesOf apiVersion c) = .ok c.length ∧
    fromAscBytes ((bytesOf apiVersion c).take c.length) apiVersion
      = .ok (ofContent apiVersion c) := by
  rw [bytesOf, if_neg hv, ofContent, if_neg hv]
  refine ⟨by simp, congrArg Outcome.ok (toNat_ofNat_u32 hlt), ?_⟩
  rw [take_left]
  refine (if_neg hv).trans ?_
  rfl

theorem ArrayBuffer.isLayout (law : view.Lawful)
    (h : bufferBlockLength apiVersion c.length ≤ view.limit) :
    IsLayout view apiVersion (ofContent apiVersion c) (bytesOf apiVersion c) (c.length + 8) := by
  have hlt := length_lt_of_bufferBlockLength_lt (h.trans_lt law.limit_lt)
  have hb := blockLength_bytesOf apiVersion c
  refine ⟨toAscBytes_ofContent apiVersion (by omega), hb.trans_le h, by omega,
    fun hv => ascSize_of_le law.toReads hv hlt, fun hv => ?_⟩
  rw [padded_bytesOf hv]
  exact ⟨c.length, contentLen_of_not_le hv (by omega)⟩

end

theorem codeUnitBytes_eq_flatten (content : List UInt16) : codeUnitBytes content
    = (content.map fun cu => toBytes 2 cu.toNat).flatten :=
  flatMap_def ..

@[simp] theorem length_codeUnitBytes (content : List UInt16) :
    (codeUnitBytes content).length = 2 * content.length := by
  induction content with
  | nil => rfl
  | cons u content ih =>
    show (toBytes 2 u.toNat ++ codeUnitBytes content).length = _
    rw [length_append, length_toBytes, ih, length_cons]
    omega

theorem codeUnit_toBytes (u : UInt16) : UInt16.ofNat (ofBytes (toBytes 2 u.toNat)) = u := by
  rw [ofBytes_toBytes_of_lt u.toNat_lt, UInt16.ofNat_toNat]

theorem v0_0_4.AscString.readUnits_codeUnitBytes (content : List UInt16) :
    readUnits (codeUnitBytes content) = .ok content := by
  induction content with
  | nil => rfl
  | cons u content ih =>
    refine bind_eq_ok.2 ⟨content, ih, ?_⟩
    exact congrArg (fun v => Outcome.ok (v :: content)) (codeUnit_toBytes u)

theorem v0_0_5.AscString.readPairs_codeUnitBytes (content : List UInt16) :
    ((codeUnitBytes content).chunks 2).mapM readPair = .ok content := by
  rw [codeUnitBytes_eq_flatten, chunks_flatten_of_length (by decide), Outcome.mapM_eq_ok,
    forall₂_map_left_iff, forall₂_same]
  · exact fun u _ => congrArg Outcome.ok (codeUnit_toBytes u)
  · simp

def stringBlockLength (apiVersion : Version) (length : ℕ) : ℕ :=
  if apiVersion ≤ .new 0 0 4 then 4 + 2 * length else nextPowerOfTwo (2 * length + headerSize)

def AscString.ofContent (apiVersion : Version) (content : List UInt16) : AscString :=
  if apiVersion ≤ .new 0 0 4 then .apiVersion0_0_4 ⟨UInt32.ofNat content.length, content⟩
  else .apiVersion0_0_5 ⟨UInt32.ofNat content.length, content⟩

theorem length_lt_of_stringBlockLength_lt (h : stringBlockLength apiVersion length < 2 ^ 31) :
    4 + 2 * length < 2 ^ 31 := by
  unfold stringBlockLength at h
  split at h
  · exact h
  · have hle := le_nextPowerOfTwo (2 * length + headerSize)
    rw [headerSize] at hle h
    omega

@[simp] theorem AscString.content_ofContent (apiVersion : Version) (content : List UInt16) :
    (ofContent apiVersion content).content = content := by
  unfold ofContent
  split <;> rfl

theorem AscString.new_eq_ok {content : List UInt16} (h : 2 * content.length < 2 ^ 32) :
    new content apiVersion = .ok (.ofContent apiVersion content) := by
  have hs : ¬2 ^ 32 - 1 < 2 * content.length := by omega
  unfold new ofContent
  split
  · exact bind_eq_ok.mpr ⟨_, if_neg hs, rfl⟩
  · exact bind_eq_ok.mpr ⟨_, if_neg hs, rfl⟩

theorem v0_0_4.AscString.headerLength_ofNat (h : 4 + 2 * n < 2 ^ 31) :
    headerLength (UInt32.ofNat n).toInt32 = checkedI32 (4 + 2 * n : ℕ) := by
  have hn : (UInt32.ofNat n).toInt32.toInt = n := by
    show (BitVec.ofNat 32 n).toInt = n
    rw [BitVec.toInt_ofNat', Int.bmod_eq_of_le (by omega) (by omega)]
  have hd : checkedI32 ((n : ℤ) * 2) = some ((n : ℤ) * 2) :=
    if_pos (by omega)
  have hs : (n : ℤ) * 2 + 4 = (4 + 2 * n : ℕ) := by
    push_cast
    ring
  unfold headerLength
  rw [hn, hd, Option.bind_some, hs]

section

variable {H : Type} [AscHeap H] {view : HeapView H} {av : Version} {c : List UInt16}

theorem v0_0_4.AscString.fromAscBytes_eq (h : 4 + 2 * c.length < 2 ^ 31) :
    (fromAscBytes (toBytes 4 c.length ++ codeUnitBytes c) av : HostResult v0_0_4.AscString)
      = .ok ⟨UInt32.ofNat c.length, c⟩ := by
  have hl : (toBytes 4 c.length ++ codeUnitBytes c).length
      = 4 + 2 * c.length := by simp
  have hs : ¬2 ^ 32 - 1 < 2 * c.length := by omega
  have hh : ofBytes (toBytes 4 c.length) = c.length :=
    ofBytes_toBytes_of_lt (show _ < 2 ^ 32 by omega)
  show (if _ then _ else if _ then _ else if _ then _ else _) = _
  rw [take_left' (length_toBytes 4 _),
    drop_left' (length_toBytes 4 _), hl, hh,
    headerLength_ofNat h, if_neg (by omega), if_neg (by simp),
    if_neg (by omega)]
  exact bind_eq_ok.2
    ⟨c, readUnits_codeUnitBytes c, if_neg hs⟩

theorem AscString.exists_isLayout_of_le (law : view.Lawful) (hv : av ≤ .new 0 0 4)
    (h : stringBlockLength av c.length ≤ view.limit) :
    ∃ bytes, IsLayout view av (apiVersion0_0_4 ⟨UInt32.ofNat c.length, c⟩) bytes
      bytes.length := by
  have hlt := length_lt_of_stringBlockLength_lt (h.trans_lt law.limit_lt)
  have hl : (UInt32.ofNat c.length).toNat = c.length := toNat_ofNat_u32 (by omega)
  have hb : (toBytes 4 c.length ++ codeUnitBytes c).length
      = 2 * c.length + 4 := by
    simp
    omega
  refine ⟨toBytes 4 c.length ++ codeUnitBytes c, ?_, ?_, by omega, fun _ => ?_,
    fun hn => absurd hv hn⟩
  · show Outcome.ok (toBytes 4 (UInt32.ofNat c.length).toNat ++ _) = _
    rw [hl]
  · rw [stringBlockLength, if_pos hv] at h
    rw [blockLength, if_pos hv, hb]
    omega
  · refine ⟨?_, fun more => ?_⟩
    · intro heap p hi hh
      refine bind_eq_ok.2 ⟨_, law.readU32 hi hh, ?_⟩
      rw [hl, hb]
      exact if_pos (by omega)
    · rw [take_left]
      refine (if_pos hv).trans ?_
      exact bind_eq_ok.2 ⟨_, v0_0_4.AscString.fromAscBytes_eq hlt, rfl⟩

theorem AscString.exists_isLayout_of_not_le (law : view.Lawful) (hv : ¬av ≤ .new 0 0 4)
    (h : stringBlockLength av c.length ≤ view.limit) :
    ∃ bytes, IsLayout view av (apiVersion0_0_5 ⟨UInt32.ofNat c.length, c⟩) bytes
      bytes.length := by
  have hlim := law.limit_lt
  have hlt := length_lt_of_stringBlockLength_lt (h.trans_lt hlim)
  have hle := le_nextPowerOfTwo (2 * c.length + headerSize)
  rw [stringBlockLength, if_neg hv] at h
  have hs : ¬2 ^ 32 - 1 < 2 * c.length := by omega
  have hl : (UInt32.ofNat c.length).toNat * 2 = 2 * c.length := by
    rw [toNat_ofNat_u32 (by omega), Nat.mul_comm]
  generalize hz : List.replicate (nextPowerOfTwo (2 * c.length + headerSize)
    - (2 * c.length + headerSize)) (0 : UInt8) = zeros
  have hc : (codeUnitBytes c ++ zeros).length
      = nextPowerOfTwo (2 * c.length + headerSize) - headerSize := by
    rw [← hz, length_append, length_replicate, length_codeUnitBytes]
    omega
  have hp : AscPtr.padded (codeUnitBytes c ++ zeros) = codeUnitBytes c ++ zeros := by
    unfold AscPtr.padded
    rw [hc, paddingTo16_nextPowerOfTwo, replicate_zero, append_nil]
  refine ⟨codeUnitBytes c ++ zeros, ?_, ?_, by omega, fun ho => absurd ho hv, fun _ => ?_⟩
  · show Outcome.ok (codeUnitBytes c ++ List.replicate
      (nextPowerOfTwo (_ * 2 + headerSize) - (_ * 2 + headerSize)) 0) = _
    rw [hl, hz]
  · rw [blockLength, if_neg hv, hc, paddingTo16_nextPowerOfTwo]
    omega
  · rw [hp]
    refine ⟨2 * c.length, by simp, congrArg Outcome.ok hl, ?_⟩
    rw [take_left' (length_codeUnitBytes c)]
    refine (if_neg hv).trans (bind_eq_ok.2 ⟨_, ?_, rfl⟩)
    exact bind_eq_ok.2
      ⟨c, v0_0_5.AscString.readPairs_codeUnitBytes c, if_neg hs⟩

theorem AscString.exists_isLayout (law : view.Lawful)
    (h : stringBlockLength av c.length ≤ view.limit) :
    ∃ bytes, IsLayout view av (ofContent av c) bytes bytes.length := by
  unfold ofContent
  split
  next hv => exact exists_isLayout_of_le law hv h
  next hv => exact exists_isLayout_of_not_le law hv h

end

end Massbit
