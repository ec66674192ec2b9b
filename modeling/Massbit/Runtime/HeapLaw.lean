/-
What a heap must provide.
-/
import Massbit.Lib.Growth
import Massbit.Lib.Memory
import Massbit.Runtime.AscHeap

open LittleEndian Growth

namespace Massbit

/-- How a heap is looked at: its memory, the addresses of what was written, an invariant of the
allocator, and the size of the largest block for which it has room. -/
structure HeapView (H : Type) where
  Inv : H → Prop
  memory : H → Memory
  owned : H → Set ℕ
  limit : ℕ

namespace HeapView

variable {H : Type} [AscHeap H]

structure Extends (view : HeapView H) (heap heap' : H) : Prop where
  apiVersion_eq : AscHeap.apiVersion heap' = AscHeap.apiVersion heap
  owned_subset : view.owned heap ⊆ view.owned heap'
  keeps : (view.memory heap).Keeps (view.owned heap) (view.memory heap')

def growth (view : HeapView H) : Growth H where
  Inv := view.Inv
  Le := view.Extends
  refl _ := ⟨rfl, subset_rfl, .refl _ _⟩
  trans h h' := ⟨h'.apiVersion_eq.trans h.apiVersion_eq, h.owned_subset.trans h'.owned_subset,
    h.keeps.trans h'.keeps h.owned_subset⟩

def Holds (view : HeapView H) (heap : H) (addr : ℕ) (bytes : List UInt8) : Prop :=
  (view.memory heap).Holds (view.owned heap) addr bytes

theorem Holds.mono {view : HeapView H} {heap heap' : H} {addr : ℕ} {bytes : List UInt8}
    (h : view.Holds heap addr bytes) (hle : view.growth.Le heap heap') :
    view.Holds heap' addr bytes :=
  Memory.Holds.mono h hle.keeps hle.owned_subset

abbrev Ensures (view : HeapView H) {A : Type} (heap : H) (x : HeapM H A) (Q : A → H → Prop) :
    Prop :=
  view.growth.Ensures (· = HeapError.allocation) heap x Q

/-- What is read is what is in the memory, if it is in bounds. -/
structure Reads (view : HeapView H) : Prop where
  get_eq : ∀ {heap offset size bytes}, view.Inv heap → (AscHeap.get heap offset size = .ok bytes ↔
    (view.memory heap).read offset.toNat size.toNat = some bytes)

/-- The blocks that are returned are in bounds and apart from what was written before. -/
structure Lawful (view : HeapView H) : Prop extends view.Reads where
  limit_lt : view.limit < 2 ^ 31
  le_limit : 256 ≤ view.limit
  rawNew : ∀ {heap bytes}, view.Inv heap → bytes.length ≤ view.limit →
    view.Ensures heap (AscHeap.rawNew bytes) fun p heap' =>
      view.Holds heap' p.toNat bytes ∧ p.toNat + bytes.length < 2 ^ 32
  ascTypeId : ∀ {heap index}, view.Inv heap → ¬AscHeap.apiVersion heap ≤ .new 0 0 4 →
    view.Ensures heap (AscHeap.ascTypeId index) fun _ _ => True

end HeapView

def blockLength (apiVersion : Version) (length : ℕ) : ℕ :=
  if apiVersion ≤ .new 0 0 4 then length else headerSize + (length + paddingTo16 length)

/-- The bytes are those of the object, and can be read back; up to version 0.0.4 `readSize` bytes are
read, whatever the object has. -/
structure IsLayout {H C : Type} [AscHeap H] [AscType C] (view : HeapView H)
    (apiVersion : Version) (obj : C) (bytes : List UInt8) (readSize : ℕ) : Prop where
  toAscBytes_eq : toAscBytes obj = .ok bytes
  blockLength_le : blockLength apiVersion bytes.length ≤ view.limit
  readSize_lt : readSize < 2 ^ 32
  ascSize : apiVersion ≤ .new 0 0 4 →
    (∀ (heap : H) (p : AscPtr C), view.Inv heap → view.Holds heap p.wasmPtr.toNat bytes →
      AscType.ascSize p heap = .ok (UInt32.ofNat readSize)) ∧
    ∀ more, fromAscBytes ((bytes ++ more).take readSize) apiVersion = .ok obj
  contentLen : ¬apiVersion ≤ .new 0 0 4 → ∃ len ≤ (AscPtr.padded bytes).length,
    AscType.contentLen obj (AscPtr.padded bytes) = .ok len ∧
    fromAscBytes ((AscPtr.padded bytes).take len) apiVersion = .ok obj

/-- Up to version 0.0.4: the bytes that are read for the object are in the memory. -/
def AscPtr.Inside {H C : Type} [AscHeap H] (memory : H → Memory) (readSize : ℕ) (p : AscPtr C)
    (heap : H) : Prop :=
  AscHeap.apiVersion heap ≤ .new 0 0 4 → p.wasmPtr.toNat + readSize ≤ (memory heap).size

theorem AscPtr.length_padded (bytes : List UInt8) :
    (AscPtr.padded bytes).length = bytes.length + paddingTo16 bytes.length := by
  simp [padded]

theorem toNat_ofNat_u32 {n : ℕ} (h : n < 2 ^ 32) : (UInt32.ofNat n).toNat = n := by
  exact Nat.mod_eq_of_lt h

theorem u32FromSlice_toBytes (n : ℕ) : u32FromSlice (toBytes 4 n) = .ok (UInt32.ofNat n) := by
  show (if (toBytes 4 n).length = 4 then _ else _) = _
  rw [if_pos (length_toBytes 4 n), ofBytes_toBytes]
  refine congrArg Outcome.ok (UInt32.toNat_inj.1 ?_)
  exact Nat.mod_mod n (2 ^ 32)

theorem AscPtr.readLen_eq_ok {H C : Type} [AscHeap H] {heap : H} {p : AscPtr C} {addr : UInt32}
    {n : ℕ} (hp : p.wasmPtr.toNat = addr.toNat + 4)
    (hg : AscHeap.get heap addr 4 = .ok (toBytes 4 n)) :
    p.readLen heap = .ok (UInt32.ofNat n) := by
  have hn : p.wasmPtr ≠ 0 := by
    intro hz
    rw [hz] at hp
    exact absurd hp (by simp)
  have hle : 4 ≤ p.wasmPtr :=
    UInt32.le_iff_toNat_le.2 (by rw [hp]; exact Nat.le_add_left 4 addr.toNat)
  have ha : p.wasmPtr - 4 = addr := by
    apply UInt32.toNat_inj.1
    rw [UInt32.toNat_sub_of_le _ _ hle, hp]
    exact Nat.add_sub_cancel addr.toNat 4
  refine bind_eq_ok.2 ⟨(), if_neg hn, ?_⟩
  rw [if_neg (UInt32.not_lt.mpr hle), ha]
  exact bind_eq_ok.mpr ⟨_, hg, u32FromSlice_toBytes n⟩

namespace HeapView.Reads

variable {H : Type} [AscHeap H] {view : HeapView H} {C : Type} {heap : H} {p : AscPtr C}
  {rest : List UInt8}

theorem readU32 (rs : view.Reads) (hi : view.Inv heap) {n : ℕ}
    (h : view.Holds heap p.wasmPtr.toNat (toBytes 4 n ++ rest)) :
    p.readU32 heap = .ok (UInt32.ofNat n) := by
  have hr := h.left.read
  exact bind_eq_ok.2 ⟨_, (rs.get_eq hi).2 hr, u32FromSlice_toBytes n⟩

theorem readLen (rs : view.Reads) (hi : view.Inv heap) {addr n : ℕ}
    (hp : p.wasmPtr.toNat = addr + 4) (h : view.Holds heap addr (toBytes 4 n ++ rest)) :
    p.readLen heap = .ok (UInt32.ofNat n) := by
  have ha : (UInt32.ofNat addr).toNat = addr :=
    toNat_ofNat_u32 (by have := p.wasmPtr.toNat_lt; omega)
  have hr := h.left.read
  rw [length_toBytes, ← ha] at hr
  exact AscPtr.readLen_eq_ok (hp.trans (by rw [ha])) ((rs.get_eq hi).2 hr)

variable [AscType C] {obj : C} {bytes : List UInt8}

/-- Up to version 0.0.4 the object is read if the bytes that are asked for are in the memory, and
nothing is read otherwise. -/
theorem readPtr_gives (rs : view.Reads) (hi : view.Inv heap)
    (hv : AscHeap.apiVersion heap ≤ .new 0 0 4) {len : ℕ} (hl : len < 2 ^ 32)
    (hs : AscType.ascSize p heap = .ok (UInt32.ofNat len))
    (h : view.Holds heap p.wasmPtr.toNat bytes)
    (ho : ∀ more, fromAscBytes ((bytes ++ more).take len) (AscHeap.apiVersion heap) = .ok obj) :
    (p.readPtr heap).Gives (p.Inside view.memory len heap) obj := by
  have hle : (if AscHeap.apiVersion heap ≤ .new 0 0 4 then AscType.ascSize p heap
      else p.readLen heap) = .ok (UInt32.ofNat len) := by
    rw [if_pos hv]
    exact hs
  intro o
  constructor
  · intro hr
    obtain ⟨_, hl', hr⟩ := bind_eq_ok.1 hr
    obtain rfl := Outcome.ok.inj (hle.symm.trans hl')
    obtain ⟨bs, hg, hf⟩ := bind_eq_ok.1 hr
    rw [rs.get_eq hi, toNat_ofNat_u32 hl] at hg
    have hin := (Option.ite_none_right_eq_some.1 hg).1
    obtain ⟨more, hre⟩ := h.read_take hin
    obtain rfl := Option.some.inj (hg.symm.trans hre)
    exact ⟨fun _ => hin, Outcome.ok.inj (hf.symm.trans (ho more))⟩
  · rintro ⟨hin, rfl⟩
    obtain ⟨more, hre⟩ := h.read_take (hin hv)
    refine bind_eq_ok.2 ⟨_, hle, bind_eq_ok.2 ⟨_, (rs.get_eq hi).2 ?_, ho more⟩⟩
    rw [toNat_ofNat_u32 hl]
    exact hre

theorem readPtr_of_not_le (rs : view.Reads) (hi : view.Inv heap)
    (hv : ¬AscHeap.apiVersion heap ≤ .new 0 0 4) {addr len : ℕ} (hp : p.wasmPtr.toNat = addr + 4)
    (h : view.Holds heap addr (toBytes 4 len ++ bytes)) (hl : len ≤ bytes.length)
    (hlt : len < 2 ^ 32) (ho : fromAscBytes (bytes.take len) (AscHeap.apiVersion heap) = .ok obj) :
    p.readPtr heap = .ok obj := by
  have hc : view.Holds heap p.wasmPtr.toNat bytes := by
    have hr := h.right
    rw [length_toBytes, ← hp] at hr
    exact hr
  obtain ⟨more, hre⟩ := hc.read_take ((Nat.add_le_add_left hl _).trans hc.bound)
  rw [List.take_append_of_le_length hl, ← toNat_ofNat_u32 hlt] at hre
  rw [← toNat_ofNat_u32 hlt] at ho
  refine bind_eq_ok.2 ⟨UInt32.ofNat len, ?_, bind_eq_ok.2 ⟨_, (rs.get_eq hi).2 hre, ho⟩⟩
  rw [if_neg hv]
  exact rs.readLen hi hp h

end HeapView.Reads

namespace HeapView.Lawful

variable {H : Type} [AscHeap H] {view : HeapView H} {C : Type} [AscType C] {apiVersion : Version}
  {obj : C} {bytes : List UInt8} [AscIndexId C] {heap : H}

theorem generateHeader_ensures (law : view.Lawful) (hi : view.Inv heap)
    (hv : ¬AscHeap.apiVersion heap ≤ .new 0 0 4) (i : IndexForAscTypeId) (contentLength fl : ℕ) :
    view.Ensures heap (AscPtr.generateHeader i contentLength fl) fun h _ =>
      ∃ f, f.length = 16 ∧ h = f ++ toBytes 4 contentLength := by
  refine ensures_bind (law.ascTypeId hi hv) ?_
  rintro ati heap' hi' - -
  refine ensures_pure hi' ⟨_, ?_, rfl⟩
  simp

variable {readSize : ℕ}

/-- **An object with a layout is written, and is what the pointer reads from then on**, if what is
read is in the memory; the bytes that were written are. -/
theorem allocObj_ensures (law : view.Lawful) (hi : view.Inv heap)
    (hl : IsLayout view (AscHeap.apiVersion heap) obj bytes readSize) :
    view.Ensures heap (AscPtr.allocObj obj) fun p heap' => view.growth.Stays heap' fun heap =>
      (p.readPtr heap).Gives (p.Inside view.memory readSize heap) obj ∧
        p.Inside view.memory bytes.length heap := by
  have hln := hl.blockLength_le
  apply ensures_get_bind
  by_cases hv : AscHeap.apiVersion heap ≤ .new 0 0 4
  · rw [if_pos hv]
    rw [blockLength, if_pos hv] at hln
    apply ensures_lift_bind hl.toAscBytes_eq
    refine ensures_bind (law.rawNew hi hln) ?_
    rintro p heap' hi' hle ⟨hh, -⟩
    apply ensures_pure hi'
    intro heap'' hi'' hle''
    have heq : AscHeap.apiVersion heap'' = AscHeap.apiVersion heap :=
      hle''.apiVersion_eq.trans hle.apiVersion_eq
    obtain ⟨hs, ho⟩ := hl.ascSize hv
    have hh'' := hh.mono hle''
    refine ⟨law.readPtr_gives hi'' (heq ▸ hv) hl.readSize_lt (hs heap'' _ hi'' hh'') hh'' ?_,
      fun _ => hh''.bound⟩
    rw [heq]
    exact ho
  · rw [if_neg hv]
    rw [blockLength, if_neg hv, ← AscPtr.length_padded] at hln
    obtain ⟨len, hlen, hc, ho⟩ := hl.contentLen hv
    apply ensures_lift_bind hl.toAscBytes_eq
    apply ensures_lift_bind hc
    refine ensures_bind (law.generateHeader_ensures hi hv _ _ _) ?_
    rintro - heap₁ hi₁ hle₁ ⟨f, hf, rfl⟩
    have hb : (f ++ toBytes 4 len ++ AscPtr.padded bytes).length
        = headerSize + (AscPtr.padded bytes).length := by
      simp [hf, headerSize]
      omega
    refine ensures_bind (law.rawNew hi₁ (hb ▸ hln)) ?_
    rintro p heap' hi' hle ⟨hh, he⟩
    apply ensures_pure hi'
    intro heap'' hi'' hle''
    have heq : AscHeap.apiVersion heap'' = AscHeap.apiVersion heap :=
      hle''.apiVersion_eq.trans (hle.apiVersion_eq.trans hle₁.apiVersion_eq)
    rw [← heq] at hv ho
    rw [hb] at he
    rw [List.append_assoc] at hh
    have hlen20 : (f ++ toBytes 4 len).length = 20 := by simp [hf]
    -- the pointer is 4 bytes behind the length
    have hp : (p + UInt32.ofNat (f ++ toBytes 4 len).length).toNat = p.toNat + f.length + 4 := by
      rw [headerSize] at he
      rw [hlen20, UInt32.toNat_add, toNat_ofNat_u32 (by decide), hf]
      exact Nat.mod_eq_of_lt (by omega)
    have hco : view.Holds heap' (p.toNat + f.length) _ := hh.right
    have hlim := law.limit_lt
    have hr := law.readPtr_of_not_le hi'' hv hp (hco.mono hle'') hlen
      (by unfold headerSize at hln; omega) ho
    exact ⟨(Outcome.gives_true.2 hr).congr (iff_of_true trivial fun hn => absurd hn hv),
      fun hn => absurd hn hv⟩

theorem allocObj_ensures_exact (law : view.Lawful) (hi : view.Inv heap)
    (hl : IsLayout view (AscHeap.apiVersion heap) obj bytes readSize)
    (hle : AscHeap.apiVersion heap ≤ .new 0 0 4 → readSize ≤ bytes.length) :
    view.Ensures heap (AscPtr.allocObj obj) fun p heap' =>
      view.growth.Stays heap' fun heap => p.readPtr heap = .ok obj := by
  refine (law.allocObj_ensures hi hl).mono ?_
  intro p heap' _ hle' hs heap'' hi'' hle''
  obtain ⟨hg, hin⟩ := hs heap'' hi'' hle''
  have heq : AscHeap.apiVersion heap'' = AscHeap.apiVersion heap :=
    hle''.apiVersion_eq.trans hle'.apiVersion_eq
  exact hg.iff.2 fun hv => (Nat.add_le_add_left (hle (heq ▸ hv)) _).trans (hin hv)

end HeapView.Lawful

end Massbit
