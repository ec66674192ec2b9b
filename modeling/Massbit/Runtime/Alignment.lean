/-
The headers of objects after version 0.0.4 (`runtime/asc_ptr.rs`).
-/
import Massbit.Lib.Run
import Massbit.Runtime.WasmInstance

open LittleEndian Option

namespace Massbit

theorem sixteen_dvd_length_padded (bytes : List UInt8) :
    16 ∣ headerSize + (AscPtr.padded bytes).length := by
  rw [AscPtr.length_padded]
  unfold paddingTo16 headerSize
  omega

def AscPtr.headerBytes (ascTypeId : UInt32) (contentLength fullLength : ℕ) : List UInt8 :=
  toBytes 4 (16 + fullLength) ++ toBytes 4 0 ++
    toBytes 4 0 ++ toBytes 4 ascTypeId.toNat ++
    toBytes 4 contentLength

theorem AscPtr.length_headerBytes (ati : UInt32) (cl fl : ℕ) :
    (headerBytes ati cl fl).length = 20 := by
  simp [headerBytes]

def wordAt (memory : Memory) (addr : ℕ) : Option ℕ :=
  (memory.read addr 4).map ofBytes

theorem wordAt_of_holds {memory : Memory} {o : Set ℕ} {addr n : ℕ}
    (h : memory.Holds o addr (toBytes 4 n)) :
    wordAt memory addr = some (n % 2 ^ 32) := by
  have hr := h.read
  rw [length_toBytes] at hr
  rw [wordAt, hr, map_some, ofBytes_toBytes]
  rfl

namespace WasmInstanceContext

variable {G : Type} [Guest G] {C : Type}

/-- The header in front of a pointer: `mm_info`, and `rt_size`, which is what `read_len` returns. -/
structure HasHeader (c : WasmInstanceContext G) (p : AscPtr C) (contentLength fullLength : ℕ) :
    Prop where
  mmInfo : wordAt c.memory (p.wasmPtr.toNat - 20) = some (16 + fullLength)
  rtSize : wordAt c.memory (p.wasmPtr.toNat - 4) = some (UInt32.ofNat contentLength).toNat
  readLen : p.readLen c = .ok (UInt32.ofNat contentLength)

def addressesOf (r : AddrRange) : Set ℕ := {a | AddrRange.Mem a r}

def headerRange (p : AscPtr C) : AddrRange := ⟨p.wasmPtr.toNat - 20, 20⟩

structure HeaderAt (memory : Memory) (p : AscPtr C) (contentLength fullLength : ℕ) : Prop where
  le_ptr : 20 ≤ p.wasmPtr.toNat
  full_lt : 16 + fullLength < 2 ^ 32
  holds : ∃ typeId, memory.Holds (addressesOf (headerRange p)) (p.wasmPtr.toNat - 20)
    (AscPtr.headerBytes typeId contentLength fullLength)

variable {p : AscPtr C} {contentLength fullLength : ℕ}

theorem HeaderAt.mono {memory memory' : Memory} (h : HeaderAt memory p contentLength fullLength)
    (hk : memory.Keeps (addressesOf (headerRange p)) memory') :
    HeaderAt memory' p contentLength fullLength := by
  obtain ⟨ti, hh⟩ := h.holds
  exact ⟨h.le_ptr, h.full_lt, ti, hh.mono hk subset_rfl⟩

theorem HeaderAt.hasHeader {c : WasmInstanceContext G}
    (h : HeaderAt c.memory p contentLength fullLength) :
    HasHeader c p contentLength fullLength := by
  obtain ⟨ti, hh⟩ := h.holds
  have hle := h.le_ptr
  have hf := hh.left.left.left.left
  have hl : c.memory.Holds (addressesOf (headerRange p)) (p.wasmPtr.toNat - 4)
      (toBytes 4 contentLength) := by
    have hri := hh.right
    have ha : p.wasmPtr.toNat - 4 = p.wasmPtr.toNat - 20 + 16 := by omega
    rw [ha]
    simpa using hri
  refine ⟨?_, ?_, ?_⟩
  · rw [wordAt_of_holds hf, Nat.mod_eq_of_lt h.full_lt]
  · rw [wordAt_of_holds hl, UInt32.toNat_ofNat']
  · have hfo : 4 ≤ p.wasmPtr := UInt32.le_iff_toNat_le.2 (show 4 ≤ p.wasmPtr.toNat by omega)
    have ha : (p.wasmPtr - 4).toNat = p.wasmPtr.toNat - 4 := UInt32.toNat_sub_of_le _ _ hfo
    have hr := hl.read
    rw [length_toBytes, ← ha] at hr
    have hg : AscHeap.get c (p.wasmPtr - 4) 4 = .ok (toBytes 4 contentLength) := get_eq_ok_iff.2 hr
    exact AscPtr.readLen_eq_ok (by omega) hg

variable {c c' : WasmInstanceContext G}

theorem ascTypeId_eq_ok {i : IndexForAscTypeId} {ti : UInt32}
    (h : c.ascTypeId i = .ok (ti, c')) : ∃ memory guest,
      Guest.idOfType c.guest c.memory i.toU32 = some (ti, memory, guest) ∧
      c' = { c with memory, guest } := by
  unfold ascTypeId at h
  split at h
  · cases h
  · split at h
    next id memory guest hid =>
      cases h
      exact ⟨memory, guest, hid, rfl⟩
    · cases h

theorem allocObj_eq_ok [AscType C] [AscIndexId C] {obj : C}
    (hversion : ¬c.apiVersion ≤ .new 0 0 4) (h : AscPtr.allocObj obj c = .ok (p, c')) :
    ∃ bytes cl ati memory guest hp, toAscBytes obj = .ok bytes ∧
      AscType.contentLen obj (AscPtr.padded bytes) = .ok cl ∧
      Guest.idOfType c.guest c.memory (AscIndexId.indexAscTypeId C).toU32
        = some (ati, memory, guest) ∧
      rawNew { c with memory, guest }
        (AscPtr.headerBytes ati cl (AscPtr.padded bytes).length
          ++ AscPtr.padded bytes) = .ok (hp, c') ∧
      p = ⟨hp + 20⟩ := by
  obtain ⟨_, _, ⟨⟩, hbo⟩ := run_bind_eq_ok.1 h
  rw [if_neg (show ¬AscHeap.apiVersion c ≤ .new 0 0 4 from hversion)] at hbo
  obtain ⟨bytes, c₁, hb, hr⟩ := run_bind_eq_ok.1 hbo
  obtain ⟨hb, hc₁⟩ := run_lift_eq_ok.1 hb
  obtain ⟨cl, c₂, hc, hr⟩ := run_bind_eq_ok.1 hr
  obtain ⟨hc, hc₂⟩ := run_lift_eq_ok.1 hc
  obtain ⟨he, c₃, hh, hr⟩ := run_bind_eq_ok.1 hr
  obtain ⟨ti, hid, rfl⟩ := run_bind_pure_eq_ok.1 hh
  obtain ⟨hp, hn, rfl⟩ := run_bind_pure_eq_ok.1 hr
  rw [hc₂, hc₁] at hid
  obtain ⟨memory, guest, hguest, rfl⟩ := ascTypeId_eq_ok hid
  refine ⟨bytes, cl, ti, memory, guest, hp, hb, hc, hguest, hn, ?_⟩
  simp

theorem holds_of_rawNew {bytes : List UInt8} {p : UInt32} (h : c.rawNew bytes = .ok (p, c')) :
    c'.memory.Holds Set.univ p.toNat bytes := by
  obtain ⟨a, -, rfl, hp, hr, -⟩ := rawNew_eq_ok h
  have hs : a.arenaStartPtr.toNat = p.toNat := by omega
  unfold push
  rw [hs]
  exact Memory.holds_update hr fun _ _ => Set.mem_univ _

theorem headerAt_of_allocObj [AscType C] [AscIndexId C] {obj : C}
    (hversion : ¬c.apiVersion ≤ .new 0 0 4) (h : AscPtr.allocObj obj c = .ok (p, c')) :
    ∃ bytes cl ti memory guest b hpt, toAscBytes obj = .ok bytes ∧
      AscType.contentLen obj (AscPtr.padded bytes) = .ok cl ∧
      Guest.idOfType c.guest c.memory (AscIndexId.indexAscTypeId C).toU32
        = some (ti, memory, guest) ∧
      rawNew { c with memory, guest } b = .ok (hpt, c') ∧
      16 ∣ b.length ∧ 20 ≤ b.length ∧ p.wasmPtr.toNat = hpt.toNat + 20 ∧
      HeaderAt c'.memory p cl (AscPtr.padded bytes).length := by
  obtain ⟨bytes, cl, ti, memory, guest, hpt, hb, hc, hid, hn, rfl⟩ := allocObj_eq_ok hversion h
  have hl : (AscPtr.headerBytes ti cl (AscPtr.padded bytes).length
      ++ AscPtr.padded bytes).length = headerSize + (AscPtr.padded bytes).length := by
    rw [List.length_append, AscPtr.length_headerBytes]
    rfl
  obtain ⟨-, -, -, -, -, hlt⟩ := rawNew_eq_ok hn
  rw [hl] at hlt
  have hp : (hpt + 20).toNat = hpt.toNat + 20 := by
    exact Nat.mod_eq_of_lt (show hpt.toNat + 20 < 2 ^ 32 by omega)
  refine ⟨bytes, cl, ti, memory, guest, _, hpt, hb, hc, hid, hn,
    hl ▸ sixteen_dvd_length_padded bytes, ?_, hp, ?_⟩
  · rw [hl]
    exact Nat.le_add_right 20 _
  · have hh := (holds_of_rawNew hn).left
    refine ⟨show 20 ≤ (hpt + 20).toNat by omega, by omega, ti, ?_⟩
    rw [hp, Nat.add_sub_cancel]
    refine ⟨hh.bound, fun i hi => ?_, hh.slice_eq⟩
    rw [AscPtr.length_headerBytes] at hi
    show AddrRange.Mem _ (headerRange ⟨hpt + 20⟩)
    unfold headerRange AddrRange.Mem AddrRange.stop
    dsimp only
    omega

structure AlignedArena (apiVersion : Version) (c : WasmInstanceContext G) : Prop where
  apiVersion_eq : c.apiVersion = apiVersion
  start : 0 < c.arenaFreeSize → c.arenaStartPtr % 16 = 12

end WasmInstanceContext

/-- The blocks of the guest start at multiples of 16. -/
def Guest.Aligned (G : Type) [Guest G] : Prop :=
  ∀ {guest : G} {memory size ptr memory' guest'},
    memoryAllocate guest memory size = some (ptr, memory', guest') → 16 ∣ ptr

theorem Guest.KeepsBlocks.of_idOfType {G : Type} [Guest G] {m : ℤ} {blocks : G → List AddrRange}
    (hguest : KeepsBlocks m blocks) {guest g' : G} {memory memory' : Memory} {i id : UInt32}
    (h : Guest.idOfType guest memory i = some (id, memory', g')) :
    blocks g' = blocks guest ∧ memory.Keeps (addresses m (blocks guest)) memory' := by
  obtain ⟨_, _, _, hid, hb, hk⟩ := hguest.idOfType guest memory i
  obtain ⟨rfl, hrest⟩ := Prod.mk.inj (Option.some.inj (hid.symm.trans h))
  cases hrest
  exact ⟨hb, hk⟩

namespace WasmInstanceContext

variable {G : Type} [Guest G] {C : Type} {c c' : WasmInstanceContext G} {av : Version}
  {bs : List UInt8} {p : AscPtr C}

theorem AlignedArena.rawNew (haligned : Guest.Aligned G) (hversion : ¬av ≤ .new 0 0 4)
    (h : AlignedArena av c) {p : UInt32} (hd : 16 ∣ bs.length)
    (hpo : 0 < bs.length) (hn : c.rawNew bs = .ok (p, c')) :
    p.toNat % 16 = 12 ∧ AlignedArena av c' := by
  obtain ⟨a, ha, rfl, hp, -⟩ := rawNew_eq_ok hn
  have hs : a.arenaStartPtr % 16 = 12 := by
    cases ha with
    | rest hf => exact h.start (by omega)
    | @new ptr memory guest hfu hal =>
      have hp := haligned hal
      show (ptr + arenaOffset c.apiVersion) % 16 = 12
      rw [h.apiVersion_eq, arenaOffset, if_neg hversion]
      omega
  refine ⟨by omega, ⟨(apiVersion_arenaFor ha).trans h.apiVersion_eq, fun _ => ?_⟩⟩
  show (a.arenaStartPtr + bs.length) % 16 = 12
  omega

variable {obj : C}

theorem AlignedArena.allocObj [AscType C] [AscIndexId C] (haligned : Guest.Aligned G)
    (hversion : ¬av ≤ .new 0 0 4) (h : AlignedArena av c)
    (ha : AscPtr.allocObj obj c = .ok (p, c')) :
    16 ∣ p.wasmPtr.toNat ∧ AlignedArena av c' := by
  have hc : ¬c.apiVersion ≤ .new 0 0 4 := by rwa [h.apiVersion_eq]
  obtain ⟨-, -, -, memory, guest, b, hpt, -, -, -, hne, hd, hle, hp, -⟩ :=
    headerAt_of_allocObj hc ha
  have hs : AlignedArena av { c with memory, guest } := ⟨h.apiVersion_eq, h.start⟩
  obtain ⟨hst, hn⟩ := hs.rawNew haligned hversion hd (by omega) hne
  exact ⟨by omega, hn⟩

structure Placed (blocks : G → List AddrRange) (c : WasmInstanceContext G) (r : AddrRange) :
    Prop where
  within : ∃ b ∈ blocks c.guest, b.start + 12 ≤ r.start ∧ r.stop ≤ b.stop
  apart : r.Apart c.rest

def ArenaPlaced (blocks : G → List AddrRange) (c : WasmInstanceContext G) : Prop :=
  0 < c.arenaFreeSize → ∃ b ∈ blocks c.guest, b.start + 12 ≤ c.rest.start ∧ c.rest.stop ≤ b.stop

variable {bls : G → List AddrRange} {r : AddrRange}

omit [Guest G] in
theorem Placed.subset (h : Placed bls c r) :
    addressesOf r ⊆ Guest.addresses 0 (bls c.guest) := by
  intro a ha
  obtain ⟨b, hb, hst, hs⟩ := h.within
  refine ⟨b, hb, ?_⟩
  rw [AddrRange.widen_zero]
  exact ⟨by have := ha.1; omega, ha.2.trans_le hs⟩

variable {memory : Memory}

omit [Guest G] in
theorem Placed.guest (h : Placed bls c r) {guest : G} (hbl : bls c.guest ⊆ bls guest) :
    Placed bls { c with memory, guest } r := by
  obtain ⟨b, hb, hw⟩ := h.within
  exact ⟨⟨b, hbl hb, hw⟩, h.apart⟩

omit [Guest G] in
theorem ArenaPlaced.guest (h : ArenaPlaced bls c) {guest : G} (hbl : bls c.guest ⊆ bls guest) :
    ArenaPlaced bls { c with memory, guest } := by
  intro hf
  obtain ⟨b, hb, hw⟩ := h hf
  exact ⟨b, hbl hb, hw⟩

theorem Placed.arenaFor (h : Placed bls c r) (hguest : Guest.KeepsBlocks 0 bls) {size : ℤ}
    {ar : WasmInstanceContext G} (hversion : ¬c.apiVersion ≤ .new 0 0 4)
    (har : ArenaFor c size ar) :
    Placed bls ar r ∧ r.Apart ⟨ar.arenaStartPtr, size⟩ ∧
      c.memory.Keeps (addressesOf r) ar.memory := by
  cases har with
  | rest hf =>
    refine ⟨h, h.apart.mono ⟨le_rfl, le_rfl⟩ ⟨le_rfl, ?_⟩, .refl _ _⟩
    exact add_le_add_right hf _
  | @new ptr memory guest hfu hal =>
    obtain ⟨b, hb, hst, hs⟩ := h.within
    have hbl := hguest.blocks_eq hal
    have hap := hguest.apart hal b hb
    rw [AddrRange.widen_zero, AddrRange.widen_zero] at hap
    have hsi : size ≤ arenaSize size := le_max_left _ _
    have hr := rest_withArena_within c ptr (arenaSize size) memory guest
    have hm : ∀ {a}, AddrRange.Mem a r → AddrRange.Mem a b := fun ha =>
      ⟨by have := ha.1; omega, ha.2.trans_le hs⟩
    refine ⟨⟨⟨b, ?_, hst, hs⟩, ?_⟩, ?_, ?_⟩
    · show b ∈ bls guest
      rw [hbl]
      exact List.mem_append_left _ hb
    · exact hap.symm.mono ⟨by omega, hs⟩ hr
    · rintro a ha ⟨hfr, hto⟩
      have hf' : ptr + arenaOffset c.apiVersion ≤ a := hfr
      have hto' : a < ptr + arenaOffset c.apiVersion + size := hto
      rw [arenaOffset, if_neg hversion] at hf' hto'
      obtain ⟨hb₁, hb₂⟩ := hm ha
      have ha₁ := ha.1
      rcases le_or_gt b.start ptr with hle | hlt
      · -- the older block is before the new one
        have ho : ¬AddrRange.Mem ptr b := hap ptr ⟨le_rfl, show ptr < ptr + arenaSize size by omega⟩
        exact ho ⟨hle, by omega⟩
      · -- the older block is behind the new one, and `r` is 12 bytes behind its start
        have ho : ¬AddrRange.Mem b.start ⟨ptr, arenaSize size⟩ := fun hin =>
          hap b.start hin ⟨le_rfl, hb₁.trans_lt hb₂⟩
        exact ho ⟨hlt.le, show b.start < ptr + arenaSize size by omega⟩
    · exact (hguest.keeps hal).mono h.subset

theorem Placed.rawNew (h : Placed bls c r) (hguest : Guest.KeepsBlocks 0 bls)
    (hversion : ¬c.apiVersion ≤ .new 0 0 4) {p : UInt32} (hn : c.rawNew bs = .ok (p, c')) :
    Placed bls c' r ∧ c.memory.Keeps (addressesOf r) c'.memory := by
  obtain ⟨ar, har, rfl, hpt, -⟩ := rawNew_eq_ok hn
  obtain ⟨hp, hap, hk⟩ := h.arenaFor hguest hversion har
  refine ⟨⟨hp.within, hp.apart.mono ⟨le_rfl, le_rfl⟩ (rest_push_within ar bs)⟩, ?_⟩
  refine hk.trans (Memory.keeps_update ?_) subset_rfl
  rintro a ha ⟨hf, hto⟩
  refine hap a ha ⟨show ar.arenaStartPtr ≤ (a : ℤ) by omega, ?_⟩
  show (a : ℤ) < ar.arenaStartPtr + bs.length
  omega

theorem ArenaPlaced.rawNew (h : ArenaPlaced bls c) (hguest : Guest.KeepsBlocks 0 bls)
    (hversion : ¬c.apiVersion ≤ .new 0 0 4) {p : UInt32} (hl : 20 ≤ bs.length)
    (hn : c.rawNew bs = .ok (p, c')) :
    ArenaPlaced bls c' ∧ Placed bls c' ⟨p.toNat, 20⟩ := by
  obtain ⟨ar, ha, rfl, hp, -⟩ := rawNew_eq_ok hn
  have hw : ∃ b ∈ bls ar.guest, b.start + 12 ≤ ar.rest.start ∧
      ar.rest.stop ≤ b.stop ∧ ar.arenaStartPtr + 20 ≤ b.stop := by
    cases ha with
    | rest hfi =>
      obtain ⟨b, hb, hs, hst⟩ := h (by omega)
      refine ⟨b, hb, hs, hst, le_trans ?_ hst⟩
      show c.arenaStartPtr + 20 ≤ c.arenaStartPtr + c.arenaFreeSize
      omega
    | @new ptr memory guest hfu hal =>
      have hm : 10000 ≤ arenaSize bs.length := le_max_right _ _
      refine ⟨⟨ptr, arenaSize bs.length⟩, ?_, ?_, ?_, ?_⟩
      · show _ ∈ bls guest
        rw [hguest.blocks_eq hal]
        exact List.mem_append_right _ (List.mem_singleton_self _)
      · show ptr + 12 ≤ ptr + arenaOffset c.apiVersion
        rw [arenaOffset, if_neg hversion]
      · exact (stop_rest_withArena c ptr _ memory guest).le
      · show ptr + arenaOffset c.apiVersion + 20 ≤ ptr + arenaSize bs.length
        rw [arenaOffset, if_neg hversion]
        omega
  obtain ⟨b, hb, hs, hst, hh⟩ := hw
  have hs' : b.start + 12 ≤ ar.arenaStartPtr := hs
  refine ⟨fun _ => ⟨b, hb, ?_, ?_⟩, ⟨b, hb, ?_, ?_⟩, ?_⟩
  · exact hs.trans (rest_push_within ar bs).1
  · exact (rest_push_within ar bs).2.trans hst
  · show b.start + 12 ≤ (p.toNat : ℤ)
    omega
  · show (p.toNat : ℤ) + 20 ≤ b.stop
    omega
  · rintro a ⟨-, hto⟩ ⟨hf, -⟩
    have hto' : a < (p.toNat : ℤ) + 20 := hto
    have hf' : ar.arenaStartPtr + bs.length ≤ a := hf
    omega

theorem Placed.allocObj [AscType C] [AscIndexId C] (h : Placed bls c r)
    (hguest : Guest.KeepsBlocks 0 bls) (hversion : ¬c.apiVersion ≤ .new 0 0 4)
    (ha : AscPtr.allocObj obj c = .ok (p, c')) :
    Placed bls c' r ∧ c.memory.Keeps (addressesOf r) c'.memory := by
  obtain ⟨_, _, _, memory, guest, _, _, -, -, hid, hn, -⟩ := headerAt_of_allocObj hversion ha
  obtain ⟨hb, hk⟩ := hguest.of_idOfType hid
  have hl : Placed bls { c with memory, guest } r := h.guest (hb ▸ List.Subset.refl _)
  obtain ⟨hp, hk'⟩ := hl.rawNew hguest hversion hn
  exact ⟨hp, (hk.mono h.subset).trans hk' subset_rfl⟩

theorem ArenaPlaced.allocObj [AscType C] [AscIndexId C] (h : ArenaPlaced bls c)
    (hguest : Guest.KeepsBlocks 0 bls) (hversion : ¬c.apiVersion ≤ .new 0 0 4)
    (ha : AscPtr.allocObj obj c = .ok (p, c')) :
    ArenaPlaced bls c' ∧ Placed bls c' (headerRange p) := by
  obtain ⟨_, _, _, memory, guest, _, hpt, -, -, hid, hn, -, hl, hp, -⟩ :=
    headerAt_of_allocObj hversion ha
  obtain ⟨hb, -⟩ := hguest.of_idOfType hid
  have hlo : ArenaPlaced bls { c with memory, guest } := h.guest (hb ▸ List.Subset.refl _)
  obtain ⟨har, hpl⟩ := hlo.rawNew hguest hversion hl hn
  have hr : headerRange p = ⟨hpt.toNat, 20⟩ := by
    unfold headerRange
    rw [hp, Nat.cast_add]
    exact congrArg (AddrRange.mk · 20) (add_sub_cancel_right _ _)
  exact ⟨har, hr ▸ hpl⟩

end WasmInstanceContext

structure AnyObject : Type 1 where
  {Class : Type}
  [ascType : AscType Class]
  [ascIndexId : AscIndexId Class]
  obj : Class

attribute [instance] AnyObject.ascType AnyObject.ascIndexId

namespace WasmInstanceContext

/-- What happens to a context: an object is written, or the guest runs and leaves its state and the
memory. -/
inductive Action (G : Type) : Type 1 where
  | alloc (x : AnyObject)
  | run (memory : Memory) (guest : G)

variable {G : Type} [Guest G] {c c' : WasmInstanceContext G} {apiVersion : Version}
  {blocks : G → List AddrRange}

def step (c : WasmInstanceContext G) : Action G → Option (WasmInstanceContext G)
  | .alloc x => (AscPtr.allocObj x.obj c).value?.map Prod.snd
  | .run memory guest => some { c with memory, guest }

/-- A guest that runs leaves the blocks of the host alone. -/
def LeavesBlocks (blocks : G → List AddrRange) (c : WasmInstanceContext G) : Action G → Prop
  | .alloc _ => True
  | .run memory guest => blocks c.guest ⊆ blocks guest ∧
      c.memory.Keeps (Guest.addresses 0 (blocks c.guest)) memory

theorem step_alloc_eq_some {x : AnyObject} (h : c.step (.alloc x) = some c') :
    ∃ p, AscPtr.allocObj x.obj c = .ok (p, c') := by
  obtain ⟨⟨p, _⟩, ha, rfl⟩ := map_eq_some_iff.1 h
  exact ⟨p, value?_eq_some.1 ha⟩

section

variable (haligned : Guest.Aligned G) (hv : ¬apiVersion ≤ .new 0 0 4)
  {m : Memory} {g : G} {a : Action G} {actions : List (Action G)}

include haligned hv

theorem AlignedArena.step (h : AlignedArena apiVersion c) (hs : c.step a = some c') :
    AlignedArena apiVersion c' := by
  cases a with
  | alloc x =>
    obtain ⟨p, ha⟩ := step_alloc_eq_some hs
    exact (h.allocObj haligned hv ha).2
  | run m g =>
    cases hs
    exact ⟨h.apiVersion_eq, h.start⟩

theorem alignedArena_of_run {ok : WasmInstanceContext G → Action G → Prop}
    (h : Run step ok (fromInstance apiVersion m g) actions c) :
    AlignedArena apiVersion c := by
  refine h.invariant (I := fun _ c => AlignedArena apiVersion c) ⟨rfl, ?_⟩ ?_
  · exact fun hlt => absurd hlt (lt_irrefl 0)
  · exact fun hi _ hs => hi.step haligned hv hs

variable (hguest : Guest.KeepsBlocks 0 blocks)

include hguest

theorem arenaPlaced_of_run
    (h : Run step (LeavesBlocks blocks) (fromInstance apiVersion m g) actions c) :
    ArenaPlaced blocks c := by
  refine (h.invariant (I := fun _ c => AlignedArena apiVersion c ∧ ArenaPlaced blocks c)
    ⟨⟨rfl, ?_⟩, ?_⟩ ?_).2
  · exact fun hlt => absurd hlt (lt_irrefl 0)
  · exact fun hlt => absurd hlt (lt_irrefl 0)
  · rintro _ c a c' ⟨ha, hp⟩ hok hs
    refine ⟨ha.step haligned hv hs, ?_⟩
    have hc : ¬c.apiVersion ≤ .new 0 0 4 := by rwa [ha.apiVersion_eq]
    cases a with
    | alloc x =>
      obtain ⟨p, hal⟩ := step_alloc_eq_some hs
      exact (hp.allocObj hguest hc hal).1
    | run m g =>
      cases hs
      exact hp.guest hok.1

theorem Placed.keeps_of_run {r : AddrRange} (ha : AlignedArena apiVersion c)
    (hp : Placed blocks c r) (h : Run step (LeavesBlocks blocks) c actions c') :
    c.memory.Keeps (addressesOf r) c'.memory := by
  have hi : AlignedArena apiVersion c' ∧ Placed blocks c' r ∧
      c.memory.Keeps (addressesOf r) c'.memory := by
    refine h.invariant (I := fun _ c' => AlignedArena apiVersion c' ∧ Placed blocks c' r ∧
      c.memory.Keeps (addressesOf r) c'.memory) ⟨ha, hp, .refl _ _⟩ ?_
    rintro _ c₁ a c₂ ⟨ha₁, hp₁, hk⟩ hok hs
    refine ⟨ha₁.step haligned hv hs, ?_⟩
    have hc : ¬c₁.apiVersion ≤ .new 0 0 4 := by rwa [ha₁.apiVersion_eq]
    cases a with
    | alloc x =>
      obtain ⟨p, hal⟩ := step_alloc_eq_some hs
      obtain ⟨hp₂, hk₂⟩ := hp₁.allocObj hguest hc hal
      exact ⟨hp₂, hk.trans hk₂ subset_rfl⟩
    | run m g =>
      cases hs
      exact ⟨hp₁.guest hok.1, hk.trans (hok.2.mono hp₁.subset) subset_rfl⟩
  exact hi.2.2

end

/-- **Every object is aligned, and has its header**, after version 0.0.4, if the blocks of the guest
are. -/
theorem allocObj_aligned (haligned : Guest.Aligned G) (hversion : ¬apiVersion ≤ .new 0 0 4)
    {memory : Memory} {guest : G} {actions : List (Action G)}
    (hrun : Run step (fun _ _ => True) (fromInstance apiVersion memory guest) actions c)
    {x : AnyObject} {p : AscPtr x.Class} (halloc : AscPtr.allocObj x.obj c = .ok (p, c')) :
    ∃ bytes contentLength, toAscBytes x.obj = .ok bytes ∧
      AscType.contentLen x.obj (AscPtr.padded bytes) = .ok contentLength ∧
      16 ∣ p.wasmPtr.toNat ∧
      HasHeader c' p contentLength (AscPtr.padded bytes).length ∧
      ∀ blocks, Guest.KeepsBlocks (G := G) 0 blocks →
        Run step (LeavesBlocks blocks) (fromInstance apiVersion memory guest) actions c →
        ∀ later c'', Run step (LeavesBlocks blocks) c' later c'' →
          HasHeader c'' p contentLength (AscPtr.padded bytes).length := by
  have ha := alignedArena_of_run haligned hversion hrun
  have hc : ¬c.apiVersion ≤ .new 0 0 4 := by rwa [ha.apiVersion_eq]
  obtain ⟨hd, ha'⟩ := ha.allocObj haligned hversion halloc
  obtain ⟨bytes, contentLength, -, -, -, -, -, hb, hco, -, -, -, -, -, hh⟩ :=
    headerAt_of_allocObj hc halloc
  refine ⟨bytes, contentLength, hb, hco, hd, hh.hasHeader, ?_⟩
  intro blocks hguest hrun later c'' hl
  have hp := arenaPlaced_of_run haligned hversion hguest hrun
  have hn := (hp.allocObj hguest hc halloc).2
  exact (hh.mono (hn.keeps_of_run haligned hversion hguest ha' hl)).hasHeader

end WasmInstanceContext

structure AlignedGuest where
  blocks : List AddrRange

namespace AlignedGuest

instance : Guest AlignedGuest where
  memoryAllocate guest memory size :=
    let ptr := (DownwardGuest.lowest guest.blocks memory.size - size) / 16 * 16
    if 0 ≤ ptr ∧ ptr + size < 2 ^ 31 then some (ptr, memory, ⟨guest.blocks ++ [⟨ptr, size⟩]⟩)
    else none
  idOfType guest memory index := some (index, memory, guest)

theorem aligned : Guest.Aligned AlignedGuest := by
  intro guest memory size ptr m' g' h
  obtain ⟨-, h⟩ := ite_none_right_eq_some.1 h
  obtain ⟨rfl, -⟩ := Prod.mk.inj (Option.some.inj h)
  exact Int.dvd_mul_left _ _

theorem keepsBlocks : Guest.KeepsBlocks (G := AlignedGuest) 0 AlignedGuest.blocks := by
  refine Guest.keepsBlocks_of_below (fun h => ?_) fun _ _ i => ⟨i, rfl⟩
  obtain ⟨hp, h⟩ := ite_none_right_eq_some.1 h
  obtain ⟨rfl, hr⟩ := Prod.mk.inj (Option.some.inj h)
  cases hr
  exact ⟨hp.1, by omega, by omega, rfl, rfl⟩

end AlignedGuest

namespace WasmInstanceContext

theorem allocObj_aligned_buffer :
    let start := fromInstance (.new 0 0 5) ⟨65536, fun _ => 0⟩ (⟨[]⟩ : AlignedGuest)
    let string : AnyObject := ⟨AscString.apiVersion0_0_5 ⟨3, [97, 98, 99]⟩⟩
    let buffer : AnyObject := ⟨ArrayBuffer.apiVersion0_0_5 ⟨5, [1, 2, 3, 4, 5]⟩⟩
    ∃ c p c', Run step (LeavesBlocks AlignedGuest.blocks) start [.alloc string] c ∧
      AscPtr.allocObj buffer.obj c = .ok (p, c') ∧ 16 ∣ p.wasmPtr.toNat ∧ HasHeader c' p 5 12 ∧
      ∀ later c'', Run step (LeavesBlocks AlignedGuest.blocks) c' later c'' →
        HasHeader c'' p 5 12 := by
  intro start string buffer
  have hso : ((start.step (.alloc string)).bind fun c =>
      (AscPtr.allocObj buffer.obj c).value?).isSome := by decide +kernel
  obtain ⟨⟨p, c'⟩, hv⟩ := isSome_iff_exists.1 hso
  obtain ⟨c, hs, hv⟩ := bind_eq_some_iff.1 hv
  have ha := value?_eq_some.1 hv
  have hr : Run step (LeavesBlocks AlignedGuest.blocks) start [.alloc string] c :=
    .cons trivial hs (.nil c)
  obtain ⟨bytes, cl, hb, hc, hd, hh, hl⟩ :=
    allocObj_aligned AlignedGuest.aligned (by decide) (.cons trivial hs (.nil c)) ha
  cases hb
  cases hc
  exact ⟨c, p, c', hr, ha, hd, hh, hl _ AlignedGuest.keepsBlocks hr⟩

end WasmInstanceContext

end Massbit
