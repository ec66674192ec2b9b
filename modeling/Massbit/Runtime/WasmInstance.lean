/-
The heap of an instance (`runtime/wasm/src/module`).
-/
import Massbit.Runtime.RoundTrip

open List

namespace Massbit

/-- Consecutive addresses, from `start` on. -/
structure AddrRange where
  start : ℤ
  len : ℤ
  deriving DecidableEq, Repr

namespace AddrRange

def stop (self : AddrRange) : ℤ := self.start + self.len

def widen (self : AddrRange) (margin : ℤ) : AddrRange := ⟨self.start, self.len + margin⟩

def Mem (a : ℤ) (s : AddrRange) : Prop := s.start ≤ a ∧ a < s.stop

def Within (s t : AddrRange) : Prop := t.start ≤ s.start ∧ s.stop ≤ t.stop

/-- No address is in both. -/
def Apart (s t : AddrRange) : Prop := ∀ a, Mem a s → ¬Mem a t

@[simp] theorem start_widen (s : AddrRange) (margin : ℤ) : (s.widen margin).start = s.start := rfl

@[simp] theorem stop_widen (s : AddrRange) (margin : ℤ) : (s.widen margin).stop = s.stop + margin :=
  (add_assoc s.start s.len margin).symm

@[simp] theorem widen_zero (s : AddrRange) : s.widen 0 = s := by
  show AddrRange.mk s.start (s.len + 0) = s
  rw [add_zero]

theorem Apart.symm {s t : AddrRange} (h : s.Apart t) : t.Apart s := fun a ht hs => h a hs ht

theorem Apart.mono {s s' t t' : AddrRange} (h : s.Apart t) (hs : s'.Within s) (ht : t'.Within t) :
    s'.Apart t' := fun a has hat =>
  h a ⟨hs.1.trans has.1, has.2.trans_le hs.2⟩ ⟨ht.1.trans hat.1, hat.2.trans_le ht.2⟩

end AddrRange

class Guest (G : Type) where
  memoryAllocate : G → Memory → ℤ → Option (ℤ × Memory × G)
  idOfType : G → Memory → UInt32 → Option (UInt32 × Memory × G)

namespace Guest

variable {G : Type} [Guest G]

/-- The allocator keeps a list of its blocks; a new one, with the margin, is apart from the earlier
ones. -/
structure Allocates (margin : ℤ) (blocks : G → List AddrRange) : Prop where
  blocks_eq : ∀ {guest : G} {memory size ptr memory' guest'},
    memoryAllocate guest memory size = some (ptr, memory', guest') →
    blocks guest' = blocks guest ++ [⟨ptr, size⟩]
  apart : ∀ {guest : G} {memory size ptr memory' guest'},
    memoryAllocate guest memory size = some (ptr, memory', guest') →
    ∀ b ∈ blocks guest, (AddrRange.mk ptr size).widen margin |>.Apart (b.widen margin)

def addresses (margin : ℤ) (blocks : List AddrRange) : Set ℕ :=
  {a | ∃ b ∈ blocks, AddrRange.Mem a (b.widen margin)}

/-- The blocks are in bounds, below the addresses that an `i32` has, and the guest does not write to
them. -/
structure KeepsBlocks (margin : ℤ) (blocks : G → List AddrRange) : Prop
    extends Allocates margin blocks where
  start_nonneg : ∀ {guest : G} {memory size ptr memory' guest'},
    memoryAllocate guest memory size = some (ptr, memory', guest') → 0 ≤ ptr
  stop_le : ∀ {guest : G} {memory size ptr memory' guest'},
    memoryAllocate guest memory size = some (ptr, memory', guest') →
    ptr + size + margin ≤ memory'.size ∧ ptr + size + margin < 2 ^ 31
  keeps : ∀ {guest : G} {memory size ptr memory' guest'},
    memoryAllocate guest memory size = some (ptr, memory', guest') →
    memory.Keeps (addresses margin (blocks guest)) memory'
  idOfType : ∀ (guest : G) memory index, ∃ id memory' guest',
    idOfType guest memory index = some (id, memory', guest') ∧ blocks guest' = blocks guest ∧
      memory.Keeps (addresses margin (blocks guest)) memory'

end Guest

/-- A guest that allocates from the end of its memory downwards, with a margin behind every block.
-/
structure DownwardGuest (margin : ℕ) where
  blocks : List AddrRange
  deriving Repr

namespace DownwardGuest

def lowest (blocks : List AddrRange) (size : ℤ) : ℤ := blocks.foldr (fun b top => min b.start top) size

theorem lowest_le_size (blocks : List AddrRange) (size : ℤ) : lowest blocks size ≤ size := by
  induction blocks with
  | nil => exact le_rfl
  | cons b blocks ih => exact (min_le_right _ _).trans ih

theorem lowest_le_start {blocks : List AddrRange} {b : AddrRange} (size : ℤ) (hb : b ∈ blocks) :
    lowest blocks size ≤ b.start := by
  induction blocks with
  | nil => cases hb
  | cons b' blocks ih =>
    rcases mem_cons.1 hb with rfl | hb
    · exact min_le_left _ _
    · exact (min_le_right _ _).trans (ih hb)

end DownwardGuest

structure Guest.AllocatesBelow {G : Type} [Guest G] (margin : ℤ) (blocks : G → List AddrRange)
    (guest : G) (memory : Memory) (size ptr : ℤ) (memory' : Memory) (guest' : G) : Prop where
  start_nonneg : 0 ≤ ptr
  stop_lt : ptr + size + margin < 2 ^ 31
  stop_le : ptr + size + margin ≤ DownwardGuest.lowest (blocks guest) memory.size
  memory_eq : memory' = memory
  blocks_eq : blocks guest' = blocks guest ++ [⟨ptr, size⟩]

theorem Guest.keepsBlocks_of_below {G : Type} [Guest G] {margin : ℤ} {blocks : G → List AddrRange}
    (hbe : ∀ {guest : G} {memory size ptr memory' guest'},
      memoryAllocate guest memory size = some (ptr, memory', guest') →
      AllocatesBelow margin blocks guest memory size ptr memory' guest')
    (hid : ∀ (guest : G) memory index, ∃ id,
      Guest.idOfType guest memory index = some (id, memory, guest)) :
    KeepsBlocks margin blocks where
  blocks_eq h := (hbe h).blocks_eq
  apart {guest memory size ptr memory' guest'} h b hb := by
    have hs := (hbe h).stop_le
    have hle := DownwardGuest.lowest_le_start memory.size hb
    rintro a ⟨-, hto⟩ ⟨hf, -⟩
    rw [AddrRange.stop_widen] at hto
    exact absurd (hle.trans hf) (not_le.2 (hto.trans_le hs))
  start_nonneg h := (hbe h).start_nonneg
  stop_le h := by
    refine ⟨(hbe h).stop_le.trans ?_, (hbe h).stop_lt⟩
    rw [(hbe h).memory_eq]
    exact DownwardGuest.lowest_le_size _ _
  keeps h := by
    rw [(hbe h).memory_eq]
    exact .refl _ _
  idOfType guest memory index := by
    obtain ⟨id, hid⟩ := hid guest memory index
    exact ⟨id, memory, guest, hid, rfl, .refl _ _⟩

namespace DownwardGuest

variable {margin : ℕ}

instance : Guest (DownwardGuest margin) where
  memoryAllocate guest memory size :=
    let ptr := lowest guest.blocks memory.size - margin - size
    if 0 ≤ ptr ∧ ptr + size + margin < 2 ^ 31 then
      some (ptr, memory, ⟨guest.blocks ++ [⟨ptr, size⟩]⟩)
    else none
  idOfType guest memory index := some (index, memory, guest)

theorem keepsBlocks (margin : ℕ) :
    Guest.KeepsBlocks (G := DownwardGuest margin) margin DownwardGuest.blocks := by
  refine Guest.keepsBlocks_of_below (fun h => ?_) fun _ _ i => ⟨i, rfl⟩
  obtain ⟨hp, h⟩ := Option.ite_none_right_eq_some.1 h
  obtain ⟨rfl, hr⟩ := Prod.mk.inj (Option.some.inj h)
  cases hr
  exact ⟨hp.1, hp.2, by omega, rfl, rfl⟩

end DownwardGuest

structure WasmInstanceContext (G : Type) where
  apiVersion : Version
  memory : Memory
  guest : G
  arenaStartPtr : ℤ
  arenaFreeSize : ℤ

namespace WasmInstanceContext

def i32 (n : ℤ) : HostResult ℤ := if -2147483648 ≤ n ∧ n ≤ 2147483647 then pure n else .panic

variable {G : Type} [Guest G]

def fromInstance (apiVersion : Version) (memory : Memory) (guest : G) : WasmInstanceContext G where
  apiVersion := apiVersion
  memory := memory
  guest := guest
  arenaStartPtr := 0
  arenaFreeSize := 0

def minArenaSize : ℤ := 10000

def arenaSize (size : ℤ) : ℤ := max size minArenaSize

def newArena (self : WasmInstanceContext G) (size : ℤ) : HostResult (WasmInstanceContext G) :=
  match Guest.memoryAllocate self.guest self.memory (arenaSize size) with
  | none => .err .allocation
  | some (ptr, memory, guest) =>
    if self.apiVersion ≤ .new 0 0 4 then
      pure { self with memory, guest, arenaStartPtr := ptr, arenaFreeSize := arenaSize size }
    else do
      -- room for `mmInfo`, so that objects are aligned
      let start ← i32 (ptr + 12)
      pure { self with memory, guest, arenaStartPtr := start, arenaFreeSize := arenaSize size - 12 }

def writeMemory (self : WasmInstanceContext G) (ptr : ℤ) (bytes : List UInt8) :
    HostResult Memory :=
  if ptr < 0 then .panic
  else match self.memory.write ptr.toNat bytes with
    | some memory => pure memory
    | none => .panic

def rawNew (self : WasmInstanceContext G) (bytes : List UInt8) :
    HostResult (UInt32 × WasmInstanceContext G) := do
  let size ← i32 bytes.length
  let arena ← (if self.arenaFreeSize < size then self.newArena size else pure self :
    HostResult (WasmInstanceContext G))
  let ptr := arena.arenaStartPtr
  let memory ← arena.writeMemory ptr bytes
  let start ← i32 (ptr + size)
  pure (UInt32.ofNat ptr.toNat,
    { arena with memory, arenaStartPtr := start, arenaFreeSize := arena.arenaFreeSize - size })

def get (self : WasmInstanceContext G) (offset size : UInt32) : HostResult (List UInt8) :=
  match self.memory.read offset.toNat size.toNat with
  | some data => pure data
  | none => .error (.heapAccessOutOfBounds offset.toNat size.toNat)

def ascTypeId (self : WasmInstanceContext G) (typeIdIndex : IndexForAscTypeId) :
    HostResult (UInt32 × WasmInstanceContext G) :=
  if self.apiVersion ≤ .new 0 0 4 then .panic
  else match Guest.idOfType self.guest self.memory typeIdIndex.toU32 with
    | some (id, memory, guest) => pure (id, { self with memory, guest })
    | none => .error (.ascTypeId typeIdIndex)

instance : AscHeap (WasmInstanceContext G) where
  rawNew bytes := fun self => self.rawNew bytes
  get := get
  apiVersion := apiVersion
  ascTypeId index := fun self => self.ascTypeId index

/-! ### One allocation -/

def arenaOffset (apiVersion : Version) : ℤ := if apiVersion ≤ .new 0 0 4 then 0 else 12

theorem arenaOffset_nonneg (apiVersion : Version) : 0 ≤ arenaOffset apiVersion := by
  unfold arenaOffset
  split
  · exact le_rfl
  · decide

theorem arenaOffset_le (av : Version) : arenaOffset av ≤ 12 := by
  unfold arenaOffset
  split
  · decide
  · exact le_rfl

theorem i32_eq_ok {n m : ℤ} : i32 n = .ok m ↔ (-2147483648 ≤ n ∧ n ≤ 2147483647) ∧ n = m := by
  unfold i32
  split
  next h => exact ⟨fun hok => ⟨h, Outcome.ok.inj hok⟩, fun hok => congrArg Outcome.ok hok.2⟩
  next h => exact ⟨fun hok => (by cases hok), fun hok => absurd hok.1 h⟩

variable {c c' : WasmInstanceContext G}

def withArena (self : WasmInstanceContext G) (ptr size : ℤ) (memory : Memory) (guest : G) :
    WasmInstanceContext G :=
  { self with
    memory, guest
    arenaStartPtr := ptr + arenaOffset self.apiVersion
    arenaFreeSize := size - arenaOffset self.apiVersion }

theorem newArena_eq_ok {size : ℤ} : c.newArena size = .ok c' → ∃ ptr memory guest,
    Guest.memoryAllocate c.guest c.memory (arenaSize size) = some (ptr, memory, guest) ∧
    c' = c.withArena ptr (arenaSize size) memory guest := by
  intro h
  unfold newArena at h
  rcases ha : Guest.memoryAllocate c.guest c.memory (arenaSize size) with
    - | ⟨ptr, memory, guest⟩
  · rw [ha] at h
    cases h
  · rw [ha] at h
    refine ⟨ptr, memory, guest, rfl, ?_⟩
    unfold withArena arenaOffset
    by_cases hv : c.apiVersion ≤ .new 0 0 4
    · simp only [if_pos hv] at h ⊢
      rw [add_zero, sub_zero]
      exact (Outcome.ok.inj h).symm
    · simp only [if_neg hv] at h ⊢
      obtain ⟨s, hs, h⟩ := bind_eq_ok.1 h
      obtain rfl := (i32_eq_ok.1 hs).2
      exact (Outcome.ok.inj h).symm

inductive ArenaFor (c : WasmInstanceContext G) (size : ℤ) : WasmInstanceContext G → Prop
  | rest (hfits : size ≤ c.arenaFreeSize) : ArenaFor c size c
  | new {ptr : ℤ} {memory : Memory} {guest : G} (hfull : c.arenaFreeSize < size)
      (halloc : Guest.memoryAllocate c.guest c.memory (arenaSize size) =
        some (ptr, memory, guest)) :
      ArenaFor c size (c.withArena ptr (arenaSize size) memory guest)

variable {bytes : List UInt8} {arena : WasmInstanceContext G}

theorem exists_arenaFor (c : WasmInstanceContext G) (hl : bytes.length < 2 ^ 31) :
    (∃ arena, ArenaFor c bytes.length arena) ∨ c.rawNew bytes = .err .allocation := by
  by_cases hf : (bytes.length : ℤ) ≤ c.arenaFreeSize
  · exact .inl ⟨c, .rest hf⟩
  · rcases ha : Guest.memoryAllocate c.guest c.memory (arenaSize bytes.length) with
      - | ⟨ptr, memory, guest⟩
    · have hi32 : i32 bytes.length = .ok (bytes.length : ℤ) := i32_eq_ok.2 ⟨by omega, rfl⟩
      have hn : c.newArena bytes.length = .err .allocation := by
        unfold newArena
        rw [ha]
      right
      unfold rawNew
      rw [hi32]
      show ((if c.arenaFreeSize < bytes.length then c.newArena bytes.length else _) >>= _) = _
      rw [if_pos (not_le.1 hf), hn]
      rfl
    · exact .inl ⟨_, .new (not_le.1 hf) ha⟩

def push (self : WasmInstanceContext G) (bytes : List UInt8) : WasmInstanceContext G :=
  { self with
    memory := self.memory.update self.arenaStartPtr.toNat bytes
    arenaStartPtr := self.arenaStartPtr + bytes.length
    arenaFreeSize := self.arenaFreeSize - bytes.length }

theorem rawNew_eq_ok {p : UInt32} (h : c.rawNew bytes = .ok (p, c')) :
    ∃ arena, ArenaFor c bytes.length arena ∧ c' = arena.push bytes ∧
      (p.toNat : ℤ) = arena.arenaStartPtr ∧ p.toNat + bytes.length ≤ arena.memory.size ∧
      p.toNat + bytes.length < 2 ^ 31 := by
  obtain ⟨size, hsi, h⟩ := bind_eq_ok.1 h
  obtain ⟨-, rfl⟩ := i32_eq_ok.1 hsi
  obtain ⟨arena, ha, h⟩ := bind_eq_ok.1 h
  obtain ⟨m, hm, h⟩ := bind_eq_ok.1 h
  obtain ⟨s, hs, h⟩ := bind_eq_ok.1 h
  obtain ⟨hb, rfl⟩ := i32_eq_ok.1 hs
  cases h
  unfold writeMemory at hm
  split at hm
  · cases hm
  next hn =>
  split at hm
  next m' hw =>
    cases hm
    have hp : (UInt32.ofNat arena.arenaStartPtr.toNat).toNat = arena.arenaStartPtr.toNat :=
      toNat_ofNat_u32 (by omega)
    refine ⟨arena, ?_, ?_, ?_, ?_, ?_⟩
    · split at ha
      next hf =>
        obtain ⟨ptr, m, g, hal, rfl⟩ := newArena_eq_ok ha
        exact .new hf hal
      next hfi =>
        cases ha
        exact .rest (not_lt.1 hfi)
    · unfold Memory.write at hw
      split at hw
      · cases hw
        rfl
      · cases hw
    · rw [hp]
      omega
    · unfold Memory.write at hw
      split at hw
      next hroom =>
        rw [hp]
        exact hroom
      · cases hw
    · rw [hp]
      omega
  · cases hm

theorem rawNew_of_arenaFor (h : ArenaFor c bytes.length arena) (hn : 0 ≤ arena.arenaStartPtr)
    (hr : arena.arenaStartPtr + bytes.length ≤ arena.memory.size)
    (hlt : arena.arenaStartPtr + bytes.length < 2 ^ 31) :
    c.rawNew bytes = .ok (UInt32.ofNat arena.arenaStartPtr.toNat, arena.push bytes) := by
  have hi32 : i32 bytes.length = .ok (bytes.length : ℤ) := i32_eq_ok.2 ⟨by omega, rfl⟩
  have ha : (if c.arenaFreeSize < bytes.length then c.newArena bytes.length else pure c)
      = .ok arena := by
    cases h with
    | rest hf => exact if_neg (not_lt.2 hf)
    | @new ptr memory guest hfu hal =>
      rw [if_pos hfu]
      unfold newArena
      rw [hal]
      unfold withArena arenaOffset at hn hlt ⊢
      by_cases hv : c.apiVersion ≤ .new 0 0 4
      · simp only [if_pos hv]
        rw [add_zero, sub_zero]
        rfl
      · simp only [if_neg hv] at hn hlt ⊢
        have hs : i32 (ptr + 12) = .ok (ptr + 12) := i32_eq_ok.2 ⟨by omega, rfl⟩
        exact bind_eq_ok.2 ⟨_, hs, rfl⟩
  have hw : arena.writeMemory arena.arenaStartPtr bytes
      = .ok (arena.memory.update arena.arenaStartPtr.toNat bytes) := by
    unfold writeMemory
    rw [if_neg (not_lt.2 hn), Memory.write_eq_some (by omega)]
    rfl
  have hs : i32 (arena.arenaStartPtr + bytes.length)
      = .ok (arena.arenaStartPtr + bytes.length) := i32_eq_ok.2 ⟨by omega, rfl⟩
  exact bind_eq_ok.2 ⟨_, hi32, bind_eq_ok.2 ⟨_, ha,
    bind_eq_ok.2 ⟨_, hw, bind_eq_ok.2 ⟨_, hs, rfl⟩⟩⟩⟩

def rest (self : WasmInstanceContext G) : AddrRange := ⟨self.arenaStartPtr, self.arenaFreeSize⟩

omit [Guest G] in
theorem stop_rest_withArena (c : WasmInstanceContext G) (ptr size : ℤ) (m : Memory) (g : G) :
    (c.withArena ptr size m g).rest.stop = ptr + size := by
  show ptr + arenaOffset c.apiVersion + (size - arenaOffset c.apiVersion) = ptr + size
  omega

omit [Guest G] in
theorem rest_withArena_within (c : WasmInstanceContext G) (ptr size : ℤ) (m : Memory)
    (g : G) : (c.withArena ptr size m g).rest.Within ⟨ptr, size⟩ :=
  ⟨le_add_of_nonneg_right (arenaOffset_nonneg c.apiVersion),
    (stop_rest_withArena c ptr size m g).le⟩

omit [Guest G] in
theorem stop_rest_push (c : WasmInstanceContext G) (bytes : List UInt8) :
    (c.push bytes).rest.stop = c.rest.stop := by
  show c.arenaStartPtr + bytes.length + (c.arenaFreeSize - bytes.length)
    = c.arenaStartPtr + c.arenaFreeSize
  omega

omit [Guest G] in
theorem rest_push_within (c : WasmInstanceContext G) (bytes : List UInt8) :
    (c.push bytes).rest.Within c.rest :=
  ⟨le_add_of_nonneg_right (Int.natCast_nonneg _), (stop_rest_push c bytes).le⟩

def rawNewAll (self : WasmInstanceContext G) (objects : List (List UInt8)) :
    HostResult (List AddrRange × WasmInstanceContext G) :=
  objects.foldlM (fun (regions, self) bytes => do
    let (ptr, self) ← self.rawNew bytes
    pure (regions ++ [⟨ptr.toNat, bytes.length⟩], self)) ([], self)

/-! ### Allocations stay inside of the blocks -/

structure Tidy (blocks : G → List AddrRange) (before : List AddrRange) (regions : List AddrRange)
    (c : WasmInstanceContext G) : Prop where
  free_nonneg : 0 ≤ c.arenaFreeSize
  pairwise : regions.Pairwise AddrRange.Apart
  rest_apart : ∀ r ∈ regions, r.Apart c.rest
  within : ∃ new, blocks c.guest = before ++ new ∧
    (∀ r ∈ regions, 0 < r.len → ∃ b ∈ new, r.Within b) ∧
    (0 < c.arenaFreeSize → ∃ b ∈ new, c.rest.Within b)

variable {blocks : G → List AddrRange} {be regions : List AddrRange} {size : ℤ}

theorem apart_of_len_le {s t : AddrRange} (h : s.len ≤ 0) : s.Apart t := by
  rintro a ⟨hst, hs⟩
  unfold AddrRange.stop at hs
  omega

theorem Tidy.arenaFor (h : Tidy blocks be regions c) (hg : Guest.Allocates 0 blocks)
    (har : ArenaFor c size arena) (hro : size ≤ arenaSize size - arenaOffset c.apiVersion) :
    Tidy blocks be regions arena ∧ size ≤ arena.arenaFreeSize := by
  cases har with
  | rest hf => exact ⟨h, hf⟩
  | @new ptr memory guest hfu ha =>
    obtain ⟨new, hbl, hre, -⟩ := h.within
    have hb' := hg.blocks_eq ha
    have hm : minArenaSize ≤ arenaSize size := le_max_right _ _
    have hrs := rest_withArena_within c ptr (arenaSize size) memory guest
    refine ⟨⟨?_, h.pairwise, ?_, new ++ [⟨ptr, arenaSize size⟩], ?_, ?_, ?_⟩, hro⟩
    · show 0 ≤ arenaSize size - arenaOffset c.apiVersion
      have := arenaOffset_le c.apiVersion
      unfold minArenaSize at hm
      omega
    · -- the new block is apart from the blocks of the regions
      intro r hr
      by_cases hl : 0 < r.len
      · obtain ⟨b, hb, hw⟩ := hre r hr hl
        have hap := hg.apart ha b
          (hbl ▸ mem_append_right be hb)
        rw [AddrRange.widen_zero, AddrRange.widen_zero] at hap
        exact hap.symm.mono hw hrs
      · exact apart_of_len_le (not_lt.mp hl)
    · show blocks guest = _
      rw [hb', hbl, append_assoc]
    · intro r hr hl
      obtain ⟨b, hb, hw⟩ := hre r hr hl
      exact ⟨b, mem_append_left _ hb, hw⟩
    · intro _
      exact ⟨_, mem_append_right _ (mem_singleton_self _), hrs⟩

omit [Guest G] in
theorem Tidy.push (h : Tidy blocks be regions c) (hf : bytes.length ≤ c.arenaFreeSize) :
    Tidy blocks be (regions ++ [⟨c.arenaStartPtr, bytes.length⟩]) (c.push bytes) := by
  obtain ⟨new, hbl, hrg, ha⟩ := h.within
  have hre : AddrRange.Within ⟨c.arenaStartPtr, bytes.length⟩ c.rest :=
    ⟨le_rfl, add_le_add_right hf _⟩
  have hrs := rest_push_within c bytes
  refine ⟨?_, ?_, ?_, new, hbl, ?_, ?_⟩
  · show 0 ≤ c.arenaFreeSize - bytes.length
    omega
  · refine pairwise_append.2 ⟨h.pairwise, pairwise_singleton _ _, ?_⟩
    intro r hr r' hr'
    obtain rfl := mem_singleton.1 hr'
    exact (h.rest_apart r hr).mono ⟨le_rfl, le_rfl⟩ hre
  · intro r hr
    rcases mem_append.1 hr with hr | hr
    · exact (h.rest_apart r hr).mono ⟨le_rfl, le_rfl⟩ hrs
    · obtain rfl := mem_singleton.1 hr
      rintro a ⟨-, hst⟩ ⟨hs, -⟩
      exact absurd hs (not_le.2 hst)
  · intro r hr hl
    rcases mem_append.1 hr with hr | hr
    · exact hrg r hr hl
    · obtain rfl := mem_singleton.1 hr
      obtain ⟨b, hb, hw⟩ := ha (hl.trans_le hf)
      exact ⟨b, hb, hw.1.trans hre.1, hre.2.trans hw.2⟩
  · intro hfr
    have hp : 0 < c.arenaFreeSize := by
      have : 0 < c.arenaFreeSize - bytes.length := hfr
      omega
    obtain ⟨b, hb, hw⟩ := ha hp
    exact ⟨b, hb, hw.1.trans hrs.1, hrs.2.trans hw.2⟩

theorem apiVersion_arenaFor (h : ArenaFor c size arena) : arena.apiVersion = c.apiVersion := by
  cases h <;> rfl

variable {apiVersion : Version}

theorem le_arenaSize_sub (h : apiVersion ≤ .new 0 0 4 ∨ size ≤ minArenaSize - 12) :
    size ≤ arenaSize size - arenaOffset apiVersion := by
  have hm : minArenaSize ≤ arenaSize size := le_max_right _ _
  have hs : size ≤ arenaSize size := le_max_left _ _
  rcases h with h | h
  · rw [arenaOffset, if_pos h, sub_zero]
    exact hs
  · have := arenaOffset_le apiVersion
    omega

/-- **All regions are inside of new blocks and apart from each other**, up to version 0.0.4, and
after it if every object has at most 9988 bytes. -/
theorem rawNewAll_within_blocks (hguest : Guest.Allocates 0 blocks) {apiVersion : Version}
    {memory : Memory} {guest : G} {objects : List (List UInt8)}
    (hsize : apiVersion ≤ .new 0 0 4 ∨ ∀ bytes ∈ objects, bytes.length ≤ 9988)
    (h : (fromInstance apiVersion memory guest).rawNewAll objects = .ok (regions, c)) :
    regions.length = objects.length ∧
      (∃ new, blocks c.guest = blocks guest ++ new ∧
        ∀ r ∈ regions, 0 < r.len → ∃ b ∈ new, r.Within b) ∧
      regions.Pairwise AddrRange.Apart ∧ 0 ≤ c.arenaFreeSize := by
  have hi : regions.length = objects.length ∧ c.apiVersion = apiVersion ∧
      Tidy blocks (blocks guest) regions c := by
    refine foldlM_invariant
      (I := fun pre s => s.1.length = pre.length ∧ s.2.apiVersion = apiVersion ∧
        Tidy blocks (blocks guest) s.1 s.2) h ?_ ?_
    · refine ⟨rfl, rfl, le_rfl, .nil, fun _ hr => absurd hr not_mem_nil, [],
        (append_nil _).symm, fun _ hr => absurd hr not_mem_nil,
        fun hlt => absurd hlt (lt_irrefl 0)⟩
    · rintro pre bytes ⟨regions, c⟩ ⟨rs', c'⟩ hm ⟨hl, hv, ht⟩ hc
      obtain ⟨⟨ptr, c₁⟩, hn, hc⟩ := bind_eq_ok.1 hc
      cases hc
      obtain ⟨arena, ha, rfl, hp, -⟩ := rawNew_eq_ok hn
      have hro : c.apiVersion ≤ .new 0 0 4 ∨ (bytes.length : ℤ) ≤ minArenaSize - 12 := by
        rw [hv]
        refine hsize.imp_right fun hal => ?_
        have hle := hal bytes (hm bytes (by simp))
        unfold minArenaSize
        omega
      obtain ⟨ht', hf⟩ := ht.arenaFor hguest ha (le_arenaSize_sub hro)
      refine ⟨by simp [hl], ?_, ?_⟩
      · show arena.apiVersion = apiVersion
        rw [apiVersion_arenaFor ha, hv]
      · show Tidy blocks (blocks guest) (regions ++ [⟨(ptr.toNat : ℤ), bytes.length⟩]) _
        rw [hp]
        exact ht'.push hf
  obtain ⟨hl, -, ht⟩ := hi
  obtain ⟨new, hblocks, hregions, -⟩ := ht.within
  exact ⟨hl, ⟨new, hblocks, hregions⟩, ht.pairwise, ht.free_nonneg⟩

theorem rawNewAll_within_blocks_example :
    ∃ (regions : List AddrRange) (c : WasmInstanceContext (DownwardGuest 0)),
      (fromInstance (.new 0 0 5) ⟨65536, fun _ => 0⟩ (⟨[]⟩ : DownwardGuest 0)).rawNewAll
        [[1, 2, 3], [4]] = .ok (regions, c) ∧
      regions.Pairwise AddrRange.Apart ∧ 0 ≤ c.arenaFreeSize := by
  obtain ⟨⟨regions, c⟩, hr⟩ : ∃ r, (fromInstance (.new 0 0 5) ⟨65536, fun _ => 0⟩
      (⟨[]⟩ : DownwardGuest 0)).rawNewAll [[1, 2, 3], [4]] = .ok r :=
    ⟨_, rfl⟩
  refine ⟨regions, c, hr, ?_⟩
  exact (rawNewAll_within_blocks (DownwardGuest.keepsBlocks 0).toAllocates
    (Or.inr (by decide)) hr).2.2

theorem rawNewAll_over_block :
    Guest.Allocates (G := DownwardGuest 0) 0 DownwardGuest.blocks ∧
    ∃ c : WasmInstanceContext (DownwardGuest 0),
      (fromInstance (.new 0 0 5) ⟨65536, fun _ => 0⟩
        (⟨[⟨20000, 100⟩]⟩ : DownwardGuest 0)).rawNewAll [List.replicate 9990 0]
        = .ok ([⟨10012, 9990⟩], c) ∧
      c.guest.blocks = [⟨20000, 100⟩, ⟨10000, 10000⟩] ∧ c.arenaFreeSize = -2 := by
  let c : WasmInstanceContext (DownwardGuest 0) :=
    fromInstance (.new 0 0 5) ⟨65536, fun _ => 0⟩ ⟨[⟨20000, 100⟩]⟩
  let arena := c.withArena 10000 10000 c.memory ⟨[⟨20000, 100⟩, ⟨10000, 10000⟩]⟩
  have hl : (List.replicate 9990 (0 : UInt8)).length = 9990 := length_replicate
  have ha : ArenaFor c 9990 arena := .new (by decide) rfl
  have hn : c.rawNew (List.replicate 9990 0) =
      .ok (UInt32.ofNat arena.arenaStartPtr.toNat, arena.push (List.replicate 9990 0)) := by
    apply rawNew_of_arenaFor
    · rw [hl]
      exact ha
    · decide
    · rw [hl]
      decide
    · rw [hl]
      decide
  refine ⟨(DownwardGuest.keepsBlocks 0).toAllocates, arena.push (List.replicate 9990 0), ?_, rfl, ?_⟩
  · show (c.rawNew (List.replicate 9990 0) >>= _) >>= _ = _
    rw [hn]
    rw [hl]
    rfl
  · show (9988 : ℤ) - (List.replicate 9990 (0 : UInt8)).length = -2
    rw [hl]
    rfl

/-! ### The heap of an instance -/

/-- What the host can rely on between calls: the rest of the arena, with the margin, is in bounds,
and is part of a block. -/
structure InBounds (margin : ℤ) (blocks : G → List AddrRange) (c : WasmInstanceContext G) : Prop where
  start_nonneg : 0 ≤ c.arenaStartPtr
  stop_le : c.rest.stop + margin ≤ c.memory.size
  stop_lt : c.rest.stop + margin < 2 ^ 31
  within : 0 < c.arenaFreeSize → ∃ b ∈ blocks c.guest, c.rest.Within b

variable {margin : ℤ}

omit [Guest G] in
theorem inBounds_fromInstance {av : Version} {m : Memory} {g : G} (hs : margin ≤ m.size)
    (hm : margin < 2 ^ 31) :
    InBounds margin blocks (fromInstance av m g) where
  start_nonneg := le_rfl
  stop_le := (zero_add margin).trans_le hs
  stop_lt := (zero_add margin).trans_lt hm
  within h := absurd h (lt_irrefl 0)

/-- The size of the largest object: after version 0.0.4 an object that takes a new arena of its own
ends 12 bytes behind the block. -/
def objectLimit (margin : ℤ) (apiVersion : Version) : ℕ :=
  if arenaOffset apiVersion ≤ margin then 2147483647 else 9988

theorem objectLimit_lt (margin : ℤ) (apiVersion : Version) :
    objectLimit margin apiVersion < 2 ^ 31 := by
  unfold objectLimit
  split <;> decide

theorem le_objectLimit (margin : ℤ) (apiVersion : Version) :
    256 ≤ objectLimit margin apiVersion := by
  unfold objectLimit
  split <;> decide

theorem objectLimit_twelve (apiVersion : Version) : objectLimit 12 apiVersion = 2147483647 :=
  if_pos (arenaOffset_le apiVersion)

theorem le_arenaSize_of_le_objectLimit (hm : 0 ≤ margin)
    (h : size ≤ objectLimit margin apiVersion) :
    size ≤ arenaSize size - arenaOffset apiVersion + margin := by
  unfold objectLimit at h
  split at h
  next hle =>
    have hs : size ≤ arenaSize size := le_max_left _ _
    omega
  next hlt =>
    have hs : size ≤ arenaSize size - arenaOffset apiVersion := le_arenaSize_sub (.inr h)
    omega

/-- How the heap of an instance is looked at: owned are the blocks, without the rest of the arena. -/
def view (margin : ℤ) (blocks : G → List AddrRange) (apiVersion : Version) :
    HeapView (WasmInstanceContext G) where
  Inv c := InBounds margin blocks c ∧ c.apiVersion = apiVersion
  memory := memory
  owned c := Guest.addresses margin (blocks c.guest) \ {a | AddrRange.Mem a (c.rest.widen margin)}
  limit := objectLimit margin apiVersion

variable {margin : ℤ} {apiVersion : Version}

theorem InBounds.arenaFor (h : InBounds margin blocks c) (hg : Guest.KeepsBlocks margin blocks)
    (hm : 0 ≤ margin) (hsize : size ≤ objectLimit margin c.apiVersion)
    (har : ArenaFor c size arena) :
    InBounds margin blocks arena ∧ (view margin blocks apiVersion).Extends c arena ∧
      size ≤ arena.arenaFreeSize + margin ∧ (0 < size → 0 < arena.arenaFreeSize) := by
  cases har with
  | rest hfi =>
    exact ⟨h, (view margin blocks apiVersion).growth.refl c, by omega, fun hpo => by omega⟩
  | @new ptr memory guest hfu ha =>
    have ho' := arenaOffset_le c.apiVersion
    have hmi : 10000 ≤ arenaSize size := le_max_right _ _
    have hp := hg.start_nonneg ha
    obtain ⟨hle, hlt⟩ := hg.stop_le ha
    have hbl := hg.blocks_eq ha
    have hs := stop_rest_withArena c ptr (arenaSize size) memory guest
    have hw := rest_withArena_within c ptr (arenaSize size) memory guest
    refine ⟨⟨hp.trans hw.1, ?_, ?_, ?_⟩, ⟨rfl, ?_, ?_⟩, ?_, ?_⟩
    · rw [hs]
      exact hle
    · rw [hs]
      exact hlt
    · intro _
      refine ⟨⟨ptr, arenaSize size⟩, ?_, hw⟩
      rw [show (c.withArena ptr (arenaSize size) memory guest).guest = guest from rfl, hbl]
      exact mem_append_right _ (mem_singleton_self _)
    · -- what was owned is in older blocks, and the new rest is in the new one
      rintro a ⟨⟨b, hb, hm⟩, -⟩
      refine ⟨⟨b, ?_, hm⟩, ?_⟩
      · rw [show (c.withArena ptr (arenaSize size) memory guest).guest = guest from rfl, hbl]
        exact mem_append_left _ hb
      · rintro ⟨hf, hto⟩
        refine hg.apart ha b hb a ⟨hw.1.trans hf, ?_⟩ hm
        rw [AddrRange.stop_widen, hs] at hto
        rw [AddrRange.stop_widen]
        exact hto
    · exact (hg.keeps ha).mono Set.sdiff_subset
    · exact le_arenaSize_of_le_objectLimit hm hsize
    · intro _
      show 0 < arenaSize size - arenaOffset c.apiVersion
      omega

theorem InBounds.push (h : InBounds margin blocks c) (hfi : bytes.length ≤ c.arenaFreeSize + margin)
    (hfr : 0 < (bytes.length : ℤ) → 0 < c.arenaFreeSize) :
    InBounds margin blocks (c.push bytes) ∧
      (view margin blocks apiVersion).Extends c (c.push bytes) ∧
      (view margin blocks apiVersion).Holds (c.push bytes) c.arenaStartPtr.toNat bytes := by
  have hst : (c.arenaStartPtr.toNat : ℤ) = c.arenaStartPtr := Int.toNat_of_nonneg h.start_nonneg
  have hs := stop_rest_push c bytes
  have hr : (c.push bytes).rest.start = c.rest.start + bytes.length := rfl
  have he : c.arenaStartPtr + bytes.length ≤ c.rest.stop + margin := by
    show _ ≤ c.arenaStartPtr + c.arenaFreeSize + margin
    omega
  have hbo : c.arenaStartPtr.toNat + bytes.length ≤ c.memory.size := by
    have := h.stop_le
    omega
  refine ⟨⟨?_, hs ▸ h.stop_le, hs ▸ h.stop_lt, ?_⟩, ⟨rfl, ?_, ?_⟩, ?_⟩
  · exact add_nonneg h.start_nonneg (Int.natCast_nonneg _)
  · intro hp
    obtain ⟨b, hb, hf, hto⟩ := h.within (by
      have : 0 < c.arenaFreeSize - bytes.length := hp
      omega)
    exact ⟨b, hb, by rw [hr]; omega, hs ▸ hto⟩
  · rintro a ⟨hbl, ho⟩
    refine ⟨hbl, fun hin => ho ⟨?_, ?_⟩⟩
    · have := hin.1
      rw [AddrRange.start_widen, hr] at this
      rw [AddrRange.start_widen]
      omega
    · have := hin.2
      rw [AddrRange.stop_widen, hs] at this
      rw [AddrRange.stop_widen]
      exact this
  · refine Memory.keeps_update ?_
    rintro a ⟨-, ho⟩ ⟨hf, hto⟩
    refine ho ⟨?_, ?_⟩
    · show c.arenaStartPtr ≤ a
      omega
    · rw [AddrRange.stop_widen]
      omega
  · refine Memory.holds_update hbo ?_
    intro i hi
    obtain ⟨b, hb, hf, hto⟩ := h.within (hfr (by omega))
    refine ⟨⟨b, hb, ?_, ?_⟩, ?_⟩
    · have : b.start ≤ c.arenaStartPtr := hf
      rw [AddrRange.start_widen]
      omega
    · rw [AddrRange.stop_widen]
      omega
    · rintro ⟨hf', -⟩
      have : c.arenaStartPtr + bytes.length ≤ ((c.arenaStartPtr.toNat + i : ℕ) : ℤ) := hf'
      omega

omit [Guest G] in
theorem get_eq_ok_iff {o size : UInt32} {data : List UInt8} :
    c.get o size = .ok data ↔ c.memory.read o.toNat size.toNat = some data := by
  unfold get
  cases c.memory.read o.toNat size.toNat with
  | none => exact ⟨fun h => (by cases h), fun h => (by cases h)⟩
  | some _ =>
    exact ⟨fun h => congrArg some (Outcome.ok.inj h), fun h => congrArg pure (Option.some.inj h)⟩

theorem rawNew_ensures (hg : Guest.KeepsBlocks margin blocks) (hm : 0 ≤ margin)
    (hi : (view margin blocks apiVersion).Inv c) (hl : bytes.length ≤ objectLimit margin apiVersion) :
    (view margin blocks apiVersion).Ensures c (fun self => self.rawNew bytes) fun p c' =>
      (view margin blocks apiVersion).Holds c' p.toNat bytes ∧ p.toNat + bytes.length < 2 ^ 32 := by
  obtain ⟨hi, rfl⟩ := hi
  have hlt := objectLimit_lt margin c.apiVersion
  cases exists_arenaFor c (hl.trans_lt hlt) with
  | inl ha =>
    obtain ⟨arena, ha⟩ := ha
    obtain ⟨hin, hle, hf, hfr⟩ := hi.arenaFor hg hm (by omega) ha
    obtain ⟨hin', hle', hh⟩ := hin.push hf hfr
    have hs := hin.start_nonneg
    have hst : arena.arenaStartPtr + arena.arenaFreeSize + margin ≤ arena.memory.size := hin.stop_le
    have hs' : arena.arenaStartPtr + arena.arenaFreeSize + margin < 2 ^ 31 := hin.stop_lt
    have hp : (UInt32.ofNat arena.arenaStartPtr.toNat).toNat = arena.arenaStartPtr.toNat :=
      toNat_ofNat_u32 (by omega)
    exact Growth.ensures_of_ok (rawNew_of_arenaFor ha hs (by omega) (by omega))
      ⟨hin', (apiVersion_arenaFor ha :)⟩ ((view margin blocks c.apiVersion).growth.trans hle hle')
      ⟨hp.symm ▸ hh, by omega⟩
  | inr he => exact Growth.ensures_of_err he rfl

theorem ascTypeId_ensures (hg : Guest.KeepsBlocks margin blocks)
    (hi : (view margin blocks apiVersion).Inv c) (hv : ¬c.apiVersion ≤ .new 0 0 4)
    {i : IndexForAscTypeId} :
    (view margin blocks apiVersion).Ensures c (fun self => self.ascTypeId i) fun _ _ => True := by
  obtain ⟨id, memory, guest, hid, hb, hk⟩ := hg.idOfType c.guest c.memory i.toU32
  have hc : c.ascTypeId i = .ok (id, { c with memory, guest }) := by
    unfold ascTypeId
    rw [if_neg hv, hid]
    rfl
  obtain ⟨hi, hversion⟩ := hi
  refine Growth.ensures_of_ok hc ⟨?_, hversion⟩ ⟨rfl, ?_, ?_⟩ trivial
  · exact ⟨hi.start_nonneg, hi.stop_le.trans (Int.ofNat_le.2 hk.size_le), hi.stop_lt,
      hb.symm ▸ hi.within⟩
  · show Guest.addresses margin (blocks c.guest) \ _ ⊆ Guest.addresses margin (blocks guest) \ _
    rw [hb]
    exact subset_rfl
  · exact hk.mono Set.sdiff_subset

theorem lawful (hm : 0 ≤ margin) (hg : Guest.KeepsBlocks margin blocks) (apiVersion : Version) :
    (view margin blocks apiVersion).Lawful where
  get_eq _ := get_eq_ok_iff
  limit_lt := objectLimit_lt margin apiVersion
  le_limit := le_objectLimit margin apiVersion
  rawNew hi hl := rawNew_ensures hg hm hi hl
  ascTypeId hi hv := ascTypeId_ensures hg hi hv

end WasmInstanceContext

end Massbit
