/-
The buffer that puts the blocks of the chain adapter in order (`indexer_broadcast.rs`).
-/
import Massbit.Lib.Outcome
import Massbit.Lib.SlotQueue
import Massbit.Solana.Types

open List Finmap

namespace Massbit.Solana

structure BlockBuffer where
  queue : HashMap Slot ConfirmedBlockWithSlot := ∅
  expectedSlot : Slot := 0

namespace BlockBuffer

def handleIncomingBlock (self : BlockBuffer) :
    BlockInfo → Option (List ConfirmedBlockWithSlot) × BlockBuffer
  | .blockSlot slot => (none, { self with expectedSlot := slot })
  | .confirmBlockWithSlot confirmBlock =>
    if confirmBlock.blockSlot ≠ self.expectedSlot then
      (none, { self with queue := self.queue.insert confirmBlock.blockSlot confirmBlock })
    else
      let (blocks, queue, key) :=
        Finmap.drain self.queue.keys.card self.queue (self.expectedSlot + 1)
      (some (confirmBlock :: blocks), ⟨queue, key⟩)

def handleAll (self : BlockBuffer) (messages : List BlockInfo) :
    List ConfirmedBlockWithSlot × BlockBuffer :=
  messages.foldl (fun (emitted, buffer) message =>
    let (blocks, buffer) := buffer.handleIncomingBlock message
    (emitted ++ blocks.getD [], buffer)) ([], self)

def messages (start : Slot) (arrivals : List ConfirmedBlockWithSlot) : List BlockInfo :=
  .blockSlot start :: arrivals.map .confirmBlockWithSlot

def receive (start : Slot) (arrivals : List ConfirmedBlockWithSlot) :
    List ConfirmedBlockWithSlot × BlockBuffer :=
  handleAll {} (messages start arrivals)

end BlockBuffer

def slotsOf (blocks : List ConfirmedBlockWithSlot) : List ℕ :=
  blocks.map fun block => block.blockSlot.toNat

/-- After `pre` has arrived: the longest run of slots without a gap has been released, in order, and
the rest is queued. -/
structure Buffered (start : ℕ) (pre emitted : List ConfirmedBlockWithSlot) (buffer : BlockBuffer) :
    Prop where
  exists_run : ∃ k, IsRun start (slotsOf pre) k ∧ slotsOf emitted = List.range' start k ∧
    buffer.expectedSlot = .ofNat (start + k)
  emitted_subset : emitted ⊆ pre
  lookup_iff : ∀ {slot block}, buffer.queue.lookup slot = some block ↔
    block ∈ pre ∧ block.blockSlot = slot ∧ block ∉ emitted

namespace Buffered

variable {s : ℕ} {pre emitted : List ConfirmedBlockWithSlot} {buffer : BlockBuffer}

theorem nil (s : Slot) : Buffered s.toNat [] [] { expectedSlot := s } where
  exists_run := ⟨0, ⟨nofun, not_mem_nil⟩, rfl, (UInt64.ofNat_toNat).symm⟩
  emitted_subset := nil_subset _
  lookup_iff := by
    simp

theorem eq_of_slot (hnodup : (slotsOf pre).Nodup) {block block' : ConfirmedBlockWithSlot}
    (hb : block ∈ pre) (hb' : block' ∈ pre) (h : block.blockSlot = block'.blockSlot) :
    block = block' :=
  inj_on_of_nodup_map hnodup hb hb' (congrArg UInt64.toNat h)

theorem lt_of_mem_queue (h : Buffered s pre emitted buffer) (hnodup : (slotsOf pre).Nodup)
    (hst : ∀ n ∈ slotsOf pre, s ≤ n) {k : ℕ} (hru : IsRun s (slotsOf pre) k)
    (hemitted : slotsOf emitted = List.range' s k) {slot : Slot} (hs : slot ∈ buffer.queue) :
    s + k < slot.toNat ∧ slot.toNat ∈ slotsOf pre := by
  obtain ⟨block, hl⟩ := mem_iff.1 hs
  obtain ⟨hb, rfl, hn⟩ := h.lookup_iff.1 hl
  have hm : block.blockSlot.toNat ∈ slotsOf pre := mem_map_of_mem hb
  refine ⟨?_, hm⟩
  by_contra hle
  rcases (not_lt.1 hle).lt_or_eq with hlt | heq
  · -- a block for the slot was released, and it is this one
    have hr : block.blockSlot.toNat ∈ slotsOf emitted := by
      rw [hemitted]
      exact mem_range'_1.mpr ⟨hst _ hm, hlt⟩
    obtain ⟨b', hb', hsa⟩ := mem_map.1 hr
    have heq := eq_of_slot hnodup (h.emitted_subset hb') hb (UInt64.toNat_inj.mp hsa)
    exact hn (heq ▸ hb')
  · exact hru.notMem (heq ▸ hm)

variable {block : ConfirmedBlockWithSlot}

theorem insert (h : Buffered s pre emitted buffer) (hnodup : (slotsOf (pre ++ [block])).Nodup)
    {k : ℕ} (hr : IsRun s (slotsOf pre) k) (hemitted : slotsOf emitted = List.range' s k)
    (he : buffer.expectedSlot = .ofNat (s + k)) (hne : block.blockSlot.toNat ≠ s + k) :
    Buffered s (pre ++ [block]) emitted
      { buffer with queue := buffer.queue.insert block.blockSlot block } := by
  have hn : block ∉ pre := by
    rw [slotsOf, map_append, nodup_append] at hnodup
    exact fun hm => hnodup.2.2 _ (mem_map_of_mem hm) _ (mem_singleton_self _) rfl
  refine ⟨⟨k, ⟨fun i hi => ?_, ?_⟩, hemitted, he⟩,
    fun b hb => mem_append_left _ (h.emitted_subset hb), fun {slot b'} => ?_⟩
  · rw [slotsOf, map_append]
    exact mem_append_left _ (hr.mem i hi)
  · rw [slotsOf, map_append, mem_append]
    rintro (hm | hm)
    · exact hr.notMem hm
    · exact hne (mem_singleton.mp hm).symm
  · by_cases hs : slot = block.blockSlot
    · subst hs
      rw [lookup_insert]
      constructor
      · intro hso
        cases hso
        exact ⟨mem_append_right _ (mem_singleton_self _), rfl,
          fun hm => hn (h.emitted_subset hm)⟩
      · rintro ⟨hm, hsa, -⟩
        exact congrArg some (eq_of_slot hnodup
          (mem_append_right _ (mem_singleton_self _)) hm hsa.symm)
    · rw [lookup_insert_of_ne _ hs, h.lookup_iff]
      constructor
      · rintro ⟨hm, hsa, hnot⟩
        exact ⟨mem_append_left _ hm, hsa, hnot⟩
      · rintro ⟨hm, hsa, hnot⟩
        refine ⟨(mem_append.mp hm).resolve_right fun hlast => ?_, hsa, hnot⟩
        rw [mem_singleton.mp hlast] at hsa
        exact hs hsa.symm

section

variable {k t : ℕ} {rest : List ConfirmedBlockWithSlot × HashMap Slot ConfirmedBlockWithSlot × Slot}
  (h : Buffered s pre emitted buffer)
  (hd : Finmap.Drained buffer.queue (s + k + 1) t rest)

include h hd

variable {b : ConfirmedBlockWithSlot}

theorem mem_of_mem_drained (hb : b ∈ rest.1) : b ∈ pre := by
  obtain ⟨i, -, hi⟩ := hd.values.flip.exists_of_mem hb
  exact (h.lookup_iff.1 hi).1

theorem slotsOf_drained (ht : t ≤ 2 ^ 64) :
    slotsOf rest.1 = List.range' (s + k + 1) (t - (s + k + 1)) := by
  have hm : (List.range' (s + k + 1) (t - (s + k + 1))).map
      (fun i => (UInt64.ofNat i).toNat) = slotsOf rest.1 :=
    List.Forall₂.map_eq (hd.values.imp fun i b hb => by rw [(h.lookup_iff.1 hb).2.1])
  rw [← hm, map_congr_left (g := id), map_id]
  intro i hi
  have hi := mem_range'_1.1 hi
  exact Nat.mod_eq_of_lt (by omega)

variable (he : slotsOf emitted = List.range' s k)
  (heq : block.blockSlot.toNat = s + k)

include he heq

theorem slotsOf_released (ht : t ≤ 2 ^ 64) :
    slotsOf (emitted ++ block :: rest.1) = List.range' s (t - s) := by
  have hle := hd.le
  rw [slotsOf, map_append, map_cons, heq]
  show slotsOf emitted ++ (s + k) :: slotsOf rest.1 = _
  rw [he, h.slotsOf_drained hd ht, ← range'_succ, range'_append_1]
  congr 1
  omega

theorem lt_of_mem_released (ht : t ≤ 2 ^ 64) (hb : b ∈ emitted ++ block :: rest.1) :
    b.blockSlot.toNat < t := by
  have hm : b.blockSlot.toNat ∈ slotsOf (emitted ++ block :: rest.1) := mem_map_of_mem hb
  rw [h.slotsOf_released hd he heq ht] at hm
  have := mem_range'_1.1 hm
  omega

omit he heq in
theorem queued_of_notMem (hq : ∀ slot ∈ buffer.queue, s + k + 1 ≤ slot.toNat)
    (hb : b ∈ pre ++ [block]) (hn : b ∉ emitted ++ block :: rest.1) :
    buffer.queue.lookup b.blockSlot = some b ∧ ¬b.blockSlot.toNat < t := by
  have hne : b ≠ block := by
    rintro rfl
    exact hn (mem_append_right _ mem_cons_self)
  have hbp : b ∈ pre := (mem_append.mp hb).resolve_right fun hlast =>
    hne (mem_singleton.mp hlast)
  have hl : buffer.queue.lookup b.blockSlot = some b :=
    h.lookup_iff.mpr ⟨hbp, rfl, fun hm => hn (mem_append_left _ hm)⟩
  refine ⟨hl, fun hlt => ?_⟩
  have hm := hq _ (mem_iff.mpr ⟨b, hl⟩)
  obtain ⟨b', hb', hs⟩ := hd.values.exists_of_mem
    (mem_range'_1.mpr ⟨hm, (by omega : b.blockSlot.toNat < _)⟩)
  rw [UInt64.ofNat_toNat, hl] at hs
  cases hs
  exact hn (mem_append_right _ (mem_cons_of_mem _ hb'))

end

section

variable {stop : ℕ} (h : Buffered s pre emitted buffer) (hstop : stop ≤ 2 ^ 64)
  (hbs : ∀ n ∈ slotsOf (pre ++ [block]), s ≤ n ∧ n < stop)
  (hnodup : (slotsOf (pre ++ [block])).Nodup)

include h hstop hbs hnodup

theorem release {k : ℕ} (hru : IsRun s (slotsOf pre) k)
    (hemitted : slotsOf emitted = List.range' s k) (heq : block.blockSlot.toNat = s + k) :
    let rest := Finmap.drain buffer.queue.keys.card buffer.queue (.ofNat (s + k + 1))
    Buffered s (pre ++ [block]) (emitted ++ block :: rest.1) ⟨rest.2.1, rest.2.2⟩ := by
  intro rest
  have hs : slotsOf (pre ++ [block]) = slotsOf pre ++ [s + k] := by
    rw [← heq]
    exact map_append
  have hp : ∀ n ∈ slotsOf pre, s ≤ n ∧ n < stop := fun n hn =>
    hbs n (hs ▸ mem_append_left _ hn)
  have hnodup_pre : (slotsOf pre).Nodup := (hs ▸ hnodup).of_append_left
  have hqu : ∀ slot ∈ buffer.queue, s + k + 1 ≤ slot.toNat ∧ slot.toNat < stop := by
    intro slot hsl
    obtain ⟨hlt, hm⟩ :=
      h.lt_of_mem_queue hnodup_pre (fun n hn => (hp n hn).1) hru hemitted hsl
    exact ⟨hlt, (hp _ hm).2⟩
  have hlast : s + k < stop :=
    (hbs _ (hs ▸ mem_append_right _ (mem_singleton_self _))).2
  obtain ⟨t, hts, hdrained⟩ := drain_spec hstop le_rfl (t := s + k + 1) hlast hqu
  have ht : t ≤ 2 ^ 64 := hts.trans hstop
  have hle := hdrained.le
  have ha := h.slotsOf_released hdrained hemitted heq ht
  have hbe : ∀ b ∈ emitted ++ block :: rest.1, b.blockSlot.toNat < t := fun b hb =>
    h.lt_of_mem_released hdrained hemitted heq ht hb
  have hq : ∀ {b}, b ∈ pre ++ [block] → b ∉ emitted ++ block :: rest.1 →
      buffer.queue.lookup b.blockSlot = some b ∧ ¬b.blockSlot.toNat < t := fun hb hno =>
    h.queued_of_notMem hdrained (fun slot hsl => (hqu slot hsl).1) hb hno
  have hsu : emitted ++ block :: rest.1 ⊆ pre ++ [block] := by
    intro b hb
    rcases mem_append.mp hb with hb | hb
    · exact mem_append_left _ (h.emitted_subset hb)
    · rcases mem_cons.mp hb with rfl | hb
      · exact mem_append_right _ (mem_singleton_self _)
      · exact mem_append_left _ (h.mem_of_mem_drained hdrained hb)
  refine ⟨⟨t - s, ⟨fun i hi => ?_, fun hm => ?_⟩, ha, ?_⟩, hsu, fun {slot b} => ?_⟩
  · have hr : s + i ∈ slotsOf (emitted ++ block :: rest.1) := by
      rw [ha]
      exact mem_range'_1.mpr ⟨Nat.le_add_right _ _, Nat.add_lt_add_left hi _⟩
    obtain ⟨b, hb, hbi⟩ := mem_map.mp hr
    exact hbi ▸ mem_map_of_mem (hsu hb)
  · -- the slot at which the loop stopped has not arrived
    obtain ⟨b, hb, hbt⟩ := mem_map.mp hm
    have hbt : b.blockSlot.toNat = t := by omega
    have hno : b ∉ emitted ++ block :: rest.1 := fun hm => (hbe b hm).ne hbt
    exact hdrained.toNat_ne _ (mem_iff.mpr ⟨b, (hq hb hno).1⟩) hbt
  · rw [show s + (t - s) = t by omega]
    exact hdrained.key_eq
  · show rest.2.1.lookup slot = some b ↔ _
    rw [hdrained.lookup_eq]
    constructor
    · intro hb
      split_ifs at hb with hlt
      obtain ⟨hbp, rfl, -⟩ := h.lookup_iff.mp hb
      exact ⟨mem_append_left _ hbp, rfl, fun hm => hlt (hbe b hm)⟩
    · rintro ⟨hb, rfl, hno⟩
      obtain ⟨hl, hlt⟩ := hq hb hno
      rw [if_neg hlt]
      exact hl

theorem step : let result := buffer.handleIncomingBlock (.confirmBlockWithSlot block)
    Buffered s (pre ++ [block]) (emitted ++ result.1.getD []) result.2 := by
  obtain ⟨k, hr, hemitted, he⟩ := h.exists_run
  have hb : block.blockSlot.toNat ∈ slotsOf (pre ++ [block]) :=
    mem_map_of_mem (mem_append_right _ (mem_singleton_self _))
  obtain ⟨hge, hlt⟩ := hbs _ hb
  -- the slots before the expected one have arrived
  have hle : s + k ≤ block.blockSlot.toNat := by
    by_contra hbe
    have hm := hr.mem (block.blockSlot.toNat - s) (by omega)
    rw [Nat.add_sub_of_le hge] at hm
    rw [slotsOf, map_append, nodup_append] at hnodup
    exact hnodup.2.2 _ hm _ (mem_singleton_self _) rfl
  have hexpected_nat : buffer.expectedSlot.toNat = s + k := by
    rw [he]
    exact Nat.mod_eq_of_lt (by omega)
  rw [BlockBuffer.handleIncomingBlock]
  split_ifs with hne
  · show Buffered s (pre ++ [block]) (emitted ++ []) _
    rw [append_nil]
    refine h.insert hnodup hr hemitted he fun heq => hne ?_
    exact UInt64.toNat_inj.1 (heq.trans hexpected_nat.symm)
  · have heq : block.blockSlot.toNat = s + k := by
      rw [not_not.1 hne]
      exact hexpected_nat
    rw [he, UInt64.ofNat_add_one]
    exact h.release hstop hbs hnodup hr hemitted heq

end

end Buffered

namespace BlockBuffer

theorem buffered_receive (start : Slot) {stop : ℕ} (hstop : stop ≤ 2 ^ 64)
    {arrivals : List ConfirmedBlockWithSlot}
    (hbounds : ∀ n ∈ slotsOf arrivals, start.toNat ≤ n ∧ n < stop)
    (hnodup : (slotsOf arrivals).Nodup) :
    Buffered start.toNat arrivals (receive start arrivals).1 (receive start arrivals).2 := by
  induction arrivals using List.reverseRecOn with
  | nil => exact .nil start
  | append_singleton pre block ih =>
    have hs : slotsOf (pre ++ [block]) = slotsOf pre ++ slotsOf [block] := map_append
    have hp := ih (fun n hn => hbounds n (hs ▸ mem_append_left _ hn)) (hs ▸ hnodup).of_append_left
    have hlast : messages start (pre ++ [block]) =
        messages start pre ++ [.confirmBlockWithSlot block] := by
      rw [messages, map_append]
      rfl
    rw [receive, hlast, handleAll, foldl_append]
    exact hp.step hstop hbounds hnodup

section

variable (start : Slot) (n : ℕ) (h : start.toNat + n ≤ 2 ^ 64)
  {arrivals : List ConfirmedBlockWithSlot}
  (has : (slotsOf arrivals).Perm (List.range' start.toNat n))

include h has

theorem buffered_pre {pre : List ConfirmedBlockWithSlot} (hp : pre <+: arrivals) :
    Buffered start.toNat pre (receive start pre).1 (receive start pre).2 := by
  have hs : (slotsOf pre).Sublist (slotsOf arrivals) := hp.sublist.map _
  refine buffered_receive start h (fun i hi => ?_) ?_
  · exact mem_range'_1.1 (has.mem_iff.1 (hs.subset hi))
  · exact (has.nodup_iff.2 nodup_range').sublist hs

theorem slotsOf_receive : slotsOf (receive start arrivals).1 = List.range' start.toNat n := by
  have ha := buffered_pre start n h has prefix_rfl
  obtain ⟨k, hr, hemitted, -⟩ := ha.exists_run
  have hn : IsRun start.toNat (slotsOf arrivals) n := by
    refine ⟨fun i hi => has.mem_iff.2 ?_, fun hm => ?_⟩
    · exact mem_range'_1.2 ⟨Nat.le_add_right _ _, Nat.add_lt_add_left hi _⟩
    · exact absurd (mem_range'_1.1 (has.mem_iff.1 hm)).2 (lt_irrefl _)
  rw [← hr.unique hn]
  exact hemitted

theorem perm_receive : (receive start arrivals).1.Perm arrivals := by
  have hs := slotsOf_receive start n h has
  have hl : arrivals.length ≤ (receive start arrivals).1.length := by
    have h := has.length_eq
    have h' := congrArg List.length hs
    rw [slotsOf, length_map] at h h'
    omega
  have hnodup : (receive start arrivals).1.Nodup :=
    List.Nodup.of_map _ (show (slotsOf _).Nodup by rw [hs]; exact nodup_range')
  have hsu := (buffered_pre start n h has prefix_rfl).emitted_subset
  exact (hnodup.subperm hsu).perm_of_length_le hl

end

/-- **The blocks come out in order, each once**, whatever the order in which the slots from `start`
on arrive: after every prefix the longest run without a gap was released, and the rest is in the
queue. -/
theorem receive_spec (start : Slot) (n : ℕ) (hlast : start.toNat + n ≤ 2 ^ 64)
    {arrivals : List ConfirmedBlockWithSlot}
    (harrivals : (slotsOf arrivals).Perm (List.range' start.toNat n)) :
    (slotsOf (receive start arrivals).1 = List.range' start.toNat n ∧
      (receive start arrivals).1.Perm arrivals) ∧
    ∀ pre, pre <+: arrivals →
      Buffered start.toNat pre (receive start pre).1 (receive start pre).2 :=
  ⟨⟨slotsOf_receive start n hlast harrivals, perm_receive start n hlast harrivals⟩,
    fun _ hp => buffered_pre start n hlast harrivals hp⟩

theorem receive_seven_five_six :
    slotsOf (receive 5 [⟨7, none⟩, ⟨5, none⟩, ⟨6, none⟩]).1 = List.range' 5 3 :=
  (receive_spec 5 3 (by decide) (by decide)).1.1

end BlockBuffer

end Massbit.Solana
