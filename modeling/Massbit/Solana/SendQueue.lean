/-
The queue of the chain reader (`solana_chain.rs`).
-/
import Massbit.Lib.SlotQueue
import Massbit.Solana.Types

open List

namespace Massbit.Solana

structure SendQueue where
  queue : HashMap Slot (Option ConfirmedBlock) := ∅
  sendingSlot : Slot

namespace SendQueue

def popQueue (self : SendQueue) : Option (Option ConfirmedBlock × Slot) × SendQueue :=
  ((self.queue.lookup self.sendingSlot).map fun block => (block, self.sendingSlot),
    ⟨self.queue.erase self.sendingSlot, self.sendingSlot + 1⟩)

def toPack (block : Option ConfirmedBlock) (slot : Slot) : List ConfirmedBlockWithSlot :=
  block.toList.map fun block => ⟨slot, some block⟩

def popWhile : ℕ → SendQueue → List ConfirmedBlockWithSlot × SendQueue
  | 0, self => ([], self)
  | fuel + 1, self =>
    match self.popQueue with
    | (none, self) => ([], self)
    | (some (block, sendingSlot), self) =>
      let (blocks, self) := popWhile fuel self
      (toPack block sendingSlot ++ blocks, self)

def insertAndPrepareSend (self : SendQueue) (block : Option ConfirmedBlock) (blockSlot : Slot) :
    Option (List ConfirmedBlockWithSlot) × SendQueue :=
  if blockSlot ≠ self.sendingSlot then
    (none, { self with queue := self.queue.insert blockSlot block })
  else
    let (blocks, self) := popWhile (self.queue.keys.card + 1)
      { self with sendingSlot := self.sendingSlot + 1 }
    (some (toPack block blockSlot ++ blocks), self)

variable (results : Slot → Option ConfirmedBlock)

def insertAll (self : SendQueue) (slots : List Slot) : List ConfirmedBlockWithSlot × SendQueue :=
  slots.foldl (fun (sent, self) slot =>
    let (blocks, self) := self.insertAndPrepareSend (results slot) slot
    (sent ++ blocks.getD [], self)) ([], self)

def blocksOfRun (t k : ℕ) : List ConfirmedBlockWithSlot :=
  (List.range' t k).flatMap fun n => toPack (results (.ofNat n)) (.ofNat n)

/-- After each insertion, the blocks of the longest run of slots without a gap have been sent. -/
def FlushesRuns (start : Slot) (slots : List Slot) : Prop :=
  ∀ pre, pre <+: slots → ∀ k, IsRun start.toNat (pre.map UInt64.toNat) k →
    (insertAll results { sendingSlot := start } pre).1 = blocksOfRun results start.toNat k

variable {results}

theorem blocksOfRun_succ (t k : ℕ) : blocksOfRun results t (k + 1) =
    toPack (results (.ofNat t)) (.ofNat t) ++ blocksOfRun results (t + 1) k := by
  rw [blocksOfRun, range'_succ, flatMap_cons]
  rfl

theorem insertAll_concat (self : SendQueue) (slots : List Slot) (slot : Slot) :
    insertAll results self (slots ++ [slot]) =
      let (sent, self) := insertAll results self slots
      let (blocks, self) := self.insertAndPrepareSend (results slot) slot
      (sent ++ blocks.getD [], self) := by
  rw [insertAll, foldl_append]
  rfl

section

variable {q : HashMap Slot (Option ConfirmedBlock)} {slot : Slot}

theorem popWhile_of_lookup_eq_none (h : q.lookup slot = none) (fuel : ℕ) :
    popWhile (fuel + 1) ⟨q, slot⟩ = ([], ⟨q.erase slot, slot + 1⟩) := by
  rw [popWhile, popQueue, h]
  rfl

theorem popWhile_of_lookup_eq_some {b : Option ConfirmedBlock}
    (h : q.lookup slot = some b) (fuel : ℕ) :
    popWhile (fuel + 1) ⟨q, slot⟩ =
      let (blocks, self) := popWhile fuel ⟨q.erase slot, slot + 1⟩
      (toPack b slot ++ blocks, self) := by
  rw [popWhile, popQueue, h]
  rfl

end

theorem popWhile_spec (results : Slot → Option ConfirmedBlock) {stop : ℕ} (hs : stop ≤ 2 ^ 64) :
    ∀ (fuel : ℕ) (queue : HashMap Slot (Option ConfirmedBlock)) (t : ℕ), queue.keys.card ≤ fuel →
      t ≤ stop → (stop = 2 ^ 64 → 0 ∉ queue) →
      (∀ {a v}, queue.lookup a = some v → a.toNat < stop ∧ v = results a) →
      ∃ t' rest, t ≤ t' ∧ t' ≤ stop ∧ (∀ i, t ≤ i → i < t' → .ofNat i ∈ queue) ∧
        (∀ a ∈ queue, a.toNat ≠ t') ∧ (∀ {a v}, rest.lookup a = some v → queue.lookup a = some v) ∧
        popWhile (fuel + 1) ⟨queue, .ofNat t⟩ =
          (blocksOfRun results t (t' - t), ⟨rest, .ofNat (t' + 1)⟩)
  | fuel, queue, t, hf, ht, hz, hq => by
    rcases hl : queue.lookup (.ofNat t) with - | b
    · refine ⟨t, queue.erase (.ofNat t), le_rfl, ht, by omega, fun a ha hat => ?_,
        Finmap.lookup_of_lookup_erase, ?_⟩
      · rw [← hat, UInt64.ofNat_toNat] at hl
        exact Finmap.lookup_eq_none.mp hl ha
      · rw [popWhile_of_lookup_eq_none hl, UInt64.ofNat_add_one, Nat.sub_self]
        rfl
    · obtain ⟨hlt, rfl⟩ := hq hl
      have hm : UInt64.ofNat t ∈ queue := Finmap.mem_of_lookup_eq_some hl
      have hn : (UInt64.ofNat t).toNat = t := by
        refine Nat.mod_eq_of_lt (lt_of_le_of_ne (ht.trans hs) ?_)
        rintro rfl
        exact hz (le_antisymm hs ht) hm
      have hc := Finset.card_erase_of_mem (Finmap.mem_keys.2 hm)
      have hpo : 0 < queue.keys.card := Finset.card_pos.2 ⟨_, Finmap.mem_keys.2 hm⟩
      obtain ⟨fuel, rfl⟩ : ∃ n, fuel = n + 1 := ⟨fuel - 1, by omega⟩
      rw [← Finmap.keys_erase] at hc
      obtain ⟨t', rest, hle', hs', hm', hne, hr, hp⟩ := popWhile_spec results hs
        fuel (queue.erase (.ofNat t)) (t + 1) (by omega) (by omega)
        (fun h h0 => hz h (Finmap.mem_erase.1 h0).2)
        fun hv => hq (Finmap.lookup_of_lookup_erase hv)
      refine ⟨t', rest, by omega, hs', fun i hi hi' => ?_, fun a ha hat => ?_,
        fun hv => Finmap.lookup_of_lookup_erase (hr hv), ?_⟩
      · rcases hi.eq_or_lt with rfl | hi
        · exact hm
        · exact (Finmap.mem_erase.mp (hm' i hi hi')).2
      · refine hne a (Finmap.mem_erase.mpr ⟨?_, ha⟩) hat
        rintro rfl
        omega
      · rw [popWhile_of_lookup_eq_some hl, UInt64.ofNat_add_one, hp,
          show t' - t = t' - (t + 1) + 1 by omega, blocksOfRun_succ]

section

variable {start : Slot} {slots pre post : List Slot} {sent : List ConfirmedBlockWithSlot}
  {queue : HashMap Slot (Option ConfirmedBlock)} {next : Slot} {k : ℕ}

theorem insertAll_of_ne (h : insertAll results { sendingSlot := start } pre = (sent, ⟨queue, next⟩))
    {slot : Slot} (hne : slot ≠ next) :
    insertAll results { sendingSlot := start } (pre ++ [slot]) =
      (sent, ⟨queue.insert slot (results slot), next⟩) := by
  rw [insertAll_concat, h]
  simp [insertAndPrepareSend, hne]

theorem insertAll_before (results : Slot → Option ConfirmedBlock) (hs : start ∉ pre) :
    ∃ queue, insertAll results { sendingSlot := start } pre = ([], ⟨queue, start⟩) ∧
      ∀ {a v}, queue.lookup a = some v ↔ a ∈ pre ∧ v = results a := by
  induction pre using List.reverseRecOn with
  | nil => exact ⟨∅, rfl, by simp⟩
  | append_singleton pre slot ih =>
    simp only [mem_append, mem_singleton, not_or] at hs
    obtain ⟨queue, hi, hq⟩ := ih hs.1
    refine ⟨_, insertAll_of_ne hi (Ne.symm hs.2), fun {a v} => ?_⟩
    by_cases ha : a = slot
    · grind [Finmap.lookup_insert]
    · rw [Finmap.lookup_insert_of_ne _ ha, hq]
      simp [ha]

theorem insertAll_after
    (hp : insertAll results { sendingSlot := start } pre = (sent, ⟨queue, next⟩))
    (hn : next ∉ post) :
    ∃ q', insertAll results { sendingSlot := start } (pre ++ post) = (sent, ⟨q', next⟩) := by
  induction post using List.reverseRecOn with
  | nil => exact ⟨queue, by rwa [append_nil]⟩
  | append_singleton post slot ih =>
    simp only [mem_append, mem_singleton, not_or] at hn
    obtain ⟨q', hi⟩ := ih hn.1
    rw [← append_assoc]
    exact ⟨_, insertAll_of_ne hi (Ne.symm hn.2)⟩

section

variable (hnodup : (pre ++ start :: post).Nodup) (hle : ∀ slot ∈ pre ++ start :: post, start ≤ slot)
  (hrun : IsRun start.toNat ((pre ++ [start]).map UInt64.toNat) k)

include hnodup hle hrun

theorem insertAll_start (results : Slot → Option ConfirmedBlock) :
    start.toNat + k ≤ 2 ^ 64 ∧
      ∃ queue, insertAll results { sendingSlot := start } (pre ++ [start]) =
        (blocksOfRun results start.toNat k, ⟨queue, .ofNat (start.toNat + k + 1)⟩) := by
  obtain ⟨-, hn', hd⟩ := nodup_append.1 hnodup
  obtain ⟨queue, hb, hq⟩ := insertAll_before results
    (show start ∉ pre from fun h => hd _ h _ mem_cons_self rfl)
  have hz : (0 : Slot) ∉ queue := by
    intro h0
    obtain ⟨v, hv⟩ := Finmap.mem_iff.1 h0
    have ha := (hq.1 hv).1
    have hge := UInt64.le_iff_toNat_le.1 (hle 0 (mem_append_left _ ha))
    exact hd _ ha _ mem_cons_self (UInt64.toNat_inj.1 (Nat.le_zero.1 hge).symm)
  obtain ⟨t', rest, hlt, hs, hm, hne, -, hp⟩ := popWhile_spec results le_rfl
    queue.keys.card queue (start.toNat + 1) le_rfl (UInt64.toNat_lt start) (fun _ => hz) fun {a v} hv =>
      ⟨a.toNat_lt, (hq.1 hv).2⟩
  have hr' : IsRun start.toNat ((pre ++ [start]).map UInt64.toNat) (t' - start.toNat) := by
    constructor
    · intro i hi
      rcases i.eq_zero_or_pos with rfl | hpo
      · simp
      · obtain ⟨v, hv⟩ := Finmap.mem_iff.1 (hm (start.toNat + i) (by omega) (by omega))
        have hn : (UInt64.ofNat (start.toNat + i)).toNat = start.toNat + i :=
          Nat.mod_eq_of_lt (by omega)
        rw [← hn]
        exact mem_map_of_mem (mem_append_left _ (hq.mp hv).1)
    · rw [show start.toNat + (t' - start.toNat) = t' by omega]
      intro h
      obtain ⟨a, ha, hat⟩ := mem_map.1 h
      rcases mem_append.1 ha with ha | ha
      · exact hne a (Finmap.mem_iff.2 ⟨_, hq.2 ⟨ha, rfl⟩⟩) hat
      · rw [mem_singleton.1 ha] at hat
        omega
  obtain rfl := hrun.unique hr'
  rw [show start.toNat + (t' - start.toNat) = t' by omega]
  refine ⟨hs, rest, ?_⟩
  rw [insertAll_concat, hb]
  simp only [insertAndPrepareSend, ne_eq, not_true_eq_false, if_false]
  rw [show start + 1 = .ofNat (start.toNat + 1) by
    rw [← UInt64.ofNat_add_one, UInt64.ofNat_toNat], hp,
    show t' - start.toNat = t' - (start.toNat + 1) + 1 by omega, blocksOfRun_succ,
    UInt64.ofNat_toNat]
  rfl

theorem toNat_next (h : .ofNat (start.toNat + k + 1) ∈ post) :
    start.toNat + k + 1 ∈ post.map UInt64.toNat := by
  have hb := (insertAll_start hnodup hle hrun fun _ => none).1
  refine mem_map.2 ⟨_, h, Nat.mod_eq_of_lt ?_⟩
  by_contra hw
  -- a slot that comes after the last one would be in the run
  have hge := UInt64.le_iff_toNat_le.1 (hle _ (mem_append_right _ (mem_cons_of_mem _ h)))
  have hn : (UInt64.ofNat (start.toNat + k + 1)).toNat = (start.toNat + k + 1) % 2 ^ 64 := rfl
  have hm := hrun.mem ((UInt64.ofNat (start.toNat + k + 1)).toNat - start.toNat) (by omega)
  rw [Nat.add_sub_of_le hge] at hm
  obtain ⟨a, ha, hs⟩ := mem_map.1 hm
  rw [UInt64.toNat_inj.1 hs] at ha
  grind

theorem insertAll_skipped (hs : start.toNat + k + 1 ∉ post.map UInt64.toNat)
    (results : Slot → Option ConfirmedBlock) :
    ∃ queue, insertAll results { sendingSlot := start } (pre ++ start :: post) =
      (blocksOfRun results start.toNat k, ⟨queue, .ofNat (start.toNat + k + 1)⟩) := by
  obtain ⟨-, queue, hst⟩ := insertAll_start hnodup hle hrun results
  rw [append_cons]
  exact insertAll_after hst fun h => hs (toNat_next hnodup hle hrun h)

end

theorem isRun_append (hrun : IsRun start.toNat ((pre ++ [start]).map UInt64.toNat) k)
    (hn : start.toNat + k ∉ post.map UInt64.toNat) :
    IsRun start.toNat ((pre ++ start :: post).map UInt64.toNat) k := by
  rw [append_cons, map_append]
  refine ⟨fun i hi => mem_append_left _ (hrun.mem i hi), fun h => ?_⟩
  exact (mem_append.1 h).elim hrun.notMem hn

theorem length_blocksOfRun {b : ConfirmedBlock} (t k : ℕ) :
    (blocksOfRun (fun _ => some b) t k).length = k := by
  simp [blocksOfRun, toPack]

/-- **The blocks are sent as they should be, whatever the results are, if and only if** after the
first slot none of the two slots behind its run arrives. -/
theorem flushesRuns_iff (hnodup : slots.Nodup) (hle : ∀ slot ∈ slots, start ≤ slot) :
    (∀ results, FlushesRuns results start slots) ↔
      ∀ pre post k, slots = pre ++ start :: post →
        IsRun start.toNat ((pre ++ [start]).map UInt64.toNat) k →
          start.toNat + k ∉ post.map UInt64.toNat ∧ start.toNat + k + 1 ∉ post.map UInt64.toNat := by
  constructor
  · rintro h pre post k rfl hrun
    -- up to each slot that arrives after the first one
    suffices hm : ∀ mid, mid <+: post → start.toNat + k ∉ mid.map UInt64.toNat ∧
        start.toNat + k + 1 ∉ mid.map UInt64.toNat from hm post (prefix_refl _)
    intro mid
    induction mid using List.reverseRecOn with
    | nil => simp
    | append_singleton mid slot ih =>
      intro hm
      obtain ⟨hf, hs⟩ := ih ((prefix_append mid [slot]).trans hm)
      have hp : pre ++ start :: (mid ++ [slot]) <+: pre ++ start :: post :=
        (prefix_append_right_inj pre).2 ((cons_prefix_cons).2 ⟨rfl, hm⟩)
      have hsu := hp.subset
      have hn' := hnodup.sublist hp.sublist
      let block : ConfirmedBlock := ⟨"", "", 0, [], [], none, none⟩
      obtain ⟨queue, hi⟩ := insertAll_skipped
        (show (pre ++ start :: mid).Nodup from hn'.sublist (by simp))
        (fun slot hsl => hle slot (hsu (by grind))) hrun hs fun _ => some block
      have hse : ∀ k', IsRun start.toNat ((pre ++ start :: (mid ++ [slot])).map UInt64.toNat) k' →
          (insertAll (fun _ => some block) { sendingSlot := start }
            (pre ++ start :: mid ++ [slot])).1.length = k' := by
        intro k' hk'
        rw [append_assoc, cons_append, h _ _ hp k' hk', length_blocksOfRun]
      have hsl : start.toNat + k ≠ slot.toNat := by
        intro heq
        obtain ⟨k', hk'⟩ := IsRun.exists_length start.toNat
          ((pre ++ start :: (mid ++ [slot])).map UInt64.toNat)
        have hne : slot ≠ .ofNat (start.toNat + k + 1) := by
          intro hsa
          have := congrArg UInt64.toNat hsa
          rw [UInt64.toNat_ofNat'] at this
          have := slot.toNat_lt
          omega
        have hl := hse k' hk'
        rw [insertAll_of_ne hi hne, length_blocksOfRun] at hl
        exact hk'.notMem (by simp [← hl, heq])
      have hn : start.toNat + k + 1 ≠ slot.toNat := by
        intro heq
        have hsa : slot = .ofNat (start.toNat + k + 1) := by rw [heq, UInt64.ofNat_toNat]
        have hl := hse k (isRun_append hrun (by
          rw [map_append, map_singleton, mem_append, mem_singleton]
          exact not_or.2 ⟨hf, hsl⟩))
        rw [insertAll_concat, hi, hsa] at hl
        simp only [insertAndPrepareSend, ne_eq, not_true_eq_false, if_false] at hl
        simp [length_blocksOfRun, toPack] at hl
      simp only [map_append, map_cons, map_nil, mem_append, mem_singleton, not_or]
      exact ⟨⟨hf, hsl⟩, hs, hn⟩
  · intro h results pre' hpr k hk
    obtain ⟨rest, rfl⟩ := hpr
    by_cases hst : start ∈ pre'
    · obtain ⟨pre, post, rfl⟩ := append_of_mem hst
      obtain ⟨k', hrun⟩ := IsRun.exists_length start.toNat ((pre ++ [start]).map UInt64.toNat)
      obtain ⟨hf, hs⟩ := h pre (post ++ rest) k' (by simp) hrun
      rw [map_append, mem_append, not_or] at hf hs
      obtain ⟨queue, hi⟩ := insertAll_skipped hnodup.of_append_left
        (fun slot hsl => hle slot (mem_append_left _ hsl)) hrun hs.1 results
      rw [hi, (isRun_append hrun hf.1).unique hk]
    · obtain ⟨queue, hi, -⟩ := insertAll_before results hst
      rcases k.eq_zero_or_pos with rfl | hpo
      · rw [hi]
        rfl
      · obtain ⟨slot, hsl, heq⟩ := mem_map.1 (hk.mem 0 hpo)
        exact absurd (UInt64.toNat_inj.1 heq ▸ hsl) hst

theorem flushes_six_five :
    ([6, 5] : List Slot).Nodup ∧ ∀ results, FlushesRuns results 5 [6, 5] := by
  refine ⟨by decide, (flushesRuns_iff (by decide) (by simp)).2 ?_⟩
  intro pre post k hs _
  rcases pre with - | ⟨slot, - | ⟨slot', pre⟩⟩
  · simp at hs
  · simp_all
  · simp at hs

theorem six_skipped :
    let results : Slot → Option ConfirmedBlock := fun _ => some ⟨"", "", 0, [], [], none, none⟩
    (insertAll results { sendingSlot := 5 } [5, 6]).1.map ConfirmedBlockWithSlot.blockSlot = [5] ∧
      (insertAll results { sendingSlot := 5 } [5, 7, 6]).1.map ConfirmedBlockWithSlot.blockSlot =
        [5, 7] := by
  decide

end

end SendQueue

end Massbit.Solana
