/-
The chain reader as a whole.
-/
import Massbit.Solana.Broadcast
import Massbit.Solana.GetBlock

namespace Massbit.Solana

variable {d : Decoder} {a : Slot → BlockAnswer}

theorem metadata_of_mem_sentBlocks {ss : List Slot} {tran : TransactionWithStatusMeta}
    (h : tran ∈ transactionsOf (sentBlocks d a ss)) : tran.metadata.isSome := by
  obtain ⟨b, hb, rb, hr, ht⟩ := mem_transactionsOf.1 h
  obtain ⟨slot, -, hb⟩ := List.mem_flatMap.1 hb
  rw [task] at hb
  split at hb
  next b' hg =>
    obtain rfl := List.mem_singleton.1 hb
    exact metadata_of_getBlock hg hr ht
  next => cases hb
  next => cases hb

/-- **From the node to the indexers.** If the adapter polls without underflow and the answers are
readable, each indexer receives what its filter keeps of the blocks of all requested slots, in
order. -/
theorem indexers_receive (o : BlockOrder) {ans : List SlotAnswer} {s : ChainAdapter}
    (hru : Run ChainAdapter.step (fun s a => ¬s.Underflows a) {} ans s)
    (hr : ∀ slot ∈ s.requested, Readable (a slot)) {first : Slot}
    (hf : .send (.blockSlot first) ∈ s.effects) {arrivals : List ConfirmedBlockWithSlot}
    (ha : arrivals.Perm (sentBlocks d a s.requested)) {self : IndexerBroadcast}
    (hs : IndexerBroadcast.Distinct self.indSenders) (hn : self.blockBuffer = {}) :
    ∃ bs self', bs.Perm arrivals ∧
      bs.map ConfirmedBlockWithSlot.blockSlot = s.requested ∧
      self.tryRecvAll o (BlockBuffer.messages first arrivals) = .ok self' ∧
      AllReceive bs self.indSenders self'.indSenders := by
  obtain ⟨hsl, hp⟩ := released_in_order hru hr hf ha
  have hre : self.blockBuffer.handleAll (BlockBuffer.messages first arrivals)
      = BlockBuffer.receive first arrivals := by
    rw [hn]
    rfl
  have hm : ∀ tran ∈ transactionsOf (BlockBuffer.receive first arrivals).1,
      tran.metadata.isSome := by
    intro tran ht
    have hse : tran ∈ transactionsOf (sentBlocks d a s.requested) :=
      ((hp.trans ha).flatMap_right _).mem_iff.1 ht
    exact metadata_of_mem_sentBlocks hse
  obtain ⟨self', hs', -, hrc⟩ := hs.exists_tryRecvAll o
    (BlockBuffer.messages first arrivals) (hre ▸ hm)
  rw [hre] at hrc
  exact ⟨_, self', hp, hsl, hs', hrc⟩

open IndexerBroadcast (zeroTran zeroMeta)

def blockSix : ConfirmedBlockWithSlot :=
  ⟨6, some ⟨"a", "b", 4, [zeroTran (some { zeroMeta with innerInstructions := some [] })], [],
    none, none⟩⟩

theorem indexers_receive_five_six : ∃ s bs self',
    Run ChainAdapter.step (fun s a => ¬s.Underflows a) {} [.ok 105, .ok 107] s ∧
    (IndexerBroadcast.registered ["x", "y"]).tryRecvAll (.prefer [])
      (BlockBuffer.messages 5 [blockSix, ⟨5, none⟩]) = .ok self' ∧
    bs.map ConfirmedBlockWithSlot.blockSlot = [5, 6] ∧
    AllReceive bs (IndexerBroadcast.registered ["x", "y"]).indSenders self'.indSenders := by
  obtain ⟨s, hr, hf, hq⟩ : ∃ s, Run ChainAdapter.step (fun s a => ¬s.Underflows a) {}
      [.ok 105, .ok 107] s ∧ .send (.blockSlot 5) ∈ s.effects ∧ s.requested = [5, 6] :=
    ⟨_, .cons (by decide) rfl (.cons (by decide) rfl (.nil _)), by decide, by decide⟩
  -- the node does not have the block of slot 5
  let a : Slot → BlockAnswer := fun slot =>
    if slot = 5 then .error "" else .ok ⟨"a", "b", 4,
      [⟨"", some ⟨.ok (), 0, [], [], some [], none, none, none, none⟩⟩], [], none, none⟩
  have ha : ∀ slot ∈ s.requested, Readable (a slot) := by
    rw [hq]
    intro slot hslot b hb t ht
    rcases (by simpa using hslot : slot = 5 ∨ slot = 6) with rfl | rfl
    · cases hb
    · cases hb
      obtain rfl := List.mem_singleton.1 ht
      exact ⟨_, rfl, [], rfl, nofun⟩
  have hp : List.Perm [blockSix, ⟨5, none⟩]
      (sentBlocks (fun _ => some (zeroTran none).transaction) a s.requested) :=
    hq ▸ .swap _ _ _
  have hd : IndexerBroadcast.Distinct (IndexerBroadcast.registered ["x", "y"]).indSenders :=
    ⟨by decide, by simp [IndexerBroadcast.registered, IndexerBroadcast.registerIndexer], by decide⟩
  obtain ⟨bs, self', -, hb, hs, ha⟩ := indexers_receive (.prefer []) hr ha hf hp hd rfl
  exact ⟨s, bs, self', hr, hs, hb.trans hq, ha⟩

end Massbit.Solana
