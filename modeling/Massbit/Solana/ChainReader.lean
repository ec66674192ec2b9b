/-
The two readers of the chain compared: the reader of one stream (`decode_and_filter` in
`solana_chain.rs`), which accepts every transaction when its filter has no keys, and the broadcast to
registered indexers, which accepts none.
-/
import Massbit.Solana.Broadcast
import Massbit.Solana.History

open List

namespace Massbit.Solana

def decodeAndFilter (decode : Decoder) (filter : SolanaFilter)
    (block : EncodedConfirmedBlock) : Outcome String (Option ConfirmedBlock) := do
  let decodeBlock ← decodeEncodedBlock decode block
  let filteredBlock := filter.filterBlock decodeBlock
  return if filteredBlock.transactions.isEmpty then none else some filteredBlock

namespace IndexerBroadcast

variable {indexer : IndexerInfo}

theorem mergedBlocks_of_keys_eq_nil {ins : List IndexerInfo} {hash : String}
    (h : ∀ indexer ∈ ins, indexer.hash = hash → indexer.filter.keys = [])
    (bs : List ConfirmedBlockWithSlot) : mergedBlocks ins bs hash = [] := by
  refine filterMap_eq_nil_iff.2 fun b _ => ?_
  have hc : ∀ tran, copies ins hash tran = [] := fun tran =>
    copies_eq_nil_iff.2 fun indexer hi hh => by
      simp [SolanaFilter.isMatch, h indexer hi hh]
  rcases e : b.block with - | rb
  · simp [mergedBlock, e]
  · simp [mergedBlock, e, hc]

theorem getElem?_sendBlocks {fb : FilteredBlocks}
    {ins result : List IndexerInfo} (h : sendBlocks fb ins = .ok result)
    (hn : fb.lookup indexer.hash = none) {i : ℕ} (hi : ins[i]? = some indexer) :
    result[i]? = some indexer := by
  induction ins generalizing fb result i with
  | nil => simp at hi
  | cons f ins ih =>
    rcases e : fb.lookup f.hash with - | bs
    · obtain ⟨rest, hr, rfl⟩ := (sendBlocks_cons_none e).1 h
      rcases i with - | i
      · simpa using hi
      · simpa using ih hr hn (by simpa using hi)
    · obtain ⟨br, -, rest, hr, rfl⟩ := (sendBlocks_cons_some e).1 h
      rcases i with - | i
      · rw [Option.some.inj hi, hn] at e
        cases e
      · have hne : indexer.hash ≠ f.hash := fun heq => by
          rw [← heq, hn] at e
          cases e
        simpa using ih hr ((Finmap.lookup_erase_ne hne).trans hn) (by simpa using hi)

/-- The reader of a stream accepts all transactions if its filter has no keys, but a registration
without keys receives what its filter lets through **if and only if** there are no transactions. -/
theorem receives_empty_filter_iff (decode : Decoder) (order : BlockOrder)
    {self self' : IndexerBroadcast} {blocks : List ConfirmedBlockWithSlot}
    (h : self.broadcastBlocks order blocks = .ok self') {i : ℕ} {indexer' : IndexerInfo}
    (hindexer : self.openIndexers[i]? = some indexer)
    (hindexer' : self'.indSenders[i]? = some indexer')
    (hkeys : ∀ other ∈ self.openIndexers, other.hash = indexer.hash → other.filter.keys = []) :
    (∀ encoded, decodeAndFilter decode indexer.filter encoded = do
      let block ← decodeEncodedBlock decode encoded
      return if block.transactions.isEmpty then none else some block) ∧
    (indexer.Receives (indexer.filter.filterBlocks blocks) indexer' ↔ transactionsOf blocks = []) := by
  have he : indexer.filter.keys = [] := hkeys indexer (mem_of_getElem? hindexer) rfl
  have hf : ∀ block, indexer.filter.filterBlock block = block := fun block => by
    simp [SolanaFilter.filterBlock, he]
  have hfilter_nil : indexer.filter.filterBlocks blocks = [] ↔ transactionsOf blocks = [] := by
    simp only [SolanaFilter.filterBlocks, hf, filterMap_eq_nil_iff, transactionsOf,
      flatMap_eq_nil_iff]
    refine forall₂_congr fun block _ => ?_
    rcases block.block with - | rb
    · simp
    · simp
  obtain ⟨fb, hc, hb⟩ := exists_broadcastBlocks_eq order self blocks
  rw [hb] at h
  obtain ⟨ins, hi, rfl⟩ := Outcome.bind_pure_eq_ok.1 h
  have hn : fb.lookup indexer.hash = none := by
    rw [hc, mergedBlocks_of_keys_eq_nil hkeys, if_pos rfl]
  obtain rfl : indexer = indexer' :=
    Option.some.inj ((getElem?_sendBlocks hi hn hindexer).symm.trans hindexer')
  refine ⟨fun encoded => by simp only [decodeAndFilter, hf], ?_⟩
  rw [← hfilter_nil]
  refine ⟨fun hr => hr.eq_nil, fun hni => ?_⟩
  rw [hni]
  exact .refl indexer

def withoutAddress : IndexerBroadcast :=
  registerIndexer (fun _ => some (SolanaFilter.new [])) {} "x" [] ⟨false, []⟩

theorem broadcastBlocks_withoutAddress (order : BlockOrder) (bs : List ConfirmedBlockWithSlot) :
    withoutAddress.broadcastBlocks order bs = .ok withoutAddress := by
  obtain ⟨fb, hc, hb⟩ := exists_broadcastBlocks_eq order withoutAddress bs
  have hn : fb.lookup "x" = none := by
    rw [hc, mergedBlocks_of_keys_eq_nil (by decide), if_pos rfl]
  rw [hb]
  exact Outcome.bind_pure_eq_ok.2 ⟨_, (sendBlocks_cons_none hn).2 ⟨[], rfl, rfl⟩, rfl⟩

theorem receives_no_transactions : ∃ indexer, withoutAddress.openIndexers[0]? = some indexer ∧
      indexer.Receives (indexer.filter.filterBlocks [slotFive []]) indexer := by
  refine ⟨_, rfl, ((receives_empty_filter_iff (fun _ => none) (.prefer [])
    (broadcastBlocks_withoutAddress _ [slotFive []]) (i := 0) rfl rfl ?_).2).2 rfl⟩
  decide

theorem transaction_not_received :
    withoutAddress.broadcastBlocks (.prefer []) [slotFive [zeroTran (some zeroMeta)]]
      = .ok withoutAddress ∧
    (withoutAddress.openIndexers.map fun indexer =>
      (indexer.filter.filterBlocks [slotFive [zeroTran (some zeroMeta)]], indexer.sender.received))
      = [([slotFive [zeroTran (some zeroMeta)]], [])] :=
  ⟨broadcastBlocks_withoutAddress _ _, by decide⟩

end IndexerBroadcast

end Massbit.Solana
