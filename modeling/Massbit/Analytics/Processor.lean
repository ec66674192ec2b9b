/-
How far the analytics has come (`processor.rs`, `handler.rs`).
-/
import Massbit.Analytics.Scanner
import Massbit.Lib.Tasks
import Massbit.Solana.HandlerProxy

open List

namespace Massbit.Analytics

open Solana (Slot EncodedConfirmedBlock asI64)

inductive SolanaHandler where
  | rawBlock
  | rawTransaction
  | instruction
  | tokenBalance
  | statBlock
  deriving DecidableEq, Repr

def createSolanaHandlerManager : List SolanaHandler :=
  [.rawBlock, .rawTransaction, .instruction, .tokenBalance, .statBlock]

section

variable {H : Type*}

structure Processor (H : Type*) where
  channel : List EncodedConfirmedBlockWithSlot
  received : List EncodedConfirmedBlockWithSlot := []
  lastBlock : Slot
  gotBlock : Option ℤ
  handled : List (H × ℕ) := []

inductive ProcessorAction (H : Type*) where
  | recv
  | handleBlocks (index : ℕ) (blockSlot : Slot) (block : EncodedConfirmedBlock)
  | handleBlock (handler : H) (index : ℕ) (blockSlot : Slot) (block : EncodedConfirmedBlock)
  | updateState (blockSlot : Slot)

def Processor.updateState (self : Processor H) (blockSlot : Slot) (stored : Bool) : Processor H :=
  if self.lastBlock < blockSlot then
    { self with
      lastBlock := blockSlot
      gotBlock := if stored then some (asI64 blockSlot) else self.gotBlock }
  else self

def Processor.act (handlers : List H) (self : Processor H) (action : ProcessorAction H)
    (succeeds : Bool) : Option (TaskEffect (Processor H) (ProcessorAction H)) :=
  match action with
  | .recv =>
    match self.channel with
    | [] => none
    | data :: channel =>
      some
        { shared := { self with channel, received := self.received ++ [data] }
          next := [.recv]
          spawned := [[.handleBlocks self.received.length data.blockSlot data.block,
            .updateState data.blockSlot]] }
  | .handleBlocks index blockSlot block =>
    some
      { shared := self
        spawned := handlers.map fun handler => [.handleBlock handler index blockSlot block] }
  | .handleBlock handler index _ _ =>
    some
      { shared :=
          if succeeds then { self with handled := self.handled ++ [(handler, index)] } else self }
  | .updateState blockSlot => some { shared := self.updateState blockSlot succeeds }

def processSolanaChannel (block : Option UInt64) (gotBlock : Option ℤ)
    (channel : List EncodedConfirmedBlockWithSlot) : Tasks (Processor H) (ProcessorAction H) where
  shared := { channel, lastBlock := block.getD 0, gotBlock }
  pending := [[.recv]]

/-- Every block that was received, up to the stored slot, was handled by every handler. -/
def Processor.Sound (handlers : List H) (self : Processor H) : Prop :=
  ∀ got, self.gotBlock = some got → ∀ index block, self.received[index]? = some block →
    (block.blockSlot.toNat : ℤ) ≤ got → ∀ handler ∈ handlers, (handler, index) ∈ self.handled

/-- The block is behind the stored slot, and its own slot is not stored, or as a negative number. -/
def Harmless (block : Option UInt64) (gotBlock : Option ℤ) (slot : Slot) : Prop :=
  (∀ got, gotBlock = some got → got < slot.toNat) ∧ (slot ≤ block.getD 0 ∨ 2 ^ 63 ≤ slot.toNat)

variable {handlers : List H} {block : Option UInt64} {gotBlock : Option ℤ}
  {channel : List EncodedConfirmedBlockWithSlot}

structure Covers (block : Option UInt64) (gotBlock : Option ℤ) (s : Processor H) : Prop where
  received : ∀ data ∈ s.received, Harmless block gotBlock data.blockSlot
  channel : ∀ data ∈ s.channel, Harmless block gotBlock data.blockSlot
  lastBlock : block.getD 0 ≤ s.lastBlock
  gotBlock : s.gotBlock = gotBlock ∨ ∃ got < 0, s.gotBlock = some got

variable {s : Processor H} {slot : Slot}

theorem Covers.updateState (h : Covers block gotBlock s) (hs : Harmless block gotBlock slot)
    (st : Bool) :
    Covers block gotBlock (s.updateState slot st) := by
  by_cases hlt : s.lastBlock < slot
  · have hl : block.getD 0 < slot := UInt64.lt_of_le_of_lt h.lastBlock hlt
    have hla : 2 ^ 63 ≤ slot.toNat := hs.2.resolve_left (UInt64.not_le.2 hl)
    rw [Processor.updateState, if_pos hlt]
    refine ⟨h.received, h.channel, UInt64.le_of_lt hl, ?_⟩
    cases st with
    | false => exact h.gotBlock
    | true =>
      -- the cast makes it negative
      have hneg : asI64 slot < 0 := by
        have hs := slot.toNat_lt
        rw [Solana.asI64_eq, if_neg (by omega)]
        omega
      exact .inr ⟨_, hneg, rfl⟩
  · rw [Processor.updateState, if_neg hlt]
    exact h

def ProcessorAction.Keeps (block : Option UInt64) (gotBlock : Option ℤ) :
    ProcessorAction H → Prop
  | .updateState slot => Harmless block gotBlock slot
  | .recv | .handleBlocks .. | .handleBlock .. => True

theorem Covers.act (h : Covers block gotBlock s) {a : ProcessorAction H}
    (hac : a.Keeps block gotBlock) {ss : Bool} {e : TaskEffect (Processor H) (ProcessorAction H)}
    (ha : s.act handlers a ss = some e) :
    Covers block gotBlock e.shared ∧
      (∀ b ∈ e.next, ProcessorAction.Keeps block gotBlock b) ∧
      Tasks.All (ProcessorAction.Keeps block gotBlock) e.spawned := by
  have hni : ∀ b ∈ ([] : List (ProcessorAction H)), b.Keeps block gotBlock := nofun
  have hn : Tasks.All (ProcessorAction.Keeps block gotBlock)
    ([] : List (List (ProcessorAction H))) := nofun
  cases a with
  | recv =>
    rcases hc : s.channel with - | ⟨data, channel⟩
    · simp only [Processor.act, hc, reduceCtorEq] at ha
    · simp only [Processor.act, hc, Option.some.injEq] at ha
      subst ha
      have hda : Harmless block gotBlock data.blockSlot :=
        h.channel data (hc ▸ mem_cons_self)
      refine ⟨⟨?_, ?_, h.lastBlock, h.gotBlock⟩, ?_, ?_⟩
      · intro d hd
        rcases mem_append.mp hd with hd | hd
        · exact h.received d hd
        · obtain rfl := mem_singleton.mp hd
          exact hda
      · exact fun d hd => h.channel d (hc ▸ mem_cons_of_mem _ hd)
      · intro b hb
        obtain rfl := mem_singleton.mp hb
        trivial
      · intro task ht b hb
        obtain rfl := mem_singleton.mp ht
        rcases mem_pair.mp hb with rfl | rfl
        · trivial
        · exact hda
  | handleBlocks i slot b =>
    cases ha
    refine ⟨h, hni, fun task ht b hb => ?_⟩
    obtain ⟨han, -, rfl⟩ := mem_map.mp ht
    obtain rfl := mem_singleton.mp hb
    trivial
  | handleBlock han i slot b =>
    cases ha
    refine ⟨?_, hni, hn⟩
    cases ss with
    | true => exact ⟨h.received, h.channel, h.lastBlock, h.gotBlock⟩
    | false => exact h
  | updateState slot =>
    cases ha
    exact ⟨h.updateState hac ss, hni, hn⟩

theorem Covers.sound (h : Covers block gotBlock s) : s.Sound handlers := by
  intro got hg i data hd hle
  exfalso
  have hh := h.received data (mem_of_getElem? hd)
  rcases h.gotBlock with hs | ⟨neg, hn, hst⟩
  · exact absurd (hh.1 got (hs ▸ hg)) (not_lt.2 hle)
  · obtain rfl := Option.some.inj (hst.symm.trans hg)
    omega

theorem sound_of_harmless (h : ∀ data ∈ channel, Harmless block gotBlock data.blockSlot)
    {ls : List (ℕ × Bool)} {p : Tasks (Processor H) (ProcessorAction H)}
    (hr : Run (Tasks.step (Processor.act handlers)) (fun _ _ => True)
      (processSolanaChannel block gotBlock channel) ls p) : p.shared.Sound handlers := by
  have hst : Covers block gotBlock
      (processSolanaChannel (H := H) block gotBlock channel).shared :=
  ⟨nofun, h, UInt64.le_refl _, .inl rfl⟩
  have hp : Tasks.All (ProcessorAction.Keeps block gotBlock)
      (processSolanaChannel (H := H) block gotBlock channel).pending := by
    intro task ht b hb
    obtain rfl := mem_singleton.1 ht
    obtain rfl := mem_singleton.1 hb
    trivial
  apply (Tasks.invariant hr hst hp ?_).1.sound
  intro s a ss e hs ha hac
  exact hs.act ha hac

def blockTasks (H : Type*) (blocks : List EncodedConfirmedBlockWithSlot) :
    List (List (ProcessorAction H)) :=
  blocks.mapIdx fun index data =>
    [.handleBlocks index data.blockSlot data.block, .updateState data.blockSlot]

theorem run_recv (handlers : List H) (block : Option UInt64) (gotBlock : Option ℤ)
    (f rest : List EncodedConfirmedBlockWithSlot) :
    ∃ ls, Run (Tasks.step (Processor.act handlers)) (fun _ _ => True)
      (processSolanaChannel block gotBlock (f ++ rest)) ls
      { shared := { channel := rest, received := f, lastBlock := block.getD 0, gotBlock }
        pending := [.recv] :: blockTasks H f } := by
  induction f using List.reverseRecOn generalizing rest with
  | nil => exact ⟨[], .nil _⟩
  | append_singleton f data ih =>
    obtain ⟨ls, hr⟩ := ih (data :: rest)
    rw [append_assoc]
    refine ⟨ls ++ [(0, true)], .snoc hr trivial ?_⟩
    rw [Tasks.step_of_getElem? rfl rfl, blockTasks, blockTasks, mapIdx_concat]
    rfl

theorem run_blockTask (handlers : List H) {p : List (List (ProcessorAction H))} {ind i : ℕ}
    {b : EncodedConfirmedBlock} (hi : p[i]? = some [.handleBlocks ind slot b, .updateState slot]) :
    ∃ ls p', Run (Tasks.step (Processor.act handlers)) (fun _ _ => True) ⟨s, p⟩ ls
      ⟨s.updateState slot true, p'⟩ := by
  have hlt : i < p.length := (List.getElem?_eq_some_iff.1 hi).1
  have hn : (p.set i [.updateState slot] ++ handlers.map fun h => [.handleBlock h ind slot b])[i]? =
      some [.updateState slot] := by
    rw [List.getElem?_append_left (by rwa [length_set]), List.getElem?_set_self hlt]
  exact ⟨[(i, true), (i, true)], _, .cons trivial (Tasks.step_of_getElem? hi rfl)
    (.cons trivial (Tasks.step_of_getElem? hn rfl) (.nil _))⟩

variable {f rest : List EncodedConfirmedBlockWithSlot} {data : EncodedConfirmedBlockWithSlot}

theorem not_sound_of_le (hh : handlers ≠ []) {got : ℤ} (hle : (data.blockSlot.toNat : ℤ) ≤ got) :
    ∃ ls p, Run (Tasks.step (Processor.act handlers)) (fun _ _ => True)
      (processSolanaChannel block (some got) (f ++ data :: rest)) ls p ∧
      ¬p.shared.Sound handlers := by
  obtain ⟨h, hha⟩ := exists_mem_of_ne_nil handlers hh
  obtain ⟨ls, hr⟩ := run_recv handlers block (some got) (f ++ [data]) rest
  rw [append_assoc] at hr
  refine ⟨ls, _, hr, fun hs => ?_⟩
  have hhn := hs got rfl f.length data List.getElem?_concat_length hle h hha
  exact not_mem_nil hhn

theorem not_sound_of_lt (hh : handlers ≠ []) (hl : block.getD 0 < data.blockSlot)
    (hsm : data.blockSlot.toNat < 2 ^ 63) :
    ∃ ls p, Run (Tasks.step (Processor.act handlers)) (fun _ _ => True)
      (processSolanaChannel block gotBlock (f ++ data :: rest)) ls p ∧
      ¬p.shared.Sound handlers := by
  obtain ⟨h, hha⟩ := exists_mem_of_ne_nil handlers hh
  obtain ⟨ls, hr⟩ := run_recv handlers block gotBlock (f ++ [data]) rest
  rw [append_assoc] at hr
  have ht : ([.recv] :: blockTasks H (f ++ [data]))[f.length + 1]? =
      some [.handleBlocks f.length data.blockSlot data.block, .updateState data.blockSlot] := by
    rw [List.getElem?_cons_succ, blockTasks, mapIdx_concat]
    simp
  obtain ⟨ls', p', hr'⟩ := run_blockTask handlers ht
  refine ⟨_, _, hr.append hr', fun hs => ?_⟩
  rw [Processor.updateState, if_pos hl] at hs
  have hc : asI64 data.blockSlot = data.blockSlot.toNat := by
    rw [Solana.asI64_eq, if_pos hsm]
  have hhn := hs (asI64 data.blockSlot) rfl f.length data
    List.getElem?_concat_length hc.ge h hha
  exact not_mem_nil hhn

/-- **The stored slot is sound in all interleavings if and only if it never covers a block**, or
there is no handler: nothing waits for the handlers. -/
theorem watermark_sound_iff (handlers : List H) (block : Option UInt64) (gotBlock : Option ℤ)
    (channel : List EncodedConfirmedBlockWithSlot) :
    (∀ ls p, Run (Tasks.step (Processor.act handlers)) (fun _ _ => True)
        (processSolanaChannel block gotBlock channel) ls p → p.shared.Sound handlers) ↔
      handlers = [] ∨ ∀ data ∈ channel, Harmless block gotBlock data.blockSlot := by
  constructor
  · intro hs
    by_contra hn
    obtain ⟨hh, hha⟩ := not_or.1 hn
    push Not at hha
    obtain ⟨data, hd, hha⟩ := hha
    obtain ⟨f, rest, rfl⟩ := append_of_mem hd
    by_cases hl : data.blockSlot ≤ block.getD 0 ∨ 2 ^ 63 ≤ data.blockSlot.toNat
    · have hg : ¬∀ got, gotBlock = some got → got < data.blockSlot.toNat := fun hg => hha ⟨hg, hl⟩
      push Not at hg
      obtain ⟨got, rfl, hle⟩ := hg
      obtain ⟨ls, p, hr, hp⟩ := not_sound_of_le hh hle
      exact hp (hs ls p hr)
    · rw [not_or, UInt64.not_le, not_le] at hl
      obtain ⟨ls, p, hr, hp⟩ := not_sound_of_lt hh hl.1 hl.2
      exact hp (hs ls p hr)
  · rintro (rfl | hhr) ls p hr
    · exact fun _ _ _ _ _ _ _ hhn => absurd hhn not_mem_nil
    · exact sound_of_harmless hhr hr

end

theorem watermark_before_handlers :
    ∃ ls p, Run (Tasks.step (Processor.act createSolanaHandlerManager)) (fun _ _ => True)
        (processSolanaChannel (some 5) (some 4) [⟨6, emptyBlock 5⟩]) ls p ∧
      p.shared.gotBlock = some 6 ∧ p.shared.handled = [] ∧
      ¬p.shared.Sound createSolanaHandlerManager := by
  refine ⟨[(0, true), (1, true), (1, true)], _, .of_foldlM rfl, rfl, rfl, fun hs => ?_⟩
  exact not_mem_nil (hs 6 rfl 0 _ rfl (by decide) .rawBlock mem_cons_self)

end Massbit.Analytics
