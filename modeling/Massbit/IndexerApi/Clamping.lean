/-
Block ranges that end where they start.
-/
import Massbit.IndexerApi.TimeTravel

open Option

namespace Massbit.IndexerStore

open EntityCache (token tokenKey)
open DeploymentStore (tokenTable)

variable {store : IndexerStore} {t : EntityType} {table : Table} {id : String} {d : Datum}

theorem isEmpty_iff_of_adds {bl : ℤ} {data : Entity} {b a : Set Row}
    (h : Adds store.lib table bl data b a) :
    (∃ row ∈ a, row.blockRange.IsEmpty) ↔ ∃ row ∈ b, row.blockRange.IsEmpty := by
  obtain ⟨ho, hn, -⟩ := h
  constructor
  · rintro ⟨row, hr, he⟩
    rcases hn row hr with hr | hw
    · exact ⟨row, hr, he⟩
    · rw [hw.blockRange] at he
      exact absurd he (Span.not_isEmpty_since bl)
  · rintro ⟨row, hr, he⟩
    exact ⟨row, ho hr, he⟩

theorem isEmpty_step {self : History} {call : Call} {rows rows' : Set Row} (hok : Allowed self call)
    (h : Versions Row.blockRange (Holds store table) (timeline self.calls (t, id))
      call.blockPtrTo.number rows) (he : Effect store table call.blockPtrTo
      (call.mods.find? fun m => record m = (t, id)) rows rows')
    (ih : (∃ row ∈ rows, row.blockRange.IsEmpty) ↔ ¬(timeline self.calls (t, id)).Lasting) :
    (∃ row ∈ rows', row.blockRange.IsEmpty) ↔
      ¬Timeline.Lasting (timeline (self.calls ++ [call]) (t, id)) := by
  have hi := h.isEmpty_image_iff le_rfl (f := Row.clampTo call.blockPtrTo.number)
    fun row hro => blockRange_clampTo h hok.number_le hro
  rw [timeline_concat]
  rcases hf : call.mods.find? fun m => record m = (t, id) with - | m
  · rw [hf] at he
    obtain rfl : rows' = rows := he
    rw [map_none, toList_none, List.append_nil]
    exact ih
  · have hm := List.mem_of_find?_eq_some hf
    have hr : record m = (t, id) := by simpa using List.find?_some hf
    rw [hf] at he
    rw [map_some, toList_some, Timeline.lasting_concat, not_and_or, not_not, ← ih]
    cases m with
    | insert key data =>
      cases hr
      -- an entity that is not there has no version to end
      have hn : ¬∃ v, (timeline self.calls (key.entityType, key.entityId)).current
          = some (call.blockPtrTo.number, v) := by
        rw [hok.insert_absent key data hm]
        exact nofun
      exact (isEmpty_iff_of_adds he).trans (or_iff_left hn).symm
    | overwrite key data => exact (isEmpty_iff_of_adds he).trans hi
    | remove key =>
      obtain rfl : rows' = _ := he
      exact hi

/-- **No version of an entity has an empty block range** after calls that succeed, exactly if none
is ended at the block at which it was written. -/
theorem noEmpty_iff {db : Database} (hempty : db.tables = fun _ => .empty) {calls : List Call}
    {h : History} (hrun : Run (History.step store) Allowed ⟨db, []⟩ calls h)
    (htable : store.layout.tables.lookup t = some table) (hbind : table.bindId id = .ok d)
    (halias : NoAlias table t id (h.calls.flatMap Call.mods)) :
    (∀ row ∈ (h.db.tables table.qualifiedName).rows, row.cell primaryKeyColumn = d →
      ¬row.blockRange.IsEmpty) ↔ (timeline h.calls (t, id)).Lasting := by
  have hi := versions_induction hempty hrun htable hbind halias (P := fun calls rows =>
    (∀ now, (∀ call ∈ calls, call.blockPtrTo.number ≤ now) →
      Versions Row.blockRange (Holds store table) (timeline calls (t, id)) now rows) ∧
    ((∃ row ∈ rows, row.blockRange.IsEmpty) ↔ ¬(timeline calls (t, id)).Lasting))
    ⟨fun now _ => .nil now, by simp [timeline, Timeline.Lasting]⟩ ?_
  · rw [← not_iff_not, ← hi.2]
    simp only [not_forall, not_not, EntityTable.versions, Set.mem_ofPred_eq, and_assoc, exists_prop]
  · intro self call rows rows' hok he ih
    have hv := ih.1 _ hok.le_number
    refine ⟨fun now hn => ?_, isEmpty_step hok hv he ih.2⟩
    exact (versions_step hok hv he).mono (hn call (by simp))

theorem noEmpty_token :
    Run (History.step tokenStore) Allowed ⟨emptyDatabase, []⟩ [aliceCall, bobCall] bobHistory ∧
      ∀ row ∈ (bobHistory.db.tables tokenTable.qualifiedName).rows,
        row.cell primaryKeyColumn = .scalar (.text "0x1") → ¬row.blockRange.IsEmpty := by
  refine ⟨run_bobHistory, ?_⟩
  rw [noEmpty_iff rfl run_bobHistory (Finmap.lookup_insert _) (Table.bindId_string rfl "0x1")
    (noAlias_of_string rfl _ _ _)]
  refine List.isChain_pair.2 ?_
  decide

def againCall : Call := ⟨⟨"A", 3⟩, [.overwrite tokenKey (token (.string "bob"))]⟩

noncomputable def againHistory : History :=
  ⟨(tokenStore.transactBlockOperations aliceHistory.db againCall.blockPtrTo againCall.mods).2,
    [aliceCall, againCall]⟩

theorem empty_range_left :
    Run (History.step tokenStore) Allowed ⟨emptyDatabase, []⟩ [aliceCall, againCall] againHistory ∧
    ∃ row ∈ (againHistory.db.tables tokenTable.qualifiedName).rows,
      row.blockRange = ⟨3, some 3⟩ ∧ row.blockRange.IsEmpty := by
  have ha : (tokenStore.transactBlockOperations aliceHistory.db againCall.blockPtrTo
      againCall.mods).1 = .ok () := value?_eq_some.1 (by decide +kernel)
  refine ⟨run_aliceHistory.snoc (allowed_overwrite (by decide) (by decide))
    (History.step_of_ok ha), ?_⟩
  have han : (againHistory.db.tables tokenTable.qualifiedName).rows.any
      (fun row => row.blockRange = ⟨3, some 3⟩) = true := by decide +kernel
  obtain ⟨row, hro, hr⟩ := List.any_eq_true.1 han
  have heq := of_decide_eq_true hr
  exact ⟨row, hro, heq, heq ▸ ⟨3, rfl, le_rfl⟩⟩

end Massbit.IndexerStore
