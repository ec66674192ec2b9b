/-
The history of an entity in the store of an indexer: `versions_of_run`.
-/
import Massbit.IndexerApi.IndexerStore
import Massbit.Lib.Timeline
import Massbit.Postgres.RoundTrip

open List Option

namespace Massbit

namespace IndexerStore

/-- A call of `transactBlockOperations`. -/
structure Call where
  blockPtrTo : Solana.BlockPtr
  mods : List EntityModification

def timeline (calls : List Call) (r : EntityType × String) : Timeline ℤ Entity :=
  calls.filterMap fun call =>
    (call.mods.find? fun m => record m = r).map fun m => (call.blockPtrTo.number, m.data?)

structure History where
  db : Database
  calls : List Call

def History.step (store : IndexerStore) (self : History) (call : Call) : Option History :=
  match store.transactBlockOperations self.db call.blockPtrTo call.mods with
  | (.ok (), db) => some ⟨db, self.calls ++ [call]⟩
  | (_, _) => none

/-- What callers have to keep to: block numbers are `i32` and do not decrease, a call has one
modification of an entity, under the key of its id, and inserts only what is not there. -/
structure Allowed (h : History) (call : Call) : Prop where
  number_le : call.blockPtrTo.number ≤ blockNumberMax
  le_number : ∀ c ∈ h.calls, c.blockPtrTo.number ≤ call.blockPtrTo.number
  nodup : (call.mods.map record).Nodup
  keysMatch : KeysMatch call.mods
  insert_absent : ∀ key data, .insert key data ∈ call.mods →
    (timeline h.calls (key.entityType, key.entityId)).current = none

section History

variable {store : IndexerStore} {t : EntityType} {table : Table} {id : String} {d : Datum}

theorem timeline_concat (calls : List Call) (call : Call) (r : EntityType × String) :
    timeline (calls ++ [call]) r = timeline calls r ++
      ((call.mods.find? fun m => record m = r).map fun m =>
        (call.blockPtrTo.number, m.data?)).toList := by
  rw [timeline, filterMap_append, filterMap_cons, filterMap_nil]
  rcases call.mods.find? fun m => record m = r with - | m <;> rfl

variable {self : History} {call : Call}

theorem History.step_eq_some {h : History} (hs : self.step store call = some h) :
    ∃ a, store.applyEntityModifications self.db.tables call.mods call.blockPtrTo = .ok a ∧
      h.db.tables = a.1 ∧ h.calls = self.calls ++ [call] := by
  unfold step at hs
  split at hs
  next db ht =>
    cases hs
    unfold transactBlockOperations at ht
    split at ht
    · cases (Prod.mk.inj ht).1
    · have hb := transaction_eq_ok (congrArg Prod.fst ht)
      rw [ht] at hb
      obtain ⟨a, ha, hb⟩ := bind_eq_ok.1 hb
      refine ⟨a, ha, ?_, rfl⟩
      exact congrArg Database.tables (Prod.mk.inj (Outcome.ok.inj hb)).2.symm
  next => cases hs

theorem History.step_of_ok
    (h : (store.transactBlockOperations self.db call.blockPtrTo call.mods).1 = .ok ()) :
    self.step store call = some
      ⟨(store.transactBlockOperations self.db call.blockPtrTo call.mods).2,
        self.calls ++ [call]⟩ := by
  unfold step
  generalize store.transactBlockOperations self.db call.blockPtrTo call.mods = result at h
  obtain ⟨outcome, db⟩ := result
  obtain rfl : outcome = .ok () := h
  rfl

def asWritten (row : Row) : Row := ⟨row.cells, .since row.blockRange.lower⟩

variable (store table) in
def Holds (row : Row) (data : Entity) : Prop :=
  table.Writes store.lib row.blockRange.lower data (asWritten row)

variable {row : Row} {data : Entity}

theorem holds_of_writes {block : ℤ} (h : table.Writes store.lib block data row) :
    Holds store table row data := by
  have hr : asWritten row = row := by
    rw [asWritten, h.blockRange]
    exact congrArg (Row.mk row.cells) h.blockRange.symm
  have hl : row.blockRange.lower = block := by
    rw [h.blockRange]
    rfl
  rw [Holds, hr, hl]
  exact h

theorem Holds.clampTo (h : Holds store table row data) (b : ℤ) :
    Holds store table (row.clampTo b) data := by
  rw [Holds, asWritten, row.lower_clampTo, row.cells_clampTo]
  exact h

variable {now : ℤ}

theorem blockRange_clampTo {ti : Timeline ℤ Entity} {rows : Set Row}
    (h : Versions Row.blockRange (Holds store table) ti now rows) (hn : now ≤ blockNumberMax)
    (hr : row ∈ rows) :
    (row.clampTo now).blockRange = row.blockRange.clamp now := by
  rcases hu : row.blockRange.upper with - | u
  · have hc : row.isCurrent = true := by
      apply decide_eq_true
      refine ⟨(h.lower_le hr hu).trans hn, ?_⟩
      rw [hu]
      exact nofun
    rw [Row.clampTo, if_pos hc, Span.clamp, hu]
    rfl
  · have hc : ¬row.isCurrent = true := by
      intro hc
      have hlt := (of_decide_eq_true hc).2 u hu
      exact absurd ((h.upper_le hr hu).trans hn) (not_le.2 hlt)
    rw [Row.clampTo, if_neg hc, Span.clamp, hu]

theorem versions_step {rows rows' : Set Row} (hok : Allowed self call)
    (h : Versions Row.blockRange (Holds store table) (timeline self.calls (t, id))
      call.blockPtrTo.number rows) (he : Effect store table call.blockPtrTo
      (call.mods.find? fun m => record m = (t, id)) rows rows') :
    Versions Row.blockRange (Holds store table) (timeline (self.calls ++ [call]) (t, id))
      call.blockPtrTo.number rows' := by
  have hs : ∀ row ∈ rows, (row.clampTo call.blockPtrTo.number).blockRange
      = row.blockRange.clamp call.blockPtrTo.number := fun row hro =>
    blockRange_clampTo h hok.number_le hro
  have hh : ∀ row ∈ rows, ∀ data, Holds store table row data →
      Holds store table (row.clampTo call.blockPtrTo.number) data := fun _ _ _ hd =>
    hd.clampTo _
  rw [timeline_concat]
  rcases hf : call.mods.find? fun m => record m = (t, id) with - | m
  · rw [hf] at he
    obtain rfl : rows' = rows := he
    rw [map_none, toList_none, append_nil]
    exact h
  · have hm := mem_of_find?_eq_some hf
    have hre : record m = (t, id) := by simpa using List.find?_some hf
    rw [hf] at he
    cases m with
    | insert key data =>
      cases hre
      obtain ⟨ho, hn, row, hro, hwr⟩ : Adds _ _ _ _ rows rows' := he
      refine h.insert le_rfl (hok.insert_absent key data hm) ho ?_ ⟨row, hro, hwr.blockRange⟩
      exact fun r hr => (hn r hr).imp_right fun hw => ⟨hw.blockRange, holds_of_writes hw⟩
    | overwrite key data =>
      obtain ⟨ho, hn, row, hro, hwr⟩ : Adds _ _ _ _ _ rows' := he
      refine h.overwrite le_rfl hs hh ho ?_ ⟨row, hro, hwr.blockRange⟩
      exact fun r hr => (hn r hr).imp_right fun hw => ⟨hw.blockRange, holds_of_writes hw⟩
    | remove key =>
      obtain rfl : rows' = _ := he
      exact h.clamp le_rfl hs hh

variable {db : Database} (hempty : db.tables = fun _ => .empty) {calls : List Call} {h : History}
  (hrun : Run (History.step store) Allowed ⟨db, []⟩ calls h)
  (htable : store.layout.tables.lookup t = some table) (hbind : table.bindId id = .ok d)
  (has : NoAlias table t id (h.calls.flatMap Call.mods))

include hempty hrun htable hbind has

theorem versions_induction {P : List Call → Set Row → Prop} (hn : P [] ∅)
    (hst : ∀ {self : History} {call : Call} {rows rows' : Set Row}, Allowed self call →
      Effect store table call.blockPtrTo (call.mods.find? fun m => record m = (t, id)) rows rows' →
      P self.calls rows → P (self.calls ++ [call]) rows') :
    P h.calls (EntityTable.versions (h.db.tables table.qualifiedName) d) := by
  refine hrun.invariant (I := fun _ h => NoAlias table t id (h.calls.flatMap Call.mods) →
    P h.calls (EntityTable.versions (h.db.tables table.qualifiedName) d)) ?_ ?_ has
  · intro _
    have hr : EntityTable.versions (db.tables table.qualifiedName) d = ∅ := by
      rw [hempty]
      exact Set.eq_empty_of_forall_notMem fun row hro => not_mem_nil hro.1
    rw [hr]
    exact hn
  · intro _ self call h ih hok hs has
    obtain ⟨a, ha, ht, hc⟩ := History.step_eq_some hs
    rw [hc, flatMap_append] at has
    have ho : NoAlias table t id (self.calls.flatMap Call.mods) := fun m hm =>
      has m (mem_append_left _ hm)
    have hne : NoAlias table t id call.mods := fun m hm =>
      has m (mem_append_right _ (by simpa using hm))
    have he := applyEntityModifications_effect hbind hne htable hok.keysMatch hok.number_le
      hok.nodup ha
    rw [ht, hc]
    exact hst hok he (ih ho)

theorem versions_of_run (hn : ∀ call ∈ h.calls, call.blockPtrTo.number ≤ now) :
    Versions Row.blockRange (Holds store table) (timeline h.calls (t, id)) now
      (EntityTable.versions (h.db.tables table.qualifiedName) d) := by
  refine versions_induction hempty hrun htable hbind has (P := fun calls rows => ∀ now,
    (∀ call ∈ calls, call.blockPtrTo.number ≤ now) →
      Versions Row.blockRange (Holds store table) (timeline calls (t, id)) now rows)
    (fun now _ => .nil now) ?_ now hn
  intro self call rows rows' hok he ih now hn
  exact (versions_step hok (ih _ hok.le_number) he).mono (hn call (by simp))

end History

section Lookup

variable {store : IndexerStore} {table : Table} {d : Datum} {key : EntityKey}

variable (store table) in
def IsVersion (rows : EntityTable) (d : Datum) : Option (ℤ × Entity) → Option Row → Prop
  | none, found => found = none
  | some (block, data), found => ∃ row ∈ EntityTable.versions rows d, found = some row ∧
      row.blockRange.lower = block ∧ Holds store table row data

variable (store table) in
def readFound : Option Row → Outcome QueryExecutionError (Option Entity)
  | none => .ok none
  | some row => store.deserialize ⟨table.object, row.toJsonb store.lib table⟩

/-- The versions of an entity have no block in common, at most one goes on for ever, and a lookup
finds the version that the last modification until its block has written, if any. -/
structure TimeTravels (store : IndexerStore) (h : History) (table : Table) (key : EntityKey)
    (d : Datum) : Prop where
  disjoint : ((h.db.tables table.qualifiedName).rows.filter fun row =>
    row.cell primaryKeyColumn = d).Pairwise fun row row' =>
      ∀ b, ¬(row.blockRange.Contains b ∧ row'.blockRange.Contains b)
  unbounded : ((h.db.tables table.qualifiedName).rows.filter fun row =>
    row.cell primaryKeyColumn = d).Pairwise fun row row' =>
      ¬(row.blockRange.upper = none ∧ row'.blockRange.upper = none)
  find : ∀ isAccountLike b, ∃ found, IsVersion store table (h.db.tables table.qualifiedName) d
      ((timeline h.calls (key.entityType, key.entityId)).valueAt b) found ∧
    (FindQuery.mk { table with isAccountLike } key.entityId b).getResult store.lib
      (h.db.tables table.qualifiedName)
        = .ok (found.map fun row => ⟨table.object, row.toJsonb store.lib table⟩)
  get : store.conn = .ok () → ∃ found,
    IsVersion store table (h.db.tables table.qualifiedName) d
      ((timeline h.calls (key.entityType, key.entityId)).valueAt blockNumberMax) found ∧
    store.get h.db key = store.readFound table found

variable {rows : EntityTable}

theorem isVersion_find? {ti : Timeline ℤ Entity} {now : ℤ}
    (h : Versions Row.blockRange (Holds store table) ti now (EntityTable.versions rows d)) (b : ℤ) :
    IsVersion store table rows d (ti.valueAt b) (rows.find? d b) := by
  rcases hf : rows.find? d b with - | row
  · have hn : ti.valueAt b = none := by
      apply h.valueAt_eq_none_iff.2
      rintro row ⟨hr, hk⟩
      exact VersionedTable.find?_eq_none.1 hf row hr hk
    rw [hn]
    rfl
  · obtain ⟨hr, hk, hc⟩ := VersionedTable.find?_eq_some.1 hf
    obtain ⟨data, hv, hd⟩ := h.sound ⟨hr, hk⟩ hc
    rw [hv]
    exact ⟨row, ⟨hr, hk⟩, rfl, rfl, hd⟩

theorem getResult_eq_ok {id : String} (hbind : table.bindId id = .ok d) (b : ℤ) :
    (FindQuery.mk table id b).getResult store.lib rows
      = .ok ((rows.find? d b).map fun row => ⟨table.object, row.toJsonb store.lib table⟩) := by
  rw [FindQuery.getResult_eq, hbind]
  rfl

variable {db : Database}

theorem get_eq (hc : store.conn = .ok ())
    (htable : store.layout.tables.lookup key.entityType = some table)
    (hbind : table.bindId key.entityId = .ok d) : store.get db key
      = store.readFound table ((db.tables table.qualifiedName).find? d blockNumberMax) := by
  have hl : store.layout.tableForEntity key.entityType = .ok table :=
    Layout.tableForEntity_eq_ok.2 htable
  unfold get getConn
  rw [hc, hl]
  show (((FindQuery.mk table key.entityId blockNumberMax).getResult store.lib
    (db.tables table.qualifiedName)).mapErr QueryExecutionError.storeError >>= _) = _
  rw [getResult_eq_ok hbind]
  rcases (db.tables table.qualifiedName).find? d blockNumberMax with - | row <;> rfl

theorem number_le_of_run {calls : List Call} {h : History}
    (hrun : Run (History.step store) Allowed ⟨db, []⟩ calls h) :
    ∀ call ∈ h.calls, call.blockPtrTo.number ≤ blockNumberMax := by
  refine hrun.invariant (I := fun _ h => ∀ call ∈ h.calls,
    call.blockPtrTo.number ≤ blockNumberMax) nofun ?_
  intro _ self call h ih hok hs
  obtain ⟨-, -, -, hc⟩ := History.step_eq_some hs
  rw [hc, forall_mem_append, forall_mem_singleton]
  exact ⟨ih, hok.number_le⟩

/-- **After any calls that succeed, lookups travel in time**, for every entity whose id is a value
of the column that no modification gives in another way. -/
theorem timeTravels {db : Database} (hempty : db.tables = fun _ => .empty) {calls : List Call}
    {h : History} (hrun : Run (History.step store) Allowed ⟨db, []⟩ calls h)
    (htable : store.layout.tables.lookup key.entityType = some table)
    (hbind : table.bindId key.entityId = .ok d)
    (halias : NoAlias table key.entityType key.entityId (h.calls.flatMap Call.mods)) :
    TimeTravels store h table key d := by
  have hv := versions_of_run hempty hrun htable hbind halias (number_le_of_run hrun)
  have he : ((h.db.tables table.qualifiedName).rows.filter fun row =>
      row.cell primaryKeyColumn = d).Pairwise fun row row' =>
        ¬row.blockRange.Overlaps row'.blockRange := by
    refine ((h.db.tables table.qualifiedName).exclusive.filter _).imp_of_mem ?_
    intro row row' hrow hrow' hn hoverlaps
    have hkey : row.cell primaryKeyColumn = d := by simpa using (mem_filter.mp hrow).2
    have hkey' : row'.cell primaryKeyColumn = d := by simpa using (mem_filter.mp hrow').2
    exact hn ⟨hkey.trans hkey'.symm, hoverlaps⟩
  constructor
  · exact he.imp fun hn b hb => hn (hb.1.overlaps hb.2)
  · refine he.imp fun hn hb =>
      hn ⟨⟨le_max_left _ _, ?_⟩, le_max_right _ _, ?_⟩
    · rw [hb.1]
      exact nofun
    · rw [hb.2]
      exact nofun
  · intro isAccountLike b
    refine ⟨_, isVersion_find? hv b, ?_⟩
    have hb' : ({ table with isAccountLike } : Table).bindId key.entityId = .ok d := hbind
    exact getResult_eq_ok hb' b
  · intro hc
    exact ⟨_, isVersion_find? hv blockNumberMax, get_eq hc htable hbind⟩

end Lookup

section Examples

open EntityCache (token tokenKey)
open DeploymentStore (tokenTable tokenLayout tokenColumns tokenLibraries)

noncomputable def storeOf (lib : Libraries) (layout : DeployedLayout) (columns : List Column)
    (writes : List ((_ : EntityType) × List (EntityKey × Entity))) : IndexerStore where
  lib := lib
  conn := .ok ()
  layout := layout
  groupOrder := .preferAny ([] :: writes.map fun group => [group])
  removalOrder := .preferAny [[]]
  columnOrder := .prefer (columns.map fun c => ⟨c.name, c⟩)
  debugError _ := ""
  debugQueryError _ := ""

def emptyDatabase : Database := ⟨fun _ => .empty, [], []⟩

def aliceCall : Call := ⟨⟨"A", 3⟩, [.insert tokenKey (token (.string "alice"))]⟩

def bobCall : Call := ⟨⟨"B", 7⟩, [.overwrite tokenKey (token (.string "bob"))]⟩

noncomputable def tokenStore : IndexerStore :=
  storeOf tokenLibraries tokenLayout tokenColumns
    [⟨"Token", [(tokenKey, token (.string "alice"))]⟩,
      ⟨"Token", [(tokenKey, token (.string "bob"))]⟩]

noncomputable def aliceHistory : History :=
  ⟨(tokenStore.transactBlockOperations emptyDatabase aliceCall.blockPtrTo aliceCall.mods).2,
    [aliceCall]⟩

noncomputable def bobHistory : History :=
  ⟨(tokenStore.transactBlockOperations aliceHistory.db bobCall.blockPtrTo bobCall.mods).2,
    [aliceCall, bobCall]⟩

variable {ptr : Solana.BlockPtr}

theorem allowed_insert (hp : ptr.number ≤ blockNumberMax) {key : EntityKey} {data : Entity}
    (hid : data.id = .ok key.entityId) :
    Allowed ⟨emptyDatabase, []⟩ ⟨ptr, [.insert key data]⟩ where
  number_le := hp
  le_number := by simp
  nodup := nodup_singleton _
  keysMatch := by
    intro m hm data hd
    obtain rfl := mem_singleton.1 hm
    cases hd
    exact hid
  insert_absent _ _ _ := rfl

theorem allowed_overwrite (hp : ptr.number ≤ blockNumberMax) (hle : 3 ≤ ptr.number) :
    Allowed aliceHistory ⟨ptr, [.overwrite tokenKey (token (.string "bob"))]⟩ where
  number_le := hp
  le_number _ hc := mem_singleton.1 hc ▸ hle
  nodup := nodup_singleton _
  keysMatch := by
    intro m hm data hd
    obtain rfl := mem_singleton.1 hm
    cases hd
    rfl
  insert_absent _ _ hm := nomatch mem_singleton.1 hm

theorem run_aliceHistory :
    Run (History.step tokenStore) Allowed ⟨emptyDatabase, []⟩ [aliceCall] aliceHistory := by
  have ha : (tokenStore.transactBlockOperations emptyDatabase aliceCall.blockPtrTo
      aliceCall.mods).1 = .ok () := value?_eq_some.1 (by decide +kernel)
  exact Run.snoc (Run.nil ⟨emptyDatabase, []⟩) (allowed_insert (by decide) rfl)
    (History.step_of_ok ha)

theorem run_bobHistory :
    Run (History.step tokenStore) Allowed ⟨emptyDatabase, []⟩ [aliceCall, bobCall] bobHistory := by
  have hb : (tokenStore.transactBlockOperations aliceHistory.db bobCall.blockPtrTo
      bobCall.mods).1 = .ok () := value?_eq_some.1 (by decide +kernel)
  exact run_aliceHistory.snoc (allowed_overwrite (by decide) (by decide)) (History.step_of_ok hb)

theorem timeTravels_token :
    Run (History.step tokenStore) Allowed ⟨emptyDatabase, []⟩ [aliceCall, bobCall] bobHistory ∧
      (timeline bobHistory.calls ("Token", "0x1")).valueAt 5 = some (3, token (.string "alice")) ∧
      TimeTravels tokenStore bobHistory tokenTable tokenKey (.scalar (.text "0x1")) := by
  refine ⟨run_bobHistory, rfl, ?_⟩
  exact timeTravels rfl run_bobHistory (Finmap.lookup_insert _) (Table.bindId_string rfl _)
    (noAlias_of_string rfl _ _ _)

def transferCall : Call := ⟨⟨"C", 5⟩, [.insert (transferKey "dead") (transfer "dead")]⟩

noncomputable def transferStore : IndexerStore :=
  storeOf exactLibraries transferLayout transferColumns
    [⟨"Transfer", [(transferKey "dead", transfer "dead")]⟩]

noncomputable def transferHistory : History :=
  ⟨(transferStore.transactBlockOperations emptyDatabase transferCall.blockPtrTo
    transferCall.mods).2, [transferCall]⟩

theorem prefixed_key_found :
    Run (History.step transferStore) Allowed ⟨emptyDatabase, []⟩ [transferCall] transferHistory ∧
      timeline transferHistory.calls ("Transfer", "0xdead") = [] ∧
      transferTable.bindId "0xdead" = .ok (.scalar (.bytea [222, 173])) ∧
      (∃ data, (FindQuery.mk transferTable "0xdead" 5).getResult exactLibraries
        (transferHistory.db.tables transferTable.qualifiedName) = .ok (some data)) ∧
      ¬TimeTravels transferStore transferHistory transferTable (transferKey "0xdead")
        (.scalar (.bytea [222, 173])) := by
  have hok : (transferStore.transactBlockOperations emptyDatabase transferCall.blockPtrTo
      transferCall.mods).1 = .ok () := value?_eq_some.1 (by decide +kernel)
  have hrun := Run.snoc (Run.nil ⟨emptyDatabase, []⟩) (allowed_insert (by decide) rfl)
    (History.step_of_ok hok)
  have hs : ((FindQuery.mk transferTable "0xdead" 5).getResult exactLibraries
      (transferHistory.db.tables transferTable.qualifiedName)).value?.map Option.isSome
        = some true := by decide +kernel
  obtain ⟨data?, hd?, hi⟩ := map_eq_some_iff.1 hs
  obtain ⟨data, rfl⟩ := isSome_iff_exists.1 hi
  have hd := value?_eq_some.1 hd?
  refine ⟨hrun, rfl, value?_eq_some.1 (by decide), ⟨data, hd⟩, fun h => ?_⟩
  obtain ⟨f, hv, hf⟩ := h.find false 5
  obtain rfl : f = none := hv
  cases Outcome.ok.inj (hd.symm.trans hf)

end Examples

end IndexerStore

end Massbit
