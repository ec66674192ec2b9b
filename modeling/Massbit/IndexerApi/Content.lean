/-
What the lookups of the latest block return: the entity that the last modification of each key has
left (`serves_of_run`).
-/
import Massbit.IndexerApi.EntityCache
import Massbit.IndexerApi.TimeTravel

open List

namespace Massbit

namespace IndexerStore

open Std (TreeMap)

variable {store : IndexerStore} {r : Option Entity} {db : Database}

theorem get_eq_ok {key : EntityKey} (h : store.get db key = .ok r) :
    ∃ t d, store.layout.tables.lookup key.entityType = some t ∧
      t.bindId key.entityId = .ok d ∧
      store.readFound t ((db.tables t.qualifiedName).find? d blockNumberMax) = .ok r := by
  have hg := h
  obtain ⟨⟨⟩, hc, h⟩ := bind_eq_ok.1 h
  obtain ⟨t, ht, h⟩ := bind_eq_ok.1 h
  obtain ⟨data?, hda, -⟩ := bind_eq_ok.1 h
  have hc : store.conn = .ok () := ofExcept_eq_ok.1 (mapErr_eq_ok.1 hc)
  rw [mapErr_eq_ok, ofExcept_eq_ok] at ht
  replace ht := Layout.tableForEntity_eq_ok.1 ht
  rw [mapErr_eq_ok] at hda
  obtain ⟨d, hd, -⟩ := bind_eq_ok.1 hda
  refine ⟨t, d, ht, hd, ?_⟩
  rw [← get_eq hc ht hd]
  exact hg

theorem readFound_eq_ok {t : Table} {row : Row} (h : store.readFound t (some row) = .ok r) :
    ∃ e, row.read store.lib store.layout.toLayout t = .ok e ∧ r = some e := by
  obtain ⟨e, he, h⟩ := bind_eq_ok.1 h
  exact ⟨e, mapErr_eq_ok.1 he, (Outcome.ok.inj h).symm⟩

variable {t : EntityType} {data : List EntityData} {e : Entity}

theorem mem_foldlM_pushEntity {r : TreeMap EntityType (List Entity)}
    (h : data.foldlM store.pushEntity ∅ = .ok r) :
    (∃ es, r[t]? = some es ∧ e ∈ es) ↔
      ∃ x ∈ data, x.entity = t ∧
        x.deserializeWithLayout store.lib store.layout.toLayout = .ok e := by
  refine foldlM_invariant h (I := fun data r => (∃ es, r[t]? = some es ∧ e ∈ es) ↔
    ∃ x ∈ data, x.entity = t ∧
      x.deserializeWithLayout store.lib store.layout.toLayout = .ok e) (by simp) ?_
  intro pre x r r' _ hI hs
  obtain ⟨e', he', rfl⟩ := bind_pure_eq_ok.1 hs
  simp only [mem_append, mem_singleton, or_and_right, exists_or, exists_eq_left]
  rw [← hI, TreeMap.getElem?_insert, TreeMap.getD_eq_getD_getElem?]
  by_cases ht : x.entity = t
  · subst ht
    simp only [Std.compare_self, if_true, Option.some.injEq, exists_eq_left', mem_append,
      mem_singleton, true_and, he', Outcome.ok.injEq, @eq_comm _ e']
    rcases r[x.entity]? with - | es <;> simp
  · simp [ht]

theorem mem_loadTable {q : FindManyQuery} {t : Table} (hb : q.block = blockNumberMax)
    (h : q.loadTable store.lib db.tables t = .ok data) :
    ∃ is ds, q.idsForType[t.object]? = some is ∧
      List.Forall₂ (fun i d => t.bindId i = .ok d) is ds ∧
      ∀ x, x ∈ data ↔ ∃ row ∈ (db.tables t.qualifiedName).rows,
        row.cell primaryKeyColumn ∈ ds ∧ row.blockRange.Contains blockNumberMax ∧
          x = ⟨t.object, row.toJsonb store.lib t⟩ := by
  obtain ⟨is, his, h⟩ := bind_eq_ok.1 h
  obtain ⟨ds, hds, rfl⟩ := bind_pure_eq_ok.1 h
  refine ⟨is, ds, ofOption_eq_ok.1 his, Outcome.mapM_eq_ok.1 hds, fun x => ?_⟩
  simp only [mem_map, mem_filter, Table.blockRangeContains_eq, hb, Bool.and_eq_true,
    decide_eq_true_eq]
  constructor
  · rintro ⟨row, ⟨hrow, hcell, hcontains⟩, rfl⟩
    exact ⟨row, hrow, hcell, hcontains, rfl⟩
  · rintro ⟨row, hrow, hcell, hcontains, rfl⟩
    exact ⟨row, ⟨hrow, hcell, hcontains⟩, rfl⟩

variable {db : Database} {ids : TreeMap EntityType (List String)}
  {r : TreeMap EntityType (List Entity)}

theorem getMany_eq_ok (h : store.getMany db ids = .ok r) :
    ∃ tables data, List.Forall₂ (fun t ta => store.layout.tables.lookup t = some ta)
        ids.keys tables ∧
      List.Forall₂ (fun ta data => (FindManyQuery.mk tables ids blockNumberMax).loadTable
        store.lib db.tables ta = .ok data) tables data ∧
      data.flatten.foldlM store.pushEntity ∅ = .ok r := by
  unfold getMany at h
  split at h
  next hempty =>
    refine ⟨[], [], ?_, .nil, h⟩
    rw [TreeMap.isEmpty_iff_forall_not_mem] at hempty
    rw [eq_nil_iff_forall_not_mem.mpr fun t ht => hempty t (TreeMap.mem_keys.mp ht)]
    exact .nil
  next =>
    obtain ⟨-, -, h⟩ := bind_eq_ok.1 h
    obtain ⟨tables, ht, h⟩ := bind_eq_ok.1 h
    obtain ⟨flat, hf, h⟩ := bind_eq_ok.1 h
    obtain ⟨data, hd, rfl⟩ := bind_pure_eq_ok.1 hf
    refine ⟨tables, data, ?_, Outcome.mapM_eq_ok.1 hd, h⟩
    refine (Outcome.mapM_eq_ok.mp ht).imp fun t ta ht => ?_
    exact Layout.tableForEntity_eq_ok.mp (ofExcept_eq_ok.mp ht)

theorem getMany_sound (h : store.getMany db ids = .ok r) {es : List Entity} (hes : r[t]? = some es)
    (he : e ∈ es) :
    ∃ ta is i row, store.layout.tables.lookup t = some ta ∧ ids[t]? = some is ∧ i ∈ is ∧
      row ∈ (db.tables ta.qualifiedName).rows ∧
      ta.bindId i = .ok (row.cell primaryKeyColumn) ∧
      row.blockRange.Contains blockNumberMax ∧
      row.read store.lib store.layout.toLayout ta = .ok e := by
  obtain ⟨tables, data, hta, hd, hf⟩ := getMany_eq_ok h
  obtain ⟨x, hx, rfl, hr⟩ := (mem_foldlM_pushEntity hf).1 ⟨es, hes, he⟩
  obtain ⟨xs, hxs, hx⟩ := mem_flatten.1 hx
  obtain ⟨ta, htb, hl⟩ := hd.flip.exists_of_mem hxs
  obtain ⟨t, -, ht⟩ := hta.flip.exists_of_mem htb
  obtain ⟨is, ds, his, hds, hm⟩ := mem_loadTable rfl hl
  obtain ⟨row, hro, hce, hc, rfl⟩ := (hm x).1 hx
  obtain ⟨i, hi, hb⟩ := hds.flip.exists_of_mem hce
  exact ⟨ta, is, i, row, store.layout.lookup_object ht, his, hi, hro, hb, hc, hr⟩

variable {i : String}

theorem getMany_complete (h : store.getMany db ids = .ok r) {is : List String}
    (his : ids[t]? = some is) (hi : i ∈ is) :
    ∃ ta d, store.layout.tables.lookup t = some ta ∧ ta.bindId i = .ok d ∧
      ∀ row ∈ (db.tables ta.qualifiedName).rows, row.cell primaryKeyColumn = d →
        row.blockRange.Contains blockNumberMax → ∃ es e,
          row.read store.lib store.layout.toLayout ta = .ok e ∧ r[t]? = some es ∧ e ∈ es := by
  obtain ⟨tables, data, hta, hda, hf⟩ := getMany_eq_ok h
  have ht : t ∈ ids.keys := by
    rw [TreeMap.mem_keys, TreeMap.mem_iff_isSome_getElem?, his]
    rfl
  obtain ⟨ta, htb, hl⟩ := hta.exists_of_mem ht
  obtain ⟨xs, hxs, hlo⟩ := hda.exists_of_mem htb
  obtain ⟨is', ds, his', hds, hm⟩ := mem_loadTable rfl hlo
  have ho := store.layout.object_eq hl
  rw [ho] at his'
  obtain rfl := Option.some.inj (his.symm.trans his')
  obtain ⟨d, hd, hb⟩ := hds.exists_of_mem hi
  refine ⟨ta, d, hl, hb, fun row hro hce hc => ?_⟩
  have hx := (hm _).2 ⟨row, hro, hce ▸ hd, hc, rfl⟩
  have hfl := mem_flatten.2 ⟨xs, hxs, hx⟩
  -- all rows were read
  obtain ⟨e, he⟩ : ∃ e, row.read store.lib store.layout.toLayout ta = .ok e := by
    apply Outcome.foldlM_of_mem hfl hf
    · intro s s' hs
      obtain ⟨e, he, -⟩ := bind_eq_ok.1 hs
      exact ⟨e, he⟩
    · exact fun _ _ _ _ hr _ => hr
  obtain ⟨es, hes, hm⟩ := (mem_foldlM_pushEntity hf).2 ⟨_, hfl, ho, he⟩
  exact ⟨es, e, he, hes, hm⟩

variable (store) in
def reads (db : Database) : IndexerApi.StoreReads := ⟨store.get db, store.getMany db⟩

def content (calls : List Call) (t : EntityType) (i : String) : Option Entity :=
  (timeline calls (t, i)).current.map fun w => w.2.stored

theorem content_concat (calls : List Call) (call : Call) (t : EntityType) (i : String) :
    content (calls ++ [call]) t i = (call.mods.find? fun m => record m = (t, i)).elim
      (content calls t i) fun m => m.data?.map Entity.stored := by
  rw [content, timeline_concat]
  rcases call.mods.find? fun m => record m = (t, i) with - | m
  · rw [Option.map_none, Option.toList_none, append_nil]
    rfl
  · rw [Option.map_some, Option.toList_some, Timeline.current_concat]
    show Option.map _ (Timeline.written (_, m.data?)) = m.data?.map Entity.stored
    rcases m.data? with - | data <;> rfl

variable (store) in
def Tells (calls : List Call) (t : EntityType) (i : String) : Prop :=
  ∀ table, store.layout.tables.lookup t = some table → NoAlias table t i (calls.flatMap Call.mods)

variable (store) in
def KeepsAll (calls : List Call) : Prop :=
  ∀ call ∈ calls, ∀ m ∈ call.mods, ∀ data, m.data? = some data → ∀ table,
    store.layout.tables.lookup m.entityKey.entityType = some table → table.Keeps store.lib data

variable {calls : List Call}

theorem mem_timeline {e : ℤ × Option Entity} (h : e ∈ timeline calls (t, i)) :
    ∃ call ∈ calls, ∃ m ∈ call.mods, record m = (t, i) ∧ m.data? = e.2 := by
  obtain ⟨call, hc, he⟩ := mem_filterMap.1 h
  obtain ⟨m, hf, rfl⟩ := Option.map_eq_some_iff.1 he
  have hrecord : record m = (t, i) := by simpa using List.find?_some hf
  exact ⟨call, hc, m, mem_of_find?_eq_some hf, hrecord, rfl⟩

theorem keysMatch_of_run {db₀ : Database} {h : History}
    (hrun : Run (History.step store) Allowed ⟨db₀, []⟩ calls h) :
    ∀ call ∈ h.calls, KeysMatch call.mods := by
  refine hrun.invariant (I := fun _ h => ∀ call ∈ h.calls, KeysMatch call.mods)
    nofun ?_
  intro _ self call h ih hok hs
  obtain ⟨-, -, -, hc⟩ := History.step_eq_some hs
  rw [hc, forall_mem_append, forall_mem_singleton]
  exact ⟨ih, hok.keysMatch⟩

section Serves

variable {db₀ : Database} (hempty : db₀.tables = fun _ => .empty) {calls : List Call} {h : History}
  (hrun : Run (History.step store) Allowed ⟨db₀, []⟩ calls h) (hs : store.KeepsAll h.calls)

include hempty hrun hs

variable {t : EntityType} {ta : Table} {i : String}

theorem content_of_row {row : Row} {e : Entity} (hte : store.Tells h.calls t i)
    (ht : store.layout.tables.lookup t = some ta)
    (hb : ta.bindId i = .ok (row.cell primaryKeyColumn))
    (hro : row ∈ (h.db.tables ta.qualifiedName).rows) (hc : row.blockRange.Contains blockNumberMax)
    (hre : row.read store.lib store.layout.toLayout ta = .ok e) :
    content h.calls t i = some e.untyped ∧ e.id = .ok i := by
  have hv := versions_of_run hempty hrun ht hb (hte ta ht) (number_le_of_run hrun)
  obtain ⟨data, hva, hd⟩ := hv.sound ⟨hro, rfl⟩ hc
  -- the version has not ended
  have hup : row.blockRange.upper = none := by
    rw [Option.eq_none_iff_forall_ne_some]
    intro u hu
    exact absurd (hc.2 u hu) (not_lt.2 (hv.upper_le ⟨hro, rfl⟩ hu))
  have hra : asWritten row = row := by
    obtain ⟨cs, l, up⟩ := row
    obtain rfl : up = none := hup
    rfl
  rw [Holds, hra] at hd
  obtain ⟨call, hca, m, hm, hr, hmd⟩ := mem_timeline (Timeline.mem_of_valueAt hva)
  cases hr
  have hun := hd.untyped_of_keeps (store.layout.deployed ht)
    (store.layout.lookup_object ht) (hs call hca m hm data hmd ta ht) hre
  rw [Timeline.valueAt_eq_current fun ev he => hv.time_le he] at hva
  constructor
  · rw [content, hva, hun]
    rfl
  · rw [← Entity.id_untyped, hun, Entity.id_stored]
    exact keysMatch_of_run hrun call hca m hm data hmd

omit hs in
theorem exists_row_of_content {d : Datum} {c : Entity} (hte : store.Tells h.calls t i)
    (ht : store.layout.tables.lookup t = some ta) (hb : ta.bindId i = .ok d)
    (hc : content h.calls t i = some c) :
    ∃ row ∈ (h.db.tables ta.qualifiedName).rows, row.cell primaryKeyColumn = d ∧
      row.blockRange.Contains blockNumberMax := by
  have hv := versions_of_run hempty hrun ht hb (hte ta ht) (number_le_of_run hrun)
  obtain ⟨w, hw, -⟩ := Option.map_eq_some_iff.1 hc
  rw [← Timeline.valueAt_eq_current fun e he => hv.time_le he] at hw
  obtain ⟨row, ⟨hr, hce⟩, hco⟩ := hv.complete hw
  exact ⟨row, hr, hce, hco⟩

/-- **The reads of the latest block return the content.** -/
theorem serves_of_run (ii : DeploymentHash) :
    IndexerApi.EntityCache.Serves (store.reads h.db) ii (content h.calls)
      (store.Tells h.calls) where
  get := by
    intro t i r hte hg
    obtain ⟨ta, d, ht, hb, hr⟩ := get_eq_ok hg
    rcases hf : (h.db.tables ta.qualifiedName).find? d blockNumberMax with - | row
    · rw [hf] at hr
      obtain rfl : none = r := Outcome.ok.inj hr
      rcases hc : content h.calls t i with - | c
      · rfl
      · obtain ⟨row, hro, hcell, hco⟩ :=
          exists_row_of_content hempty hrun hte ht hb hc
        exact absurd hco (VersionedTable.find?_eq_none.mp hf row hro hcell)
    · obtain ⟨hro, rfl, hco⟩ := VersionedTable.find?_eq_some.mp hf
      rw [hf] at hr
      obtain ⟨e, he, rfl⟩ := readFound_eq_ok hr
      exact (content_of_row hempty hrun hs hte ht hb hro hco he).1.symm
  sound := by
    intro ids r t es e hid hm hes he
    obtain ⟨ta, is, i, row, ht, his, hi, hro, hb, hco, hr⟩ :=
      getMany_sound hm hes he
    have hte := hid his hi
    obtain ⟨hcontent, hid⟩ :=
      content_of_row hempty hrun hs hte ht hb hro hco hr
    exact ⟨i, hte, hid, hcontent⟩
  complete := by
    intro ids r t is i c hid hm his hi hc
    have hte := hid his hi
    obtain ⟨ta, d, ht, hb, ha⟩ := getMany_complete hm his hi
    obtain ⟨row, hro, rfl, hco⟩ :=
      exists_row_of_content hempty hrun hte ht hb hc
    obtain ⟨es, e, hr, hes, he⟩ := ha row hro rfl hco
    exact ⟨es, e, hes, he,
      (content_of_row hempty hrun hs hte ht hb hro hco hr).2⟩

end Serves

end IndexerStore

end Massbit
