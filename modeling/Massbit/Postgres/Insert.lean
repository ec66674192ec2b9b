/-
The statements that insert a batch of entities (`Layout::insert`, `InsertQuery`).
-/
import Massbit.Postgres.DeploymentStore
import Mathlib.Algebra.Group.Action.Defs

open List

namespace Massbit

variable {lib : Libraries}

inductive InsertItem where
  | value (e : SqlExpr)
  | blockRange (range : BlockRange)

structure InsertStatement where
  columns : List SqlName
  rows : List (List InsertItem)

def SqlExpr.binds : SqlExpr → ℕ
  | .null => 0
  | .bind _ | .castNumeric _ | .castNumericArray _ | .castEnum _ _ | .castEnumArray _ _ => 1

def InsertItem.binds : InsertItem → ℕ
  | value e => e.binds
  | blockRange _ => 1

def InsertStatement.binds (self : InsertStatement) : ℕ :=
  (self.rows.map fun row => (row.map InsertItem.binds).sum).sum

variable (lib) in
def InsertQuery.statement (self : InsertQuery) : Outcome StoreError InsertStatement := do
  let values ← self.walkAst lib
  return ⟨self.uniqueColumns.map Column.name ++ [blockRangeColumn],
    values.map fun row => row.map .value ++ [.blockRange (.since self.block)]⟩

/-- The statement for a chunk: a row for each entity, with an expression for each listed column,
which are those of all their attributes. -/
structure InsertQuery.Writes (lib : Libraries) (table : Table) (block : ℤ) (query : InsertQuery)
    (values : List (List SqlExpr)) : Prop where
  statement : query.statement lib = .ok ⟨query.uniqueColumns.map Column.name ++ [blockRangeColumn],
    values.map fun row => row.map .value ++ [.blockRange (.since block)]⟩
  columns_nodup : (query.uniqueColumns.map Column.name).Nodup
  rows : List.Forall₂ (fun x row =>
    List.Forall₂ (fun c e => columnValue lib x.2 c = .ok e) query.uniqueColumns row)
      query.entities values
  listed : ∀ x ∈ query.entities, ∀ c ∈ table.columns, (x.2.lookup c.field).isSome →
    c ∈ query.uniqueColumns
  binds_le : ∀ statement, query.statement lib = .ok statement →
    statement.binds ≤ postgresMaxParameters

theorem InsertItem.binds_le (item : InsertItem) : item.binds ≤ 1 := by
  rcases item with (- | - | - | - | - | -) | - <;> simp [binds, SqlExpr.binds]

theorem InsertStatement.binds_le {self : InsertStatement} {n : ℕ}
    (h : ∀ row ∈ self.rows, row.length ≤ n) : self.binds ≤ self.rows.length * n := by
  have hr : ∀ m ∈ self.rows.map fun row => (row.map InsertItem.binds).sum, m ≤ n := by
    intro m hm
    obtain ⟨row, hr, rfl⟩ := mem_map.mp hm
    have hs := sum_le_card_nsmul (row.map InsertItem.binds) 1 fun k hk => by
      obtain ⟨item, -, rfl⟩ := mem_map.mp hk
      exact item.binds_le
    rw [length_map, smul_eq_mul, mul_one] at hs
    exact hs.trans (h row hr)
  have hs := sum_le_card_nsmul _ n hr
  rwa [length_map, smul_eq_mul] at hs

section

variable {order : Finmap.IterOrder fun _ : SqlName => Column} {table : Table}

theorem InsertQuery.length_uniqueColumnsOf (es : List (EntityKey × Entity)) :
    (uniqueColumnsOf order table es).length ≤ table.columns.length :=
  ((nodup_uniqueColumnsOf es).of_map.subperm fun _ hc =>
    mem_columns_of_mem_uniqueColumnsOf hc).length_le

theorem InsertQuery.writes (hd : table.Deployed) {chunk : List (EntityKey × Entity)} {block : ℤ}
    (hsi : chunk.length ≤ table.chunkSize) {query : InsertQuery}
    (hq : new order table chunk block = .ok query) {values : List (List SqlExpr)}
    (hv : query.walkAst lib = .ok values) :
    query.entities = chunk ∧ query.Writes lib table block values := by
  unfold new at hq
  split at hq
  · cases hq
  cases hq
  have hr := Outcome.mapM_eq_ok.1 hv
  have hs : statement lib _ = .ok _ := bind_pure_eq_ok.2 ⟨values, hv, rfl⟩
  refine ⟨rfl, hs, nodup_uniqueColumnsOf chunk, hr.imp fun _ _ h => Outcome.mapM_eq_ok.1 h,
    fun x hx c hc h => mem_uniqueColumnsOf hd hx hc h, fun statement h => ?_⟩
  obtain rfl := Outcome.ok.inj (hs.symm.trans h)
  have hl : ∀ row ∈ values.map fun row =>
      row.map InsertItem.value ++ [.blockRange (.since block)],
      row.length ≤ table.columns.length + 1 := by
    intro row hm
    obtain ⟨row, hro, rfl⟩ := mem_map.1 hm
    obtain ⟨x, -, hx⟩ := hr.flip.exists_of_mem hro
    have heq : (uniqueColumnsOf order table chunk).length = _ := (Outcome.mapM_eq_ok.1 hx).length_eq
    have hle : (uniqueColumnsOf order table chunk).length ≤ _ := length_uniqueColumnsOf chunk
    simp only [length_append, length_map, length_singleton]
    omega
  calc _ ≤ (values.map _).length * (table.columns.length + 1) := InsertStatement.binds_le hl
    _ = values.length * (table.columns.length + 1) := by rw [length_map]
    _ ≤ table.chunkSize * (table.columns.length + 1) := Nat.mul_le_mul_right _ (hr.length_eq ▸ hsi)
    _ ≤ postgresMaxParameters := Nat.div_mul_le_self _ _

/-- The rows after the statements. -/
def executeAll (lib : Libraries) (queries : List InsertQuery) (rows : EntityTable) :
    Outcome StoreError EntityTable :=
  queries.foldlM (fun rows query => Prod.fst <$> query.getResults lib rows) rows

theorem executeAll_concat {queries : List InsertQuery} {query : InsertQuery}
    {rows rows' : EntityTable} {result : EntityTable × ℕ}
    (hq : executeAll lib queries rows = .ok rows') (hr : query.getResults lib rows' = .ok result) :
    executeAll lib (queries ++ [query]) rows = .ok result.1 := by
  rw [executeAll, foldlM_append]
  refine bind_eq_ok.2 ⟨rows', hq, ?_⟩
  rw [foldlM_cons, hr]
  rfl

/-- An insertion executes a statement for each chunk of the batch, one after the other, and returns
the number of entities. -/
theorem Layout.insert_statements {layout : DeployedLayout} {tables : EntityTables}
    {entityType : EntityType} {entities : List (EntityKey × Entity)} {block : ℤ}
    {result : EntityTables × ℕ}
    (h : layout.insert lib order tables entityType entities block = .ok result) :
    ∃ table, layout.tables.lookup entityType = some table ∧ ∃ queries : List InsertQuery,
      List.Forall₂ (fun chunk query => InsertQuery.new order table chunk block = .ok query)
        (entities.chunks table.chunkSize) queries ∧
      (queries.map InsertQuery.entities).flatten = entities ∧
      (∀ query ∈ queries, ∃ values, query.Writes lib table block values) ∧
      (∃ rows, executeAll lib queries (tables table.qualifiedName) = .ok rows ∧
        result.1 = Function.update tables table.qualifiedName rows) ∧
      result.2 = entities.length := by
  obtain ⟨table, ht, h⟩ := bind_eq_ok.mp h
  replace ht := Layout.tableForEntity_eq_ok.mp (ofExcept_eq_ok.mp ht)
  split at h
  · cases h
  next hsi =>
    obtain ⟨acc, ha, rfl⟩ := bind_pure_eq_ok.mp h
    obtain ⟨queries, hqu, he, hw, hx, hc⟩ := foldlM_invariant ha
      (I := fun chunks acc => ∃ queries : List InsertQuery,
        List.Forall₂ (fun chunk query => InsertQuery.new order table chunk block = .ok query)
          chunks queries ∧ queries.map InsertQuery.entities = chunks ∧
        (∀ query ∈ queries, ∃ values, query.Writes lib table block values) ∧
        executeAll lib queries (tables table.qualifiedName) = .ok acc.1 ∧
        acc.2 = chunks.flatten.length)
      ⟨[], .nil, rfl, nofun, rfl, rfl⟩ (by
        rintro pre chunk acc acc' hch ⟨queries, hqu, he, hw, hx, hc⟩ hs
        obtain ⟨query, hqr, hs⟩ := bind_eq_ok.mp hs
        obtain ⟨result, hr, rfl⟩ := bind_pure_eq_ok.mp hs
        have hx' := executeAll_concat hx hr
        obtain ⟨values, hv, hr⟩ := bind_eq_ok.mp hr
        obtain ⟨rows, -, rfl⟩ := bind_pure_eq_ok.mp hr
        have hl := length_le_of_mem_chunks (Nat.pos_of_ne_zero hsi)
          (hch chunk (mem_append_right _ (mem_singleton_self _)))
        obtain ⟨rfl, hw'⟩ := InsertQuery.writes (layout.deployed ht) hl
          (ofExcept_eq_ok.mp hqr) hv
        refine ⟨queries ++ [query], rel_append hqu (.cons (ofExcept_eq_ok.mp hqr) .nil),
          by rw [map_append, he]; rfl, fun q hq => ?_, hx', ?_⟩
        · rcases mem_append.mp hq with hq | hq
          · exact hw q hq
          · obtain rfl := mem_singleton.mp hq
            exact ⟨values, hw'⟩
        · rw [flatten_append, flatten_singleton, length_append, ← hc,
            hw'.rows.length_eq])
    rw [chunks_flatten] at hc
    exact ⟨table, ht, queries, hqu, by rw [he, chunks_flatten], hw, ⟨acc.1, hx, rfl⟩, hc⟩

end

open EntityCache (token tokenKey)
open DeploymentStore (tokenLayout tokenLibraries tokenStore)

def twoTokens : List (EntityKey × Entity) :=
  [(tokenKey, token (.string "bob")),
    ({ tokenKey with entityId := "2" }, (token (.string "eve")).insert "id" (.string "2"))]

theorem insert_bob_eve_statements : ∃ result, tokenLayout.insert tokenLibraries
    (tokenStore []).columnOrder (fun _ => .empty) "Token" twoTokens 5 =
      .ok result ∧ result.2 = 2 := by
  have hs : (tokenLayout.insert tokenLibraries (tokenStore []).columnOrder (fun _ => .empty)
      "Token" twoTokens 5).value?.isSome := by decide
  obtain ⟨result, hresult⟩ := Option.isSome_iff_exists.mp hs
  have h := value?_eq_some.mp hresult
  obtain ⟨table, -, queries, -, -, -, -, hcount⟩ := Layout.insert_statements h
  exact ⟨result, h, hcount⟩

end Massbit
