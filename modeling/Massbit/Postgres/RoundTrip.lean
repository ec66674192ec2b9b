/-
Which entities a table gives back as they were inserted.
-/
import Massbit.Data.Decimal
import Massbit.Postgres.Query

open List

namespace Massbit

inductive ColumnType.HasValue : ColumnType → Value → Prop
  | boolean (b : Bool) : HasValue .boolean (.bool b)
  | bigDecimal {d : BigDecimal} (h : d.IsNormalized) : HasValue .bigDecimal (.bigDecimal d)
  | bigInt (i : ℤ) : HasValue .bigInt (.bigInt i)
  | bytes (bs : Bytes) : HasValue .bytes (.bytes bs)
  | int (i : Int32) : HasValue .int (.int i)
  | string (s : String) : HasValue .string (.string s)
  | enum {type : EnumType} {s : String} (h : s ∈ type.values) : HasValue (.enum type) (.string s)
  | bytesId {s : String} {bs : Bytes} (h : Bytes.fromStr s = .ok bs) : HasValue .bytesId (.string s)

def Column.HasValue (c : Column) (v : Value) : Prop :=
  if c.isList then ∃ vs, v = .list vs ∧ ∀ x ∈ vs, c.columnType.HasValue x
  else c.columnType.HasValue v

/-- The attributes of the entity have columns, and values for them. -/
structure Table.WellTyped (table : Table) (entity : Entity) : Prop where
  exists_column : ∀ {a v}, entity.stored.lookup a = some v → ∃ c ∈ table.columns, c.field = a
  hasValue : ∀ {c v}, c ∈ table.columns → entity.lookup c.field = some v → v ≠ .null → c.HasValue v

/-- Postgres stores and prints numbers as they were given, a JSON number keeps its text, and the
libraries write and read numbers alike. -/
structure Libraries.Exact (lib : Libraries) : Prop where
  castNumeric_bigInt : ∀ i : ℤ, lib.castNumeric (toString i) = .ok (toString i)
  castNumeric_bigDecimal : ∀ d : BigDecimal, d.IsNormalized →
    lib.castNumeric d.display = .ok d.display
  number_text : ∀ s, (lib.number s).text = s
  bigDecimalToString : ∀ d, lib.bigDecimalToString d = d.display
  bigDecimalFromStr : ∀ {d d' : BigDecimal}, d.IsNormalized →
    BigDecimal.fromStr d.display = some d' → lib.bigDecimalFromStr d.display = .ok d'
  bigIntFromStr : ∀ {i i' : ℤ}, BigInt.fromStr (toString i) = some i' →
    lib.bigIntFromStr (toString i) = .ok i'

def idBytes (s : String) : Bytes :=
  match Bytes.fromStr s with
  | .ok bs => bs
  | .error _ => []

namespace ColumnType

def toScalar : ColumnType → Value → Scalar
  | _, .bool b => .boolean b
  | _, .bigDecimal d => .numeric d.display
  | _, .bigInt i => .numeric (toString i)
  | _, .bytes bs => .bytea bs
  | _, .int i => .integer i
  | .enum _, .string s => .enum s
  | .bytesId, .string s => .bytea (idBytes s)
  | _, .string s => .text s
  | _, .list _ | _, .null => .text ""

def reread : ColumnType → Value → Value
  | .bytesId, .string s => .string (Bytes.encode (idBytes s))
  | _, v => v

/-- The value is read as it was written. -/
def IsCanonical (columnType : ColumnType) (v : Value) : Prop :=
  ∀ s, columnType = .bytesId → v = .string s → ∃ bs, s = Bytes.encode bs

variable {lib : Libraries} {ct : ColumnType} {v : Value}

theorem HasValue.idBytes {s : String} (h : HasValue .bytesId (.string s)) :
    Bytes.fromStr s = .ok (idBytes s) := by
  cases h with
  | bytesId h => rw [Massbit.idBytes, h]

theorem HasValue.ne_list (h : ct.HasValue v) (vs : List Value) : v ≠ .list vs := by
  cases h <;> exact nofun

theorem HasValue.hasType (h : ct.HasValue v) :
    (ct.toScalar v).hasType ct = true := by
  cases h with
  | enum h => exact decide_eq_true h
  | _ => rfl

theorem HasValue.reread_eq_self (h : ct.HasValue v) :
    ct.reread v = v ↔ ct.IsCanonical v := by
  cases h with
  | bytesId h =>
    rename_i s bs
    have hb : Massbit.idBytes s = bs := by rw [Massbit.idBytes, h]
    show Value.string (Bytes.encode (Massbit.idBytes s)) = .string s ↔ _
    rw [hb]
    constructor
    · rintro heq s' - hs
      cases hs
      exact ⟨bs, (Value.string.inj heq).symm⟩
    · intro hc
      obtain ⟨bs', rfl⟩ := hc s rfl rfl
      rw [Bytes.fromStr_encode] at h
      rw [Except.ok.inj h]
  | _ => exact iff_of_true rfl nofun

theorem HasValue.queryValue (hl : lib.Exact) (h : ct.HasValue v) :
    ∃ e, queryValue lib v ct = .ok e ∧ e.eval lib = .ok (.scalar (ct.toScalar v)) := by
  cases h with
  | bigDecimal h =>
    refine ⟨_, rfl, ?_⟩
    rw [SqlExpr.eval, hl.bigDecimalToString, hl.castNumeric_bigDecimal _ h]
    rfl
  | bigInt i =>
    refine ⟨_, rfl, ?_⟩
    rw [SqlExpr.eval, hl.castNumeric_bigInt]
    rfl
  | enum h =>
    refine ⟨_, rfl, ?_⟩
    rw [SqlExpr.eval, EnumType.cast, if_pos h]
    rfl
  | bytesId h =>
    refine ⟨.bind (.scalar (.bytea (Massbit.idBytes _))), ?_, rfl⟩
    rw [Massbit.queryValue, (HasValue.bytesId h).idBytes]
  | _ => exact ⟨_, rfl, rfl⟩

variable {vs : List Value}

theorem bindArray_eq_ok {ts : Value → Except String Scalar}
    (h : ∀ x ∈ vs, ts x = .ok (ct.toScalar x)) :
    bindArray ts vs = .ok (.bind (.array (vs.map ct.toScalar))) := by
  rw [bindArray, Except.mapM_eq_map h]
  rfl

theorem eval_castNumericArray (h : ∀ x ∈ vs,
      lib.castNumeric (x.display lib) = .ok (x.display lib) ∧
      ct.toScalar x = .numeric (x.display lib)) :
    (SqlExpr.castNumericArray (vs.map (Value.display lib))).eval lib
      = .ok (.array (vs.map ct.toScalar)) := by
  have hc : ∀ s ∈ vs.map (Value.display lib), lib.castNumeric s = .ok (id s) := by
    intro s hs
    obtain ⟨x, hx, rfl⟩ := mem_map.mp hs
    exact (h x hx).1
  rw [SqlExpr.eval, Except.mapM_eq_map hc, map_id,
    map_congr_left fun x hx => (h x hx).2]
  show Except.ok (Datum.array ((vs.map (Value.display lib)).map .numeric)) = _
  rw [map_map]
  rfl

theorem queryValue_enumList {type : EnumType} (h : ∀ x ∈ vs, HasValue (.enum type) x) :
    ∃ e, queryValue lib (.list vs) (.enum type) = .ok e ∧
      e.eval lib = .ok (.array (vs.map (toScalar (.enum type)))) := by
  have ht : ∀ x ∈ vs, SqlValue.toText lib x = .ok (x.display lib) ∧
      type.cast (x.display lib) = .ok (toScalar (.enum type) x) := by
    intro x hx
    cases h x hx with
    | enum h =>
      rw [Value.display, EnumType.cast, if_pos h]
      exact ⟨rfl, rfl⟩
  refine ⟨.castEnumArray type (vs.map (Value.display lib)), ?_, ?_⟩
  · rw [queryValue, Except.mapM_eq_map fun x hx => (ht x hx).1]
    rfl
  · have hc : (vs.map (Value.display lib)).mapM type.cast = .ok (vs.map (toScalar (.enum type))) :=
      Except.mapM_eq_ok.2 (forall₂_map_left_iff.2 (forall₂_map_right_iff.2
        (forall₂_same.2 fun x hx => (ht x hx).2)))
    rw [SqlExpr.eval, hc]
    rfl

theorem queryValue_list (hl : lib.Exact) (h : ∀ x ∈ vs, ct.HasValue x) :
    ∃ e, queryValue lib (.list vs) ct = .ok e ∧
      e.eval lib = .ok (.array (vs.map ct.toScalar)) := by
  cases ct with
  | boolean =>
    refine ⟨_, bindArray_eq_ok fun x hx => ?_, rfl⟩
    cases h x hx with
    | boolean b => rfl
  | int =>
    refine ⟨_, bindArray_eq_ok fun x hx => ?_, rfl⟩
    cases h x hx with
    | int i => rfl
  | bytes =>
    refine ⟨_, bindArray_eq_ok fun x hx => ?_, rfl⟩
    cases h x hx with
    | bytes bs => rfl
  | string =>
    refine ⟨_, bindArray_eq_ok fun x hx => ?_, rfl⟩
    cases h x hx with
    | string s => rfl
  | bytesId =>
    refine ⟨_, bindArray_eq_ok fun x hx => ?_, rfl⟩
    cases h x hx with
    | bytesId h =>
      rw [SqlValue.toBinary, (HasValue.bytesId h).idBytes]
      rfl
  | bigDecimal =>
    refine ⟨_, rfl, eval_castNumericArray fun x hx => ?_⟩
    cases h x hx with
    | bigDecimal h =>
      rw [Value.display, hl.bigDecimalToString]
      exact ⟨hl.castNumeric_bigDecimal _ h, rfl⟩
  | bigInt =>
    refine ⟨_, rfl, eval_castNumericArray fun x hx => ?_⟩
    cases h x hx with
    | bigInt i =>
      exact ⟨hl.castNumeric_bigInt i, rfl⟩
  | enum type => exact queryValue_enumList h

theorem bytesAsStr_encode (bs : Bytes) : bytesAsStr ("\\x" ++ Bytes.encode bs) = Bytes.encode bs := by
  rw [bytesAsStr, String.toList_append]
  show String.ofList (trimStartMatches '\\' 'x' ('\\' :: 'x' :: (Bytes.encode bs).toList)) = _
  rw [trimStartMatches, if_pos ⟨rfl, rfl⟩, Bytes.trimStartMatches_encode, String.ofList_toList]

theorem HasValue.load (hl : lib.Exact) (h : ct.HasValue v) :
    fromColumnValue lib ct ((ct.toScalar v).toJsonb lib)
      = .ok (ct.reread v) := by
  cases h with
  | boolean b => rfl
  | string s => rfl
  | enum h => rfl
  | bigDecimal h =>
    rw [toScalar, Scalar.toJsonb, fromColumnValue, fromNumber, hl.number_text,
      hl.bigDecimalFromStr h (BigDecimal.fromStr_display h)]
    rfl
  | bigInt i =>
    rw [toScalar, Scalar.toJsonb, fromColumnValue, fromNumber, hl.number_text,
      hl.bigIntFromStr (BigInt.fromStr_toString i)]
    rfl
  | bytes bs =>
    rw [toScalar, Scalar.toJsonb, fromColumnValue, fromString, bytesAsStr_encode,
      Bytes.fromStr_encode]
    rfl
  | int i =>
    have hr : -2147483648 ≤ i.toInt ∧ i.toInt ≤ 2147483647 := by
      have := i.le_toInt
      have := i.toInt_lt
      omega
    show orUnknown (if -2147483648 ≤ i.toInt ∧ i.toInt ≤ 2147483647 then _ else _) = _
    rw [if_pos hr, Int32.ofInt_toInt]
    rfl
  | bytesId h =>
    rw [toScalar, Scalar.toJsonb, fromColumnValue, fromString, bytesAsStr_encode]
    rfl

theorem load_list (hl : lib.Exact) (h : ∀ x ∈ vs, ct.HasValue x) :
    fromColumnValues lib ct (vs.map fun x => (ct.toScalar x).toJsonb lib)
      = .ok (vs.map ct.reread) := by
  induction vs with
  | nil => rfl
  | cons x vs ih =>
    rw [map_cons, fromColumnValues, (h x (by simp)).load hl, ih fun y hy => h y (by simp [hy])]
    rfl

end ColumnType

namespace Column

def toDatum (c : Column) : Value → Datum
  | .list vs => .array (vs.map c.columnType.toScalar)
  | v => .scalar (c.columnType.toScalar v)

def reread (c : Column) : Value → Value
  | .list vs => .list (vs.map c.columnType.reread)
  | v => c.columnType.reread v

/-- The value is read as it was written: an id that is bytes has the form of `hex::encode`. -/
def IsCanonical (c : Column) : Value → Prop
  | .list vs => ∀ x ∈ vs, c.columnType.IsCanonical x
  | v => c.columnType.IsCanonical v

variable {lib : Libraries} {c : Column} {v : Value}

theorem HasValue.cases (h : c.HasValue v) :
    (c.isList = false ∧ c.columnType.HasValue v ∧ c.toDatum v = .scalar (c.columnType.toScalar v) ∧
      c.reread v = c.columnType.reread v ∧ (c.IsCanonical v ↔ c.columnType.IsCanonical v)) ∨
    ∃ vs, c.isList = true ∧ v = .list vs ∧ ∀ x ∈ vs, c.columnType.HasValue x := by
  unfold HasValue at h
  split at h
  next hl =>
    obtain ⟨vs, rfl, hvs⟩ := h
    exact .inr ⟨vs, hl, rfl, hvs⟩
  next hl =>
    refine .inl ⟨Bool.eq_false_iff.2 hl, h, ?_⟩
    cases v with
    | list vs => exact absurd rfl (h.ne_list vs)
    | _ => exact ⟨rfl, rfl, Iff.rfl⟩

theorem store_hasValue (hli : lib.Exact) (h : c.HasValue v) :
    c.store lib v = .ok (c.toDatum v) := by
  have hs : ∀ {e : SqlExpr}, queryValue lib v c.columnType = .ok e →
      e.eval lib = .ok (c.toDatum v) → (c.toDatum v).fits c = true →
      c.store lib v = .ok (c.toDatum v) := by
    intro e he hev hf
    rw [store, he]
    show (orUnknown (e.eval lib) >>= fun d => orUnknown (c.assign lib d)) = _
    rw [hev]
    show orUnknown (c.assign lib (c.toDatum v)) = _
    rw [assign, if_pos hf]
    rfl
  rcases h.cases with ⟨hl, hv, hd, -⟩ | ⟨vs, hl, rfl, hvs⟩
  · obtain ⟨e, he, hev⟩ := hv.queryValue hli
    rw [← hd] at hev
    refine hs he hev ?_
    rw [hd, Datum.fits, hl, hv.hasType]
    rfl
  · obtain ⟨e, he, hev⟩ := ColumnType.queryValue_list hli hvs
    refine hs he hev ?_
    rw [toDatum, Datum.fits, hl, all_map, Bool.true_and]
    exact all_eq_true.2 fun x hx => (hvs x hx).hasType

theorem load_hasValue (hl : lib.Exact) (h : c.HasValue v) :
    c.load lib (c.toDatum v) = .ok (c.reread v) := by
  rcases h.cases with ⟨-, hv, hd, hr, -⟩ | ⟨vs, -, rfl, hvs⟩
  · rw [hd, hr]
    exact hv.load hl
  · rw [load, toDatum, Datum.toJsonb, fromColumnValue, map_map]
    show (fromColumnValues lib c.columnType
      (vs.map fun x => (c.columnType.toScalar x).toJsonb lib) >>= _) = _
    rw [ColumnType.load_list hl hvs]
    rfl

theorem roundTrip_hasValue (hl : lib.Exact) (h : c.HasValue v) :
    c.roundTrip lib v = .ok (c.reread v) :=
  (roundTrip_eq (store_hasValue hl h)).trans (load_hasValue hl h)

theorem HasValue.reread_eq_self (h : c.HasValue v) : c.reread v = v ↔ c.IsCanonical v := by
  rcases h.cases with ⟨-, hv, -, hr, hc⟩ | ⟨vs, -, rfl, hvs⟩
  · rw [hr, hc]
    exact hv.reread_eq_self
  · have hm : vs.map c.columnType.reread = vs ↔ ∀ x ∈ vs, c.columnType.reread x = x := by
      conv_lhs => rw [← map_id vs, map_map]
      exact map_inj_left
    rw [reread, Value.list.injEq, hm]
    exact forall₂_congr fun x hx => (hvs x hx).reread_eq_self

end Column

/-- The ids of the entity that are bytes have the form of `hex::encode`. -/
def Table.IsCanonical (table : Table) (entity : Entity) : Prop :=
  ∀ c ∈ table.columns, c.field ≠ typenameAttribute → ∀ v, entity.lookup c.field = some v →
    c.IsCanonical v

/-- The attributes of the entity have columns, which give their values back. -/
def Table.Fits (table : Table) (entity : Entity) : Prop :=
  ∀ a v, entity.lookup a = some v → a ≠ typenameAttribute → v ≠ .null →
    ∃ c ∈ table.columns, c.field = a ∧ c.HasValue v ∧ c.IsCanonical v

section Fits

variable {lib : Libraries} {t : Table} {entity entity' : Entity}

theorem Table.WellTyped.fits (h : t.WellTyped entity) (hca : t.IsCanonical entity) :
    t.Fits entity := by
  intro a v hv ha hn
  have hs : entity.stored.lookup a = some v := by
    rw [Entity.lookup_stored, hv, if_neg]
    simp [ha, hn]
  obtain ⟨c, hc, rfl⟩ := h.exists_column hs
  exact ⟨c, hc, rfl, h.hasValue hc hv hn, hca c hc ha v hv⟩

namespace Table.Fits

section

variable (h : t.Fits entity)

include h

theorem keeps (hl : lib.Exact) (hd : t.Deployed) : t.Keeps lib entity where
  exists_column := by
    intro a v hv
    rw [Entity.lookup_stored, Option.ite_none_left_eq_some, not_or] at hv
    obtain ⟨⟨ha, hn⟩, hv⟩ := hv
    obtain ⟨c, hc, hf, -⟩ := h a v hv ha fun hv' => hn (hv.trans (congrArg some hv'))
    exact ⟨c, hc, hf⟩
  roundTrip := by
    intro c v hc hf hv
    by_cases hn : v = .null
    · rw [hn]
      exact c.roundTrip_null
    · obtain ⟨c', hc', heq, hva, hca⟩ := h c.field v hv hf hn
      obtain rfl := hd.eq_of_field hc' hc heq
      rw [Column.roundTrip_hasValue hl hva, hva.reread_eq_self.mpr hca]

theorem merge (h' : t.Fits entity') : t.Fits (entity.merge entity') := by
  intro a v hv
  rw [Entity.lookup_merge] at hv
  rcases e : entity'.lookup a with - | w
  · rw [e] at hv
    exact h a v hv
  · rw [e] at hv
    exact h' a v (e.trans hv)

theorem mergeRemoveNullFields (h' : t.Fits entity') :
    t.Fits (entity.mergeRemoveNullFields entity') := by
  intro a v hv
  rw [Entity.lookup_mergeRemoveNullFields] at hv
  rcases e : entity'.lookup a with - | w
  · rw [e] at hv
    exact h a v hv
  · rw [e, Option.elim_some, Option.ite_none_left_eq_some] at hv
    exact h' a v (e.trans hv.2)

theorem of_stored (heq : entity'.untyped = entity.stored) : t.Fits entity' := by
  intro a v hv ha
  have hs : entity.stored.lookup a = some v := by
    rw [← heq, Entity.lookup_untyped, if_neg ha, hv]
  rw [Entity.lookup_stored, Option.ite_none_left_eq_some] at hs
  exact h a v hs.2 ha

theorem id_eq_of_bindId_eq (h' : t.Fits entity') (hd : t.Deployed) {i i' : String}
    (hi : entity.id = .ok i) (hi' : entity'.id = .ok i') (heq : t.bindId i = t.bindId i') :
    i = i' := by
  obtain ⟨c, hc, hk, -, hf, -, ht | ht⟩ := hd.exists_primaryKey
  · have hid : t.idType = some .string := by
      rw [idType, hk, Option.bind_some, ht]
      rfl
    rw [bindId_string hid, bindId_string hid] at heq
    injection heq with heq
    injection heq with heq
    injection heq
  · have hid : t.idType = some .bytes := by
      rw [idType, hk, Option.bind_some, ht]
      rfl
    have he : ∀ {e : Entity} {i}, t.Fits e → e.id = .ok i → ∃ bs, i = Bytes.encode bs := by
      intro e i h hi
      obtain ⟨c', hc', hf', -, hca⟩ :=
        h "id" (.string i) (Entity.id_eq_ok.1 hi) (by decide) (by simp)
      obtain rfl := hd.eq_of_field hc' hc (hf'.trans hf.symm)
      exact hca i ht rfl
    obtain ⟨bs, rfl⟩ := he h hi
    obtain ⟨bs', rfl⟩ := he h' hi'
    rw [bindId_encode hid, bindId_encode hid] at heq
    injection heq with heq
    injection heq with heq
    injection heq with heq
    rw [heq]

end

end Table.Fits

end Fits

section Find

variable {lib : Libraries} {table : Table} {entity : Entity}

theorem Table.WellTyped.restores_iff (h : table.WellTyped entity) (hl : lib.Exact) :
    table.Restores lib entity ↔ table.IsCanonical entity := by
  have hnu : ∀ c : Column, c.IsCanonical .null := fun c s _ hs => nomatch hs
  constructor
  · intro hr c hc hf v hv
    by_cases hn : v = .null
    · rw [hn]
      exact hnu c
    · have hva := h.hasValue hc hv hn
      obtain ⟨v', hv', heq⟩ := hr.roundTrip hc hv
      rw [Column.roundTrip_hasValue hl hva] at hv'
      rw [← hva.reread_eq_self, Outcome.ok.inj hv']
      exact heq hf
  · intro hca
    refine ⟨h.exists_column, fun {c v} hc hv => ?_⟩
    by_cases hn : v = .null
    · rw [hn]
      exact ⟨.null, c.roundTrip_null, fun _ => rfl⟩
    · have hva := h.hasValue hc hv hn
      exact ⟨_, Column.roundTrip_hasValue hl hva, fun hf =>
        hva.reread_eq_self.2 (hca c hc hf v hv)⟩

variable {layout : DeployedLayout} {t : EntityType} {block : ℤ} {row : Row} {id : String}

theorem Table.Writes.find?_eq_some (h : table.Writes lib block entity row) {rows : EntityTable}
    (hr : row ∈ rows.rows) {b : ℤ} (hb : block ≤ b) :
    rows.find? (row.cell primaryKeyColumn) b = some row := by
  refine VersionedTable.find?_eq_some.mpr ⟨hr, rfl, ?_⟩
  rw [h.blockRange]
  exact Span.contains_since.mpr hb

/-- **What is found after an insertion.** A well-typed entity that was inserted under a key is found
under it, with the same attributes and the id of the key, exactly if the key is that of the entity
and its ids that are bytes are lower-case digits without a prefix. -/
theorem find_inserted_iff (hlib : lib.Exact) (ht : layout.tables.lookup t = some table)
    {order : Finmap.IterOrder fun _ : SqlName => Column} {entities : List (EntityKey × Entity)}
    {key : EntityKey} (hmem : (key, entity) ∈ entities) (htyped : table.WellTyped entity)
    {query : InsertQuery} (hquery : InsertQuery.new order table entities block = .ok query)
    {rows : EntityTable} {result : EntityTable × ℕ} (hresult : query.getResults lib rows = .ok result)
    {b : ℤ} (hb : block ≤ b) :
    (∃ data e, (FindQuery.mk table key.entityId b).getResult lib result.1 = .ok (some data) ∧
        data.deserializeWithLayout lib layout.toLayout = .ok e ∧ e.untyped = entity.stored ∧
        e.id = .ok key.entityId) ↔
      entity.id = .ok key.entityId ∧ table.IsCanonical entity := by
  have hd := layout.deployed ht
  have ho := layout.lookup_object ht
  obtain ⟨rs, hrs, hf⟩ := InsertQuery.rows_getResults hd hquery hresult
  obtain ⟨row, hr, hw⟩ := hf.exists_of_mem hmem
  have hr : row ∈ result.1.rows := by
    rw [hrs]
    exact mem_append_right _ hr
  have hfi : entity.id = .ok key.entityId →
      (FindQuery.mk table key.entityId b).getResult lib result.1
        = .ok (some ⟨table.object, row.toJsonb lib table⟩) := by
    intro hid
    rw [FindQuery.getResult_eq, hw.cell_bindId hd hid]
    show Outcome.ok ((result.1.find? (row.cell primaryKeyColumn) b).map _) = _
    rw [hw.find?_eq_some hr hb]
    rfl
  constructor
  · rintro ⟨data, e, hda, he, heq, hide⟩
    have hid : entity.id = .ok key.entityId := by
      rw [← Entity.id_stored, ← heq, Entity.id_untyped]
      exact hide
    obtain rfl := Option.some.inj (Outcome.ok.inj ((hfi hid).symm.trans hda))
    exact ⟨hid, (htyped.restores_iff hlib).1 ((hw.read_iff hd ho).1 ⟨e, he, heq⟩)⟩
  · rintro ⟨hid, hc⟩
    obtain ⟨e, he, heq⟩ :=
      (hw.read_iff hd ho).2 ((htyped.restores_iff hlib).2 hc)
    refine ⟨_, e, hfi hid, he, heq, ?_⟩
    rw [← Entity.id_untyped, heq, Entity.id_stored]
    exact hid

end Find

def exactLibraries : Libraries where
  castNumeric s := .ok s
  coerce _ _ := .error "can not be converted"
  number s := ⟨s, (BigInt.fromStr s).filter fun i => -2 ^ 63 ≤ i ∧ i < 2 ^ 63⟩
  bigDecimalToString := BigDecimal.display
  bigDecimalFromStr s := (BigDecimal.fromStr s).elim (.error "not a number") .ok
  bigIntFromStr s := (BigInt.fromStr s).elim (.error "not a number") .ok
  debugHash _ := ""
  debugNumber _ := ""

theorem exact_exactLibraries : exactLibraries.Exact where
  castNumeric_bigInt _ := rfl
  castNumeric_bigDecimal _ _ := rfl
  number_text _ := rfl
  bigDecimalToString _ := rfl
  bigDecimalFromStr {d _} _ h := by
    show (BigDecimal.fromStr d.display).elim _ _ = _
    rw [h]
    rfl
  bigIntFromStr {i _} h := by
    show (BigInt.fromStr (toString i)).elim _ _ = _
    rw [h]
    rfl

def transferColumns : List Column :=
  [⟨"id", "id", .nonNullType (.namedType "Bytes"), .bytesId⟩,
    ⟨"value", "value", .namedType "BigDecimal", .bigDecimal⟩,
    ⟨"amounts", "amounts", .listType (.namedType "BigInt"), .bigInt⟩,
    ⟨"payload", "payload", .namedType "Bytes", .bytes⟩]

def transferTable : Table := ⟨"Transfer", "\"sgd1\".\"transfer\"", transferColumns, false⟩

theorem deployed_transferTable : transferTable.Deployed where
  names_nodup := by decide
  fields_nodup := by decide
  exists_id := ⟨⟨"id", "id", .nonNullType (.namedType "Bytes"), .bytesId⟩, by decide, rfl, rfl, rfl,
    .inr rfl⟩
  name_ne_blockRange := by decide
  name_ne_parentId := by decide

def DeployedLayout.single (table : Table) (hd : table.Deployed) : DeployedLayout :=
  have hsingle : ∀ {t table'}, ((∅ : HashMap EntityType Table).insert table.object table).lookup t
      = some table' → t = table.object ∧ table' = table := by
    intro t table' h
    by_cases ht : t = table.object
    · subst ht
      rw [Finmap.lookup_insert] at h
      exact ⟨rfl, (Option.some.inj h).symm⟩
    · rw [Finmap.lookup_insert_of_ne _ ht] at h
      cases h
  { tables := (∅ : HashMap EntityType Table).insert table.object table
    object_eq := fun h => (hsingle h).2 ▸ (hsingle h).1.symm
    deployed := fun h => (hsingle h).2 ▸ hd
    qualifiedName_inj := fun h h' _ => (hsingle h).1.trans (hsingle h').1.symm }

def transferLayout : DeployedLayout := .single transferTable deployed_transferTable

def transfer (id : String) : Entity :=
  .ofList [("id", .string id), ("value", .bigDecimal ⟨15, 1⟩),
    ("amounts", .list [.bigInt 1000000000000000000000, .bigInt (-7)]), ("payload", .bytes [222, 173])]

variable {id : String}

theorem wellTyped_transfer (bs : Bytes) (h : Bytes.fromStr id = .ok bs) :
    transferTable.WellTyped (transfer id) where
  exists_column := by
    intro a v hv
    by_contra hn
    have hne : ∀ c ∈ transferColumns, a ≠ c.field := fun c hc ha => hn ⟨c, hc, ha.symm⟩
    simp only [transferColumns, forall_mem_cons] at hne
    obtain ⟨hid, hva, ham, hp, -⟩ := hne
    have hl : (transfer id).lookup a = none := by
      show (((((∅ : Entity).insert "id" _).insert "value" _).insert "amounts" _).insert
        "payload" _).lookup a = _
      rw [Finmap.lookup_insert_of_ne _ hp, Finmap.lookup_insert_of_ne _ ham,
        Finmap.lookup_insert_of_ne _ hva, Finmap.lookup_insert_of_ne _ hid]
      exact Finmap.lookup_empty a
    rw [Entity.lookup_stored, hl] at hv
    simp at hv
  hasValue := by
    intro c v hc hv hnu
    simp only [transferTable, transferColumns, mem_cons, not_mem_nil, or_false] at hc
    rcases hc with rfl | rfl | rfl | rfl
    · obtain rfl : .string id = v := Option.some.inj hv
      exact .bytesId h
    · obtain rfl : .bigDecimal ⟨15, 1⟩ = v := Option.some.inj hv
      exact .bigDecimal (by decide)
    · obtain rfl : .list [.bigInt 1000000000000000000000, .bigInt (-7)] = v := Option.some.inj hv
      refine ⟨_, rfl, fun x hx => ?_⟩
      simp only [mem_cons, not_mem_nil, or_false] at hx
      rcases hx with rfl | rfl
      · exact .bigInt _
      · exact .bigInt _
    · obtain rfl : .bytes [222, 173] = v := Option.some.inj hv
      exact .bytes _

theorem isCanonical_transfer (bs : Bytes) (h : id = Bytes.encode bs) :
    transferTable.IsCanonical (transfer id) := by
  intro c hc _ v hv
  simp only [transferTable, transferColumns, mem_cons, not_mem_nil, or_false] at hc
  rcases hc with rfl | rfl | rfl | rfl
  · obtain rfl : .string id = v := Option.some.inj hv
    rintro s - hs
    cases hs
    exact ⟨bs, h⟩
  · obtain rfl : .bigDecimal ⟨15, 1⟩ = v := Option.some.inj hv
    exact nofun
  · obtain rfl : .list [.bigInt 1000000000000000000000, .bigInt (-7)] = v := Option.some.inj hv
    exact nofun
  · obtain rfl : .bytes [222, 173] = v := Option.some.inj hv
    exact nofun

def transferKey (id : String) : EntityKey := ⟨"QmIndexer", "Transfer", id⟩

noncomputable def transferOrder : Finmap.IterOrder fun _ : SqlName => Column :=
  .prefer (transferColumns.map fun c => ⟨c.name, c⟩)

noncomputable def reinsertTransfer (id : String) : Outcome StoreError Entity := do
  let query ← .ofExcept
    (InsertQuery.new transferOrder transferTable [(transferKey id, transfer id)] 7)
  let result ← query.getResults exactLibraries .empty
  let data? ← (FindQuery.mk transferTable id 9).getResult exactLibraries result.1
  let data ← .ofOption data?
  data.deserializeWithLayout exactLibraries transferLayout.toLayout

theorem reinsertTransfer_eq_ok {e : Entity} (h : reinsertTransfer id = .ok e) :
    ∃ q r data,
      InsertQuery.new transferOrder transferTable [(transferKey id, transfer id)] 7 = .ok q ∧
      q.getResults exactLibraries .empty = .ok r ∧
      (FindQuery.mk transferTable id 9).getResult exactLibraries r.1 = .ok (some data) ∧
      data.deserializeWithLayout exactLibraries transferLayout.toLayout = .ok e := by
  obtain ⟨q, hq, h⟩ := bind_eq_ok.1 h
  obtain ⟨r, hresult, h⟩ := bind_eq_ok.mp h
  obtain ⟨data?, hfind, h⟩ := bind_eq_ok.mp h
  obtain ⟨data, hdata, h⟩ := bind_eq_ok.mp h
  rw [ofOption_eq_ok.mp hdata] at hfind
  exact ⟨q, r, data, ofExcept_eq_ok.mp hq, hresult, hfind, h⟩

theorem transfer_found_again :
    ∃ query result data e,
      InsertQuery.new transferOrder transferTable [(transferKey "dead", transfer "dead")] 7
        = .ok query ∧
      query.getResults exactLibraries .empty = .ok result ∧
      (FindQuery.mk transferTable "dead" 9).getResult exactLibraries result.1 = .ok (some data) ∧
      data.deserializeWithLayout exactLibraries transferLayout.toLayout = .ok e ∧
      e.untyped = (transfer "dead").stored ∧ e.id = .ok "dead" := by
  have hre : reinsertTransfer "dead" = .ok ((transfer "dead").typed "Transfer") :=
    value?_eq_some.1 (by decide +kernel)
  obtain ⟨query, result, -, hq, hr, -⟩ := reinsertTransfer_eq_ok hre
  have ht : transferLayout.tables.lookup "Transfer" = some transferTable := rfl
  obtain ⟨data, e, hd, he, heq, hid⟩ := (find_inserted_iff exact_exactLibraries ht
    (mem_singleton.2 rfl) (wellTyped_transfer [222, 173] (by decide)) hq hr (b := 9) (by decide)).2
    ⟨rfl, isCanonical_transfer [222, 173] (by decide)⟩
  exact ⟨query, result, data, e, hq, hr, hd, he, heq, hid⟩

theorem prefixed_transfer_changed :
    exactLibraries.Exact ∧ transferTable.WellTyped (transfer "0xdead") ∧
      ∃ query result data e,
        InsertQuery.new transferOrder transferTable [(transferKey "0xdead", transfer "0xdead")] 7
          = .ok query ∧
        query.getResults exactLibraries .empty = .ok result ∧
        (FindQuery.mk transferTable "0xdead" 9).getResult exactLibraries result.1
          = .ok (some data) ∧
        data.deserializeWithLayout exactLibraries transferLayout.toLayout = .ok e ∧
        e.id = .ok "dead" ∧ e.untyped ≠ (transfer "0xdead").stored := by
  have hre : reinsertTransfer "0xdead" = .ok ((transfer "dead").typed "Transfer") :=
    value?_eq_some.1 (by decide +kernel)
  obtain ⟨query, result, data, hq, hr, hd, he⟩ := reinsertTransfer_eq_ok hre
  refine ⟨exact_exactLibraries, wellTyped_transfer [222, 173] (by decide), query, result,
    data, _, hq, hr, hd, he, by decide, ?_⟩
  intro heq
  have hid : (transfer "0xdead").stored.id = .ok "dead" := by
    rw [← heq, Entity.id_untyped]
    decide
  exact absurd hid (by decide)

end Massbit
