/-
The daily figures of Ethereum transactions (`daily_transaction.rs`).
-/
import Massbit.Analytics.Table
import Massbit.Lib.Outcome
import Mathlib.Algebra.BigOperators.Group.List.Basic
import Mathlib.Algebra.Order.Field.Rat
import Mathlib.Tactic.FieldSimp
import Mathlib.Tactic.Ring

open List Finmap Option

namespace Massbit.Analytics.DailyTransaction

structure Transaction where
  value : ℕ
  gas : ℕ
  gasPrice : ℕ
  deriving DecidableEq, Repr

structure LightEthereumBlock where
  timestamp : ℕ
  gasUsed : ℕ
  gasLimit : ℕ
  size : Option ℕ
  transactions : List Transaction
  deriving DecidableEq, Repr

structure Libraries where
  date : ℕ → Option String
  fromU128 : ℕ → Option ℚ

structure DailyEntity where
  network : Option String
  transactionDate : String
  figures : NumericRow

def asUnsigned (width n : ℕ) : Outcome String ℕ := if n < 2 ^ width then .ok n else .panic

section

variable (lib : Libraries)

def addU128 (acc : ℚ) (n : ℕ) : ℚ :=
  match lib.fromU128 n with
  | none => acc
  | some val => acc + val

def addTransaction (acc : ℚ × ℚ × ℚ) (tran : Transaction) : Outcome String (ℚ × ℚ × ℚ) := do
  let value ← asUnsigned 128 tran.value
  let value := addU128 lib acc.1 value
  let gas ← asUnsigned 128 tran.gas
  let gas := addU128 lib acc.2.1 gas
  let gasPrice ← asUnsigned 128 tran.gasPrice
  let gasPrice := addU128 lib acc.2.2 gasPrice
  return (value, gas, gasPrice)

def figures (transactionCount transactionVolume gas averageGasPrice : ℚ) : NumericRow :=
  .ofList
    [("transaction_count", transactionCount),
     ("transaction_volume", transactionVolume),
     ("gas", gas),
     ("average_gas_price", averageGasPrice)]

def createEntity (networkName : Option String) (block : LightEthereumBlock) :
    Outcome String DailyEntity := do
  let timestamp ← asUnsigned 64 block.timestamp
  let date ← Outcome.ofOption (lib.date timestamp)
  let _gasUsed ← asUnsigned 128 block.gasUsed
  let _gasLimit ← asUnsigned 128 block.gasLimit
  let _size ← block.size.elim (.ok 0) (asUnsigned 128)
  let transactionCount := block.transactions.length
  let (transactionVolume, gasPrice, gas) ← block.transactions.foldlM (addTransaction lib) (0, 0, 0)
  let averageGasPrice : ℚ := if transactionCount > 0 then gasPrice / transactionCount else 0
  return { network := networkName
           transactionDate := date
           figures := figures transactionCount transactionVolume gas averageGasPrice }

def conflictFrag : UpsertConflictFragment :=
  UpsertConflictFragment.mk "ethereum_daily_transaction_transaction_date_network_uindex" []
    |>.addExpression "transaction_count"
      (.add (.current "transaction_count") (.excluded "transaction_count"))
    |>.addExpression "transaction_volume"
      (.add (.current "transaction_volume") (.excluded "transaction_volume"))
    |>.addExpression "gas" (.add (.current "gas") (.excluded "gas"))
    |>.addExpression "average_gas_price"
      (.div (.add (.mul (.current "average_gas_price") (.current "transaction_count"))
          (.mul (.excluded "average_gas_price") (.excluded "transaction_count")))
        (.add (.current "transaction_count") (.excluded "transaction_count")))

abbrev DailyRows := HashMap (String × String) NumericRow

def upsert (rows : DailyRows) (entity : DailyEntity) : Outcome String DailyRows :=
  match entity.network with
  | none => .err "null value in column network violates not-null constraint"
  | some network =>
    match conflictFrag.upsert rows (entity.transactionDate, network) entity.figures with
    | some rows => .ok rows
    | none => .err "division by zero"

def handleBlock (network : Option String) (rows : DailyRows) (block : LightEthereumBlock) :
    Outcome String DailyRows := do
  let entity ← createEntity lib network block
  upsert rows entity

def handleBlocks (network : Option String) (blocks : List LightEthereumBlock) :
    Outcome String DailyRows :=
  blocks.foldlM (handleBlock lib network) ∅

def blocksOf (date : String) (blocks : List LightEthereumBlock) : List LightEthereumBlock :=
  blocks.filter fun block => lib.date block.timestamp = some date

def transactionsOf (date : String) (blocks : List LightEthereumBlock) : List Transaction :=
  (blocksOf lib date blocks).flatMap LightEthereumBlock.transactions

end

def total (figure : Transaction → ℚ) (transactions : List Transaction) : ℚ :=
  (transactions.map figure).sum

def average (sum : ℚ) (count : ℕ) : ℚ := if count > 0 then sum / count else 0

def expectedRow (transactions : List Transaction) : NumericRow :=
  figures transactions.length (total (fun tran => tran.value) transactions)
    (total (fun tran => tran.gas) transactions)
    (average (total (fun tran => tran.gasPrice) transactions) transactions.length)

section

variable (lib : Libraries)

/-- There is one row for each day that has a block, with the figures of its transactions. -/
def RowsRight (network : Option String) (blocks : List LightEthereumBlock) : Prop :=
  ∃ rows, handleBlocks lib network blocks = .ok rows ∧ ∀ date net, rows.lookup (date, net) =
    if network = some net ∧ blocksOf lib date blocks ≠ [] then
      some (expectedRow (transactionsOf lib date blocks))
    else none

/-- Nothing in the block is out of range. -/
structure Readable (block : LightEthereumBlock) : Prop where
  timestamp : block.timestamp < 2 ^ 64
  date : (lib.date block.timestamp).isSome
  gasUsed : block.gasUsed < 2 ^ 128
  gasLimit : block.gasLimit < 2 ^ 128
  size : ∀ size, block.size = some size → size < 2 ^ 128
  transactions : ∀ tran ∈ block.transactions,
    tran.value < 2 ^ 128 ∧ tran.gas < 2 ^ 128 ∧ tran.gasPrice < 2 ^ 128

def converted (n : ℕ) : ℚ := (lib.fromU128 n).getD 0

/-- A block without transactions is not added to days without transactions. -/
def NoEmptyDays (blocks : List LightEthereumBlock) : Prop :=
  ∀ first block rest date, blocks = first ++ block :: rest → lib.date block.timestamp = some date →
    block.transactions = [] → blocksOf lib date first ≠ [] → transactionsOf lib date first ≠ []

/-- The sums that are computed of some transactions are those that they should be. -/
structure SumsAgree (transactions : List Transaction) : Prop where
  value : total (fun tran => converted lib tran.value) transactions =
    total (fun tran => tran.value) transactions
  gas : total (fun tran => converted lib tran.gasPrice) transactions =
    total (fun tran => tran.gas) transactions
  gasPrice : total (fun tran => converted lib tran.gas) transactions =
    total (fun tran => tran.gasPrice) transactions

def dayRow (transactions : List Transaction) : NumericRow :=
  figures transactions.length (total (fun tran => converted lib tran.value) transactions)
    (total (fun tran => converted lib tran.gasPrice) transactions)
    (average (total (fun tran => converted lib tran.gas) transactions) transactions.length)

end

@[simp] theorem lookup_transactionCount_figures (c v g a : ℚ) :
    (figures c v g a).lookup "transaction_count" = some c := by
  simp [figures, NumericRow.ofList, lookup_insert_of_ne]

@[simp] theorem lookup_transactionVolume_figures (c v g a : ℚ) :
    (figures c v g a).lookup "transaction_volume" = some v := by
  simp [figures, NumericRow.ofList, lookup_insert_of_ne]

@[simp] theorem lookup_gas_figures (c v g a : ℚ) : (figures c v g a).lookup "gas" = some g := by
  simp [figures, NumericRow.ofList, lookup_insert_of_ne]

@[simp] theorem lookup_averageGasPrice_figures (c v g a : ℚ) :
    (figures c v g a).lookup "average_gas_price" = some a := by
  simp [figures, NumericRow.ofList]

theorem figures_inj {c v g a c' v' g' a' : ℚ} :
    figures c v g a = figures c' v' g' a' ↔ c = c' ∧ v = v' ∧ g = g' ∧ a = a' := by
  constructor
  · intro h
    have hc := congrArg (Finmap.lookup "transaction_count") h
    have hv := congrArg (Finmap.lookup "transaction_volume") h
    have hg := congrArg (Finmap.lookup "gas") h
    have ha := congrArg (Finmap.lookup "average_gas_price") h
    simp only [lookup_transactionCount_figures, lookup_transactionVolume_figures,
      lookup_gas_figures, lookup_averageGasPrice_figures, Option.some.injEq] at hc hv hg ha
    exact ⟨hc, hv, hg, ha⟩
  · rintro ⟨rfl, rfl, rfl, rfl⟩
    rfl

theorem insert_figures (c v g a c' v' g' a' : ℚ) :
    ((((figures c v g a).insert "transaction_count" c').insert "transaction_volume" v').insert "gas"
      g').insert "average_gas_price" a' = figures c' v' g' a' := by
  refine ext_lookup fun f => ?_
  simp only [figures, NumericRow.ofList, List.foldl]
  by_cases ha : f = "average_gas_price"
  · subst ha
    rw [lookup_insert, lookup_insert]
  rw [lookup_insert_of_ne _ ha, lookup_insert_of_ne _ ha]
  by_cases hg : f = "gas"
  · subst hg
    rw [lookup_insert, lookup_insert]
  rw [lookup_insert_of_ne _ hg, lookup_insert_of_ne _ hg]
  by_cases hv : f = "transaction_volume"
  · subst hv
    rw [lookup_insert, lookup_insert]
  rw [lookup_insert_of_ne _ hv, lookup_insert_of_ne _ hv]
  by_cases hc : f = "transaction_count"
  · subst hc
    rw [lookup_insert, lookup_insert]
  simp only [lookup_insert_of_ne _ hc, lookup_insert_of_ne _ hv,
    lookup_insert_of_ne _ hg, lookup_insert_of_ne _ ha]

theorem update_figures (c v g a c' v' g' a' : ℚ) :
    conflictFrag.update (figures c v g a) (figures c' v' g' a') =
      if c + c' = 0 then none
      else some (figures (c + c') (v + v') (g + g') ((a * c + a' * c') / (c + c'))) := by
  simp only [UpsertConflictFragment.update, conflictFrag, UpsertConflictFragment.addExpression,
    nil_append, cons_append, foldlM_cons, foldlM_nil, Expression.eval,
    lookup_transactionCount_figures, lookup_transactionVolume_figures, lookup_gas_figures,
    lookup_averageGasPrice_figures, Option.bind_eq_bind, Option.bind_some, Option.pure_def,
    Option.map_some]
  split_ifs with h
  · rfl
  · exact congrArg some (insert_figures _ _ _ _ _ _ _ _)

theorem total_append (figure : Transaction → ℚ) (ts more : List Transaction) :
    total figure (ts ++ more) = total figure ts + total figure more := by
  rw [total, map_append, sum_append]
  rfl

theorem average_mul_length (figure : Transaction → ℚ) (transactions : List Transaction) :
    average (total figure transactions) transactions.length * transactions.length =
      total figure transactions := by
  rcases transactions with - | ⟨tran, transactions⟩
  · simp [total]
  · have hp : ((tran :: transactions).length : ℚ) ≠ 0 :=
      Nat.cast_ne_zero.2 (Nat.succ_ne_zero _)
    rw [average, if_pos (by simp), div_mul_cancel₀ _ hp]

variable {lib : Libraries}

theorem update_dayRow (ts more : List Transaction) :
    conflictFrag.update (dayRow lib ts) (dayRow lib more) =
      if ts ++ more = [] then none else some (dayRow lib (ts ++ more)) := by
  rw [dayRow, dayRow, update_figures, average_mul_length, average_mul_length]
  have hl : (ts.length : ℚ) + more.length = (ts ++ more).length := by
    rw [length_append, Nat.cast_add]
  rw [hl]
  by_cases h : ts ++ more = []
  · rw [if_pos h, if_pos (by rw [h]; rfl)]
  · have hp : (ts ++ more).length > 0 := length_pos_iff.2 h
    rw [if_neg h, if_neg (Nat.cast_ne_zero.2 hp.ne'), dayRow, average, if_pos hp,
      total_append, total_append, total_append]

theorem dayRow_eq_expectedRow_iff {transactions : List Transaction} :
    dayRow lib transactions = expectedRow transactions ↔ SumsAgree lib transactions := by
  rw [dayRow, expectedRow, figures_inj]
  constructor
  · rintro ⟨-, hv, hg, ha⟩
    refine ⟨hv, hg, ?_⟩
    rw [← average_mul_length, ha, average_mul_length]
  · intro h
    exact ⟨rfl, h.value, h.gas, by rw [h.gasPrice]⟩

theorem asUnsigned_eq_ok {w n m : ℕ} : asUnsigned w n = .ok m ↔ n < 2 ^ w ∧ m = n := by
  rw [asUnsigned]
  split_ifs with h
  · simp [h, eq_comm]
  · simp [h]

theorem addU128_eq (acc : ℚ) (n : ℕ) : addU128 lib acc n = acc + converted lib n := by
  rw [addU128, converted]
  cases lib.fromU128 n with
  | none => exact (add_zero acc).symm
  | some val => rfl

variable {acc acc' : ℚ × ℚ × ℚ}

theorem addTransaction_eq_ok {tran : Transaction} :
    addTransaction lib acc tran = .ok acc' ↔
      (tran.value < 2 ^ 128 ∧ tran.gas < 2 ^ 128 ∧ tran.gasPrice < 2 ^ 128) ∧
        acc' = (acc.1 + converted lib tran.value, acc.2.1 + converted lib tran.gas,
          acc.2.2 + converted lib tran.gasPrice) := by
  simp only [addTransaction, bind_eq_ok, asUnsigned_eq_ok, addU128_eq]
  constructor
  · rintro ⟨_, ⟨hv, rfl⟩, _, ⟨hga, rfl⟩, _, ⟨hg, rfl⟩, h⟩
    exact ⟨⟨hv, hga, hg⟩, (Outcome.ok.inj h).symm⟩
  · rintro ⟨⟨hv, hga, hg⟩, rfl⟩
    exact ⟨_, ⟨hv, rfl⟩, _, ⟨hga, rfl⟩, _, ⟨hg, rfl⟩, rfl⟩

theorem foldlM_addTransaction_eq_ok {ts : List Transaction} :
    ts.foldlM (addTransaction lib) acc = .ok acc' ↔
      (∀ tran ∈ ts, tran.value < 2 ^ 128 ∧ tran.gas < 2 ^ 128 ∧ tran.gasPrice < 2 ^ 128) ∧
      acc' = (acc.1 + total (fun tran => converted lib tran.value) ts,
        acc.2.1 + total (fun tran => converted lib tran.gas) ts,
        acc.2.2 + total (fun tran => converted lib tran.gasPrice) ts) := by
  induction ts generalizing acc with
  | nil =>
    simp only [foldlM_nil, total, map_nil, sum_nil, add_zero]
    constructor
    · intro h
      exact ⟨nofun, (Outcome.ok.inj h).symm⟩
    · rintro ⟨-, rfl⟩
      rfl
  | cons tran ts ih =>
    simp only [foldlM_cons, bind_eq_ok, addTransaction_eq_ok, ih,
      forall_mem_cons, total, map_cons, sum_cons, ← add_assoc]
    constructor
    · rintro ⟨_, ⟨htran, rfl⟩, htransactions, rfl⟩
      exact ⟨⟨htran, htransactions⟩, rfl⟩
    · rintro ⟨⟨htran, htransactions⟩, rfl⟩
      exact ⟨_, ⟨htran, rfl⟩, htransactions, rfl⟩

theorem elim_asUnsigned_eq_ok {size : Option ℕ} :
    (∃ n, size.elim (.ok 0) (asUnsigned 128) = .ok n) ↔ ∀ n, size = some n → n < 2 ^ 128 := by
  rcases size with - | n
  · exact ⟨nofun, fun _ => ⟨0, rfl⟩⟩
  · constructor
    · rintro ⟨m, hm⟩ _ ⟨⟩
      exact (asUnsigned_eq_ok.mp hm).1
    · intro h
      exact ⟨n, asUnsigned_eq_ok.mpr ⟨h n rfl, rfl⟩⟩

theorem createEntity_eq_ok {network : Option String} {block : LightEthereumBlock}
    {entity : DailyEntity} :
    createEntity lib network block = .ok entity ↔ Readable lib block ∧
      ∃ date, lib.date block.timestamp = some date ∧
        entity = ⟨network, date, dayRow lib block.transactions⟩ := by
  have hro : ∀ sums : ℚ × ℚ × ℚ,
      sums = (0 + total (fun tran => converted lib tran.value) block.transactions,
        0 + total (fun tran => converted lib tran.gas) block.transactions,
        0 + total (fun tran => converted lib tran.gasPrice) block.transactions) →
      figures block.transactions.length sums.1 sums.2.2
        (if block.transactions.length > 0 then sums.2.1 / block.transactions.length else 0) =
          dayRow lib block.transactions := by
    rintro _ rfl
    simp only [zero_add]
    rfl
  simp only [createEntity, bind_eq_ok, asUnsigned_eq_ok, ofOption_eq_ok,
    foldlM_addTransaction_eq_ok]
  constructor
  · rintro ⟨_, ⟨hti, rfl⟩, date, hdate, _, ⟨hgu, -⟩, _, ⟨hg, -⟩, n, hs, sums, ⟨ht, hsu⟩, h⟩
    refine ⟨⟨hti, by rw [hdate]; rfl, hgu, hg,
      elim_asUnsigned_eq_ok.1 ⟨n, hs⟩, ht⟩, date, hdate, ?_⟩
    rw [← Outcome.ok.inj h, ← hro sums hsu]
  · rintro ⟨hr, date, hdate, rfl⟩
    obtain ⟨n, hs⟩ := elim_asUnsigned_eq_ok.2 hr.size
    refine ⟨_, ⟨hr.timestamp, rfl⟩, date, hdate, _, ⟨hr.gasUsed, rfl⟩, _,
      ⟨hr.gasLimit, rfl⟩, n, hs, _, ⟨hr.transactions, rfl⟩, ?_⟩
    rw [← hro _ rfl]
    rfl

def Days (lib : Libraries) (network : Option String) (blocks : List LightEthereumBlock)
    (rows : DailyRows) : Prop :=
  ∀ date net, rows.lookup (date, net) =
    if network = some net ∧ blocksOf lib date blocks ≠ [] then
      some (dayRow lib (transactionsOf lib date blocks))
    else none

variable {network : Option String} {blocks : List LightEthereumBlock} {block : LightEthereumBlock}

theorem blocksOf_append (date : String) (blocks more : List LightEthereumBlock) :
    blocksOf lib date (blocks ++ more) = blocksOf lib date blocks ++ blocksOf lib date more :=
  filter_append _ _

theorem transactionsOf_append (date : String) (blocks more : List LightEthereumBlock) :
    transactionsOf lib date (blocks ++ more) =
      transactionsOf lib date blocks ++ transactionsOf lib date more := by
  rw [transactionsOf, blocksOf_append, flatMap_append]
  rfl

variable {date : String} {rows : DailyRows}

theorem blocksOf_singleton_self (h : lib.date block.timestamp = some date) :
    blocksOf lib date [block] = [block] := by
  rw [blocksOf, filter_cons_of_pos (by simpa using h)]
  rfl

theorem blocksOf_singleton_of_ne (h : lib.date block.timestamp ≠ some date) :
    blocksOf lib date [block] = [] := by
  rw [blocksOf, filter_cons_of_neg (by simpa using h)]
  rfl

theorem transactionsOf_singleton_self (h : lib.date block.timestamp = some date) :
    transactionsOf lib date [block] = block.transactions := by
  rw [transactionsOf, blocksOf_singleton_self h, flatMap_singleton]

section

variable {net : String} (h : Days lib network blocks rows) (hnet : network = some net)
  (hdate : lib.date block.timestamp = some date)

include h hnet hdate

theorem upsert_days :
    conflictFrag.upsert rows (date, net) (dayRow lib block.transactions) =
      if blocksOf lib date blocks ≠ [] ∧ transactionsOf lib date (blocks ++ [block]) = [] then none
      else some (rows.insert (date, net)
        (dayRow lib (transactionsOf lib date (blocks ++ [block])))) := by
  have hr := h date net
  rw [transactionsOf_append, transactionsOf_singleton_self hdate]
  by_cases hb : blocksOf lib date blocks = []
  · have ht : transactionsOf lib date blocks = [] := by
      rw [transactionsOf, hb]
      rfl
    rw [if_neg fun hand => hand.2 hb] at hr
    rw [UpsertConflictFragment.upsert, hr, if_neg fun hand => hand.1 hb, ht]
    rfl
  · rw [if_pos ⟨hnet, hb⟩] at hr
    rw [UpsertConflictFragment.upsert, hr]
    show (conflictFrag.update _ _).map _ = _
    rw [update_dayRow]
    by_cases hnone : transactionsOf lib date blocks ++ block.transactions = []
    · rw [if_pos hnone, if_pos ⟨hb, hnone⟩]
      rfl
    · rw [if_neg hnone, if_neg fun hand => hnone hand.2]
      rfl

theorem Days.insert :
    Days lib network (blocks ++ [block])
      (rows.insert (date, net) (dayRow lib (transactionsOf lib date (blocks ++ [block])))) := by
  intro date' net'
  by_cases hk : (date', net') = (date, net)
  · obtain ⟨rfl, rfl⟩ := Prod.mk.inj hk
    have hb : blocksOf lib date' (blocks ++ [block]) ≠ [] := by
      rw [blocksOf_append, blocksOf_singleton_self hdate]
      exact append_ne_nil_of_right_ne_nil _ (cons_ne_nil _ _)
    rw [lookup_insert, if_pos ⟨hnet, hb⟩]
  · rw [lookup_insert_of_ne _ hk, h date' net']
    by_cases hn' : network = some net'
    · -- another day of the same network
      have ho : lib.date block.timestamp ≠ some date' := by
        intro hd'
        obtain rfl := Option.some.inj (hdate.symm.trans hd')
        obtain rfl := Option.some.inj (hnet.symm.trans hn')
        exact hk rfl
      have hb : blocksOf lib date' (blocks ++ [block]) = blocksOf lib date' blocks := by
        rw [blocksOf_append, blocksOf_singleton_of_ne ho, append_nil]
      rw [transactionsOf, transactionsOf, hb]
    · rw [if_neg fun hand => hn' hand.1, if_neg fun hand => hn' hand.1]

end

theorem handleBlock_eq_ok {rows' : DailyRows} (h : Days lib network blocks rows) :
    handleBlock lib network rows block = .ok rows' ↔ ∃ net date,
      network = some net ∧ Readable lib block ∧ lib.date block.timestamp = some date ∧
      ¬(blocksOf lib date blocks ≠ [] ∧ transactionsOf lib date (blocks ++ [block]) = []) ∧
      rows' = rows.insert (date, net) (dayRow lib (transactionsOf lib date (blocks ++ [block]))) := by
  rw [handleBlock, bind_eq_ok]
  constructor
  · rintro ⟨_, he, hu⟩
    obtain ⟨hr, date, hdate, rfl⟩ := createEntity_eq_ok.1 he
    rcases hnet : network with - | net
    · rw [hnet] at hu
      cases hu
    · rw [hnet] at h hu
      simp only [upsert, upsert_days h rfl hdate] at hu
      by_cases hz : blocksOf lib date blocks ≠ [] ∧ transactionsOf lib date (blocks ++ [block]) = []
      · rw [if_pos hz] at hu
        cases hu
      · rw [if_neg hz] at hu
        exact ⟨net, date, rfl, hr, hdate, hz, (Outcome.ok.inj hu).symm⟩
  · rintro ⟨net, date, rfl, hr, hdate, hz, rfl⟩
    refine ⟨_, createEntity_eq_ok.2 ⟨hr, date, hdate, rfl⟩, ?_⟩
    simp only [upsert, upsert_days h rfl hdate, if_neg hz]

theorem days_of_handleBlocks (h : handleBlocks lib network blocks = .ok rows) :
    Days lib network blocks rows := by
  refine foldlM_invariant (I := Days lib network) h ?_ ?_
  · intro date net
    rw [if_neg fun hand => hand.2 rfl]
    rfl
  · intro f block rows rows' _ hd hb
    obtain ⟨net, date, hnet, -, hdate, -, rfl⟩ := (handleBlock_eq_ok hd).mp hb
    exact hd.insert hnet hdate

def Handleable (lib : Libraries) (network : Option String) (blocks : List LightEthereumBlock) :
    Prop :=
  (∀ block ∈ blocks, network.isSome ∧ Readable lib block) ∧ NoEmptyDays lib blocks

theorem handleable_concat_iff :
    Handleable lib network (blocks ++ [block]) ↔ Handleable lib network blocks ∧
      network.isSome ∧ Readable lib block ∧ ∀ date, lib.date block.timestamp = some date →
        ¬(blocksOf lib date blocks ≠ [] ∧ transactionsOf lib date (blocks ++ [block]) = []) := by
  have ht : ∀ {date}, lib.date block.timestamp = some date →
      (transactionsOf lib date (blocks ++ [block]) = [] ↔
        transactionsOf lib date blocks = [] ∧ block.transactions = []) := by
    intro date hdate
    rw [transactionsOf_append, transactionsOf_singleton_self hdate, append_eq_nil_iff]
  constructor
  · rintro ⟨ha, he⟩
    obtain ⟨hn, hr⟩ := ha block (mem_append_right _ (mem_singleton_self _))
    refine ⟨⟨fun b hb => ha b (mem_append_left _ hb), ?_⟩, hn, hr, ?_⟩
    · rintro f b rest date rfl
      exact he f b (rest ++ [block]) date (by simp)
    · rintro date hdate ⟨hbl, hno⟩
      obtain ⟨hno, hbk⟩ := (ht hdate).mp hno
      exact he blocks block [] date rfl hdate hbk hbl hno
  · rintro ⟨⟨ha, he⟩, hn, hr, hl⟩
    constructor
    · intro b hb
      rcases mem_append.mp hb with hb | hb
      · exact ha b hb
      · obtain rfl := mem_singleton.mp hb
        exact ⟨hn, hr⟩
    · intro f b rest date hs hdate hb hbl hno
      -- the block is the last one, or one of those before it
      rcases eq_nil_or_concat rest with rfl | ⟨rest, last, rfl⟩
      · obtain ⟨rfl, hlast'⟩ := append_inj' hs rfl
        obtain rfl := (List.cons.inj hlast').1
        exact hl date hdate ⟨hbl, (ht hdate).mpr ⟨hno, hb⟩⟩
      · have hc : blocks ++ [block] = (f ++ b :: rest) ++ [last] := by
          rw [hs]
          simp
        obtain ⟨rfl, -⟩ := append_inj' hc rfl
        exact he f b rest date rfl hdate hb hbl hno

theorem exists_handleBlocks_iff :
    (∃ rows, handleBlocks lib network blocks = .ok rows) ↔ Handleable lib network blocks := by
  induction blocks using List.reverseRecOn with
  | nil =>
    refine iff_of_true ⟨∅, rfl⟩ ⟨nofun, fun f block rest _ h => ?_⟩
    exact absurd h.symm (append_ne_nil_of_right_ne_nil _ (cons_ne_nil _ _))
  | append_singleton blocks block ih =>
    rw [handleable_concat_iff, ← ih, handleBlocks, foldlM_append, exists_bind_iff]
    simp only [foldlM_cons, foldlM_nil, bind_pure]
    constructor
    · rintro ⟨rows, hro, rows', hr'⟩
      obtain ⟨net, date, hnet, hr, hdate, hz, -⟩ :=
        (handleBlock_eq_ok (days_of_handleBlocks hro)).1 hr'
      refine ⟨⟨rows, hro⟩, by rw [hnet]; rfl, hr, fun date' hd' => ?_⟩
      obtain rfl := Option.some.inj (hdate.symm.trans hd')
      exact hz
    · rintro ⟨⟨rows, hro⟩, hn, hr, hz⟩
      obtain ⟨net, hnet⟩ := isSome_iff_exists.1 hn
      obtain ⟨date, hdate⟩ := isSome_iff_exists.1 hr.date
      exact ⟨rows, hro, _, (handleBlock_eq_ok (days_of_handleBlocks hro)).2
        ⟨net, date, hnet, hr, hdate, hz date hdate, rfl⟩⟩

/-- **The daily figures are right if and only if** all blocks are readable, no block without
transactions is added to a day without transactions, and on each day the gas prices and the gas have
the same sum. -/
theorem dailyRows_right_iff (lib : Libraries) (network : Option String)
    (blocks : List LightEthereumBlock) :
    RowsRight lib network blocks ↔
      (∀ block ∈ blocks, network.isSome ∧ Readable lib block) ∧ NoEmptyDays lib blocks ∧
        ∀ date, SumsAgree lib (transactionsOf lib date blocks) := by
  constructor
  · rintro ⟨rows, hr, hri⟩
    obtain ⟨ha, he⟩ := exists_handleBlocks_iff.1 ⟨rows, hr⟩
    refine ⟨ha, he, fun date => ?_⟩
    by_cases hb : blocksOf lib date blocks = []
    · rw [transactionsOf, hb]
      exact ⟨rfl, rfl, rfl⟩
    · obtain ⟨block, hbl⟩ := exists_mem_of_ne_nil _ hb
      obtain ⟨net, hnet⟩ :=
        isSome_iff_exists.1 (ha block (mem_of_mem_filter hbl)).1
      have hro := (days_of_handleBlocks hr date net).symm.trans (hri date net)
      rw [if_pos ⟨hnet, hb⟩, if_pos ⟨hnet, hb⟩] at hro
      exact dayRow_eq_expectedRow_iff.1 (Option.some.inj hro)
  · rintro ⟨ha, he, hs⟩
    obtain ⟨rows, hr⟩ := exists_handleBlocks_iff.2 ⟨ha, he⟩
    refine ⟨rows, hr, fun date net => ?_⟩
    rw [days_of_handleBlocks hr date net, dayRow_eq_expectedRow_iff.2 (hs date)]

def exactLibraries : Libraries where
  date := fun _ => some "2021-10-01"
  fromU128 := fun n => some n

def blockOf (transactions : List Transaction) : LightEthereumBlock where
  timestamp := 1633046400
  gasUsed := 0
  gasLimit := 0
  size := none
  transactions := transactions

theorem dailyRows_gas_and_price :
    ((handleBlocks exactLibraries (some "matic") [blockOf [⟨1, 21000, 5⟩]]).value?.bind
      (Finmap.lookup ("2021-10-01", "matic"))).map
        (fun row => (row.lookup "gas", row.lookup "average_gas_price")) =
      some (some 5, some 21000) ∧
    ¬RowsRight exactLibraries (some "matic") [blockOf [⟨1, 21000, 5⟩]] ∧
    (handleBlocks exactLibraries (some "matic") [blockOf [], blockOf []]).value?.isNone := by
  refine ⟨by decide +kernel, ?_, by decide +kernel⟩
  rintro ⟨rows, hro, hr⟩
  have hrw := (days_of_handleBlocks hro "2021-10-01" "matic").symm.trans (hr "2021-10-01" "matic")
  have hs := (dayRow_eq_expectedRow_iff.1 (Option.some.inj hrw)).gas
  exact absurd hs (by decide +kernel)

end Massbit.Analytics.DailyTransaction
