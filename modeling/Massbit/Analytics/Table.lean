/-
Tables of the analytics and statements that insert or update rows (`relational.rs`,
`postgres_queries.rs`, `StorageAdapter::upsert`).
-/
import Massbit.Data.Entity
import Mathlib.Data.Rat.Defs

namespace Massbit.Analytics

inductive ColumnType where
  | boolean
  | bigDecimal
  | bigInt
  | bytes
  | int
  | string
  | varchar
  | textArray
  | enum (name : String)
  | bytesId
  deriving DecidableEq, Repr

structure Column where
  name : String
  columnType : ColumnType
  deriving DecidableEq, Repr

structure Table where
  name : String
  columns : List Column
  rowName : Option String
  deriving DecidableEq, Repr

def Table.new (name : String) (columns : List Column) : Table := ⟨name, columns, some "t"⟩

inductive Expression where
  | current (field : String)
  | excluded (field : String)
  | add (a b : Expression)
  | mul (a b : Expression)
  | div (a b : Expression)
  deriving DecidableEq, Repr

structure UpdateExpression where
  field : String
  expression : Expression
  deriving DecidableEq, Repr

structure UpsertConflictFragment where
  constraint : String
  expressions : List UpdateExpression := []
  deriving DecidableEq, Repr

def UpsertConflictFragment.addExpression (self : UpsertConflictFragment) (field : String)
    (expression : Expression) : UpsertConflictFragment :=
  { self with expressions := self.expressions ++ [⟨field, expression⟩] }

/-- A call of `StorageAdapter::upsert`. -/
structure UpsertCommand where
  table : Table
  values : List Entity
  conflictFragment : Option UpsertConflictFragment := none

abbrev NumericRow := HashMap String ℚ

def NumericRow.ofList (l : List (String × ℚ)) : NumericRow :=
  l.foldl (fun row x => row.insert x.1 x.2) ∅

def Expression.eval (t excluded : NumericRow) : Expression → Option ℚ
  | .current field => t.lookup field
  | .excluded field => excluded.lookup field
  | .add a b => do return (← a.eval t excluded) + (← b.eval t excluded)
  | .mul a b => do return (← a.eval t excluded) * (← b.eval t excluded)
  | .div a b => do
    let x ← a.eval t excluded
    let y ← b.eval t excluded
    if y = 0 then none else some (x / y)

def UpsertConflictFragment.update (self : UpsertConflictFragment) (t excluded : NumericRow) :
    Option NumericRow :=
  self.expressions.foldlM (fun row e => (e.expression.eval t excluded).map (row.insert e.field)) t

def UpsertConflictFragment.upsert {K : Type*} [DecidableEq K] (self : UpsertConflictFragment)
    (rows : HashMap K NumericRow) (key : K) (row : NumericRow) : Option (HashMap K NumericRow) :=
  match rows.lookup key with
  | none => some (rows.insert key row)
  | some t => (self.update t row).map (rows.insert key)

end Massbit.Analytics
