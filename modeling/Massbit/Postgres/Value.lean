/-
How an attribute value gets into a column and back (`relational_queries.rs`, `sql_value.rs`).
-/
import Massbit.Data.Bytes
import Massbit.Lib.Outcome
import Massbit.Postgres.Layout

namespace Massbit

inductive Scalar where
  | text (s : String)
  | integer (i : Int32)
  | boolean (b : Bool)
  | numeric (s : String)
  | bytea (bs : Bytes)
  | enum (label : String)
  deriving DecidableEq, Repr

inductive Datum where
  | null
  | scalar (s : Scalar)
  | array (elements : List Scalar)
  deriving DecidableEq, Repr

inductive SqlExpr where
  | null
  | bind (d : Datum)
  | castNumeric (s : String)
  | castNumericArray (elements : List String)
  | castEnum (type : EnumType) (s : String)
  | castEnumArray (type : EnumType) (elements : List String)
  deriving DecidableEq, Repr

structure Number where
  text : String
  asI64 : Option ℤ
  deriving DecidableEq, Repr

inductive Json where
  | null
  | bool (b : Bool)
  | number (n : Number)
  | string (s : String)
  | array (values : List Json)
  | object (members : List (String × Json))

/-- What Postgres and the libraries for numbers do with a value. -/
structure Libraries where
  castNumeric : String → Except String String
  coerce : Column → Datum → Except String Datum
  number : String → Number
  bigDecimalToString : BigDecimal → String
  bigDecimalFromStr : String → Except String BigDecimal
  bigIntFromStr : String → Except String ℤ
  debugHash : Option Bytes → String
  debugNumber : Option ℤ → String

variable (lib : Libraries)

mutual

def Value.display : Value → String
  | .string s => s
  | .int i => toString i
  | .bigDecimal d => lib.bigDecimalToString d
  | .bool b => toString b
  | .null => "null"
  | .list values => "[" ++ String.intercalate ", " (Value.displayAll values) ++ "]"
  | .bytes bs => Bytes.display bs
  | .bigInt i => toString i

def Value.displayAll : List Value → List String
  | [] => []
  | v :: values => Value.display v :: Value.displayAll values

end

def orUnknown {A : Type} (x : Except String A) : Outcome StoreError A :=
  (Outcome.ofExcept x).mapErr StoreError.unknown

namespace SqlValue

def toBool : Value → Except String Scalar
  | .bool b => .ok (.boolean b)
  | v => .error ("Failed to convert non-boolean attribute value to boolean in SQL: " ++
      v.display lib)

def toInteger : Value → Except String Scalar
  | .int i => .ok (.integer i)
  | v => .error ("Failed to convert non-int attribute value to int in SQL: " ++ v.display lib)

def toText : Value → Except String String
  | .string s => .ok s
  | .bytes bs => .ok (Bytes.display bs)
  | v => .error ("Failed to convert attribute value to String or Bytes in SQL: " ++ v.display lib)

def toBinary : Value → Except String Scalar
  | .bytes bs => .ok (.bytea bs)
  | .string s => match Bytes.fromStr s with
    | .ok bs => .ok (.bytea bs)
    | .error e => .error e.display
  | v => .error ("Failed to convert attribute value to Bytes in SQL: " ++ v.display lib)

end SqlValue

def bindArray (toSql : Value → Except String Scalar) (values : List Value) :
    Outcome StoreError SqlExpr := do
  let elements ← orUnknown (values.mapM toSql)
  return .bind (.array elements)

def queryValue (value : Value) (columnType : ColumnType) : Outcome StoreError SqlExpr :=
  match value with
  | .string s => match columnType with
    | .string => .ok (.bind (.scalar (.text s)))
    | .enum type => .ok (.castEnum type s)
    | .bytes | .bytesId => match Bytes.fromStr s with
      | .ok bs => .ok (.bind (.scalar (.bytea bs)))
      | .error e => .err (.unknown e.display)
    -- only string and enum columns are expected to have values of type string
    | .boolean | .bigDecimal | .bigInt | .int => .panic
  | .int i => .ok (.bind (.scalar (.integer i)))
  | .bigDecimal d => .ok (.castNumeric (lib.bigDecimalToString d))
  | .bool b => .ok (.bind (.scalar (.boolean b)))
  | .list values => match columnType with
    | .bigDecimal | .bigInt => .ok (.castNumericArray (values.map (Value.display lib)))
    | .boolean => bindArray (SqlValue.toBool lib) values
    | .bytes | .bytesId => bindArray (SqlValue.toBinary lib) values
    | .int => bindArray (SqlValue.toInteger lib) values
    | .string => bindArray (fun v => (SqlValue.toText lib v).map Scalar.text) values
    | .enum type => do
      let elements ← orUnknown (values.mapM (SqlValue.toText lib))
      return .castEnumArray type elements
  | .null => .ok .null
  | .bytes bs => .ok (.bind (.scalar (.bytea bs)))
  | .bigInt i => .ok (.castNumeric (toString i))

def EnumType.cast (type : EnumType) (s : String) : Except String Scalar :=
  if s ∈ type.values then .ok (.enum s)
  else .error ("invalid input value for enum " ++ type.name ++ ": \"" ++ s ++ "\"")

def SqlExpr.eval : SqlExpr → Except String Datum
  | .null => .ok .null
  | .bind d => .ok d
  | .castNumeric s => (lib.castNumeric s).map fun s => .scalar (.numeric s)
  | .castNumericArray elements =>
    (elements.mapM lib.castNumeric).map fun ss => .array (ss.map .numeric)
  | .castEnum type s => (type.cast s).map .scalar
  | .castEnumArray type elements => (elements.mapM type.cast).map .array

namespace Scalar

def hasType : Scalar → ColumnType → Bool
  | text _, .string => true
  | integer _, .int => true
  | boolean _, .boolean => true
  | numeric _, .bigDecimal | numeric _, .bigInt => true
  | bytea _, .bytes | bytea _, .bytesId => true
  | enum label, .enum type => label ∈ type.values
  | _, _ => false

end Scalar

def Datum.fits (c : Column) : Datum → Bool
  | null => true
  | scalar s => !c.isList && s.hasType c.columnType
  | array elements => c.isList && elements.all fun s => s.hasType c.columnType

namespace Column

def assign (c : Column) (d : Datum) : Except String Datum :=
  if d.fits c then .ok d else lib.coerce c d

def store (c : Column) (value : Value) : Outcome StoreError Datum := do
  let e ← queryValue lib value c.columnType
  let d ← orUnknown (e.eval lib)
  orUnknown (c.assign lib d)

end Column

namespace Scalar

def toJsonb : Scalar → Json
  | text s => .string s
  | integer i => .number ⟨toString i, some i.toInt⟩
  | boolean b => .bool b
  | numeric s => .number (lib.number s)
  | bytea bs => .string ("\\x" ++ Bytes.encode bs)
  | enum label => .string label

end Scalar

def Datum.toJsonb : Datum → Json
  | null => .null
  | scalar s => s.toJsonb lib
  | array elements => .array (elements.map (Scalar.toJsonb lib))

def bytesAsStr (id : String) : String := String.ofList (trimStartMatches '\\' 'x' id.toList)

def fromNumber (columnType : ColumnType) (number : Number) : Except String Value :=
  match columnType with
  | .int => match number.asI64 with
    | some i =>
      if -2147483648 ≤ i ∧ i ≤ 2147483647 then .ok (.int (Int32.ofInt i))
      else .error ("failed to convert " ++ number.text ++
        " to Int: out of range integral type conversion attempted")
    | none => .error ("failed to convert " ++ number.text ++ " to Int")
  | .bigDecimal => match lib.bigDecimalFromStr number.text with
    | .ok d => .ok (.bigDecimal d)
    | .error e => .error ("failed to convert " ++ number.text ++ " to BigDecimal: " ++ e)
  | .bigInt => match lib.bigIntFromStr number.text with
    | .ok i => .ok (.bigInt i)
    | .error e => .error ("failed to convert " ++ number.text ++ " to BigInt: " ++ e)
  | .boolean | .bytes | .string | .enum _ | .bytesId =>
    .error ("can not convert number " ++ number.text ++ " to " ++ columnType.debug)

def fromString (columnType : ColumnType) (s : String) : Except String Value :=
  match columnType with
  | .string | .enum _ => .ok (.string s)
  | .bytes => match Bytes.fromStr (bytesAsStr s) with
    | .ok bs => .ok (.bytes bs)
    | .error e => .error ("failed to convert " ++ bytesAsStr s ++ " to Bytes: " ++ e.display)
  | .bytesId => .ok (.string (bytesAsStr s))
  | .boolean | .bigDecimal | .bigInt | .int =>
    .error ("can not convert string " ++ s ++ " to " ++ columnType.debug)

mutual

def fromColumnValue (columnType : ColumnType) : Json → Outcome StoreError Value
  | .null => .ok .null
  | .bool b => .ok (.bool b)
  | .number n => orUnknown (fromNumber lib columnType n)
  | .string s => orUnknown (fromString columnType s)
  | .array values => do
    let values ← fromColumnValues columnType values
    return .list values
  -- objects as entity attributes are not supported
  | .object _ => .panic

def fromColumnValues (columnType : ColumnType) : List Json → Outcome StoreError (List Value)
  | [] => .ok []
  | json :: values => do
    let v ← fromColumnValue columnType json
    let vs ← fromColumnValues columnType values
    return v :: vs

end

namespace Column

def load (c : Column) (d : Datum) : Outcome StoreError Value :=
  fromColumnValue lib c.columnType (d.toJsonb lib)

def roundTrip (c : Column) (value : Value) : Outcome StoreError Value :=
  c.store lib value >>= c.load lib

theorem load_null (c : Column) : c.load lib .null = .ok .null := by
  rw [load, Datum.toJsonb, fromColumnValue]

variable {lib} {c : Column}

theorem roundTrip_eq {v : Value} {d : Datum} (h : c.store lib v = .ok d) :
    c.roundTrip lib v = c.load lib d := by
  rw [roundTrip, h]
  rfl

theorem roundTrip_null (c : Column) : c.roundTrip lib .null = .ok .null :=
  (roundTrip_eq (d := .null) rfl).trans (c.load_null lib)

theorem store_string (ht : c.columnType = .string) (hl : c.isList = false) (s : String) :
    c.store lib (.string s) = .ok (.scalar (.text s)) := by
  have hf : (Datum.scalar (.text s)).fits c = true := by
    rw [Datum.fits, ht, hl]
    rfl
  have ha : c.assign lib (.scalar (.text s)) = .ok (.scalar (.text s)) := if_pos hf
  rw [store, ht]
  show orUnknown (c.assign lib (.scalar (.text s))) = _
  rw [ha]
  rfl

theorem store_bytesId (ht : c.columnType = .bytesId) (hl : c.isList = false) (s : String) :
    c.store lib (.string s) = match Bytes.fromStr s with
      | .ok bs => .ok (.scalar (.bytea bs))
      | .error e => .err (.unknown e.display) := by
  rw [store, ht, queryValue]
  rcases Bytes.fromStr s with e | bs
  · rfl
  · have hf : (Datum.scalar (.bytea bs)).fits c = true := by
      rw [Datum.fits, ht, hl]
      rfl
    have ha : c.assign lib (.scalar (.bytea bs)) = .ok (.scalar (.bytea bs)) := if_pos hf
    show orUnknown (c.assign lib (.scalar (.bytea bs))) = _
    rw [ha]
    rfl

theorem load_text (ht : c.columnType = .string) (s : String) :
    c.load lib (.scalar (.text s)) = .ok (.string s) := by
  rw [load, Datum.toJsonb, Scalar.toJsonb, fromColumnValue, ht]
  rfl

theorem roundTrip_string (ht : c.columnType = .string) (hl : c.isList = false) (s : String) :
    c.roundTrip lib (.string s) = .ok (.string s) :=
  (roundTrip_eq (store_string ht hl s)).trans (load_text ht s)

end Column

end Massbit
