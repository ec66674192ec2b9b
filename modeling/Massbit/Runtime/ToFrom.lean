/-
How values, entities and tokens become objects of the guest and are read back
(`runtime/wasm/src/to_from`).
-/
import Massbit.Data.Decimal
import Massbit.Lib.Utf16
import Massbit.Runtime.Class

open LittleEndian

namespace Massbit

variable {H : Type} [AscHeap H]

def strToAscObj (s : String) : HeapM H AscString := do
  let heap ← get
  AscString.new (Utf16.encode s.toList) (AscHeap.apiVersion heap)

def stringFromAscObj (ascString : AscString) (_ : H) : HostResult String :=
  match Utf16.decode ascString.content with
  | none => .error .loneSurrogate
  | some string => pure (String.ofList (string.filter (· ≠ '\x00')))

def bytesToAscObj (bytes : List UInt8) : HeapM H Uint8Array := TypedArray.new bytes

def vecFromAscObj (typedArray : Uint8Array) (heap : H) : HostResult (List UInt8) :=
  typedArray.toVec heap

def arrayFromAscObj {C T : Type} [AscType C] (fromAscObj : C → H → HostResult T)
    (array : Array (AscPtr C)) (heap : H) : HostResult (List T) := do
  let content ← array.toVec heap
  content.mapM fun x => ascGet fromAscObj heap x

def bigIntToAscObj (i : ℤ) : HeapM H AscBigInt := bytesToAscObj (toSignedBytes i)

def bigIntFromAscObj (arrayBuffer : AscBigInt) (heap : H) : HostResult ℤ := do
  let bytes ← vecFromAscObj arrayBuffer heap
  pure (ofSignedBytes bytes)

namespace BigDecimal

def minExp : ℤ := -6143

def maxExp : ℤ := 6144

def toAscObj (self : BigDecimal) : HeapM H AscBigDecimal := do
  let exp ← ascNew bigIntToAscObj (-self.exp)
  let digits ← ascNew bigIntToAscObj self.digits
  pure ⟨digits, exp⟩

def exponentI64 (exp : ℤ) : HostResult ℤ :=
  let bytes := toSignedBytes exp
  if 8 < bytes.length then .panic
  else pure (ofSignedBytes
    (bytes ++ List.replicate (8 - bytes.length) (if 0 ≤ exp then 0 else 255)))

def i64 (n : ℤ) : HostResult ℤ :=
  if -9223372036854775808 ≤ n ∧ n ≤ 9223372036854775807 then pure n else .panic

def newI64 (digits exp : ℤ) : HostResult BigDecimal := do
  let scale ← i64 (-exp)
  if digits = 0 then pure ⟨0, 0⟩
  else do
    let rounded := withPrec ⟨digits, scale⟩ maxSignificantDigits
    let _ ← i64 rounded.exp
    let _ ← i64 rounded.truncateZeros.exp
    pure rounded.truncateZeros

def tryFromAscObj (bigDecimal : AscBigDecimal) (heap : H) : HostResult BigDecimal := do
  let digits ← ascGet bigIntFromAscObj heap bigDecimal.digits
  let exp ← ascGet bigIntFromAscObj heap bigDecimal.exp
  let exp ← exponentI64 exp
  let bigDecimal ← newI64 digits exp
  -- validate the exponent
  let exp ← i64 (-bigDecimal.exp)
  if exp < minExp ∨ maxExp < exp then .error (.exponentOutOfRange exp minExp maxExp)
  else pure bigDecimal

end BigDecimal

def StoreValueKind.getKind : Value → StoreValueKind
  | .string _ => .string
  | .int _ => .int
  | .bigDecimal _ => .bigDecimal
  | .bool _ => .bool
  | .list _ => .array
  | .null => .null
  | .bytes _ => .bytes
  | .bigInt _ => .bigInt

namespace Value

mutual

def toPayload : Value → HeapM H EnumPayload
  | .string s => do
    let p ← ascNew strToAscObj s
    pure (.ofPtr p)
  | .int n => pure (.ofI32 n)
  | .bigDecimal n => do
    let p ← ascNew BigDecimal.toAscObj n
    pure (.ofPtr p)
  | .bool b => pure (.ofBool b)
  | .list array => do
    let content ← ascNewAll array
    let obj ← Array.new content
    let p ← AscPtr.allocObj obj
    pure (.ofPtr p)
  | .null => pure ⟨0⟩
  | .bytes bs => do
    let p ← ascNew bytesToAscObj bs
    pure (.ofPtr p)
  | .bigInt i => do
    let p ← ascNew bytesToAscObj (toSignedBytes i)
    pure (.ofPtr p)

def ascNewAll : List Value → HeapM H (List (AscPtr (AscEnum StoreValueKind)))
  | [] => pure []
  | x :: xs => do
    let payload ← x.toPayload
    let p ← AscPtr.allocObj ⟨.getKind x, 0, payload⟩
    let ps ← ascNewAll xs
    pure (p :: ps)

end

def toAscObj (self : Value) : HeapM H (AscEnum StoreValueKind) := do
  let payload ← self.toPayload
  pure ⟨.getKind self, 0, payload⟩

def tryFromAscObj (fuel : ℕ) (ascEnum : AscEnum StoreValueKind) (heap : H) : HostResult Value :=
  match fuel with
  | 0 => .err .stackOverflow
  | fuel + 1 =>
    let payload := ascEnum.payload
    match ascEnum.kind with
    | .string => do
      let s ← ascGet stringFromAscObj heap payload.toPtr
      pure (.string s)
    | .int => pure (.int payload.toI32)
    | .bigDecimal => do
      let n ← tryAscGet BigDecimal.tryFromAscObj heap payload.toPtr
      pure (.bigDecimal n)
    | .bool => pure (.bool payload.toBool)
    | .array => do
      let values ← tryAscGet (arrayFromAscObj (tryFromAscObj fuel)) heap payload.toPtr
      pure (.list values)
    | .null => pure .null
    | .bytes => do
      let array ← ascGet vecFromAscObj heap payload.toPtr
      pure (.bytes array)
    | .bigInt => do
      let array ← ascGet vecFromAscObj heap payload.toPtr
      pure (.bigInt (ofSignedBytes array))

end Value

abbrev H160 := { bytes : List UInt8 // bytes.length = 20 }

def H160.fromAscObj (typedArray : Uint8Array) (heap : H) : HostResult H160 := do
  let data ← typedArray.toVec heap
  if h : data.length = 20 then pure ⟨data, h⟩ else .panic

abbrev U256 := BitVec 256

def U256.fromLittleEndian (bytes : List UInt8) : HostResult U256 :=
  if 32 < bytes.length then .panic else pure (.ofNat 256 (ofBytes bytes))

namespace BigInt

def fromUnsignedU256 (n : U256) : ℤ := ofBytes (toBytes 32 n.toNat)

def fromSignedU256 (n : U256) : ℤ := ofSignedBytes (toBytes 32 n.toNat)

def toSignedU256 (self : ℤ) : HostResult U256 :=
  let bytes := toSignedBytes self
  if self < 0 then
    -- `BigInt value does not fit into signed U256`
    if 32 < bytes.length then .panic
    else U256.fromLittleEndian (bytes ++ List.replicate (32 - bytes.length) 255)
  else U256.fromLittleEndian bytes

def toUnsignedU256 (self : ℤ) : HostResult U256 :=
  -- `negative value encountered for U256: ..`
  if self < 0 then .panic
  else U256.fromLittleEndian (toBytes (byteCount self.natAbs) self.natAbs)

end BigInt

/-- Values of the contract ABI (`ethabi::Token`). -/
inductive Token where
  | address (address : H160)
  | fixedBytes (bs : List UInt8)
  | bytes (bs : List UInt8)
  | int (n : U256)
  | uint (n : U256)
  | bool (b : Bool)
  | string (s : String)
  | fixedArray (tokens : List Token)
  | array (tokens : List Token)
  | tuple (tokens : List Token)

def EthereumValueKind.getKind : Token → EthereumValueKind
  | .address _ => .address
  | .fixedBytes _ => .fixedBytes
  | .bytes _ => .bytes
  | .int _ => .int
  | .uint _ => .uint
  | .bool _ => .bool
  | .string _ => .string
  | .fixedArray _ => .fixedArray
  | .array _ => .array
  | .tuple _ => .tuple

namespace Token

mutual

def toPayload : Token → HeapM H EnumPayload
  | .address a => do
    let p ← ascNew bytesToAscObj a.1
    pure (.ofPtr p)
  | .fixedBytes bs | .bytes bs => do
    let p ← ascNew bytesToAscObj bs
    pure (.ofPtr p)
  | .int n => do
    let p ← ascNew bigIntToAscObj (BigInt.fromSignedU256 n)
    pure (.ofPtr p)
  | .uint n => do
    let p ← ascNew bigIntToAscObj (BigInt.fromUnsignedU256 n)
    pure (.ofPtr p)
  | .bool b => pure (.ofBool b)
  | .string s => do
    let p ← ascNew strToAscObj s
    pure (.ofPtr p)
  | .fixedArray tokens | .array tokens | .tuple tokens => do
    let content ← ascNewAll tokens
    let obj ← Array.new content
    let p ← AscPtr.allocObj obj
    pure (.ofPtr p)

def ascNewAll : List Token → HeapM H (List (AscPtr (AscEnum EthereumValueKind)))
  | [] => pure []
  | x :: xs => do
    let payload ← x.toPayload
    let p ← AscPtr.allocObj ⟨.getKind x, 0, payload⟩
    let ps ← ascNewAll xs
    pure (p :: ps)

end

def toAscObj (self : Token) : HeapM H (AscEnum EthereumValueKind) := do
  let payload ← self.toPayload
  pure ⟨.getKind self, 0, payload⟩

def fromAscObj (fuel : ℕ) (ascEnum : AscEnum EthereumValueKind) (heap : H) : HostResult Token :=
  match fuel with
  | 0 => .err .stackOverflow
  | fuel + 1 =>
    let payload := ascEnum.payload
    match ascEnum.kind with
    | .bool => pure (.bool payload.toBool)
    | .address => do
      let a ← ascGet H160.fromAscObj heap payload.toPtr
      pure (.address a)
    | .fixedBytes => do
      let bs ← ascGet vecFromAscObj heap payload.toPtr
      pure (.fixedBytes bs)
    | .bytes => do
      let bs ← ascGet vecFromAscObj heap payload.toPtr
      pure (.bytes bs)
    | .int => do
      let n ← ascGet bigIntFromAscObj heap payload.toPtr
      let n ← BigInt.toSignedU256 n
      pure (.int n)
    | .uint => do
      let n ← ascGet bigIntFromAscObj heap payload.toPtr
      let n ← BigInt.toUnsignedU256 n
      pure (.uint n)
    | .string => do
      let s ← ascGet stringFromAscObj heap payload.toPtr
      pure (.string s)
    | .fixedArray => do
      let tokens ← ascGet (arrayFromAscObj (fromAscObj fuel)) heap payload.toPtr
      pure (.fixedArray tokens)
    | .array => do
      let tokens ← ascGet (arrayFromAscObj (fromAscObj fuel)) heap payload.toPtr
      pure (.array tokens)
    | .tuple => do
      let tokens ← ascGet (arrayFromAscObj (fromAscObj fuel)) heap payload.toPtr
      pure (.tuple tokens)

end Token

end Massbit
