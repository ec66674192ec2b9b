/-
Objects on the heap of an AssemblyScript module (`massbit/src/runtime`).
-/
import Massbit.Lib.LittleEndian
import Massbit.Lib.Outcome

open LittleEndian

namespace Massbit

structure Version where
  major : ℕ
  minor : ℕ
  patch : ℕ
  deriving DecidableEq, Repr

namespace Version

def new (major minor patch : ℕ) : Version := ⟨major, minor, patch⟩

instance : LE Version where
  le a b := a.major < b.major ∨ a.major = b.major ∧
    (a.minor < b.minor ∨ a.minor = b.minor ∧ a.patch ≤ b.patch)

instance : DecidableLE Version := fun a b =>
  inferInstanceAs (Decidable (a.major < b.major ∨ a.major = b.major ∧
    (a.minor < b.minor ∨ a.minor = b.minor ∧ a.patch ≤ b.patch)))

end Version

inductive IndexForAscTypeId where
  | string | arrayBuffer | int8Array | int16Array | int32Array | int64Array | uint8Array
  | uint16Array | uint32Array | uint64Array | float32Array | float64Array | bigDecimal
  | arrayBool | arrayUint8Array | arrayEthereumValue | arrayStoreValue | arrayJsonValue
  | arrayString | arrayEventParam | arrayTypedMapEntryStringJsonValue
  | arrayTypedMapEntryStringStoreValue | smartContractCall | eventParam | ethereumTransaction
  | ethereumBlock | ethereumCall | wrappedTypedMapStringJsonValue | wrappedBool
  | wrappedJsonValue | ethereumValue | storeValue | jsonValue | ethereumEvent
  | typedMapEntryStringStoreValue | typedMapEntryStringJsonValue | typedMapStringStoreValue
  | typedMapStringJsonValue | typedMapStringTypedMapStringJsonValue
  | resultTypedMapStringJsonValueBool | resultJsonValueBool | arrayU8 | arrayU16 | arrayU32
  | arrayU64 | arrayI8 | arrayI16 | arrayI32 | arrayI64 | arrayF32 | arrayF64
  | arrayBigDecimal

def IndexForAscTypeId.toU32 (self : IndexForAscTypeId) : UInt32 := UInt32.ofNat self.ctorIdx

inductive DeterministicHostError where
  /-- `Heap access out of bounds. Offset: .. Size: ..` -/
  | heapAccessOutOfBounds (offset size : ℕ)
  | nullPointer
  /-- `Subtract overflow on pointer: ..` -/
  | subtractOverflow (pointer : UInt32)
  /-- `Incorrect size for .. Expected .., got ..,` -/
  | incorrectSize (type : String) (expected got : ℕ)
  | sizeDoesNotMatch
  | pastEndOfArray
  | invalidAscBytesSize
  /-- `value .. is out of range for ..` -/
  | outOfRange (discr : ℕ) (enum : String)
  | sliceTooLarge
  | stringTooLarge
  | stringTooShort
  | stringLengthHeader
  | invalidStringLength
  | pastEndOfChunk
  | stringSizeOverflow
  | loneSurrogate
  /-- ``big decimal exponent `..` is outside the `..` to `..` range`` -/
  | exponentOutOfRange (exp min max : ℤ)
  /-- `Failed to call 'asc_type_id' with '..'` -/
  | ascTypeId (index : IndexForAscTypeId)

inductive HeapError where
  | deterministic (e : DeterministicHostError)
  | allocation
  | stackOverflow

abbrev HostResult (A : Type) := Outcome HeapError A

def HostResult.error {A : Type} (e : DeterministicHostError) : HostResult A :=
  .err (.deterministic e)

abbrev HeapM (H A : Type) := StateT H (Outcome HeapError) A

def addU32 (a b : UInt32) : HostResult UInt32 :=
  if a.toNat + b.toNat < 2 ^ 32 then pure (a + b) else .panic

class AscHeap (H : Type) where
  rawNew : List UInt8 → HeapM H UInt32
  get : H → (offset size : UInt32) → HostResult (List UInt8)
  apiVersion : H → Version
  ascTypeId : IndexForAscTypeId → HeapM H UInt32

/-- A pointer to an object of class `C`. -/
structure AscPtr (C : Type) where
  wasmPtr : UInt32
  deriving DecidableEq, Repr

/-- A type that has a direct correspondence to a type of the guest. -/
class AscType (C : Type) where
  toAscBytes : C → HostResult (List UInt8)
  fromAscBytes : List UInt8 → Version → HostResult C
  contentLen : C → List UInt8 → HostResult ℕ := fun _ ascBytes => pure ascBytes.length
  ascSize : {H : Type} → [AscHeap H] → AscPtr C → H → HostResult UInt32

class MemSize (C : Type) where
  memSize : ℕ

class AscIndexId (C : Type) where
  indexAscTypeId : IndexForAscTypeId

export AscType (toAscBytes fromAscBytes)
export MemSize (memSize)

def fixedSize (C : Type) [MemSize C] : HostResult UInt32 := pure (UInt32.ofNat (memSize C))

def fromLeBytes {A : Type} (type : String) (size : ℕ) (ofNat : ℕ → A) (ascObj : List UInt8) :
    HostResult A :=
  if ascObj.length = size then pure (ofNat (ofBytes ascObj))
  else .error (.incorrectSize type size ascObj.length)

structure Float32Bits where
  bits : UInt32
  deriving DecidableEq, Repr

structure Float64Bits where
  bits : UInt64
  deriving DecidableEq, Repr

instance : MemSize Bool := ⟨1⟩
instance : MemSize UInt8 := ⟨1⟩
instance : MemSize UInt16 := ⟨2⟩
instance : MemSize UInt32 := ⟨4⟩
instance : MemSize UInt64 := ⟨8⟩
instance : MemSize Int8 := ⟨1⟩
instance : MemSize Int32 := ⟨4⟩
instance : MemSize Int64 := ⟨8⟩
instance : MemSize Float32Bits := ⟨4⟩
instance : MemSize Float64Bits := ⟨8⟩
instance (C : Type) : MemSize (AscPtr C) := ⟨4⟩

instance : AscType Bool where
  toAscBytes x := pure [x.toUInt8]
  fromAscBytes ascObj _ := fromLeBytes "bool" 1 (fun n => n != 0) ascObj
  ascSize _ _ := fixedSize Bool

instance : AscType UInt8 where
  toAscBytes x := pure (toBytes 1 x.toNat)
  fromAscBytes ascObj _ := fromLeBytes "u8" 1 UInt8.ofNat ascObj
  ascSize _ _ := fixedSize UInt8

instance : AscType UInt16 where
  toAscBytes x := pure (toBytes 2 x.toNat)
  fromAscBytes ascObj _ := fromLeBytes "u16" 2 UInt16.ofNat ascObj
  ascSize _ _ := fixedSize UInt16

instance : AscType UInt32 where
  toAscBytes x := pure (toBytes 4 x.toNat)
  fromAscBytes ascObj _ := fromLeBytes "u32" 4 UInt32.ofNat ascObj
  ascSize _ _ := fixedSize UInt32

instance : AscType UInt64 where
  toAscBytes x := pure (toBytes 8 x.toNat)
  fromAscBytes ascObj _ := fromLeBytes "u64" 8 UInt64.ofNat ascObj
  ascSize _ _ := fixedSize UInt64

instance : AscType Int8 where
  toAscBytes x := pure (toBytes 1 x.toUInt8.toNat)
  fromAscBytes ascObj _ := fromLeBytes "i8" 1 (fun n => (UInt8.ofNat n).toInt8) ascObj
  ascSize _ _ := fixedSize Int8

instance : AscType Int32 where
  toAscBytes x := pure (toBytes 4 x.toUInt32.toNat)
  fromAscBytes ascObj _ := fromLeBytes "i32" 4 (fun n => (UInt32.ofNat n).toInt32) ascObj
  ascSize _ _ := fixedSize Int32

instance : AscType Int64 where
  toAscBytes x := pure (toBytes 8 x.toUInt64.toNat)
  fromAscBytes ascObj _ := fromLeBytes "i64" 8 (fun n => (UInt64.ofNat n).toInt64) ascObj
  ascSize _ _ := fixedSize Int64

instance : AscType Float32Bits where
  toAscBytes x := pure (toBytes 4 x.bits.toNat)
  fromAscBytes ascObj _ := fromLeBytes "f32" 4 (fun n => ⟨UInt32.ofNat n⟩) ascObj
  ascSize _ _ := fixedSize Float32Bits

instance : AscType Float64Bits where
  toAscBytes x := pure (toBytes 8 x.bits.toNat)
  fromAscBytes ascObj _ := fromLeBytes "f64" 8 (fun n => ⟨UInt64.ofNat n⟩) ascObj
  ascSize _ _ := fixedSize Float64Bits

instance (C : Type) : AscType (AscPtr C) where
  toAscBytes x := toAscBytes x.wasmPtr
  fromAscBytes ascObj apiVersion := do
    let bytes ← (fromAscBytes ascObj apiVersion : HostResult UInt32)
    pure ⟨bytes⟩
  ascSize _ _ := fixedSize (AscPtr C)

def headerSize : ℕ := 20

def paddingTo16 (contentLength : ℕ) : ℕ := (16 - (headerSize + contentLength) % 16) % 16

def structBytes (size : ℕ) (fields : List (HostResult (List UInt8))) : HostResult (List UInt8) := do
  let parts ← fields.mapM id
  if parts.flatten.length = size then pure parts.flatten else .panic

def checkSize (contentSize : ℕ) (ascObj : List UInt8) (apiVersion : Version) : HostResult Unit :=
  if apiVersion ≤ .new 0 0 4 then
    if ascObj.length < contentSize then .error .sizeDoesNotMatch else pure ()
  else if headerSize + ascObj.length = paddingTo16 contentSize + contentSize then
    .error .sizeDoesNotMatch
  else pure ()

def readField (A : Type) [AscType A] [MemSize A] (ascObj : List UInt8) (offset : ℕ)
    (apiVersion : Version) : HostResult A :=
  if offset + memSize A ≤ ascObj.length then
    fromAscBytes ((ascObj.drop offset).take (memSize A)) apiVersion
  else .error .pastEndOfArray

def u32FromSlice (rawBytes : List UInt8) : HostResult UInt32 :=
  if rawBytes.length = 4 then pure (UInt32.ofNat (ofBytes rawBytes)) else .panic

namespace AscPtr

variable {H : Type} [AscHeap H] {C : Type}

def checkIsNotNull (self : AscPtr C) : HostResult Unit :=
  if self.wasmPtr = 0 then .error .nullPointer else pure ()

def readU32 (self : AscPtr C) (heap : H) : HostResult UInt32 := do
  let rawBytes ← AscHeap.get heap self.wasmPtr 4
  u32FromSlice rawBytes

def readLen (self : AscPtr C) (heap : H) : HostResult UInt32 := do
  self.checkIsNotNull
  if self.wasmPtr < 4 then .error (.subtractOverflow self.wasmPtr)
  else do
    let rawBytes ← AscHeap.get heap (self.wasmPtr - 4) 4
    u32FromSlice rawBytes

def readPtr [AscType C] (self : AscPtr C) (heap : H) : HostResult C := do
  let len ← (if AscHeap.apiVersion heap ≤ .new 0 0 4 then AscType.ascSize self heap
    else self.readLen heap : HostResult UInt32)
  let bytes ← AscHeap.get heap self.wasmPtr len
  fromAscBytes bytes (AscHeap.apiVersion heap)

def generateHeader (typeIdIndex : IndexForAscTypeId) (contentLength fullLength : ℕ) :
    HeapM H (List UInt8) := do
  let ascTypeId ← AscHeap.ascTypeId typeIdIndex
  pure (toBytes 4 (16 + fullLength) ++ toBytes 4 0 ++ toBytes 4 0 ++ toBytes 4 ascTypeId.toNat ++
    toBytes 4 contentLength)

def padded (bytes : List UInt8) : List UInt8 :=
  bytes ++ List.replicate (paddingTo16 bytes.length) 0

def allocObj [AscType C] [AscIndexId C] (ascObj : C) : HeapM H (AscPtr C) := do
  let heap ← get
  if AscHeap.apiVersion heap ≤ .new 0 0 4 then do
    let bytes ← toAscBytes ascObj
    let heapPtr ← AscHeap.rawNew bytes
    pure ⟨heapPtr⟩
  else do
    let bytes ← toAscBytes ascObj
    let contentLen ← AscType.contentLen ascObj (padded bytes)
    let header ← generateHeader (AscIndexId.indexAscTypeId C) contentLen (padded bytes).length
    let heapPtr ← AscHeap.rawNew (header ++ padded bytes)
    -- the pointer points at the content
    pure ⟨heapPtr + UInt32.ofNat header.length⟩

end AscPtr

section

variable {H : Type} [AscHeap H] {C T : Type} [AscType C]

def ascNew [AscIndexId C] (toAscObj : T → HeapM H C) (rustObj : T) : HeapM H (AscPtr C) := do
  let obj ← toAscObj rustObj
  AscPtr.allocObj obj

def ascGet (fromAscObj : C → H → HostResult T) (heap : H) (ascPtr : AscPtr C) : HostResult T := do
  let obj ← ascPtr.readPtr heap
  fromAscObj obj heap

def tryAscGet (tryFromAscObj : C → H → HostResult T) (heap : H) (ascPtr : AscPtr C) :
    HostResult T := do
  let obj ← ascPtr.readPtr heap
  tryFromAscObj obj heap

end

end Massbit
