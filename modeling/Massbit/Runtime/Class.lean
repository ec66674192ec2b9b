/-
The classes of AssemblyScript objects (`runtime/wasm/src/asc_abi`), with a layout for each object
model and an enumeration of the two, which goes by the API version.
-/
import Massbit.Lib.Chunks
import Massbit.Runtime.AscHeap

open LittleEndian

namespace Massbit

def nextPowerOfTwo (n : ℕ) : ℕ := if n ≤ 1 then 1 else 2 ^ ((n - 1).log2 + 1)

def getElements (T : Type) [AscType T] [MemSize T] (content : List UInt8)
    (byteOffset length : UInt32) (apiVersion : Version) : HostResult (List T) :=
  -- the slice from the offset on
  if content.length < byteOffset.toNat then .panic
  else (((content.drop byteOffset.toNat).chunks (memSize T)).take length.toNat).mapM fun ascObj =>
    fromAscBytes ascObj apiVersion

def bufferContent {T : Type} [AscType T] (values : List T) : HostResult (List UInt8) := do
  let parts ← values.mapM toAscBytes
  if 2 ^ 32 - 1 < parts.flatten.length then .error .sliceTooLarge else pure parts.flatten

def codeUnitBytes (content : List UInt16) : List UInt8 :=
  content.flatMap fun codeUnit => toBytes 2 codeUnit.toNat

namespace v0_0_4

structure ArrayBuffer where
  byteLength : UInt32
  padding : List UInt8
  content : List UInt8

namespace ArrayBuffer

def new {T : Type} [AscType T] (values : List T) : HostResult ArrayBuffer := do
  let content ← bufferContent values
  pure ⟨UInt32.ofNat content.length, List.replicate 4 0, content⟩

def get (T : Type) [AscType T] [MemSize T] (self : ArrayBuffer) (byteOffset length : UInt32)
    (apiVersion : Version) : HostResult (List T) :=
  getElements T self.content byteOffset length apiVersion

instance : AscType ArrayBuffer where
  toAscBytes self :=
    let ascLayout := toBytes 4 self.byteLength.toNat ++ self.padding ++ self.content
    -- extra capacity to the next power of two
    let totalSize := self.byteLength.toNat + 8
    let totalCapacity := nextPowerOfTwo totalSize
    let ascLayout := ascLayout ++ List.replicate (totalCapacity - totalSize) 0
    if ascLayout.length = totalCapacity then pure ascLayout else .panic
  fromAscBytes ascObj apiVersion :=
    if ascObj.length < 4 then .error .pastEndOfArray
    else if ascObj.length < 8 then .error .pastEndOfArray
    else do
      let byteLength ← (fromAscBytes (ascObj.take 4) apiVersion : HostResult UInt32)
      pure ⟨byteLength, List.replicate 4 0, ascObj.drop 8⟩
  ascSize ptr heap := do
    let byteLength ← ptr.readU32 heap
    addU32 (4 + 4) byteLength

end ArrayBuffer

structure TypedArray (T : Type) where
  buffer : AscPtr ArrayBuffer
  byteOffset : UInt32
  byteLength : UInt32

instance (T : Type) : MemSize (TypedArray T) := ⟨12⟩

instance (T : Type) : AscType (TypedArray T) where
  toAscBytes self := structBytes (memSize (TypedArray T))
    [toAscBytes self.buffer, toAscBytes self.byteOffset, toAscBytes self.byteLength]
  fromAscBytes ascObj apiVersion := do
    checkSize (memSize (TypedArray T)) ascObj apiVersion
    let buffer ← readField (AscPtr ArrayBuffer) ascObj 0 apiVersion
    let byteOffset ← readField UInt32 ascObj 4 apiVersion
    let byteLength ← readField UInt32 ascObj 8 apiVersion
    pure ⟨buffer, byteOffset, byteLength⟩
  ascSize _ _ := fixedSize (TypedArray T)

def TypedArray.toVec {T H : Type} [AscType T] [MemSize T] [AscHeap H] (self : TypedArray T)
    (heap : H) : HostResult (List T) := do
  let buffer ← self.buffer.readPtr heap
  buffer.get T self.byteOffset (self.byteLength / UInt32.ofNat (memSize T)) (AscHeap.apiVersion heap)

structure AscString where
  length : UInt32
  content : List UInt16

namespace AscString

def new (content : List UInt16) : HostResult AscString :=
  if 2 ^ 32 - 1 < 2 * content.length then .error .stringTooLarge
  else pure ⟨UInt32.ofNat content.length, content⟩

def readUnits : List UInt8 → HostResult (List UInt16)
  | [] => pure []
  | [_] => .panic
  | low :: high :: rest => do
    let units ← readUnits rest
    pure (UInt16.ofNat (ofBytes [low, high]) :: units)

def checkedI32 (x : ℤ) : Option ℤ := if -2 ^ 31 ≤ x ∧ x < 2 ^ 31 then some x else none

def headerLength (length : Int32) : Option ℤ :=
  (checkedI32 (length.toInt * 2)).bind fun l => checkedI32 (l + 4)

instance : AscType AscString where
  toAscBytes self :=
    pure (toBytes 4 self.length.toNat ++ codeUnitBytes self.content)
  fromAscBytes ascObj _ :=
    if ascObj.length < 4 then .error .stringTooShort
    else if headerLength (UInt32.ofNat (ofBytes (ascObj.take 4))).toInt32
        ≠ checkedI32 ascObj.length then
      .error .stringLengthHeader
    else if ascObj.length % 2 ≠ 0 then .error .invalidStringLength
    else do
      let content ← readUnits (ascObj.drop 4)
      new content
  ascSize ptr heap := do
    let length ← ptr.readU32 heap
    if 2 * length.toNat + 4 < 2 ^ 32 then pure (UInt32.ofNat (2 * length.toNat + 4))
    else .error .stringSizeOverflow

end AscString

structure Array (T : Type) where
  buffer : AscPtr ArrayBuffer
  length : UInt32

instance (T : Type) : MemSize (Array T) := ⟨8⟩

instance (T : Type) : AscType (Array T) where
  toAscBytes self := structBytes (memSize (Array T))
    [toAscBytes self.buffer, toAscBytes self.length]
  fromAscBytes ascObj apiVersion := do
    checkSize (memSize (Array T)) ascObj apiVersion
    let buffer ← readField (AscPtr ArrayBuffer) ascObj 0 apiVersion
    let length ← readField UInt32 ascObj 4 apiVersion
    pure ⟨buffer, length⟩
  ascSize _ _ := fixedSize (Array T)

def Array.toVec {T H : Type} [AscType T] [MemSize T] [AscHeap H] (self : Array T)
    (heap : H) : HostResult (List T) := do
  let buffer ← self.buffer.readPtr heap
  buffer.get T 0 self.length (AscHeap.apiVersion heap)

end v0_0_4

namespace v0_0_5

structure ArrayBuffer where
  byteLength : UInt32
  content : List UInt8

namespace ArrayBuffer

def new {T : Type} [AscType T] (values : List T) : HostResult ArrayBuffer := do
  let content ← bufferContent values
  pure ⟨UInt32.ofNat content.length, content⟩

def get (T : Type) [AscType T] [MemSize T] (self : ArrayBuffer) (byteOffset length : UInt32)
    (apiVersion : Version) : HostResult (List T) :=
  getElements T self.content byteOffset length apiVersion

instance : MemSize ArrayBuffer := ⟨24⟩

instance : AscType ArrayBuffer where
  toAscBytes self :=
    -- extra capacity to the next power of two
    let totalSize := self.byteLength.toNat + headerSize
    pure (self.content ++ List.replicate (nextPowerOfTwo totalSize - totalSize) 0)
  fromAscBytes ascObj _ := pure ⟨UInt32.ofNat ascObj.length, ascObj⟩
  contentLen self _ := pure self.byteLength.toNat
  ascSize _ _ := fixedSize ArrayBuffer

end ArrayBuffer

structure TypedArray (T : Type) where
  buffer : AscPtr ArrayBuffer
  dataStart : UInt32
  byteLength : UInt32

instance (T : Type) : MemSize (TypedArray T) := ⟨12⟩

instance (T : Type) : AscType (TypedArray T) where
  toAscBytes self := structBytes (memSize (TypedArray T))
    [toAscBytes self.buffer, toAscBytes self.dataStart, toAscBytes self.byteLength]
  fromAscBytes ascObj apiVersion := do
    checkSize (memSize (TypedArray T)) ascObj apiVersion
    let buffer ← readField (AscPtr ArrayBuffer) ascObj 0 apiVersion
    let dataStart ← readField UInt32 ascObj 4 apiVersion
    let byteLength ← readField UInt32 ascObj 8 apiVersion
    pure ⟨buffer, dataStart, byteLength⟩
  ascSize _ _ := fixedSize (TypedArray T)

def dataOffset (dataStart : UInt32) (buffer : AscPtr ArrayBuffer) : HostResult UInt32 :=
  if dataStart < buffer.wasmPtr then .error (.subtractOverflow dataStart)
  else pure (dataStart - buffer.wasmPtr)

def TypedArray.toVec {T H : Type} [AscType T] [MemSize T] [AscHeap H] (self : TypedArray T)
    (heap : H) : HostResult (List T) := do
  self.buffer.checkIsNotNull
  let dataStartWithOffset ← dataOffset self.dataStart self.buffer
  let buffer ← self.buffer.readPtr heap
  buffer.get T dataStartWithOffset (self.byteLength / UInt32.ofNat (memSize T))
    (AscHeap.apiVersion heap)

structure AscString where
  byteLength : UInt32
  content : List UInt16

namespace AscString

def new (content : List UInt16) : HostResult AscString :=
  if 2 ^ 32 - 1 < 2 * content.length then .error .stringTooLarge
  else pure ⟨UInt32.ofNat content.length, content⟩

def readPair : List UInt8 → HostResult UInt16
  | [] => .panic
  | [_] => .error .pastEndOfChunk
  | low :: high :: _ => pure (UInt16.ofNat (ofBytes [low, high]))

instance : MemSize AscString := ⟨24⟩

instance : AscType AscString where
  toAscBytes self :=
    let totalSize := self.byteLength.toNat * 2 + 20
    pure (codeUnitBytes self.content ++ List.replicate (nextPowerOfTwo totalSize - totalSize) 0)
  fromAscBytes ascObj _ := do
    let content ← (ascObj.chunks 2).mapM readPair
    new content
  contentLen self _ := pure (self.byteLength.toNat * 2)
  ascSize _ _ := fixedSize AscString

end AscString

structure Array (T : Type) where
  buffer : AscPtr ArrayBuffer
  bufferDataStart : UInt32
  bufferDataLength : UInt32
  length : Int32

instance (T : Type) : MemSize (Array T) := ⟨16⟩

instance (T : Type) : AscType (Array T) where
  toAscBytes self := structBytes (memSize (Array T))
    [toAscBytes self.buffer, toAscBytes self.bufferDataStart, toAscBytes self.bufferDataLength,
      toAscBytes self.length]
  fromAscBytes ascObj apiVersion := do
    checkSize (memSize (Array T)) ascObj apiVersion
    let buffer ← readField (AscPtr ArrayBuffer) ascObj 0 apiVersion
    let bufferDataStart ← readField UInt32 ascObj 4 apiVersion
    let bufferDataLength ← readField UInt32 ascObj 8 apiVersion
    let length ← readField Int32 ascObj 12 apiVersion
    pure ⟨buffer, bufferDataStart, bufferDataLength, length⟩
  ascSize _ _ := fixedSize (Array T)

def Array.toVec {T H : Type} [AscType T] [MemSize T] [AscHeap H] (self : Array T)
    (heap : H) : HostResult (List T) := do
  self.buffer.checkIsNotNull
  let bufferDataStartWithOffset ← dataOffset self.bufferDataStart self.buffer
  let buffer ← self.buffer.readPtr heap
  buffer.get T bufferDataStartWithOffset self.length.toUInt32 (AscHeap.apiVersion heap)

end v0_0_5

inductive ArrayBuffer where
  | apiVersion0_0_4 (a : v0_0_4.ArrayBuffer)
  | apiVersion0_0_5 (a : v0_0_5.ArrayBuffer)

namespace ArrayBuffer

def new {T : Type} [AscType T] (values : List T) (apiVersion : Version) : HostResult ArrayBuffer :=
  if apiVersion ≤ .new 0 0 4 then do
    let a ← v0_0_4.ArrayBuffer.new values
    pure (.apiVersion0_0_4 a)
  else do
    let a ← v0_0_5.ArrayBuffer.new values
    pure (.apiVersion0_0_5 a)

instance : AscType ArrayBuffer where
  toAscBytes
    | .apiVersion0_0_4 a => toAscBytes a
    | .apiVersion0_0_5 a => toAscBytes a
  fromAscBytes ascObj apiVersion :=
    if apiVersion ≤ .new 0 0 4 then do
      let a ← (fromAscBytes ascObj apiVersion : HostResult v0_0_4.ArrayBuffer)
      pure (.apiVersion0_0_4 a)
    else do
      let a ← (fromAscBytes ascObj apiVersion : HostResult v0_0_5.ArrayBuffer)
      pure (.apiVersion0_0_5 a)
  contentLen self ascBytes :=
    match self with
    | .apiVersion0_0_5 a => AscType.contentLen a ascBytes
    | .apiVersion0_0_4 _ => .panic
  ascSize ptr heap := AscType.ascSize (⟨ptr.wasmPtr⟩ : AscPtr v0_0_4.ArrayBuffer) heap

instance : AscIndexId ArrayBuffer := ⟨.arrayBuffer⟩

end ArrayBuffer

section

variable {H : Type} [AscHeap H] {T : Type} [AscType T]

def v0_0_4.TypedArray.new (content : List T) : HeapM H (v0_0_4.TypedArray T) := do
  let heap ← get
  let buffer ← Massbit.ArrayBuffer.new content (AscHeap.apiVersion heap)
  match buffer with
  | .apiVersion0_0_4 a => do
    let ptr ← AscPtr.allocObj buffer
    pure ⟨⟨ptr.wasmPtr⟩, 0, a.byteLength⟩
  | .apiVersion0_0_5 _ => StateT.lift .panic

def v0_0_5.TypedArray.new (content : List T) : HeapM H (v0_0_5.TypedArray T) := do
  let heap ← get
  let buffer ← Massbit.ArrayBuffer.new content (AscHeap.apiVersion heap)
  let ptr ← AscPtr.allocObj buffer
  pure ⟨⟨ptr.wasmPtr⟩, ptr.wasmPtr, UInt32.ofNat content.length⟩

def v0_0_4.Array.new (content : List T) : HeapM H (v0_0_4.Array T) := do
  let heap ← get
  let arrBuffer ← Massbit.ArrayBuffer.new content (AscHeap.apiVersion heap)
  let arrBufferPtr ← AscPtr.allocObj arrBuffer
  pure ⟨⟨arrBufferPtr.wasmPtr⟩, UInt32.ofNat content.length⟩

def v0_0_5.Array.new (content : List T) : HeapM H (v0_0_5.Array T) := do
  let heap ← get
  let arrBuffer ← Massbit.ArrayBuffer.new content (AscHeap.apiVersion heap)
  let buffer ← AscPtr.allocObj arrBuffer
  let heap ← get
  let bufferDataLength ← buffer.readLen heap
  pure ⟨⟨buffer.wasmPtr⟩, buffer.wasmPtr, bufferDataLength, (UInt32.ofNat content.length).toInt32⟩

end

inductive TypedArray (T : Type) where
  | apiVersion0_0_4 (t : v0_0_4.TypedArray T)
  | apiVersion0_0_5 (t : v0_0_5.TypedArray T)

def TypedArray.byteLength {T : Type} : TypedArray T → UInt32
  | .apiVersion0_0_4 t => t.byteLength
  | .apiVersion0_0_5 t => t.byteLength

namespace TypedArray

variable {H : Type} [AscHeap H] {T : Type} [AscType T]

def new (content : List T) : HeapM H (TypedArray T) := do
  let heap ← get
  if AscHeap.apiVersion heap ≤ .new 0 0 4 then do
    let t ← v0_0_4.TypedArray.new content
    pure (.apiVersion0_0_4 t)
  else do
    let t ← v0_0_5.TypedArray.new content
    pure (.apiVersion0_0_5 t)

def toVec [MemSize T] (self : TypedArray T) (heap : H) : HostResult (List T) :=
  match self with
  | .apiVersion0_0_4 t => t.toVec heap
  | .apiVersion0_0_5 t => t.toVec heap

instance (T : Type) : MemSize (TypedArray T) := ⟨16⟩

instance (T : Type) : AscType (TypedArray T) where
  toAscBytes
    | .apiVersion0_0_4 t => toAscBytes t
    | .apiVersion0_0_5 t => toAscBytes t
  fromAscBytes ascObj apiVersion :=
    if apiVersion ≤ .new 0 0 4 then do
      let t ← (fromAscBytes ascObj apiVersion : HostResult (v0_0_4.TypedArray T))
      pure (.apiVersion0_0_4 t)
    else do
      let t ← (fromAscBytes ascObj apiVersion : HostResult (v0_0_5.TypedArray T))
      pure (.apiVersion0_0_5 t)
  ascSize _ _ := fixedSize (TypedArray T)

end TypedArray

abbrev Uint8Array := TypedArray UInt8

instance : AscIndexId Uint8Array := ⟨.uint8Array⟩

inductive AscString where
  | apiVersion0_0_4 (s : v0_0_4.AscString)
  | apiVersion0_0_5 (s : v0_0_5.AscString)

namespace AscString

def new (content : List UInt16) (apiVersion : Version) : HostResult AscString :=
  if apiVersion ≤ .new 0 0 4 then do
    let s ← v0_0_4.AscString.new content
    pure (.apiVersion0_0_4 s)
  else do
    let s ← v0_0_5.AscString.new content
    pure (.apiVersion0_0_5 s)

def content : AscString → List UInt16
  | .apiVersion0_0_4 s => s.content
  | .apiVersion0_0_5 s => s.content

instance : AscType AscString where
  toAscBytes
    | .apiVersion0_0_4 s => toAscBytes s
    | .apiVersion0_0_5 s => toAscBytes s
  fromAscBytes ascObj apiVersion :=
    if apiVersion ≤ .new 0 0 4 then do
      let s ← (fromAscBytes ascObj apiVersion : HostResult v0_0_4.AscString)
      pure (.apiVersion0_0_4 s)
    else do
      let s ← (fromAscBytes ascObj apiVersion : HostResult v0_0_5.AscString)
      pure (.apiVersion0_0_5 s)
  contentLen self ascBytes :=
    match self with
    | .apiVersion0_0_5 s => AscType.contentLen s ascBytes
    | .apiVersion0_0_4 _ => .panic
  ascSize ptr heap := AscType.ascSize (⟨ptr.wasmPtr⟩ : AscPtr v0_0_4.AscString) heap

instance : AscIndexId AscString := ⟨.string⟩

end AscString

inductive Array (T : Type) where
  | apiVersion0_0_4 (a : v0_0_4.Array T)
  | apiVersion0_0_5 (a : v0_0_5.Array T)

namespace Array

variable {H : Type} [AscHeap H] {T : Type} [AscType T]

def new (content : List T) : HeapM H (Array T) := do
  let heap ← get
  if AscHeap.apiVersion heap ≤ .new 0 0 4 then do
    let a ← v0_0_4.Array.new content
    pure (.apiVersion0_0_4 a)
  else do
    let a ← v0_0_5.Array.new content
    pure (.apiVersion0_0_5 a)

def toVec [MemSize T] (self : Array T) (heap : H) : HostResult (List T) :=
  match self with
  | .apiVersion0_0_4 a => a.toVec heap
  | .apiVersion0_0_5 a => a.toVec heap

instance (T : Type) : MemSize (Array T) := ⟨20⟩

instance (T : Type) : AscType (Array T) where
  toAscBytes
    | .apiVersion0_0_4 a => toAscBytes a
    | .apiVersion0_0_5 a => toAscBytes a
  fromAscBytes ascObj apiVersion :=
    if apiVersion ≤ .new 0 0 4 then do
      let a ← (fromAscBytes ascObj apiVersion : HostResult (v0_0_4.Array T))
      pure (.apiVersion0_0_4 a)
    else do
      let a ← (fromAscBytes ascObj apiVersion : HostResult (v0_0_5.Array T))
      pure (.apiVersion0_0_5 a)
  ascSize _ _ := fixedSize (Array T)

end Array

structure EnumPayload where
  val : UInt64
  deriving DecidableEq, Repr

namespace EnumPayload

def toI32 (self : EnumPayload) : Int32 := self.val.toUInt32.toInt32

def toBool (self : EnumPayload) : Bool := self.val != 0

def toPtr {C : Type} (self : EnumPayload) : AscPtr C := ⟨self.val.toUInt32⟩

def ofI32 (x : Int32) : EnumPayload := ⟨x.toInt64.toUInt64⟩

def ofBool (b : Bool) : EnumPayload := ⟨if b then 1 else 0⟩

def ofPtr {C : Type} (x : AscPtr C) : EnumPayload := ⟨x.wasmPtr.toUInt64⟩

instance : MemSize EnumPayload := ⟨8⟩

instance : AscType EnumPayload where
  toAscBytes self := toAscBytes self.val
  fromAscBytes ascObj apiVersion := do
    let val ← (fromAscBytes ascObj apiVersion : HostResult UInt64)
    pure ⟨val⟩
  ascSize _ _ := fixedSize EnumPayload

end EnumPayload

def kindFromAscBytes {D : Type} (name : String) (ofDiscriminant : ℕ → Option D)
    (ascObj : List UInt8) : HostResult D :=
  if ascObj.length ≠ 4 then .error .invalidAscBytesSize
  else match ofDiscriminant (ofBytes ascObj) with
    | some kind => pure kind
    | none => .error (.outOfRange (ofBytes ascObj) name)

inductive StoreValueKind where
  | string | int | bigDecimal | bool | array | null | bytes | bigInt
  deriving DecidableEq, Repr

namespace StoreValueKind

def ofDiscriminant : ℕ → Option StoreValueKind
  | 0 => some string
  | 1 => some int
  | 2 => some bigDecimal
  | 3 => some bool
  | 4 => some array
  | 5 => some null
  | 6 => some bytes
  | 7 => some bigInt
  | _ => none

instance : MemSize StoreValueKind := ⟨4⟩

instance : AscType StoreValueKind where
  toAscBytes self := toAscBytes (UInt32.ofNat self.ctorIdx)
  fromAscBytes ascObj _ := kindFromAscBytes "StoreValueKind" ofDiscriminant ascObj
  ascSize _ _ := fixedSize StoreValueKind

end StoreValueKind

inductive EthereumValueKind where
  | address | fixedBytes | bytes | int | uint | bool | string | fixedArray | array | tuple
  deriving DecidableEq, Repr

namespace EthereumValueKind

def ofDiscriminant : ℕ → Option EthereumValueKind
  | 0 => some address
  | 1 => some fixedBytes
  | 2 => some bytes
  | 3 => some int
  | 4 => some uint
  | 5 => some bool
  | 6 => some string
  | 7 => some fixedArray
  | 8 => some array
  | 9 => some tuple
  | _ => none

instance : MemSize EthereumValueKind := ⟨4⟩

instance : AscType EthereumValueKind where
  toAscBytes self := toAscBytes (UInt32.ofNat self.ctorIdx)
  fromAscBytes ascObj _ := kindFromAscBytes "EthereumValueKind" ofDiscriminant ascObj
  ascSize _ _ := fixedSize EthereumValueKind

end EthereumValueKind

structure AscEnum (D : Type) where
  kind : D
  padding : UInt32
  payload : EnumPayload

namespace AscEnum

instance (D : Type) : MemSize (AscEnum D) := ⟨16⟩

instance (D : Type) [AscType D] [MemSize D] : AscType (AscEnum D) where
  toAscBytes self := structBytes (memSize (AscEnum D))
    [toAscBytes self.kind, toAscBytes self.padding, toAscBytes self.payload]
  fromAscBytes ascObj apiVersion := do
    checkSize (memSize (AscEnum D)) ascObj apiVersion
    let kind ← readField D ascObj 0 apiVersion
    let padding ← readField UInt32 ascObj (memSize D) apiVersion
    let payload ← readField EnumPayload ascObj (memSize D + 4) apiVersion
    pure ⟨kind, padding, payload⟩
  ascSize _ _ := fixedSize (AscEnum D)

end AscEnum

instance : AscIndexId (AscEnum StoreValueKind) := ⟨.storeValue⟩

instance : AscIndexId (Array (AscPtr (AscEnum StoreValueKind))) := ⟨.arrayStoreValue⟩

instance : AscIndexId (AscEnum EthereumValueKind) := ⟨.ethereumValue⟩

instance : AscIndexId (Array (AscPtr (AscEnum EthereumValueKind))) := ⟨.arrayEthereumValue⟩

abbrev AscBigInt := Uint8Array

structure AscBigDecimal where
  digits : AscPtr AscBigInt
  exp : AscPtr AscBigInt

namespace AscBigDecimal

instance : MemSize AscBigDecimal := ⟨8⟩

instance : AscType AscBigDecimal where
  toAscBytes self := structBytes (memSize AscBigDecimal)
    [toAscBytes self.digits, toAscBytes self.exp]
  fromAscBytes ascObj apiVersion := do
    checkSize (memSize AscBigDecimal) ascObj apiVersion
    let digits ← readField (AscPtr AscBigInt) ascObj 0 apiVersion
    let exp ← readField (AscPtr AscBigInt) ascObj 4 apiVersion
    pure ⟨digits, exp⟩
  ascSize _ _ := fixedSize AscBigDecimal

instance : AscIndexId AscBigDecimal := ⟨.bigDecimal⟩

end AscBigDecimal

end Massbit
