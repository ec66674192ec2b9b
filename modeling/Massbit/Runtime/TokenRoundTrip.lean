/-
Tokens of the contract ABI are read back as they were written.
-/
import Massbit.Runtime.U256
import Massbit.Runtime.WasmInstance

open List

namespace Massbit

section

variable {H : Type} [AscHeap H] {view : HeapView H} {heap : H}

theorem ascNew_h160_ensures (law : view.Lawful) (hi : view.Inv heap) (a : H160) :
    view.Ensures heap (ascNew bytesToAscObj a.1) fun p heap' => view.growth.Stays heap' fun heap'' =>
      (ascGet H160.fromAscObj heap'' p).Gives (p.Inside view.memory 16 heap'') a := by
  have hf : bufferBlockLength (AscHeap.apiVersion heap) a.1.length ≤ view.limit :=
    (bufferBlockLength_le _ (a.2.trans_le (by decide))).trans law.le_limit
  refine (ascNew_bytes_ensures law hi hf).mono ?_
  intro p heap' _ _ hs
  refine hs.imp fun heap'' hg => ?_
  have hc : (if h : a.1.length = 20 then pure ⟨a.1, h⟩ else .panic : HostResult H160) = .ok a :=
    dif_pos a.2
  have heq : ascGet H160.fromAscObj heap'' p = ascGet vecFromAscObj heap'' p >>= fun bytes =>
      if h : bytes.length = 20 then pure ⟨bytes, h⟩ else .panic :=
    (bind_assoc _ _ _).symm
  rw [heq]
  exact (hg.bind (Outcome.gives_true.2 hc)).congr (and_iff_left trivial)

theorem ascNew_u256_ensures (law : view.Lawful) (hi : view.Inv heap) {i : ℤ} {n : U256}
    {convert : ℤ → HostResult U256} (hw : LittleEndian.signedWidth i ≤ 33)
    (hc : convert i = .ok n) :
    view.Ensures heap (ascNew bigIntToAscObj i) fun p heap' =>
      view.growth.Stays heap' fun heap'' => (ascGet bigIntFromAscObj heap'' p >>= convert).Gives
        (p.Inside view.memory 16 heap'') n := by
  have hf := bufferBlockLength_le (AscHeap.apiVersion heap) (hw.trans (by decide : 33 ≤ 64))
  refine (ascNew_bigInt_ensures law hi (hf.trans law.le_limit)).mono ?_
  intro p heap' _ _ hs
  refine hs.imp fun heap'' hg => ?_
  exact (hg.bind (Outcome.gives_true.2 hc)).congr (and_iff_left trivial)

namespace Token

mutual

def depth : Token → ℕ
  | .address _ | .fixedBytes _ | .bytes _ | .int _ | .uint _ | .bool _ | .string _ => 0
  | .fixedArray tokens | .array tokens | .tuple tokens => depthAll tokens + 1

def depthAll : List Token → ℕ
  | [] => 0
  | t :: ts => max t.depth (depthAll ts)

end

/-- Strings have no null characters, and no block is above the limit. -/
inductive Transferable (apiVersion : Version) (limit : ℕ) : Token → Prop
  | address (a : H160) : Transferable apiVersion limit (.address a)
  | fixedBytes {bs : List UInt8} (hfits : bufferBlockLength apiVersion bs.length ≤ limit) :
      Transferable apiVersion limit (.fixedBytes bs)
  | bytes {bs : List UInt8} (hfits : bufferBlockLength apiVersion bs.length ≤ limit) :
      Transferable apiVersion limit (.bytes bs)
  | int (n : U256) : Transferable apiVersion limit (.int n)
  | uint (n : U256) : Transferable apiVersion limit (.uint n)
  | bool (b : Bool) : Transferable apiVersion limit (.bool b)
  | string {s : String} (hnull : '\x00' ∉ s.toList)
      (hfits : stringBlockLength apiVersion (Utf16.encode s.toList).length ≤ limit) :
      Transferable apiVersion limit (.string s)
  | fixedArray {ts : List Token} (hts : ∀ t ∈ ts, Transferable apiVersion limit t)
      (hfits : bufferBlockLength apiVersion (4 * ts.length) ≤ limit) :
      Transferable apiVersion limit (.fixedArray ts)
  | array {ts : List Token} (hts : ∀ t ∈ ts, Transferable apiVersion limit t)
      (hfits : bufferBlockLength apiVersion (4 * ts.length) ≤ limit) :
      Transferable apiVersion limit (.array ts)
  | tuple {ts : List Token} (hts : ∀ t ∈ ts, Transferable apiVersion limit t)
      (hfits : bufferBlockLength apiVersion (4 * ts.length) ≤ limit) :
      Transferable apiVersion limit (.tuple ts)

/-- The objects of which more is read than was written, up to version 0.0.4, are inside of the memory
with all that is read. -/
def Inside (memory : H → Memory) : ℕ → AscEnum EthereumValueKind → H → Prop
  | 0, _, _ => True
  | fuel + 1, ascEnum, heap =>
    match ascEnum.kind with
    | .bool | .string => True
    | .address | .fixedBytes | .bytes | .int | .uint =>
      ascEnum.payload.toPtr.Inside (C := Uint8Array) memory 16 heap
    | .fixedArray | .array | .tuple =>
      ascEnum.payload.toPtr.Inside (C := Array (AscPtr (AscEnum EthereumValueKind))) memory 20 heap ∧
        WhenRead (Array.AllInside (Inside memory fuel · heap) heap) ascEnum.payload.toPtr heap

instance decidableInside (memory : H → Memory) :
    ∀ fuel (ascEnum : AscEnum EthereumValueKind) heap, Decidable (Inside memory fuel ascEnum heap)
  | 0, _, _ | _ + 1, ⟨.bool, _, _⟩, _ | _ + 1, ⟨.string, _, _⟩, _ =>
    inferInstanceAs (Decidable True)
  | _ + 1, ⟨.address, _, _⟩, _ | _ + 1, ⟨.fixedBytes, _, _⟩, _ | _ + 1, ⟨.bytes, _, _⟩, _
  | _ + 1, ⟨.int, _, _⟩, _ | _ + 1, ⟨.uint, _, _⟩, _ =>
    inferInstanceAs (Decidable (AscPtr.Inside _ _ _ _))
  | fuel + 1, ⟨.fixedArray, _, _⟩, heap | fuel + 1, ⟨.array, _, _⟩, heap
  | fuel + 1, ⟨.tuple, _, _⟩, heap =>
    have := fun ascEnum => decidableInside memory fuel ascEnum heap
    inferInstanceAs (Decidable (AscPtr.Inside _ _ _ _ ∧ WhenRead (Array.AllInside _ heap) _ heap))

def IsWritten (view : HeapView H) (t : Token) : EnumPayload → H → Prop :=
  EnumPayload.ReadsAs view (fun fuel payload => fromAscObj fuel ⟨.getKind t, 0, payload⟩)
    (fun fuel payload => Inside view.memory fuel ⟨.getKind t, 0, payload⟩) t.depth t

mutual

theorem toPayload_ensures (law : view.Lawful) : ∀ {heap : H} {t : Token}, view.Inv heap →
    t.Transferable (AscHeap.apiVersion heap) view.limit →
    view.Ensures heap t.toPayload (t.IsWritten view)
  | _, .address a, hi, _ =>
    EnumPayload.ofPtr_ensures (ascNew_h160_ensures law hi a) (fun _ _ _ => rfl) fun _ _ _ => .rfl
  | _, .fixedBytes _, hi, .fixedBytes hf =>
    EnumPayload.ofPtr_ensures (ascNew_bytes_ensures law hi hf) (fun _ _ _ => rfl) fun _ _ _ => .rfl
  | _, .bytes _, hi, .bytes hf =>
    EnumPayload.ofPtr_ensures (ascNew_bytes_ensures law hi hf) (fun _ _ _ => rfl) fun _ _ _ => .rfl
  | _, .int n, hi, _ =>
    EnumPayload.ofPtr_ensures (ascNew_u256_ensures law hi
      ((LittleEndian.signedWidth_le_of_fitsSigned (by decide)
        (BigInt.fitsSigned_fromSignedU256 n)).trans (by decide))
      (BigInt.toSignedU256_fromSignedU256 n)) (fun _ _ _ => (bind_assoc _ _ _).symm)
      fun _ _ _ => .rfl
  | _, .uint n, hi, _ =>
    EnumPayload.ofPtr_ensures (ascNew_u256_ensures law hi
      (LittleEndian.signedWidth_le (by decide) (BigInt.natAbs_fromUnsignedU256_lt n))
      (BigInt.toUnsignedU256_fromUnsignedU256 n)) (fun _ _ _ => (bind_assoc _ _ _).symm)
      fun _ _ _ => .rfl
  | _, .bool b, hi, _ =>
    EnumPayload.pure_ensures hi (fun _ _ =>
      congrArg (fun b => Outcome.ok (Token.bool b)) (EnumPayload.toBool_ofBool b))
      fun _ _ => trivial
  | _, .string _, hi, .string hn hf =>
    EnumPayload.ofPtr_ensures (ascNew_str_ensures law hi hn hf) (fun _ _ _ => rfl)
      fun _ _ _ => .rfl
  | _, .fixedArray _, hi, .fixedArray hts hf =>
    EnumPayload.array_ensures law hf (ascNewAll_ensures law hi hts) (fun _ _ _ => rfl)
      fun _ _ _ => .rfl
  | _, .array _, hi, .array hts hf =>
    EnumPayload.array_ensures law hf (ascNewAll_ensures law hi hts) (fun _ _ _ => rfl)
      fun _ _ _ => .rfl
  | _, .tuple _, hi, .tuple hts hf =>
    EnumPayload.array_ensures law hf (ascNewAll_ensures law hi hts) (fun _ _ _ => rfl)
      fun _ _ _ => .rfl

theorem ascNewAll_ensures (law : view.Lawful) : ∀ {heap : H} {ts : List Token}, view.Inv heap →
    (∀ t ∈ ts, t.Transferable (AscHeap.apiVersion heap) view.limit) →
    view.Ensures heap (ascNewAll ts)
      (AscPtr.AllReadAs view fromAscObj (Inside view.memory) (depthAll ts) ts)
  | _, [], hi, _ => AscPtr.nil_ensures hi
  | _, t :: ts, hi, h => by
    have ho := EnumPayload.enum_ensures law rfl (toPayload_ensures law hi (h t mem_cons_self))
    have hc := AscPtr.cons_ensures ho fun heap' hi' heq =>
      ascNewAll_ensures law hi' fun t ht => heq.symm ▸ h t (mem_cons_of_mem _ ht)
    rw [bind_assoc] at hc
    exact hc

end

end Token

end

end Massbit
