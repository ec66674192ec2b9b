/-
A value that is written to a lawful heap is read back: `ascNew_ensures_tryAscGet`.
-/
import Massbit.Runtime.Layouts
import Massbit.Runtime.ToFrom

open List LittleEndian Growth Outcome UInt32

namespace Massbit

structure HasElements {T : Type} [AscType T] [MemSize T] (content : List UInt8) (values : List T) :
    Prop where
  length_eq : content.length = memSize T * values.length
  getElements_eq : ∀ (length : UInt32) apiVersion,
    getElements T content 0 length apiVersion = .ok (values.take length.toNat)

theorem exists_bufferContent {T : Type} [AscType T] [MemSize T] [LawfulAscValue T]
    (values : List T) : ∃ content : List UInt8, HasElements content values ∧ bufferContent values
        = if 2 ^ 32 - 1 < content.length then .error .sliceTooLarge else pure content := by
  have hpo : 0 < memSize T := LawfulAscValue.memSize_pos
  obtain ⟨ps, hp⟩ := exists_forall₂ fun x (_ : x ∈ values) =>
    LawfulAscValue.exists_bytes x
  have hl : ∀ part ∈ ps, part.length = memSize T := by
    intro part hpa
    obtain ⟨x, -, hx⟩ := hp.flip.exists_of_mem hpa
    exact hx.2.1
  refine ⟨ps.flatten, ⟨?_, fun length apiVersion => ?_⟩, ?_⟩
  · rw [length_flatten, map_congr_left hl, map_const', sum_replicate_nat,
      hp.length_eq, Nat.mul_comm]
  · unfold getElements
    show (List.take _ ((ps.flatten.drop 0).chunks (memSize T))).mapM _ = _
    rw [drop_zero, chunks_flatten_of_length hpo hl, mapM_eq_ok]
    exact forall₂_take _ (hp.flip.imp fun _ _ hx => hx.2.2 apiVersion)
  · unfold bufferContent
    rw [mapM_eq_ok.2 (hp.imp fun _ _ hx => hx.1)]
    rfl

section

variable {H : Type} [AscHeap H] {view : HeapView H} {heap : H} {p : UInt32}

theorem readPtr_of_apiVersion0_0_4 {a : v0_0_4.ArrayBuffer}
    (hv : AscHeap.apiVersion heap ≤ .new 0 0 4)
    (h : (⟨p⟩ : AscPtr ArrayBuffer).readPtr heap = .ok (.apiVersion0_0_4 a)) :
    (⟨p⟩ : AscPtr v0_0_4.ArrayBuffer).readPtr heap = .ok a := by
  obtain ⟨len, hl, h⟩ := bind_eq_ok.1 h
  obtain ⟨bytes, hg, hf⟩ := bind_eq_ok.1 h
  obtain ⟨a', ha', heq⟩ := bind_eq_ok.1 ((if_pos hv).symm.trans hf)
  obtain rfl : a' = a := ArrayBuffer.apiVersion0_0_4.inj (Outcome.ok.inj heq)
  rw [if_pos hv] at hl
  refine bind_eq_ok.2 ⟨len, ?_, bind_eq_ok.2 ⟨bytes, hg, ha'⟩⟩
  rw [if_pos hv]
  exact hl

theorem readPtr_of_apiVersion0_0_5 {a : v0_0_5.ArrayBuffer}
    (hv : ¬AscHeap.apiVersion heap ≤ .new 0 0 4)
    (h : (⟨p⟩ : AscPtr ArrayBuffer).readPtr heap = .ok (.apiVersion0_0_5 a)) :
    (⟨p⟩ : AscPtr v0_0_5.ArrayBuffer).readPtr heap = .ok a ∧
      (⟨p⟩ : AscPtr v0_0_5.ArrayBuffer).checkIsNotNull = .ok () ∧
      ∃ len, (⟨p⟩ : AscPtr ArrayBuffer).readLen heap = .ok len := by
  obtain ⟨len, hl, h⟩ := bind_eq_ok.1 h
  obtain ⟨bytes, hg, hf⟩ := bind_eq_ok.1 h
  obtain ⟨a', ha', heq⟩ := bind_eq_ok.1 ((if_neg hv).symm.trans hf)
  obtain rfl : a' = a := ArrayBuffer.apiVersion0_0_5.inj (Outcome.ok.inj heq)
  rw [if_neg hv] at hl
  obtain ⟨⟨⟩, hn, -⟩ := bind_eq_ok.1 hl
  refine ⟨bind_eq_ok.2 ⟨len, ?_, bind_eq_ok.2 ⟨bytes, hg, ha'⟩⟩, hn, len, hl⟩
  rw [if_neg hv]
  exact hl

theorem dataOffset_self (p : UInt32) : v0_0_5.dataOffset p ⟨p⟩ = .ok 0 := by
  unfold v0_0_5.dataOffset
  rw [if_neg (UInt32.lt_irrefl p), UInt32.sub_self]
  rfl

variable {T : Type} [AscType T] [MemSize T] [LawfulAscValue T]

theorem toNat_u32_div {size c length : ℕ} (hle : length ≤ size * c) (h : size * c < 2 ^ 32) :
    (UInt32.ofNat length / UInt32.ofNat size).toNat = length / size := by
  rcases Nat.eq_zero_or_pos c with rfl | hc
  · obtain rfl : length = 0 := Nat.le_zero.mp hle
    rw [UInt32.toNat_div, Nat.zero_div]
    exact Nat.zero_div _
  · have hs : size < 2 ^ 32 := (Nat.le_mul_of_pos_right size hc).trans_lt h
    rw [UInt32.toNat_div, toNat_ofNat_u32 (hle.trans_lt h), toNat_ofNat_u32 hs]

def ReadsBuffer (heap : H) (p : AscPtr ArrayBuffer) (content : List UInt8) : Prop :=
  p.readPtr heap = .ok (ArrayBuffer.ofContent (AscHeap.apiVersion heap) content)

section

variable {c : List UInt8} {values : List T} {p : AscPtr Massbit.ArrayBuffer}

theorem HasElements.length_le (h : HasElements c values) : values.length ≤ c.length := by
  rw [h.length_eq]
  exact Nat.le_mul_of_pos_left _ LawfulAscValue.memSize_pos

variable (hs : HasElements c values) (hlt : c.length < 2 ^ 32) (h : ReadsBuffer heap p c)

include hs hlt h

theorem v0_0_4.TypedArray.toVec_of_readPtr (hv : AscHeap.apiVersion heap ≤ .new 0 0 4) :
    (⟨⟨p.wasmPtr⟩, 0, UInt32.ofNat c.length⟩ : v0_0_4.TypedArray T).toVec heap = .ok values := by
  rw [ReadsBuffer, ArrayBuffer.ofContent, if_pos hv] at h
  refine bind_eq_ok.2 ⟨_, readPtr_of_apiVersion0_0_4 hv h, ?_⟩
  refine (hs.getElements_eq (UInt32.ofNat c.length / UInt32.ofNat (memSize T)) _).trans ?_
  rw [hs.length_eq] at hlt ⊢
  rw [toNat_u32_div le_rfl hlt, Nat.mul_div_cancel_left _ LawfulAscValue.memSize_pos, take_length]

theorem v0_0_5.TypedArray.toVec_of_readPtr (hv : ¬AscHeap.apiVersion heap ≤ .new 0 0 4) :
    (⟨⟨p.wasmPtr⟩, p.wasmPtr, UInt32.ofNat values.length⟩ : v0_0_5.TypedArray T).toVec heap
      = .ok (values.take (values.length / memSize T)) := by
  rw [ReadsBuffer, ArrayBuffer.ofContent, if_neg hv] at h
  obtain ⟨hr, hn, -⟩ := readPtr_of_apiVersion0_0_5 hv h
  refine bind_eq_ok.2 ⟨_, hn, bind_eq_ok.2 ⟨_, dataOffset_self _, bind_eq_ok.2 ⟨_, hr, ?_⟩⟩⟩
  refine (hs.getElements_eq (UInt32.ofNat values.length / UInt32.ofNat (memSize T)) _).trans ?_
  have hle := hs.length_le
  rw [hs.length_eq] at hle hlt
  rw [toNat_u32_div hle hlt]

theorem v0_0_4.Array.toVec_of_readPtr (hv : AscHeap.apiVersion heap ≤ .new 0 0 4) :
    (⟨⟨p.wasmPtr⟩, UInt32.ofNat values.length⟩ : v0_0_4.Array T).toVec heap = .ok values := by
  rw [ReadsBuffer, ArrayBuffer.ofContent, if_pos hv] at h
  refine bind_eq_ok.2 ⟨_, readPtr_of_apiVersion0_0_4 hv h, ?_⟩
  refine (hs.getElements_eq (UInt32.ofNat values.length) _).trans ?_
  rw [toNat_ofNat_u32 (hs.length_le.trans_lt hlt), take_length]

theorem v0_0_5.Array.toVec_of_readPtr (hv : ¬AscHeap.apiVersion heap ≤ .new 0 0 4) (bdl : UInt32) :
    (⟨⟨p.wasmPtr⟩, p.wasmPtr, bdl, (UInt32.ofNat values.length).toInt32⟩ :
      v0_0_5.Array T).toVec heap = .ok values := by
  rw [ReadsBuffer, ArrayBuffer.ofContent, if_neg hv] at h
  obtain ⟨hr, hn, -⟩ := readPtr_of_apiVersion0_0_5 hv h
  refine bind_eq_ok.2 ⟨_, hn, bind_eq_ok.2 ⟨_, dataOffset_self _, bind_eq_ok.2 ⟨_, hr, ?_⟩⟩⟩
  refine (hs.getElements_eq (UInt32.ofNat values.length).toInt32.toUInt32 _).trans ?_
  rw [toUInt32_toInt32, toNat_ofNat_u32 (hs.length_le.trans_lt hlt), take_length]

end

section

variable {values : List T} (law : view.Lawful) (hinv : view.Inv heap)
  (hfs : bufferBlockLength (AscHeap.apiVersion heap) (memSize T * values.length) ≤ view.limit)

include law hinv hfs

theorem exists_buffer : ∃ content, HasElements content values ∧ content.length < 2 ^ 32 ∧
      ArrayBuffer.new values (AscHeap.apiVersion heap)
        = .ok (.ofContent (AscHeap.apiVersion heap) content) ∧
      view.Ensures heap (AscPtr.allocObj (ArrayBuffer.ofContent (AscHeap.apiVersion heap) content))
        fun p heap' => view.growth.Stays heap' fun heap'' =>
          AscHeap.apiVersion heap'' = AscHeap.apiVersion heap ∧ ReadsBuffer heap'' p content := by
  have hlt := length_lt_of_bufferBlockLength_lt (hfs.trans_lt law.limit_lt)
  obtain ⟨content, helements, hc⟩ := exists_bufferContent values
  rw [← helements.length_eq] at hfs hlt
  rw [if_neg (by omega)] at hc
  refine ⟨content, helements, by omega, ArrayBuffer.new_eq_ok.2 ⟨content, hc, rfl⟩, ?_⟩
  refine (law.allocObj_ensures_exact hinv (ArrayBuffer.isLayout law hfs)
    fun hv => ArrayBuffer.length_add_le_bytesOf hv content).mono ?_
  intro p heap' _ hle hs heap'' hi'' hle''
  have hv : AscHeap.apiVersion heap'' = AscHeap.apiVersion heap :=
    hle''.apiVersion_eq.trans hle.apiVersion_eq
  refine ⟨hv, ?_⟩
  rw [ReadsBuffer, hv]
  exact hs heap'' hi'' hle''

theorem v0_0_4.TypedArray.new_ensures (hv : AscHeap.apiVersion heap ≤ .new 0 0 4) :
    view.Ensures heap (new values) fun t heap' =>
      view.growth.Stays heap' fun heap'' => t.toVec heap'' = .ok values := by
  obtain ⟨content, helements, hlt, hn, ha⟩ := exists_buffer law hinv hfs
  rw [ArrayBuffer.ofContent, if_pos hv] at hn ha
  apply ensures_get_bind
  apply ensures_lift_bind hn
  refine ensures_bind ha ?_
  intro p heap' hi' _ hs
  refine ensures_pure hi' (hs.imp fun heap'' hread => ?_)
  exact toVec_of_readPtr helements hlt hread.2 (hread.1 ▸ hv)

theorem v0_0_5.TypedArray.new_ensures (hv : ¬AscHeap.apiVersion heap ≤ .new 0 0 4) :
    view.Ensures heap (new values) fun t heap' =>
      view.growth.Stays heap' fun heap'' =>
        t.toVec heap'' = .ok (values.take (values.length / memSize T)) := by
  obtain ⟨content, helements, hlt, hn, ha⟩ := exists_buffer law hinv hfs
  apply ensures_get_bind
  apply ensures_lift_bind hn
  refine ensures_bind ha ?_
  intro p heap' hi' _ hs
  refine ensures_pure hi' (hs.imp fun heap'' hread => ?_)
  exact toVec_of_readPtr helements hlt hread.2 (hread.1 ▸ hv)

def viewCount (T : Type) [MemSize T] (apiVersion : Version) (count : ℕ) : ℕ :=
  if apiVersion ≤ .new 0 0 4 then count else count / memSize T

theorem TypedArray.new_ensures_take :
    view.Ensures heap (new values) fun t heap' =>
      (∃ bytes, IsLayout view (AscHeap.apiVersion heap) t bytes 16) ∧
      view.growth.Stays heap' fun heap'' => t.toVec heap'' =
        .ok (values.take (viewCount T (AscHeap.apiVersion heap) values.length)) := by
  unfold viewCount
  apply ensures_get_bind
  by_cases hv : AscHeap.apiVersion heap ≤ .new 0 0 4
  · rw [if_pos hv, if_pos hv, take_length]
    refine ensures_bind (v0_0_4.TypedArray.new_ensures law hinv hfs hv) ?_
    intro t heap' hi' _ hs
    exact ensures_pure hi' ⟨exists_isLayout_of_le law hv t, hs⟩
  · rw [if_neg hv, if_neg hv]
    refine ensures_bind (v0_0_5.TypedArray.new_ensures law hinv hfs hv) ?_
    intro t heap' hi' _ hs
    exact ensures_pure hi' ⟨exists_isLayout_of_not_le law hv t, hs⟩

theorem TypedArray.new_ensures (hs : memSize T = 1) :
    view.Ensures heap (new values) fun t heap' =>
      (∃ bytes, IsLayout view (AscHeap.apiVersion heap) t bytes 16) ∧
      view.growth.Stays heap' fun heap'' => t.toVec heap'' = .ok values := by
  have hc : viewCount T (AscHeap.apiVersion heap) values.length = values.length := by
    unfold viewCount
    rw [hs, Nat.div_one, ite_self]
  have he := new_ensures_take law hinv hfs
  rw [hc, take_length] at he
  exact he

theorem v0_0_4.Array.new_ensures (hv : AscHeap.apiVersion heap ≤ .new 0 0 4) :
    view.Ensures heap (new values) fun a heap' =>
      view.growth.Stays heap' fun heap'' => a.toVec heap'' = .ok values := by
  obtain ⟨content, helements, hlt, hn, ha⟩ := exists_buffer law hinv hfs
  apply ensures_get_bind
  apply ensures_lift_bind hn
  refine ensures_bind ha ?_
  intro p heap' hi' _ hs
  refine ensures_pure hi' (hs.imp fun heap'' hread => ?_)
  exact toVec_of_readPtr helements hlt hread.2 (hread.1 ▸ hv)

theorem v0_0_5.Array.new_ensures (hv : ¬AscHeap.apiVersion heap ≤ .new 0 0 4) :
    view.Ensures heap (new values) fun a heap' =>
      view.growth.Stays heap' fun heap'' => a.toVec heap'' = .ok values := by
  obtain ⟨content, helements, hlt, hn, ha⟩ := exists_buffer law hinv hfs
  apply ensures_get_bind
  apply ensures_lift_bind hn
  refine ensures_bind ha ?_
  intro p heap' hi' _ hs
  obtain ⟨hsa, hr⟩ := hs.now hi'
  have hv' : ¬AscHeap.apiVersion heap' ≤ .new 0 0 4 := hsa ▸ hv
  rw [ReadsBuffer, ArrayBuffer.ofContent, if_neg hv'] at hr
  obtain ⟨-, -, len, hl⟩ := readPtr_of_apiVersion0_0_5 hv' hr
  apply ensures_get_bind
  apply ensures_lift_bind hl
  refine ensures_pure hi' (hs.imp fun heap'' hr => ?_)
  exact toVec_of_readPtr helements hlt hr.2 (hr.1 ▸ hv) len

theorem Array.new_ensures :
    view.Ensures heap (new values) fun a heap' =>
      (∃ bytes, IsLayout view (AscHeap.apiVersion heap) a bytes 20) ∧
      view.growth.Stays heap' fun heap'' => a.toVec heap'' = .ok values := by
  apply ensures_get_bind
  by_cases hv : AscHeap.apiVersion heap ≤ .new 0 0 4
  · rw [if_pos hv]
    refine ensures_bind (v0_0_4.Array.new_ensures law hinv hfs hv) ?_
    intro a heap' hi' _ hs
    exact ensures_pure hi' ⟨exists_isLayout_of_le law hv a, hs⟩
  · rw [if_neg hv]
    refine ensures_bind (v0_0_5.Array.new_ensures law hinv hfs hv) ?_
    intro a heap' hi' _ hs
    exact ensures_pure hi' ⟨exists_isLayout_of_not_le law hv a, hs⟩

end

end

section

variable {H : Type} [AscHeap H] {view : HeapView H} {heap : H}

/-- The property holds of the object, if one is read. -/
def WhenRead {C : Type} [AscType C] (P : C → Prop) (p : AscPtr C) (heap : H) : Prop :=
  ∀ obj, p.readPtr heap = .ok obj → P obj

theorem whenRead_iff {C : Type} [AscType C] {P : C → Prop} {p : AscPtr C} {obj : C}
    (h : p.readPtr heap = .ok obj) : WhenRead P p heap ↔ P obj := by
  refine ⟨fun hp => hp obj h, fun hp obj' h' => ?_⟩
  obtain rfl := Outcome.ok.inj (h.symm.trans h')
  exact hp

theorem whenRead_iff_forall_mem {C : Type} [AscType C] {P : C → Prop} {p : AscPtr C} :
    WhenRead P p heap ↔ ∀ obj ∈ (p.readPtr heap).value?, P obj := by
  refine forall_congr' fun obj => ?_
  rw [Option.mem_def, value?_eq_some]

instance {C : Type} [AscType C] {P : C → Prop} [DecidablePred P] {p : AscPtr C} :
    Decidable (WhenRead P p heap) :=
  decidable_of_iff' _ whenRead_iff_forall_mem

instance {C : Type} {memory : H → Memory} {readSize : ℕ} {p : AscPtr C} :
    Decidable (p.Inside memory readSize heap) :=
  inferInstanceAs (Decidable (_ → _))

section

variable {C T T' : Type} [AscType C] [AscIndexId C] (law : view.Lawful) {w : T → HeapM H C}
  {r : C → H → HostResult T'} {x : T} {y : T'} {readSize : ℕ} {Q : C → H → Prop}

include law

theorem ascNew_ensures (h : view.Ensures heap (w x) fun obj heap' =>
      (∃ bytes, IsLayout view (AscHeap.apiVersion heap) obj bytes readSize) ∧
      view.growth.Stays heap' fun heap'' => (r obj heap'').Gives (Q obj heap'') y) :
    view.Ensures heap (ascNew w x) fun p heap' => view.growth.Stays heap' fun heap'' =>
      (ascGet r heap'' p).Gives
        (p.Inside view.memory readSize heap'' ∧ WhenRead (Q · heap'') p heap'') y := by
  refine ensures_bind h ?_
  rintro obj heap' hi' hle ⟨⟨bytes, hl⟩, hs⟩
  rw [← hle.apiVersion_eq] at hl
  refine (law.allocObj_ensures hi' hl).mono ?_
  intro p heap₁ _ hle₁ hr heap₂ hi₂ hle₂
  have hg := (hr heap₂ hi₂ hle₂).1
  refine (hg.bind (hs heap₂ hi₂ (view.growth.trans hle₁ hle₂))).congr ?_
  exact and_congr_right fun hin => (whenRead_iff (P := (Q · heap₂)) (hg.iff.2 hin)).symm

/-- An object of which only the bytes are read that were written. -/
theorem ascNew_ensures_exact (h : view.Ensures heap (w x) fun obj heap' =>
      (∃ bytes, IsLayout view (AscHeap.apiVersion heap) obj bytes readSize ∧
        bytes.length = readSize) ∧
      view.growth.Stays heap' fun heap'' => (r obj heap'').Gives (Q obj heap'') y) :
    view.Ensures heap (ascNew w x) fun p heap' => view.growth.Stays heap' fun heap'' =>
      (ascGet r heap'' p).Gives (WhenRead (Q · heap'') p heap'') y := by
  refine ensures_bind h ?_
  rintro obj heap' hi' hle ⟨⟨bytes, hl, hb⟩, hs⟩
  rw [← hle.apiVersion_eq] at hl
  refine (law.allocObj_ensures_exact hi' hl fun _ => hb.ge).mono ?_
  intro p heap₁ _ hle₁ hr heap₂ hi₂ hle₂
  have hg := hr heap₂ hi₂ hle₂
  refine ((gives_true.2 hg).bind (hs heap₂ hi₂ (view.growth.trans hle₁ hle₂))).congr ?_
  exact (iff_of_eq (true_and _)).trans (whenRead_iff (P := (Q · heap₂)) hg).symm

end

theorem ascNew_str_ensures (law : view.Lawful) (hinv : view.Inv heap) {s : String}
    (hn : '\x00' ∉ s.toList) (hfits : stringBlockLength (AscHeap.apiVersion heap)
      (Utf16.encode s.toList).length ≤ view.limit) :
    view.Ensures heap (ascNew strToAscObj s) fun p heap' => view.growth.Stays heap' fun heap'' =>
      (ascGet stringFromAscObj heap'' p).Gives True s := by
  have hlt := length_lt_of_stringBlockLength_lt (hfits.trans_lt law.limit_lt)
  have hnew : AscString.new (Utf16.encode s.toList) (AscHeap.apiVersion heap) = .ok _ :=
    AscString.new_eq_ok (by omega)
  obtain ⟨bytes, hl⟩ := AscString.exists_isLayout law hfits
  have he := ascNew_ensures_exact law (w := strToAscObj) (r := stringFromAscObj) (y := s)
    (Q := fun _ _ => True)
    (Growth.ensures_lift hinv hnew ⟨⟨bytes, hl, rfl⟩, fun heap' _ _ => gives_true.2 ?_⟩)
  · refine he.mono fun p heap' _ _ hs => hs.imp fun heap'' hg => ?_
    exact hg.congr (iff_true_intro fun _ _ => trivial)
  · have hf : s.toList.filter (· ≠ '\x00') = s.toList := by
      rw [filter_eq_self]
      intro c hc
      rw [decide_eq_true_eq]
      rintro rfl
      exact hn hc
    unfold stringFromAscObj
    rw [AscString.content_ofContent, Utf16.decode_encode]
    show Outcome.ok (String.ofList (s.toList.filter _)) = _
    rw [hf, String.ofList_toList]

section

variable {bytes : List UInt8} (law : view.Lawful) (hinv : view.Inv heap)
  (hfits : bufferBlockLength (AscHeap.apiVersion heap) bytes.length ≤ view.limit)

include law hinv hfits

theorem bytesToAscObj_ensures : view.Ensures heap (bytesToAscObj bytes) fun obj heap' =>
      (∃ bytes, IsLayout view (AscHeap.apiVersion heap) obj bytes 16) ∧
      view.growth.Stays heap' fun heap'' => vecFromAscObj obj heap'' = .ok bytes := by
  refine TypedArray.new_ensures law hinv ?_ rfl
  show bufferBlockLength _ (1 * bytes.length) ≤ _
  rw [Nat.one_mul]
  exact hfits

/-- Of a typed array 16 bytes are read up to version 0.0.4, of which 12 are written. -/
theorem ascNew_bytes_ensures : view.Ensures heap (ascNew bytesToAscObj bytes) fun p heap' =>
      view.growth.Stays heap' fun heap'' =>
        (ascGet vecFromAscObj heap'' p).Gives (p.Inside view.memory 16 heap'') bytes := by
  have he := ascNew_ensures law (r := vecFromAscObj) (Q := fun _ _ => True)
    ((bytesToAscObj_ensures law hinv hfits).mono fun obj heap' _ _ h =>
      ⟨h.1, h.2.imp fun heap'' hr => gives_true.2 hr⟩)
  refine he.mono fun p heap' _ _ hs => hs.imp fun heap'' hg => ?_
  exact hg.congr (and_iff_left fun _ _ => trivial)

end

theorem ascNew_bigInt_ensures (law : view.Lawful) (hinv : view.Inv heap) {i : ℤ}
    (hfits : bufferBlockLength (AscHeap.apiVersion heap) (signedWidth i) ≤ view.limit) :
    view.Ensures heap (ascNew bigIntToAscObj i) fun p heap' =>
      view.growth.Stays heap' fun heap'' =>
        (ascGet bigIntFromAscObj heap'' p).Gives (p.Inside view.memory 16 heap'') i := by
  rw [← length_toSignedBytes] at hfits
  refine (ascNew_bytes_ensures law hinv hfits).mono ?_
  intro p heap' _ _ hs
  refine hs.imp fun heap'' hg => ?_
  have hm := hg.map ofSignedBytes
  rw [ofSignedBytes_toSignedBytes] at hm
  have heq : ascGet bigIntFromAscObj heap'' p =
      ascGet vecFromAscObj heap'' p >>= fun bytes => pure (ofSignedBytes bytes) :=
    (bind_assoc _ _ _).symm
  rw [heq]
  exact hm

namespace BigDecimal

theorem exponentI64_eq_ok {exp : ℤ} (h : FitsSigned 8 exp) : exponentI64 exp = .ok exp := by
  have hw := signedWidth_le_of_fitsSigned (by decide) h
  unfold exponentI64
  rw [if_neg (by rw [length_toSignedBytes]; omega)]
  exact congrArg Outcome.ok (ofSignedBytes_toSignedBytes_append exp _)

theorem i64_eq_ok {n : ℤ} (h : n.natAbs < 2 ^ 63) : i64 n = .ok n := if_pos (by omega)

variable {d : BigDecimal}

theorem natAbs_digits_lt (h : d.IsNormalized) : d.digits.natAbs < 10 ^ maxSignificantDigits := by
  unfold IsNormalized at h
  split at h
  next hz =>
    rw [hz]
    decide
  next => exact h.2

theorem signedWidth_digits_le (h : d.IsNormalized) : signedWidth d.digits ≤ 64 := by
  have hlt : d.digits.natAbs < 256 ^ 15 := (natAbs_digits_lt h).trans_le (by decide)
  exact (signedWidth_le (by decide) hlt).trans (by decide)

theorem newI64_eq_ok (h : d.IsNormalized) (he : d.exp.natAbs < 2 ^ 62) :
    newI64 d.digits (-d.exp) = .ok d := by
  obtain ⟨digits, exp⟩ := d
  dsimp only at he ⊢
  refine bind_eq_ok.2 ⟨exp, ?_, ?_⟩
  · rw [neg_neg]
    exact i64_eq_ok (by omega)
  unfold IsNormalized at h
  split_ifs with hz
  · rw [if_pos hz] at h
    obtain rfl : digits = 0 := hz
    obtain rfl : exp = 0 := h
    rfl
  · rw [if_neg hz] at h
    have hc : digitCount digits ≤ maxSignificantDigits := (digitCount_le_iff (by decide)).2 h.2
    have hle := countDecimalDigits_le hz
    -- zeros are put behind the digits and taken off again
    have hr : withPrec ⟨digits, exp⟩ maxSignificantDigits =
        ⟨digits * 10 ^ (maxSignificantDigits - countDecimalDigits digits),
          exp + ((maxSignificantDigits - countDecimalDigits digits : ℕ) : ℤ)⟩ :=
      if_neg (by dsimp only; omega)
    have hm : maxSignificantDigits = 34 := rfl
    dsimp only
    rw [hr, truncateZeros_mul_pow h.1]
    exact bind_eq_ok.2 ⟨_, i64_eq_ok (by dsimp only; omega),
      bind_eq_ok.2 ⟨_, i64_eq_ok (by dsimp only; omega), rfl⟩⟩

theorem ascNew_ensures (law : view.Lawful) (hinv : view.Inv heap) (h : d.IsNormalized)
    (he : minExp ≤ -d.exp ∧ -d.exp ≤ maxExp) :
    view.Ensures heap (ascNew toAscObj d) fun p heap' => view.growth.Stays heap' fun heap'' =>
      (tryAscGet tryFromAscObj heap'' p).Gives (WhenRead (fun d : AscBigDecimal =>
        d.digits.Inside view.memory 16 heap'' ∧ d.exp.Inside view.memory 16 heap'') p heap'') d := by
  unfold minExp maxExp at he
  have hw : signedWidth (-d.exp) ≤ 64 := by
    refine (signedWidth_le (k := 2) (by decide) ?_).trans (by decide)
    show _ < 65536
    omega
  apply ascNew_ensures_exact law (r := tryFromAscObj) (Q := fun (d : AscBigDecimal) heap'' =>
    d.digits.Inside view.memory 16 heap'' ∧ d.exp.Inside view.memory 16 heap'')
  refine ensures_bind (ascNew_bigInt_ensures law hinv
    ((bufferBlockLength_le _ hw).trans law.le_limit)) ?_
  intro pexp heap₁ hi₁ hle₁ hre
  refine ensures_bind (ascNew_bigInt_ensures law hi₁
    ((bufferBlockLength_le _ (signedWidth_digits_le h)).trans law.le_limit)) ?_
  intro ps heap₂ hi₂ hle₂ hr
  refine ensures_pure hi₂ ⟨AscBigDecimal.exists_isLayout law _ _, ?_⟩
  intro heap' hi' hle'
  have hg := hr heap' hi' hle'
  have hge := hre heap' hi' (view.growth.trans hle₂ hle')
  refine (hg.bind (hge.bind (q := True) (gives_true.2 ?_))).congr (by simp)
  refine bind_eq_ok.2 ⟨_, exponentI64_eq_ok ⟨?_, ?_⟩, bind_eq_ok.2 ⟨d, newI64_eq_ok h ?_,
    bind_eq_ok.2 ⟨-d.exp, i64_eq_ok ?_, ?_⟩⟩⟩
  · omega
  · omega
  · omega
  · omega
  · unfold minExp maxExp
    rw [if_neg (by omega)]
    rfl

end BigDecimal

namespace AscPtr

variable {C W : Type} [AscType C]

/-- From now on the pointer reads as the value, as far as what is read is inside of the memory. -/
def ReadsAs (view : HeapView H) (read : ℕ → C → H → HostResult W) (inside : ℕ → C → H → Prop)
    (depth : ℕ) (w : W) (p : AscPtr C) (heap : H) : Prop :=
  view.growth.Stays heap fun heap' => ∀ fuel, depth < fuel →
    (ascGet (read fuel) heap' p).Gives (WhenRead (inside fuel · heap') p heap') w

def AllReadAs (view : HeapView H) (read : ℕ → C → H → HostResult W) (inside : ℕ → C → H → Prop)
    (depth : ℕ) (ws : List W) (ps : List (AscPtr C)) (heap : H) : Prop :=
  view.growth.Stays heap fun heap' => ∀ fuel, depth < fuel →
    Forall₂ (fun p w => (ascGet (read fuel) heap' p).Gives (WhenRead (inside fuel · heap') p heap') w)
      ps ws

variable {read : ℕ → C → H → HostResult W} {inside : ℕ → C → H → Prop} {depth : ℕ}

theorem nil_ensures (hinv : view.Inv heap) :
    view.Ensures heap (pure []) (AllReadAs view read inside depth []) :=
  ensures_pure hinv fun _ _ _ _ _ => .nil

theorem cons_ensures {one : HeapM H (AscPtr C)} {os : HeapM H (List (AscPtr C))} {w : W}
    {ws : List W} {da : ℕ} (hon : view.Ensures heap one (ReadsAs view read inside depth w))
    (ho : ∀ heap', view.Inv heap' → AscHeap.apiVersion heap' = AscHeap.apiVersion heap →
      view.Ensures heap' os (AllReadAs view read inside da ws)) :
    view.Ensures heap (one >>= fun p => os >>= fun ps => pure (p :: ps))
      (AllReadAs view read inside (max depth da) (w :: ws)) := by
  refine ensures_bind hon ?_
  intro p heap₁ hi₁ hle₁ hp
  refine ensures_bind (ho heap₁ hi₁ hle₁.apiVersion_eq) ?_
  intro ps heap₂ hi₂ hle₂ hps
  refine ensures_pure hi₂ ?_
  intro heap' hi' hle' fuel hf
  exact .cons (hp heap' hi' (view.growth.trans hle₂ hle') fuel ((le_max_left _ _).trans_lt hf))
    (hps heap' hi' hle' fuel ((le_max_right _ _).trans_lt hf))

end AscPtr

/-- The elements of the array are inside, as far as they are read. -/
def Array.AllInside {C : Type} [AscType C] (inside : C → Prop) (heap : H) (a : Array (AscPtr C)) :
    Prop :=
  ∀ content ∈ (a.toVec heap).value?, ∀ x ∈ content, WhenRead inside x heap

instance {C : Type} [AscType C] {inside : C → Prop} [DecidablePred inside]
    {a : Array (AscPtr C)} : Decidable (a.AllInside inside heap) :=
  inferInstanceAs (Decidable (∀ content ∈ (a.toVec heap).value?, _))

namespace EnumPayload

theorem toPtr_ofPtr {C : Type} (p : AscPtr C) : (ofPtr p).toPtr = p := by
  show (⟨p.wasmPtr.toUInt64.toUInt32⟩ : AscPtr C) = p
  rw [toUInt32_toUInt64]

theorem toI32_ofI32 (n : Int32) : (ofI32 n).toI32 = n := by
  have hc : n.toInt64.toUInt64.toUInt32 = n.toUInt32 := by
    apply UInt32.toBitVec_inj.1
    show (n.toBitVec.signExtend 64).setWidth 32 = n.toBitVec
    ext i hi
    rw [BitVec.getElem_setWidth, BitVec.getLsbD_signExtend]
    simp [hi, show i < 64 by omega]
  show n.toInt64.toUInt64.toUInt32.toInt32 = n
  rw [hc, Int32.toInt32_toUInt32]

theorem toBool_ofBool (b : Bool) : (ofBool b).toBool = b := by
  cases b <;> rfl

variable {V : Type}

def ReadsAs (view : HeapView H) (read : ℕ → EnumPayload → H → HostResult V)
    (inside : ℕ → EnumPayload → H → Prop) (depth : ℕ) (v : V) (payload : EnumPayload) (heap : H) :
    Prop :=
  view.growth.Stays heap fun heap' => ∀ fuel, depth < fuel →
    (read fuel payload heap').Gives (inside fuel payload heap') v

variable {read : ℕ → EnumPayload → H → HostResult V} {inside : ℕ → EnumPayload → H → Prop} {d : ℕ}

theorem pure_ensures (hinv : view.Inv heap) {pa : EnumPayload} {v : V}
    (hr : ∀ fuel heap, read (fuel + 1) pa heap = .ok v)
    (hin : ∀ fuel heap, inside (fuel + 1) pa heap) :
    view.Ensures heap (pure pa) (ReadsAs view read inside d v) := by
  refine ensures_pure hinv ?_
  rintro heap' - - (_ | fuel) hf
  · cases hf
  · exact (gives_true.2 (hr fuel heap')).congr (iff_of_true trivial (hin fuel heap'))

theorem ofPtr_ensures {C T : Type} {w : HeapM H (AscPtr C)} {get : H → AscPtr C → HostResult T}
    {t : T} {f : T → V} {P : AscPtr C → H → Prop} (hw : view.Ensures heap w fun p heap' =>
      view.growth.Stays heap' fun heap'' => (get heap'' p).Gives (P p heap'') t)
    (hr : ∀ fuel (p : AscPtr C) heap, read (fuel + 1) (ofPtr p) heap =
      get heap (ofPtr p).toPtr >>= fun t => pure (f t))
    (hin : ∀ fuel (p : AscPtr C) heap, inside (fuel + 1) (ofPtr p) heap ↔ P (ofPtr p).toPtr heap) :
    view.Ensures heap (w >>= fun p => pure (ofPtr p)) (ReadsAs view read inside d (f t)) := by
  refine ensures_bind hw ?_
  intro p heap' hi' _ hs
  refine ensures_pure hi' ?_
  rintro heap'' hi'' hle (_ | fuel) hf
  · cases hf
  · have hm := (hs heap'' hi'' hle).map f
    rw [hr]
    rw [← toPtr_ofPtr p] at hm
    exact hm.congr (hin fuel p heap'').symm

/-- Of an array 20 bytes are read up to version 0.0.4, of which 8 are written. -/
theorem array_ensures {C W : Type} [AscType C] [AscIndexId (Array (AscPtr C))]
    (law : view.Lawful) {wa : HeapM H (List (AscPtr C))} {ro : ℕ → C → H → HostResult W}
    {io : ℕ → C → H → Prop} {ws : List W} {da : ℕ} {f : List W → V}
    (hfits : bufferBlockLength (AscHeap.apiVersion heap) (4 * ws.length) ≤ view.limit)
    (hw : view.Ensures heap wa (AscPtr.AllReadAs view ro io da ws))
    (hre : ∀ fuel (p : AscPtr (Array (AscPtr C))) heap, read (fuel + 1) (ofPtr p) heap =
      ascGet (arrayFromAscObj (ro fuel)) heap (ofPtr p).toPtr >>= fun ws => pure (f ws))
    (hin : ∀ fuel (p : AscPtr (Array (AscPtr C))) heap, inside (fuel + 1) (ofPtr p) heap ↔
      (ofPtr p).toPtr.Inside (C := Array (AscPtr C)) view.memory 20 heap ∧
        WhenRead (Array.AllInside (io fuel · heap) heap) (ofPtr p).toPtr heap) :
    view.Ensures heap (do
      let content ← wa
      let obj ← Array.new content
      let p ← AscPtr.allocObj obj
      pure (ofPtr p)) (ReadsAs view read inside (da + 1) (f ws)) := by
  refine ensures_bind hw ?_
  intro content heap₁ hi₁ hle₁ hra
  have hl : content.length = ws.length :=
    (hra heap₁ hi₁ (view.growth.refl _) (da + 1) da.lt_succ_self).length_eq
  rw [← hle₁.apiVersion_eq, ← hl] at hfits
  refine ensures_bind (Array.new_ensures law hi₁ hfits) ?_
  rintro a heap₂ hi₂ hle₂ ⟨⟨bytes, hlay⟩, hvec⟩
  rw [← hle₂.apiVersion_eq] at hlay
  refine ensures_bind (law.allocObj_ensures hi₂ hlay) ?_
  intro p heap₃ hi₃ hle₃ hr
  refine ensures_pure hi₃ ?_
  rintro heap' hi' hle' (_ | fuel) hf
  · cases hf
  · have hle₂' := view.growth.trans hle₃ hle'
    have hg := (hr heap' hi' hle').1
    have hv := hvec heap' hi' hle₂'
    have hes := gives_mapM (hra heap' hi' (view.growth.trans hle₂ hle₂') fuel
      (Nat.lt_of_succ_lt_succ hf))
    have ha : (arrayFromAscObj (ro fuel) a heap').Gives
        (Array.AllInside (io fuel · heap') heap' a) ws := by
      refine ((gives_true.2 hv).bind hes).congr ?_
      rw [true_and, Array.AllInside, hv]
      exact ⟨fun h content hc => Option.some.inj hc ▸ h, fun h => h content rfl⟩
    rw [hre]
    rw [← toPtr_ofPtr p] at hg
    refine ((hg.bind ha).map f).congr ?_
    rw [hin]
    exact and_congr_right fun hp => (whenRead_iff (hg.iff.2 hp)).symm

theorem enum_ensures {D : Type} [AscType D] [MemSize D] [LawfulAscValue D] [AscIndexId (AscEnum D)]
    (law : view.Lawful) (hs : memSize D = 4) {kind : D} {w : HeapM H EnumPayload}
    {fo : ℕ → AscEnum D → H → HostResult V} {io : ℕ → AscEnum D → H → Prop} {v : V}
    (hwr : view.Ensures heap w (ReadsAs view (fun fuel pa => fo fuel ⟨kind, 0, pa⟩)
      (fun fuel pa => io fuel ⟨kind, 0, pa⟩) d v)) :
    view.Ensures heap (w >>= fun pa => AscPtr.allocObj (AscEnum.mk kind 0 pa))
      (AscPtr.ReadsAs view fo io d v) := by
  refine ensures_bind hwr ?_
  intro pa heap₁ hi₁ hle₁ hw
  obtain ⟨bytes, hl, hb⟩ := AscEnum.exists_isLayout law hs (AscHeap.apiVersion heap₁) ⟨kind, 0, pa⟩
  refine (law.allocObj_ensures_exact hi₁ hl fun _ => hb.ge).mono ?_
  intro p heap₂ _ hle₂ hr heap' hi' hle' fuel hf
  have hg := hr heap' hi' hle'
  have hgw := hw heap' hi' (view.growth.trans hle₂ hle') fuel hf
  refine ((gives_true.2 hg).bind hgw).congr ?_
  exact (iff_of_eq (true_and _)).trans (whenRead_iff (P := (io fuel · heap')) hg).symm

end EnumPayload

namespace Value

mutual

def depth : Value → ℕ
  | .string _ | .int _ | .bigDecimal _ | .bool _ | .null | .bytes _ | .bigInt _ => 0
  | .list vs => depthAll vs + 1

def depthAll : List Value → ℕ
  | [] => 0
  | v :: vs => max v.depth (depthAll vs)

end

/-- Strings have no null characters, decimals are normalised with exponents in range, and no block is
above the limit. -/
inductive Transferable (apiVersion : Version) (limit : ℕ) : Value → Prop
  | string {s : String} (hnull : '\x00' ∉ s.toList)
      (hfits : stringBlockLength apiVersion (Utf16.encode s.toList).length ≤ limit) :
      Transferable apiVersion limit (.string s)
  | int (n : Int32) : Transferable apiVersion limit (.int n)
  | bigDecimal {d : BigDecimal} (h : d.IsNormalized)
      (hexp : BigDecimal.minExp ≤ -d.exp ∧ -d.exp ≤ BigDecimal.maxExp) :
      Transferable apiVersion limit (.bigDecimal d)
  | bool (b : Bool) : Transferable apiVersion limit (.bool b)
  | list {vs : List Value} (hvs : ∀ v ∈ vs, Transferable apiVersion limit v)
      (hfits : bufferBlockLength apiVersion (4 * vs.length) ≤ limit) :
      Transferable apiVersion limit (.list vs)
  | null : Transferable apiVersion limit .null
  | bytes {bs : List UInt8} (hfits : bufferBlockLength apiVersion bs.length ≤ limit) :
      Transferable apiVersion limit (.bytes bs)
  | bigInt {i : ℤ} (hfits : bufferBlockLength apiVersion (signedWidth i) ≤ limit) :
      Transferable apiVersion limit (.bigInt i)

/-- The objects of which more is read than was written, up to version 0.0.4, are inside of the memory
with all that is read: of a typed array 16 bytes and of an array 20. -/
def Inside (memory : H → Memory) : ℕ → AscEnum StoreValueKind → H → Prop
  | 0, _, _ => True
  | fuel + 1, ascEnum, heap =>
    match ascEnum.kind with
    | .string | .int | .bool | .null => True
    | .bigDecimal => WhenRead (fun d : AscBigDecimal =>
        d.digits.Inside memory 16 heap ∧ d.exp.Inside memory 16 heap) ascEnum.payload.toPtr heap
    | .array => ascEnum.payload.toPtr.Inside (C := Array (AscPtr (AscEnum StoreValueKind)))
          memory 20 heap ∧
        WhenRead (Array.AllInside (Inside memory fuel · heap) heap) ascEnum.payload.toPtr heap
    | .bytes | .bigInt => ascEnum.payload.toPtr.Inside (C := Uint8Array) memory 16 heap

instance decidableInside (memory : H → Memory) :
    ∀ fuel (ascEnum : AscEnum StoreValueKind) heap, Decidable (Inside memory fuel ascEnum heap)
  | 0, _, _ | _ + 1, ⟨.string, _, _⟩, _ | _ + 1, ⟨.int, _, _⟩, _ | _ + 1, ⟨.bool, _, _⟩, _
  | _ + 1, ⟨.null, _, _⟩, _ => inferInstanceAs (Decidable True)
  | _ + 1, ⟨.bigDecimal, _, _⟩, _ => inferInstanceAs (Decidable (WhenRead _ _ _))
  | fuel + 1, ⟨.array, _, _⟩, heap =>
    have := fun ascEnum => decidableInside memory fuel ascEnum heap
    inferInstanceAs (Decidable (AscPtr.Inside _ _ _ _ ∧ WhenRead (Array.AllInside _ heap) _ heap))
  | _ + 1, ⟨.bytes, _, _⟩, _ | _ + 1, ⟨.bigInt, _, _⟩, _ =>
    inferInstanceAs (Decidable (AscPtr.Inside _ _ _ _))

def IsWritten (view : HeapView H) (v : Value) : EnumPayload → H → Prop :=
  EnumPayload.ReadsAs view (fun fuel payload => tryFromAscObj fuel ⟨.getKind v, 0, payload⟩)
    (fun fuel payload => Inside view.memory fuel ⟨.getKind v, 0, payload⟩) v.depth v

mutual

theorem toPayload_ensures (law : view.Lawful) : ∀ {heap : H} {v : Value}, view.Inv heap →
    v.Transferable (AscHeap.apiVersion heap) view.limit →
    view.Ensures heap v.toPayload (v.IsWritten view)
  | _, .string _, hinv, .string hn hfits =>
    EnumPayload.ofPtr_ensures (ascNew_str_ensures law hinv hn hfits) (fun _ _ _ => rfl)
      fun _ _ _ => .rfl
  | _, .int n, hinv, _ =>
    EnumPayload.pure_ensures hinv (fun _ _ =>
      congrArg (fun n => Outcome.ok (Value.int n)) (EnumPayload.toI32_ofI32 n)) fun _ _ => trivial
  | _, .bigDecimal _, hinv, .bigDecimal h he =>
    EnumPayload.ofPtr_ensures (BigDecimal.ascNew_ensures law hinv h he) (fun _ _ _ => rfl)
      fun _ _ _ => .rfl
  | _, .bool b, hinv, _ =>
    EnumPayload.pure_ensures hinv (fun _ _ =>
      congrArg (fun b => Outcome.ok (Value.bool b)) (EnumPayload.toBool_ofBool b))
      fun _ _ => trivial
  | _, .list _, hinv, .list hvs hfits =>
    EnumPayload.array_ensures law hfits (ascNewAll_ensures law hinv hvs) (fun _ _ _ => rfl)
      fun _ _ _ => .rfl
  | _, .null, hinv, _ => EnumPayload.pure_ensures hinv (fun _ _ => rfl) fun _ _ => trivial
  | _, .bytes _, hinv, .bytes hfits =>
    EnumPayload.ofPtr_ensures (ascNew_bytes_ensures law hinv hfits) (fun _ _ _ => rfl)
      fun _ _ _ => .rfl
  | heap, .bigInt i, hinv, .bigInt hfits => by
    rw [← length_toSignedBytes] at hfits
    have hs : view.Ensures heap (toPayload (.bigInt i)) (EnumPayload.ReadsAs view
        (fun fuel pa => tryFromAscObj fuel ⟨.bigInt, 0, pa⟩)
        (fun fuel pa => Inside view.memory fuel ⟨.bigInt, 0, pa⟩) 0
        (.bigInt (ofSignedBytes (toSignedBytes i)))) :=
      EnumPayload.ofPtr_ensures (f := fun bytes => Value.bigInt (ofSignedBytes bytes))
        (ascNew_bytes_ensures law hinv hfits) (fun _ _ _ => rfl) fun _ _ _ => .rfl
    rw [ofSignedBytes_toSignedBytes] at hs
    exact hs

theorem ascNewAll_ensures (law : view.Lawful) : ∀ {heap : H} {vs : List Value}, view.Inv heap →
    (∀ v ∈ vs, v.Transferable (AscHeap.apiVersion heap) view.limit) →
    view.Ensures heap (ascNewAll vs)
      (AscPtr.AllReadAs view tryFromAscObj (Inside view.memory) (depthAll vs) vs)
  | _, [], hinv, _ => AscPtr.nil_ensures hinv
  | _, v :: vs, hinv, h => by
    have ho := EnumPayload.enum_ensures law rfl (toPayload_ensures law hinv (h v mem_cons_self))
    have hc := AscPtr.cons_ensures ho fun heap' hi' heq =>
      ascNewAll_ensures law hi' fun v hv => heq.symm ▸ h v (mem_cons_of_mem _ hv)
    rw [bind_assoc] at hc
    exact hc

end

end Value

end

end Massbit
