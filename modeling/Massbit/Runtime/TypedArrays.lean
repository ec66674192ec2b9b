/-
Views and arrays of elements of any width (`runtime/wasm/src/asc_abi`).
-/
import Massbit.Runtime.Alignment

namespace Massbit

section

variable {H : Type} [AscHeap H] {T : Type} [AscType T]

structure WrittenBuffer (heap : H) (values : List T) (content : List UInt8)
    (p : AscPtr ArrayBuffer) (heap' : H) : Prop where
  content_eq : bufferContent values = .ok content
  allocObj_eq : AscPtr.allocObj (ArrayBuffer.ofContent (AscHeap.apiVersion heap) content) heap
    = .ok (p, heap')

variable {heap heap' : H} {vs : List T}

theorem of_buffer_new_eq_ok {B : Type} {f : ArrayBuffer → HeapM H B} {b : B} (h : (do
      let heap ← get
      let buffer ← ArrayBuffer.new vs (AscHeap.apiVersion heap)
      f buffer : HeapM H B) heap = .ok (b, heap')) :
    ∃ content, bufferContent vs = .ok content ∧
      f (.ofContent (AscHeap.apiVersion heap) content) heap = .ok (b, heap') := by
  obtain ⟨_, heap₁, hg, hr⟩ := run_bind_eq_ok.1 h
  cases hg
  obtain ⟨buffer, heap₂, hlift, hr⟩ := run_bind_eq_ok.mp hr
  obtain ⟨hnew, hsame⟩ := run_lift_eq_ok.mp hlift
  obtain ⟨content, hcontent, rfl⟩ := ArrayBuffer.new_eq_ok.mp hnew
  rw [hsame] at hr
  exact ⟨content, hcontent, hr⟩

theorem v0_0_4.TypedArray.of_new_eq_ok {t : v0_0_4.TypedArray T}
    (hv : AscHeap.apiVersion heap ≤ .new 0 0 4) (h : new vs heap = .ok (t, heap')) :
    ∃ content p, WrittenBuffer heap vs content p heap' ∧
      t = ⟨⟨p.wasmPtr⟩, 0, UInt32.ofNat content.length⟩ := by
  obtain ⟨content, hc, hr⟩ := of_buffer_new_eq_ok h
  have hb : ArrayBuffer.ofContent (AscHeap.apiVersion heap) content = .apiVersion0_0_4
      ⟨UInt32.ofNat content.length, List.replicate 4 0, content⟩ := if_pos hv
  rw [hb] at hr
  obtain ⟨p, ha, rfl⟩ := run_bind_pure_eq_ok.1 hr
  exact ⟨content, p, ⟨hc, hb ▸ ha⟩, rfl⟩

theorem v0_0_5.TypedArray.of_new_eq_ok {t : v0_0_5.TypedArray T}
    (h : new vs heap = .ok (t, heap')) :
    ∃ content p, WrittenBuffer heap vs content p heap' ∧
      t = ⟨⟨p.wasmPtr⟩, p.wasmPtr, UInt32.ofNat vs.length⟩ := by
  obtain ⟨content, hc, hr⟩ := of_buffer_new_eq_ok h
  obtain ⟨p, ha, rfl⟩ := run_bind_pure_eq_ok.1 hr
  exact ⟨content, p, ⟨hc, ha⟩, rfl⟩

theorem v0_0_4.Array.of_new_eq_ok {a : v0_0_4.Array T} (h : new vs heap = .ok (a, heap')) :
    ∃ content p, WrittenBuffer heap vs content p heap' ∧
      a = ⟨⟨p.wasmPtr⟩, UInt32.ofNat vs.length⟩ := by
  obtain ⟨content, hc, hr⟩ := of_buffer_new_eq_ok h
  obtain ⟨p, ha, rfl⟩ := run_bind_pure_eq_ok.1 hr
  exact ⟨content, p, ⟨hc, ha⟩, rfl⟩

theorem v0_0_5.Array.of_new_eq_ok {a : v0_0_5.Array T} (h : new vs heap = .ok (a, heap')) :
    ∃ content p bdl, WrittenBuffer heap vs content p heap' ∧
      a = ⟨⟨p.wasmPtr⟩, p.wasmPtr, bdl, (UInt32.ofNat vs.length).toInt32⟩ := by
  obtain ⟨content, hc, hr⟩ := of_buffer_new_eq_ok h
  obtain ⟨p, heap₁, ha, hr⟩ := run_bind_eq_ok.1 hr
  obtain ⟨_, heap₂, hg, hr⟩ := run_bind_eq_ok.1 hr
  cases hg
  obtain ⟨l, heap₃, hl, hp⟩ := run_bind_eq_ok.1 hr
  obtain ⟨-, hs⟩ := run_lift_eq_ok.1 hl
  cases hp
  exact ⟨content, p, l, ⟨hc, hs ▸ ha⟩, rfl⟩

end

namespace WasmInstanceContext

variable {G : Type} [Guest G] {c c' : WasmInstanceContext G}

def whole : HeapView (WasmInstanceContext G) where
  Inv _ := True
  memory := memory
  owned _ := Set.univ
  limit := 0

theorem whole_reads (G : Type) [Guest G] : (whole : HeapView (WasmInstanceContext G)).Reads :=
  ⟨fun _ => get_eq_ok_iff⟩

theorem apiVersion_of_rawNew {bs : List UInt8} {p : UInt32} (h : c.rawNew bs = .ok (p, c')) :
    c'.apiVersion = c.apiVersion := by
  obtain ⟨a, ha, rfl, -⟩ := rawNew_eq_ok h
  show a.apiVersion = c.apiVersion
  exact apiVersion_arenaFor ha

theorem allocObj_eq_ok_of_le {C : Type} [AscType C] [AscIndexId C] {obj : C} {p : AscPtr C}
    (hv : c.apiVersion ≤ .new 0 0 4) (h : AscPtr.allocObj obj c = .ok (p, c')) :
    ∃ bs, toAscBytes obj = .ok bs ∧ c.rawNew bs = .ok (p.wasmPtr, c') := by
  obtain ⟨_, _, ⟨⟩, hbo⟩ := run_bind_eq_ok.1 h
  rw [if_pos (show AscHeap.apiVersion c ≤ .new 0 0 4 from hv)] at hbo
  obtain ⟨bs, c₁, hb, hr⟩ := run_bind_eq_ok.1 hbo
  obtain ⟨hb, hc₁⟩ := run_lift_eq_ok.1 hb
  obtain ⟨hp, hn, rfl⟩ := run_bind_pure_eq_ok.1 hr
  rw [hc₁] at hn
  exact ⟨bs, hb, hn⟩

variable {content : List UInt8} {p : AscPtr ArrayBuffer}

theorem readsBuffer_of_le (hv : c.apiVersion ≤ .new 0 0 4) (hlt : content.length < 2 ^ 32)
    (h : AscPtr.allocObj (ArrayBuffer.ofContent c.apiVersion content) c = .ok (p, c')) :
    c'.apiVersion = c.apiVersion ∧ ReadsBuffer c' p content := by
  obtain ⟨bytes, hb, hn⟩ := allocObj_eq_ok_of_le hv h
  rw [ArrayBuffer.toAscBytes_ofContent _ hlt] at hb
  cases hb
  have hs := apiVersion_of_rawNew hn
  have hh := holds_of_rawNew hn
  obtain ⟨-, -, -, -, -, hbl⟩ := rawNew_eq_ok hn
  have hle := ArrayBuffer.length_add_le_bytesOf hv content
  have hsize : content.length + 8 < 2 ^ 31 := by omega
  obtain ⟨hsi, hf⟩ := ArrayBuffer.ascSize_of_le (whole_reads G) hv hsize
  refine ⟨hs, ?_⟩
  rw [← hs] at hv hh hle hsi hf
  have hg := (whole_reads G).readPtr_gives trivial hv (hsize.trans (by decide))
    (hsi c' p trivial hh) hh hf
  exact hg.iff.2 fun _ => (Nat.add_le_add_left hle _).trans hh.bound

theorem readsBuffer_of_not_le (hv : ¬c.apiVersion ≤ .new 0 0 4) (hlt : content.length < 2 ^ 32)
    (h : AscPtr.allocObj (ArrayBuffer.ofContent c.apiVersion content) c = .ok (p, c')) :
    c'.apiVersion = c.apiVersion ∧ ReadsBuffer c' p content := by
  obtain ⟨bytes, cl, ti, m, guest, hpt, hb, hc, -, hn, rfl⟩ := allocObj_eq_ok hv h
  rw [ArrayBuffer.toAscBytes_ofContent _ hlt] at hb
  cases hb
  obtain ⟨hle, hl, hf⟩ := ArrayBuffer.contentLen_of_not_le hv hlt
  rw [ArrayBuffer.padded_bytesOf hv] at hc hn
  obtain rfl := Outcome.ok.inj (hl.symm.trans hc)
  have hs := apiVersion_of_rawNew hn
  have hh := holds_of_rawNew hn
  obtain ⟨-, -, -, -, -, hbl⟩ := rawNew_eq_ok hn
  rw [AscPtr.headerBytes, List.append_assoc] at hh
  -- the pointer is 4 bytes behind the length
  have hc := hh.right
  have hp : (hpt + 20).toNat = hpt.toNat + 16 + 4 := by
    exact Nat.mod_eq_of_lt (show hpt.toNat + 20 < 2 ^ 32 by omega)
  refine ⟨hs, ?_⟩
  replace hs : c'.apiVersion = c.apiVersion := hs
  rw [← hs] at hv hle hc hf
  exact (whole_reads G).readPtr_of_not_le trivial hv hp hc hle hlt hf

variable {T : Type} [AscType T] [MemSize T] [LawfulAscValue T] {values : List T}

theorem readsBuffer_of_written (h : WrittenBuffer c values content p c') :
    c'.apiVersion = c.apiVersion ∧ ReadsBuffer c' p content ∧ HasElements content values ∧
      content.length < 2 ^ 32 := by
  obtain ⟨co', he, hc⟩ := exists_bufferContent values
  rw [h.content_eq] at hc
  split at hc
  · cases hc
  next hlt =>
  cases hc
  have hlt : content.length < 2 ^ 32 := by omega
  by_cases hv : c.apiVersion ≤ .new 0 0 4
  · obtain ⟨hs, hr⟩ := readsBuffer_of_le hv hlt h.allocObj_eq
    exact ⟨hs, hr, he, hlt⟩
  · obtain ⟨hs, hr⟩ := readsBuffer_of_not_le hv hlt h.allocObj_eq
    exact ⟨hs, hr, he, hlt⟩

def viewLength (T : Type) [MemSize T] (apiVersion : Version) (count : ℕ) : ℕ :=
  if apiVersion ≤ .new 0 0 4 then memSize T * count else count

theorem typedArray_of_new {t : TypedArray T} (h : (TypedArray.new values).run c = .ok (t, c')) :
    t.byteLength.toNat = viewLength T c.apiVersion values.length ∧
      t.toVec c' = .ok (values.take (viewCount T c.apiVersion values.length)) := by
  unfold viewLength viewCount
  obtain ⟨_, _, ⟨⟩, hb⟩ := run_bind_eq_ok.1 h
  by_cases hv : c.apiVersion ≤ .new 0 0 4
  · rw [if_pos hv, if_pos hv, List.take_length]
    rw [if_pos (show AscHeap.apiVersion c ≤ .new 0 0 4 from hv)] at hb
    obtain ⟨t', hn, rfl⟩ := run_bind_pure_eq_ok.1 hb
    obtain ⟨content, p, hw, rfl⟩ := v0_0_4.TypedArray.of_new_eq_ok hv hn
    obtain ⟨hs, hr, he, hlt⟩ := readsBuffer_of_written hw
    refine ⟨?_, v0_0_4.TypedArray.toVec_of_readPtr he hlt hr (hs.trans_le hv)⟩
    rw [← he.length_eq]
    exact toNat_ofNat_u32 hlt
  · rw [if_neg hv, if_neg hv]
    rw [if_neg (show ¬AscHeap.apiVersion c ≤ .new 0 0 4 from hv)] at hb
    obtain ⟨t', hn, rfl⟩ := run_bind_pure_eq_ok.1 hb
    obtain ⟨content, p, hw, rfl⟩ := v0_0_5.TypedArray.of_new_eq_ok hn
    obtain ⟨hs, hr, he, hlt⟩ := readsBuffer_of_written hw
    rw [← hs] at hv
    exact ⟨toNat_ofNat_u32 (he.length_le.trans_lt hlt),
      v0_0_5.TypedArray.toVec_of_readPtr he hlt hr hv⟩

theorem array_of_new {a : Array T} (h : (Array.new values).run c = .ok (a, c')) :
    a.toVec c' = .ok values := by
  obtain ⟨_, _, ⟨⟩, hb⟩ := run_bind_eq_ok.1 h
  by_cases hv : c.apiVersion ≤ .new 0 0 4
  · rw [if_pos (show AscHeap.apiVersion c ≤ .new 0 0 4 from hv)] at hb
    obtain ⟨a', hn, rfl⟩ := run_bind_pure_eq_ok.1 hb
    obtain ⟨content, p, hw, rfl⟩ := v0_0_4.Array.of_new_eq_ok hn
    obtain ⟨hs, hr, he, hlt⟩ := readsBuffer_of_written hw
    rw [← hs] at hv
    exact v0_0_4.Array.toVec_of_readPtr he hlt hr hv
  · rw [if_neg (show ¬AscHeap.apiVersion c ≤ .new 0 0 4 from hv)] at hb
    obtain ⟨a', hn, rfl⟩ := run_bind_pure_eq_ok.1 hb
    obtain ⟨content, p, l, hw, rfl⟩ := v0_0_5.Array.of_new_eq_ok hn
    obtain ⟨hs, hr, he, hlt⟩ := readsBuffer_of_written hw
    rw [← hs] at hv
    exact v0_0_5.Array.toVec_of_readPtr he hlt hr hv l

/-- When the length of a view is the size of its elements. -/
def LengthInBytes (T : Type) [MemSize T] (apiVersion : Version) (count : ℕ) : Prop :=
  apiVersion ≤ .new 0 0 4 ∨ memSize T = 1 ∨ count = 0

omit [AscType T] [LawfulAscValue T] in
theorem viewLength_eq_iff (apiVersion : Version) (count : ℕ) :
    viewLength T apiVersion count = memSize T * count ↔ LengthInBytes T apiVersion count := by
  unfold viewLength LengthInBytes
  split
  next hv => simp only [hv, true_or]
  next hv =>
    rw [eq_comm, mul_left_eq_self₀]
    simp only [hv, false_or]

omit [AscType T] [LawfulAscValue T] in
theorem take_viewCount_eq_iff (av : Version) (values : List T) :
    values.take (viewCount T av values.length) = values ↔ LengthInBytes T av values.length := by
  unfold viewCount LengthInBytes
  rw [List.take_eq_self_iff]
  split
  next hv => simp only [hv, le_rfl, true_or]
  next hv =>
    have hle := Nat.div_le_self values.length (memSize T)
    rw [hle.ge_iff_eq, Nat.div_eq_self]
    simp only [hv, false_or, or_comm]

/-- **Elements are read back from an array, and from a view if its length is one in bytes**: up to
version 0.0.4, for elements of one byte, and if there are none. -/
theorem new_toVec_right_iff (c : WasmInstanceContext G) (values : List T) :
    (∀ t c', (TypedArray.new values).run c = .ok (t, c') →
      (t.toVec c' = .ok values ↔ LengthInBytes T c.apiVersion values.length) ∧
      (t.byteLength.toNat = memSize T * values.length ↔
        LengthInBytes T c.apiVersion values.length)) ∧
    (∀ a c', (Array.new values).run c = .ok (a, c') → a.toVec c' = .ok values) ∧
    ∀ blocks, Guest.KeepsBlocks (G := G) 12 blocks → c.InBounds 12 blocks →
      bufferBlockLength c.apiVersion (memSize T * values.length) < 2 ^ 31 →
      ((TypedArray.new values).run c = .err .allocation ∨
        ∃ t c', (TypedArray.new values).run c = .ok (t, c')) ∧
      ((Array.new values).run c = .err .allocation ∨
        ∃ a c', (Array.new values).run c = .ok (a, c')) := by
  have hlaw : ∀ {blocks}, Guest.KeepsBlocks (G := G) 12 blocks →
      (view 12 blocks c.apiVersion).Lawful ∧ (view 12 blocks c.apiVersion).limit = 2147483647 :=
    fun hg => ⟨lawful (by decide) hg c.apiVersion, objectLimit_twelve c.apiVersion⟩
  refine ⟨fun t c' hn => ?_, fun a c' => array_of_new, fun blocks hg hi hf => ⟨?_, ?_⟩⟩
  · obtain ⟨hl, ht⟩ := typedArray_of_new hn
    rw [ht, hl, Outcome.ok.injEq]
    exact ⟨take_viewCount_eq_iff c.apiVersion values, viewLength_eq_iff c.apiVersion values.length⟩
  · obtain ⟨law, hl⟩ := hlaw hg
    rcases (TypedArray.new_ensures_take law ⟨hi, rfl⟩ (hl ▸ Nat.le_of_lt_succ hf)).cases with
      ⟨_, rfl, he⟩ | hok
    · exact .inl he
    · obtain ⟨t, c', hok, -⟩ := hok
      exact .inr ⟨t, c', hok⟩
  · obtain ⟨law, hl⟩ := hlaw hg
    rcases (Array.new_ensures law ⟨hi, rfl⟩ (hl ▸ Nat.le_of_lt_succ hf)).cases with ⟨_, rfl, he⟩ | hok
    · exact .inl he
    · obtain ⟨a, c', hok, -⟩ := hok
      exact .inr ⟨a, c', hok⟩

def sampleInstance : WasmInstanceContext (DownwardGuest 12) :=
  fromInstance (.new 0 0 5) ⟨65536, fun _ => 0⟩ ⟨[]⟩

theorem sampleInstance_inBounds : sampleInstance.InBounds 12 DownwardGuest.blocks :=
  inBounds_fromInstance (by decide) (by decide)

theorem new_toVec_right_sampleInstance :
    (∃ t c', (TypedArray.new ([1, 2, 3] : List UInt8)).run sampleInstance = .ok (t, c') ∧
      t.toVec c' = .ok [1, 2, 3] ∧ t.byteLength.toNat = 3) ∧
    ∃ a c', (Array.new ([7, 8] : List UInt32)).run sampleInstance = .ok (a, c') ∧
      a.toVec c' = .ok [7, 8] := by
  constructor
  · obtain ⟨hv, -, hr⟩ := new_toVec_right_iff sampleInstance ([1, 2, 3] : List UInt8)
    obtain ⟨hn, -⟩ := hr _ (DownwardGuest.keepsBlocks 12) sampleInstance_inBounds
      ((bufferBlockLength_le _ (by decide)).trans_lt (by decide))
    obtain ⟨t, c', hok⟩ := hn.resolve_left (Outcome.ne_err_of_isSome (by decide +kernel))
    obtain ⟨ht, hl⟩ := hv t c' hok
    exact ⟨t, c', hok, ht.2 (.inr (.inl rfl)), hl.2 (.inr (.inl rfl))⟩
  · obtain ⟨-, ha, hr⟩ := new_toVec_right_iff sampleInstance ([7, 8] : List UInt32)
    obtain ⟨-, hn⟩ := hr _ (DownwardGuest.keepsBlocks 12) sampleInstance_inBounds
      ((bufferBlockLength_le _ (by decide)).trans_lt (by decide))
    obtain ⟨a, c', hok⟩ := hn.resolve_left (Outcome.ne_err_of_isSome (by decide +kernel))
    exact ⟨a, c', hok, ha a c' hok⟩

theorem toVec_new_empty : Guest.KeepsBlocks (G := DownwardGuest 12) 12 DownwardGuest.blocks ∧
    sampleInstance.InBounds 12 DownwardGuest.blocks ∧
    ∃ t c', (TypedArray.new ([7, 8] : List UInt32)).run sampleInstance = .ok (t, c') ∧
      t.byteLength.toNat = 2 ∧ t.toVec c' = .ok [] := by
  refine ⟨DownwardGuest.keepsBlocks 12, sampleInstance_inBounds, ?_⟩
  have hs : ((TypedArray.new ([7, 8] : List UInt32)).run sampleInstance).value?.isSome := by
    decide +kernel
  obtain ⟨⟨t, c'⟩, hv⟩ := Option.isSome_iff_exists.1 hs
  have hn := value?_eq_some.1 hv
  obtain ⟨hl, ht⟩ := typedArray_of_new hn
  exact ⟨t, c', hn, hl, ht⟩

end WasmInstanceContext

end Massbit
