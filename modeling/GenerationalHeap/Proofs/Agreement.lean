/-
Heaps that agree byte for byte.

* `Heap.AgreesBut` — two heaps that differ at most in some of their bytes;
  `Heap.Identical` — two heaps that do not differ at all.
* `Heap.InHeader`, `Heap.InPayload` — the bytes of headers and those of payloads.
* `Heap.AgreesBut.sameLayout`, `Heap.AgreesBut.header` — new payloads leave the blocks and
  the headers alone.
* `Heap.agrees_patch`, `Heap.agrees_setHeader` — a new header changes bytes of headers alone.
* `Heap.Relabels.identical` — if every header reads as before, no byte has changed.
-/
import GenerationalHeap.Proofs.Changes

namespace GenerationalHeap

/-! ### Headers and their bytes -/

namespace Memory

variable {m m' : Memory} {x x' : Nat}

/-- A word tells its bytes. -/
theorem byte_of_word_eq (h : m'.word x' = m.word x) {k : Nat} (hk : k < 8) :
    m'.byte (x' + k) = m.byte (x + k) := by
  rw [word_eq, word_eq] at h
  have hbyte := congrArg (Word.byteOf · k) h
  simpa only [Word.byteOf_littleEndian _ hk] using hbyte

end Memory

/-- A word is told by its two halves. -/
theorem Word.eq_of_halves {v w : UInt64} (hlow : v.toUInt32 = w.toUInt32)
    (hhigh : (v >>> 32).toUInt32 = (w >>> 32).toUInt32) : v = w := by
  have hlow' := congrArg UInt32.toNat hlow
  have hhigh' := congrArg UInt32.toNat hhigh
  simp only [UInt64.toNat_toUInt32, UInt64.toNat_shiftRight, UInt64.reduceToNat, Nat.reduceMod,
    Nat.shiftRight_eq_div_pow, Nat.reducePow] at hlow' hhigh'
  have hv := v.toNat_lt
  have hw := w.toNat_lt
  exact UInt64.toNat_inj.1 (by omega)

/-- A header tells its bytes. -/
theorem Header.byte_of_load_eq {m m' : Memory} {x x' : Nat} (h : load m' x' = load m x) {i : Nat}
    (hi : i < headerSize) : m'.byte (x' + i) = m.byte (x + i) := by
  have hsecond : m'.word (x' + 8) = m.word (x + 8) :=
    Word.eq_of_halves (congrArg size h) (congrArg (fun y => y.typeId.index) h)
  have hword : ∀ j < 4, m'.word (x' + 8 * j) = m.word (x + 8 * j) := by
    intro j hj
    match j, hj with
    | 0, _ => exact congrArg markWord h
    | 1, _ => exact hsecond
    | 2, _ => exact congrArg slot h
    | 3, _ => exact congrArg forwarding h
  have hbyte := Memory.byte_of_word_eq (hword (i / 8) (by unfold headerSize at hi; omega))
    (Nat.mod_lt i (by decide : 0 < 8))
  simpa only [Nat.add_assoc, Nat.div_add_mod] using hbyte

namespace Heap

/-! ### Bytes that may differ -/

/-- Two heaps that differ at most in some of their bytes. -/
structure AgreesBut (differs : Space → Nat → Prop) (h h' : Heap) : Prop where
  size : ∀ s, (h'.memory s).size = (h.memory s).size
  byte : ∀ s i, ¬differs s i → (h'.memory s).byte i = (h.memory s).byte i
  space : ∀ g, (h'.arena g).space = (h.arena g).space
  top : ∀ g, (h'.arena g).top = (h.arena g).top
  starts : ∀ g, (h'.arena g).starts = (h.arena g).starts
  live : h'.large.live = h.large.live
  free : h'.large.free = h.large.free
  largeTop : h'.large.top = h.large.top
  used : h'.large.used = h.large.used
  maxSize : h'.maxSize = h.maxSize

/-- Two heaps that have every byte of every space in common, and all that is noted of them. -/
def Identical (h h' : Heap) : Prop := AgreesBut (fun _ _ => False) h h'

/-- A byte of the header of an object. -/
def InHeader (h : Heap) (s : Space) (i : Nat) : Prop :=
  ∃ x ∈ h.offsetsIn s, x ≤ i ∧ i < x + headerSize

/-- A byte of the payload of an object. -/
def InPayload (h : Heap) (s : Space) (i : Nat) : Prop :=
  ∃ x ∈ h.offsetsIn s, x + headerSize ≤ i ∧ i < x + h.sizeAt s x

variable {h h' h'' : Heap} {a : Address} {differs : Space → Nat → Prop}

namespace AgreesBut

theorem refl (differs : Space → Nat → Prop) (h : Heap) : AgreesBut differs h h :=
  ⟨fun _ => rfl, fun _ _ _ => rfl, fun _ => rfl, fun _ => rfl, fun _ => rfl, rfl, rfl, rfl, rfl,
    rfl⟩

theorem trans (ha : AgreesBut differs h h') (hb : AgreesBut differs h' h'') :
    AgreesBut differs h h'' where
  size s := (hb.size s).trans (ha.size s)
  byte s i hi := (hb.byte s i hi).trans (ha.byte s i hi)
  space g := (hb.space g).trans (ha.space g)
  top g := (hb.top g).trans (ha.top g)
  starts g := (hb.starts g).trans (ha.starts g)
  live := hb.live.trans ha.live
  free := hb.free.trans ha.free
  largeTop := hb.largeTop.trans ha.largeTop
  used := hb.used.trans ha.used
  maxSize := hb.maxSize.trans ha.maxSize

theorem mono {more : Space → Nat → Prop} (ha : AgreesBut differs h h')
    (hmore : ∀ s i, differs s i → more s i) : AgreesBut more h h' :=
  { ha with byte := fun s i hi => ha.byte s i fun hd => hi (hmore s i hd) }

end AgreesBut

/-! ### New payloads -/

/-- No byte of a header is one of a payload. -/
theorem WellFormed.not_inPayload (hw : h.WellFormed) {s : Space} {x : Nat}
    (hx : x ∈ h.offsetsIn s) {i : Nat} (hi : i < headerSize) : ¬h.InPayload s (x + i) := by
  rintro ⟨y, hy, hlo, hhi⟩
  have hxsize : headerSize ≤ h.sizeAt s x := Header.headerSize_le _
  rcases hw.apart hx hy with rfl | hle | hle
  · omega
  · omega
  · omega

namespace AgreesBut

variable (hw : h.WellFormed) (ha : AgreesBut h.InPayload h h')
include hw ha

theorem load {s : Space} {x : Nat} (hx : x ∈ h.offsetsIn s) :
    Header.load (h'.memory s) x = Header.load (h.memory s) x :=
  Header.load_congr fun _ hi => ha.byte s _ (hw.not_inPayload hx hi)

theorem sameLayout : h.SameLayout h' where
  space := ha.space
  top := ha.top
  isSet g x := by rw [ha.starts]
  capacity g := Nat.le_of_eq (ha.size (.arena g)).symm
  capacity_le g := Nat.le_trans (Nat.le_of_eq (ha.size (.arena g))) (hw.arena g).capacity_le
  covered g := by
    rw [ha.starts, show (h'.arena g).capacity = (h.arena g).capacity from ha.size (.arena g)]
    exact (hw.arena g).covered
  above g i hi := by
    refine ha.byte (.arena g) i ?_
    rintro ⟨x, hx, -, hhi⟩
    have hle : x + h.sizeAt (.arena g) x ≤ (h.arena g).top := (hw.arena g).add_sizeAt_le hx
    omega
  largeSize := ha.size .large
  live := ha.live
  free := ha.free
  largeTop := ha.largeTop
  used := ha.used
  maxSize := ha.maxSize
  sizeAt s x hx := congrArg Header.blockSize (ha.load hw hx)

theorem header {a : Address} (hobj : a ∈ h.objects) : h'.header a = h.header a := by
  obtain ⟨s, hs, hx⟩ := hw.mem_objects_iff.1 hobj
  rw [header_eq hs, header_eq hs, ha.load hw hx]

end AgreesBut

/-! ### New headers -/

/-- Bytes that are put into a block are the only ones that change. -/
theorem agrees_patch {s : Space} (hs : Space.ofAddress? a = some s) {k : Nat} {bytes : ByteArray}
    (hfit : s.offset a + k + bytes.size ≤ (h.memory s).size) :
    AgreesBut (fun t i => t = s ∧ s.offset a + k ≤ i ∧ i < s.offset a + k + bytes.size) h
      (h.patch a k bytes) := by
  obtain ⟨harena, hlive, hfree, htop, hused, hmax⟩ := patch_eq hs k bytes
  refine ⟨size_memory_patch hs k bytes, ?_, fun g => (harena g).1, fun g => (harena g).2.1,
    fun g => (harena g).2.2, hlive, hfree, htop, hused, hmax⟩
  intro t i hi
  rw [memory_patch hs]
  split
  · rename_i hts
    subst hts
    rw [Memory.byte_overwrite hfit, if_neg fun hc => hi ⟨rfl, hc⟩]
  · rfl

/-- A new header changes bytes of headers alone. -/
theorem agrees_setHeader (hw : h.WellFormed) (hl : h.SameLayout h') (ha : a ∈ h.objects)
    (new : Header) : AgreesBut h.InHeader h' (h'.setHeader a new) := by
  obtain ⟨s, hs, hx⟩ := hw.mem_objects_iff.1 ha
  have hfit := (hl.wellFormed hw).fits (hl.offsetsIn hw s ▸ hx)
  have hsize : headerSize ≤ h'.sizeAt s (s.offset a) := Header.headerSize_le _
  rw [setHeader_eq_patch]
  refine (agrees_patch hs ?_).mono ?_
  · rw [Nat.add_zero, Header.size_bytes]
    exact Nat.le_trans (Nat.add_le_add_left hsize _) hfit
  · rintro t i ⟨rfl, hi⟩
    rw [Nat.add_zero, Header.size_bytes] at hi
    exact ⟨t.offset a, hx, hi⟩

/-- If every header reads as before, no byte of a header has changed. -/
theorem Relabels.identical (hr : Relabels (fun _ x => x) h h') (hw : h.WellFormed)
    (ha : AgreesBut h.InHeader h h') : h.Identical h' where
  size := ha.size
  byte s i _ := by
    by_cases hi : h.InHeader s i
    · obtain ⟨x, hx, hlo, hhi⟩ := hi
      have hlt := hw.lt_spaceLimit hx
      have hs : Space.ofAddress? (s.address x) = some s := Space.ofAddress?_address hlt
      have hheader := hr.header (s.address x) (address_mem_objects hx)
      rw [header_eq hs, header_eq hs, Space.offset_address hlt] at hheader
      have hbyte := Header.byte_of_load_eq hheader (i := i - x) (by omega)
      rwa [Nat.add_sub_cancel' hlo] at hbyte
    · exact ha.byte s i hi
  space := ha.space
  top := ha.top
  starts := ha.starts
  live := ha.live
  free := ha.free
  largeTop := ha.largeTop
  used := ha.used
  maxSize := ha.maxSize

end Heap

end GenerationalHeap
