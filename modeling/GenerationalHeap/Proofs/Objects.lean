/-
The objects of a heap.

* `Heap.objects` — the objects of all spaces by ascending address.
* `Heap.WellFormed` — what a heap looks like between any two operations, marks and
  tags of its objects apart.
* `Heap.mem_objects_iff`, `Heap.isObject_iff` — what an address names.
* `Heap.SameLayout` — two heaps with the same blocks.
-/
import GenerationalHeap.Heap
import GenerationalHeap.Proofs.LargeBlocks
import GenerationalHeap.Proofs.Tiling

namespace GenerationalHeap

/-! ### Spaces -/

namespace Space

theorem mem_all (s : Space) : s ∈ all := by
  rcases s with (_ | _ | _) | _ <;> decide

end Space

namespace Heap

/-! ### Objects -/

/-- The objects of all spaces, by ascending address. -/
def objects (h : Heap) : List Address := Space.all.flatMap h.objectsIn

/-- The size of the block whose header is at an offset of a space. -/
def sizeAt (h : Heap) (s : Space) (x : Nat) : Nat := (Header.load (h.memory s) x).blockSize

/-- The byte at place `i` of the block of an object, its header included. -/
def byte (h : Heap) (a : Address) (i : Nat) : UInt8 := h.readAt a fun m start => m.byte (start + i)

/-- What a heap looks like between any two operations, marks and tags of its objects
apart. -/
structure WellFormed (h : Heap) : Prop where
  arena : ∀ g, (h.arena g).WellFormed (.arena g)
  large : h.large.Blocks
  large_size : ∀ b ∈ h.large.live,
    b.size = LargeSpace.blockSizeFor (h.large.header b.offset).blockSize
  large_aligned : ∀ b ∈ h.large.live, (h.large.header b.offset).payloadSize % alignment = 0

namespace WellFormed

variable {h : Heap}

/-- An object of the large space is not larger than its block. -/
theorem large_stop (hw : h.WellFormed) {b : Block} (hb : b ∈ h.large.live) :
    b.offset + h.sizeAt .large b.offset ≤ b.stop := by
  rw [Block.stop, hw.large_size b hb]
  exact Nat.add_le_add_left (LargeSpace.le_blockSizeFor _) _

theorem apart (hw : h.WellFormed) {s : Space} {x y : Nat} (hx : x ∈ h.offsetsIn s)
    (hy : y ∈ h.offsetsIn s) : x = y ∨ x + h.sizeAt s x ≤ y ∨ y + h.sizeAt s y ≤ x := by
  cases s with
  | arena g => exact (hw.arena g).tiled.apart hx hy
  | large =>
    obtain ⟨b, hb, rfl⟩ := List.mem_map.1 hx
    obtain ⟨c, hc, rfl⟩ := List.mem_map.1 hy
    by_cases hbc : b = c
    · exact Or.inl (hbc ▸ rfl)
    · refine Or.inr ?_
      rcases hw.large.live.apart hb hc hbc with hle | hle
      · exact Or.inl (Nat.le_trans (hw.large_stop hb) hle)
      · exact Or.inr (Nat.le_trans (hw.large_stop hc) hle)

theorem fits (hw : h.WellFormed) {s : Space} {x : Nat} (hx : x ∈ h.offsetsIn s) :
    x + h.sizeAt s x ≤ (h.memory s).size := by
  cases s with
  | arena g => exact Nat.le_trans ((hw.arena g).add_sizeAt_le hx) (hw.arena g).top_le
  | large =>
    obtain ⟨b, hb, rfl⟩ := List.mem_map.1 hx
    show b.offset + h.sizeAt .large b.offset ≤ h.large.memory.size
    rw [hw.large.size_eq]
    exact Nat.le_trans (hw.large_stop hb) (hw.large.live_le b hb)

theorem size_le (hw : h.WellFormed) (s : Space) : (h.memory s).size ≤ spaceLimit := by
  cases s with
  | arena g => exact (hw.arena g).capacity_le
  | large =>
    show h.large.memory.size ≤ spaceLimit
    rw [hw.large.size_eq]
    exact hw.large.top_le

theorem lt_spaceLimit (hw : h.WellFormed) {s : Space} {x : Nat} (hx : x ∈ h.offsetsIn s) :
    x < spaceLimit := by
  have hfit := hw.fits hx
  have hsize := hw.size_le s
  have hpos := (Header.load (h.memory s) x).blockSize_pos
  unfold sizeAt at hfit
  omega

theorem payload_mod (hw : h.WellFormed) {s : Space} {x : Nat} (hx : x ∈ h.offsetsIn s) :
    (Header.load (h.memory s) x).payloadSize % alignment = 0 := by
  cases s with
  | arena g => exact (hw.arena g).aligned x hx
  | large =>
    obtain ⟨b, hb, rfl⟩ := List.mem_map.1 hx
    exact hw.large_aligned b hb

theorem offsets_sorted (hw : h.WellFormed) (s : Space) : (h.offsetsIn s).Pairwise (· < ·) := by
  cases s with
  | arena g =>
    have hp := (hw.arena g).tiled.pairwise
    refine hp.imp ?_
    intro x y hxy
    have hsize := (h.arena g).headerSize_le_sizeAt x
    have hpos : 0 < headerSize := by decide
    omega
  | large =>
    show (h.large.live.map (·.offset)).Pairwise (· < ·)
    exact List.pairwise_map.2 hw.large.live.offset_lt

theorem offsets_nodup (hw : h.WellFormed) (s : Space) : (h.offsetsIn s).Nodup :=
  (hw.offsets_sorted s).imp Nat.ne_of_lt

/-- Whether an address names an object is told by its offset in its space. -/
theorem mem_objectsIn_iff (hw : h.WellFormed) {s : Space} {a : Address} :
    a ∈ h.objectsIn s ↔ Space.ofAddress? a = some s ∧ s.offset a ∈ h.offsetsIn s := by
  rw [objectsIn, List.mem_map]
  constructor
  · rintro ⟨x, hx, rfl⟩
    have hlt := hw.lt_spaceLimit hx
    exact ⟨Space.ofAddress?_address hlt, (Space.offset_address hlt).symm ▸ hx⟩
  · rintro ⟨hs, hx⟩
    exact ⟨_, hx, Space.address_offset hs⟩

theorem mem_objects_iff (hw : h.WellFormed) {a : Address} :
    a ∈ h.objects ↔ ∃ s, Space.ofAddress? a = some s ∧ s.offset a ∈ h.offsetsIn s := by
  rw [objects, List.mem_flatMap]
  constructor
  · rintro ⟨s, _, ha⟩
    exact ⟨s, hw.mem_objectsIn_iff.1 ha⟩
  · rintro ⟨s, ha⟩
    exact ⟨s, s.mem_all, hw.mem_objectsIn_iff.2 ha⟩

theorem ne_zero (hw : h.WellFormed) {a : Address} (ha : a ∈ h.objects) : a ≠ 0 := by
  obtain ⟨s, hs, -⟩ := hw.mem_objects_iff.1 ha
  rintro rfl
  rw [show Space.ofAddress? 0 = none from rfl] at hs
  exact absurd hs (by simp)

/-- Objects are listed by ascending address. -/
theorem objects_sorted (hw : h.WellFormed) : h.objects.Pairwise fun a b => a.toNat < b.toNat := by
  have hlt : ∀ s, ∀ a ∈ h.objectsIn s, a.toNat / spaceLimit = s.rank + 1 := fun s a ha =>
    Space.ofAddress?_eq_some_iff.1 (hw.mem_objectsIn_iff.1 ha).1
  refine List.pairwise_flatMap.2 ⟨?_, ?_⟩
  · intro s _
    -- within a space, addresses are ordered as the offsets are
    refine List.pairwise_map.2 ((hw.offsets_sorted s).imp_of_mem ?_)
    intro x y hx hy hxy
    rw [Space.toNat_address (hw.lt_spaceLimit hx), Space.toNat_address (hw.lt_spaceLimit hy)]
    omega
  · -- of two spaces, the one of lower rank has the lower addresses
    have hranks : Space.all.Pairwise fun s t => s.rank < t.rank := by decide
    refine hranks.imp ?_
    intro s t hst a ha b hb
    have hsa := hlt s a ha
    have htb := hlt t b hb
    by_contra hle
    have hdiv := Nat.div_le_div_right (c := spaceLimit) (Nat.not_lt.1 hle)
    omega

theorem objects_nodup (hw : h.WellFormed) : h.objects.Nodup :=
  hw.objects_sorted.imp fun {a b} hlt (heq : a = b) => absurd hlt (heq ▸ Nat.lt_irrefl _)

theorem objectsIn_nodup (hw : h.WellFormed) (s : Space) : (h.objectsIn s).Nodup :=
  (List.pairwise_flatMap.1 hw.objects_nodup).1 s s.mem_all

end WellFormed

theorem address_mem_objects {h : Heap} {s : Space} {x : Nat} (hx : x ∈ h.offsetsIn s) :
    s.address x ∈ h.objects :=
  List.mem_flatMap.2 ⟨s, s.mem_all, List.mem_map.2 ⟨x, hx, rfl⟩⟩

/-! ### What is stored at an address -/

section Stored

variable {h : Heap} {a : Address} {s : Space}

theorem header_eq (hs : Space.ofAddress? a = some s) :
    h.header a = Header.load (h.memory s) (s.offset a) := by
  rw [header, readAt, hs]

theorem byte_eq (hs : Space.ofAddress? a = some s) (i : Nat) :
    h.byte a i = (h.memory s).byte (s.offset a + i) := by
  rw [byte, readAt, hs]

theorem word_eq (hs : Space.ofAddress? a = some s) (offset : Nat) :
    h.word a offset = (h.memory s).word (s.offset a + headerSize + offset) := by
  rw [word, readAt, hs]

theorem word_eq_bytes (h : Heap) (a : Address) (offset : Nat) :
    h.word a offset = Word.littleEndian fun k => h.byte a (headerSize + offset + k) := by
  cases hs : Space.ofAddress? a with
  | none =>
    rw [word, readAt, hs, Memory.word_eq]
    refine Word.littleEndian_congr ?_
    intro k _
    rw [byte, readAt, hs, Memory.byte_zeros, Memory.byte_zeros]
  | some s =>
    rw [word_eq hs, Memory.word_eq]
    refine Word.littleEndian_congr ?_
    intro k _
    rw [byte_eq hs]
    congr 1
    omega

theorem header_congr {h' : Heap} {a' : Address} {s' : Space} (hs : Space.ofAddress? a = some s)
    (hs' : Space.ofAddress? a' = some s')
    (hbyte : ∀ i < headerSize, h'.byte a' i = h.byte a i) : h'.header a' = h.header a := by
  rw [header_eq hs, header_eq hs']
  refine Header.load_congr ?_
  intro i hi
  rw [← byte_eq hs, ← byte_eq hs']
  exact hbyte i hi

theorem word_congr {h' : Heap} {a' : Address} {offset : Nat}
    (hbyte : ∀ k < 8, h'.byte a' (headerSize + offset + k) = h.byte a (headerSize + offset + k)) :
    h'.word a' offset = h.word a offset := by
  rw [word_eq_bytes, word_eq_bytes]
  exact Word.littleEndian_congr hbyte

theorem sizeAt_offset (hs : Space.ofAddress? a = some s) :
    h.sizeAt s (s.offset a) = (h.header a).blockSize := by
  rw [sizeAt, header_eq hs]

end Stored

/-! ### The check of an address -/

/-- The tags in the headers name the spaces of the objects. -/
def Tagged (h : Heap) : Prop :=
  ∀ s, ∀ a ∈ h.objectsIn s, (h.header a).space = s

theorem Tagged.space_eq {h : Heap} (ht : h.Tagged) (hw : h.WellFormed) {a : Address}
    (ha : a ∈ h.objects) {s : Space} (hs : Space.ofAddress? a = some s) :
    (h.header a).space = s := by
  obtain ⟨t, ht', hx⟩ := hw.mem_objects_iff.1 ha
  obtain rfl := Option.some.inj (ht'.symm.trans hs)
  exact ht t a (hw.mem_objectsIn_iff.2 ⟨hs, hx⟩)

/-- Whatever the check of an address accepts is an object, be the tags right or wrong. -/
theorem mem_objects_of_isObject {h : Heap} (hw : h.WellFormed) {a : Address}
    (ho : h.isObject a = true) : a ∈ h.objects := by
  rw [isObject] at ho
  refine hw.mem_objects_iff.2 ?_
  -- arenas look the address up in their start map, the large space among its blocks
  cases hs : Space.ofAddress? a with
  | none => simp [hs] at ho
  | some s =>
    refine ⟨s, rfl, ?_⟩
    rw [hs] at ho
    cases s with
    | arena g => exact ((Arena.isObjectStart_iff (hw.arena g) hs).1 ho).1
    | large =>
      have hstart : h.large.isObjectStart a = true := ho
      rw [LargeSpace.isObjectStart, Bool.and_eq_true] at hstart
      exact hw.large.mem_offsets_iff.2 hstart.2

/-- The check of an address accepts exactly the objects of the heap. -/
theorem isObject_iff {h : Heap} (hw : h.WellFormed) (ht : h.Tagged) {a : Address} :
    h.isObject a = true ↔ a ∈ h.objects := by
  refine ⟨mem_objects_of_isObject hw, fun ha => ?_⟩
  obtain ⟨s, hs, hx⟩ := hw.mem_objects_iff.1 ha
  rw [isObject, hs]
  cases s with
  | arena g =>
    have htag := ht _ a (hw.mem_objectsIn_iff.2 ⟨hs, hx⟩)
    rw [header_eq hs] at htag
    exact (Arena.isObjectStart_iff (hw.arena g) hs).2 ⟨hx, htag⟩
  | large =>
    show h.large.isObjectStart a = true
    rw [LargeSpace.isObjectStart, decide_eq_true (Space.base_le_of_ofAddress? hs), Bool.true_and]
    exact hw.large.mem_offsets_iff.1 hx

theorem check_eq_ok_iff {h : Heap} (hw : h.WellFormed) (ht : h.Tagged) {a : Address} {s : Space} :
    h.check a = .ok s ↔ a ∈ h.objects ∧ Space.ofAddress? a = some s := by
  rw [← isObject_iff hw ht, check]
  cases hs : Space.ofAddress? a with
  | none => simp
  | some t =>
    dsimp only
    by_cases ho : h.isObject a = true
    · rw [if_pos ho]
      simp [ho]
    · rw [if_neg ho]
      simp [ho]

/-! ### Heaps with the same blocks -/

/-- Two heaps with the same blocks in the same places. The arenas of the second one may
have more room. -/
structure SameLayout (h h' : Heap) : Prop where
  space : ∀ g, (h'.arena g).space = (h.arena g).space
  top : ∀ g, (h'.arena g).top = (h.arena g).top
  isSet : ∀ g x, (h'.arena g).starts.isSet x = (h.arena g).starts.isSet x
  capacity : ∀ g, (h.arena g).capacity ≤ (h'.arena g).capacity
  capacity_le : ∀ g, (h'.arena g).capacity ≤ spaceLimit
  covered : ∀ g, StartMap.groupsFor (h'.arena g).capacity ≤ (h'.arena g).starts.covered
  above : ∀ g i, (h.arena g).top ≤ i → (h'.arena g).memory.byte i = (h.arena g).memory.byte i
  largeSize : h'.large.memory.size = h.large.memory.size
  live : h'.large.live = h.large.live
  free : h'.large.free = h.large.free
  largeTop : h'.large.top = h.large.top
  used : h'.large.used = h.large.used
  maxSize : h'.maxSize = h.maxSize
  sizeAt : ∀ s, ∀ x ∈ h.offsetsIn s, h'.sizeAt s x = h.sizeAt s x

namespace SameLayout

variable {h h' h'' : Heap}

theorem refl (hw : h.WellFormed) : h.SameLayout h where
  space _ := rfl
  top _ := rfl
  isSet _ _ := rfl
  capacity _ := Nat.le_refl _
  capacity_le g := (hw.arena g).capacity_le
  covered g := (hw.arena g).covered
  above _ _ _ := rfl
  largeSize := rfl
  live := rfl
  free := rfl
  largeTop := rfl
  used := rfl
  maxSize := rfl
  sizeAt _ _ _ := rfl

theorem tiled (hl : h.SameLayout h') (hw : h.WellFormed) (g : Generation) :
    Tiles (h'.arena g).sizeAt 0 (h.arena g).offsets (h'.arena g).top := by
  rw [hl.top g]
  exact (hw.arena g).tiled.congr fun x hx => hl.sizeAt (.arena g) x hx

theorem offsetsIn (hl : h.SameLayout h') (hw : h.WellFormed) (s : Space) :
    h'.offsetsIn s = h.offsetsIn s := by
  cases s with
  | arena g => exact Arena.offsetsFrom_eq_of_tiles (hl.tiled hw g)
  | large =>
    show h'.large.live.map (·.offset) = h.large.live.map (·.offset)
    rw [hl.live]

theorem objectsIn (hl : h.SameLayout h') (hw : h.WellFormed) (s : Space) :
    h'.objectsIn s = h.objectsIn s := by
  rw [Heap.objectsIn, Heap.objectsIn, hl.offsetsIn hw]

theorem objects (hl : h.SameLayout h') (hw : h.WellFormed) : h'.objects = h.objects := by
  rw [Heap.objects, Heap.objects, funext (hl.objectsIn hw)]

theorem trans (hl : h.SameLayout h') (hl' : h'.SameLayout h'') (hw : h.WellFormed) :
    h.SameLayout h'' where
  space g := (hl'.space g).trans (hl.space g)
  top g := (hl'.top g).trans (hl.top g)
  isSet g x := (hl'.isSet g x).trans (hl.isSet g x)
  capacity g := Nat.le_trans (hl.capacity g) (hl'.capacity g)
  capacity_le := hl'.capacity_le
  covered := hl'.covered
  above g i hi := (hl'.above g i (hl.top g ▸ hi)).trans (hl.above g i hi)
  largeSize := hl'.largeSize.trans hl.largeSize
  live := hl'.live.trans hl.live
  free := hl'.free.trans hl.free
  largeTop := hl'.largeTop.trans hl.largeTop
  used := hl'.used.trans hl.used
  maxSize := hl'.maxSize.trans hl.maxSize
  sizeAt s x hx := (hl'.sizeAt s x (hl.offsetsIn hw s ▸ hx)).trans (hl.sizeAt s x hx)

theorem payload_mod (hl : h.SameLayout h') (hw : h.WellFormed) {s : Space} {x : Nat}
    (hx : x ∈ h.offsetsIn s) : (Header.load (h'.memory s) x).payloadSize % alignment = 0 := by
  have hsize := hl.sizeAt s x hx
  have hmod := hw.payload_mod hx
  rw [Heap.sizeAt, Heap.sizeAt, Header.blockSize_eq, Header.blockSize_eq] at hsize
  rwa [Nat.add_left_cancel hsize]

theorem wellFormed_arena (hl : h.SameLayout h') (hw : h.WellFormed) (g : Generation) :
    (h'.arena g).WellFormed (.arena g) := by
  have ha := hw.arena g
  -- the walk finds the same offsets, so what the start map says of them stays true
  have ho : (h'.arena g).offsets = (h.arena g).offsets := hl.offsetsIn hw (.arena g)
  refine ⟨(hl.space g).trans ha.space_eq, ho ▸ hl.tiled hw g, ?_, ?_, ?_, ?_, hl.capacity_le g,
    hl.covered g⟩
  · intro x hx
    rw [ho] at hx
    exact hl.payload_mod hw (s := .arena g) hx
  · intro x hx
    rw [ho, hl.isSet]
    exact ha.isSet_iff x hx
  · intro i hi
    rw [hl.top] at hi
    rw [hl.above g i hi]
    exact ha.zero_above i hi
  · rw [hl.top]
    exact Nat.le_trans ha.top_le (hl.capacity g)

theorem blocks_large (hl : h.SameLayout h') (hw : h.WellFormed) : h'.large.Blocks := by
  have hb := hw.large
  refine ⟨hl.live ▸ hb.live, hl.free ▸ hb.free, ?_, ?_, ?_, ?_, hl.largeTop ▸ hb.top_le, ?_,
    ⟨hl.live ▸ hb.paged.live, hl.free ▸ hb.paged.free, hl.largeTop ▸ hb.paged.top⟩⟩
  · rw [hl.live, hl.free]
    exact hb.apart
  · rw [hl.live, hl.largeTop]
    exact hb.live_le
  · rw [hl.free, hl.largeTop]
    exact hb.free_le
  · rw [hl.largeTop, ← hb.size_eq]
    exact hl.largeSize
  · rw [hl.used, hl.live]
    exact hb.used_eq

theorem wellFormed (hl : h.SameLayout h') (hw : h.WellFormed) : h'.WellFormed where
  arena := hl.wellFormed_arena hw
  large := hl.blocks_large hw
  large_size b hb := by
    rw [hl.live] at hb
    rw [hw.large_size b hb]
    exact congrArg _ (hl.sizeAt .large b.offset (List.mem_map_of_mem hb)).symm
  large_aligned b hb := by
    rw [hl.live] at hb
    exact hl.payload_mod hw (s := .large) (List.mem_map_of_mem hb)

theorem usedIn (hl : h.SameLayout h') (s : Space) : h'.usedIn s = h.usedIn s := by
  cases s with
  | arena g => exact hl.top g
  | large => exact hl.used

theorem usedBytes (hl : h.SameLayout h') : h'.usedBytes = h.usedBytes := by
  rw [Heap.usedBytes, Heap.usedBytes, funext hl.usedIn]

end SameLayout

end Heap

end GenerationalHeap
