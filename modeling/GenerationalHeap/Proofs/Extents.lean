/-
The bytes that objects take in their spaces.

* `Heap.extent` — the size of the whole block of an object, what rounding adds to a large one
  included.
* `Heap.WellFormed.ofAddress?_add` — every byte of a block has an address in the space of the
  object.
* `Heap.WellFormed.extent_apart` — no address belongs to two blocks.
* `Heap.WellFormed.usedBytes_eq_sum` — the bytes in use are those of the blocks.
-/
import GenerationalHeap.Proofs.Objects
import Mathlib.Algebra.BigOperators.Group.List.Basic

namespace GenerationalHeap

namespace Space

/-- The address of a place in a space, told from an address in the same space. -/
theorem toNat_add {s : Space} {a : Address} (hs : ofAddress? a = some s) {i : Nat}
    (hi : s.offset a + i < spaceLimit) :
    (a + UInt64.ofNat i).toNat = a.toNat + i ∧ ofAddress? (a + UInt64.ofNat i) = some s := by
  have hadd : a + UInt64.ofNat i = s.address (s.offset a + i) := by
    rw [address, ← Nat.add_assoc, UInt64.ofNat_add, ← address, address_offset hs]
  have hbase := base_le_of_ofAddress? hs
  rw [hadd, ofAddress?_address hi, toNat_address hi, offset]
  exact ⟨by omega, rfl⟩

/-- The bytes that an object of a space takes there, told by its header. -/
def roomFor : Space → Header → Nat
  | .arena _, x => x.blockSize
  | .large, x => LargeSpace.blockSizeFor x.blockSize

theorem blockSize_le_roomFor (s : Space) (x : Header) : x.blockSize ≤ s.roomFor x := by
  cases s with
  | arena g => exact Nat.le_refl _
  | large => exact LargeSpace.le_blockSizeFor _

theorem roomFor_congr {s : Space} {x y : Header} (h : x.blockSize = y.blockSize) :
    s.roomFor x = s.roomFor y := by
  cases s with
  | arena g => exact h
  | large => exact congrArg LargeSpace.blockSizeFor h

end Space

namespace Heap

/-- The size of the block at an offset of a space: that of the walk over an arena, or that of
the live block. -/
def extentAt (h : Heap) : Space → (offset : Nat) → Nat
  | .arena g, x => (h.arena g).sizeAt x
  | .large, x => ((Block.at? x h.large.live).map (·.size)).getD 0

/-- The size of the whole block of an object. -/
def extent (h : Heap) (a : Address) : Nat :=
  match Space.ofAddress? a with
  | some s => h.extentAt s (s.offset a)
  | none => 0

variable {h h' : Heap} {s : Space} {a b : Address} {x y : Nat}

theorem extent_eq (hs : Space.ofAddress? a = some s) : h.extent a = h.extentAt s (s.offset a) := by
  rw [extent, hs]

namespace WellFormed

variable (hw : h.WellFormed)
include hw

theorem header_address (hx : x ∈ h.offsetsIn s) :
    h.header (s.address x) = Header.load (h.memory s) x := by
  have hlt := hw.lt_spaceLimit hx
  rw [header_eq (Space.ofAddress?_address hlt), Space.offset_address hlt]

theorem extent_address (hx : x ∈ h.offsetsIn s) : h.extent (s.address x) = h.extentAt s x := by
  have hlt := hw.lt_spaceLimit hx
  rw [Heap.extent_eq (Space.ofAddress?_address hlt), Space.offset_address hlt]

theorem extentAt_large {block : Block} (hb : block ∈ h.large.live) :
    h.extentAt .large block.offset = block.size := by
  rw [extentAt, hw.large.live.at?_eq_some_iff.2 ⟨hb, rfl⟩]
  rfl

/-- The header of an object tells the size of its block. -/
theorem extentAt_eq (hx : x ∈ h.offsetsIn s) :
    h.extentAt s x = s.roomFor (Header.load (h.memory s) x) := by
  cases s with
  | arena g => rfl
  | large =>
    obtain ⟨block, hb, rfl⟩ := List.mem_map.1 hx
    rw [hw.extentAt_large hb]
    exact hw.large_size block hb

theorem extent_eq_roomFor (ha : a ∈ h.objects) (hs : Space.ofAddress? a = some s) :
    h.extent a = s.roomFor (h.header a) := by
  obtain ⟨s', hs', hx⟩ := hw.mem_objects_iff.1 ha
  obtain rfl : s' = s := Option.some.inj (hs'.symm.trans hs)
  rw [Heap.extent_eq hs, hw.extentAt_eq hx, header_eq hs]

/-- The end of a block lies in its space. -/
theorem add_extentAt_le (hx : x ∈ h.offsetsIn s) : x + h.extentAt s x ≤ spaceLimit := by
  cases s with
  | arena g =>
    have ha := hw.arena g
    exact Nat.le_trans (ha.add_sizeAt_le hx) (Nat.le_trans ha.top_le ha.capacity_le)
  | large =>
    obtain ⟨block, hb, rfl⟩ := List.mem_map.1 hx
    rw [hw.extentAt_large hb]
    exact Nat.le_trans (hw.large.live_le block hb) hw.large.top_le

theorem extentAt_apart (hx : x ∈ h.offsetsIn s) (hy : y ∈ h.offsetsIn s) (hne : x ≠ y) :
    x + h.extentAt s x ≤ y ∨ y + h.extentAt s y ≤ x := by
  cases s with
  | arena g => exact ((hw.arena g).tiled.apart hx hy).resolve_left hne
  | large =>
    obtain ⟨b, hb, rfl⟩ := List.mem_map.1 hx
    obtain ⟨c, hc, rfl⟩ := List.mem_map.1 hy
    rw [hw.extentAt_large hb, hw.extentAt_large hc]
    exact hw.large.live.apart hb hc fun hbc => hne (hbc ▸ rfl)

/-- Every byte of a block has an address in the space of the object. -/
theorem ofAddress?_add (ha : a ∈ h.objectsIn s) {i : Nat} (hi : i < h.extent a) :
    (a + UInt64.ofNat i).toNat = a.toNat + i ∧
      Space.ofAddress? (a + UInt64.ofNat i) = some s := by
  obtain ⟨hs, hx⟩ := hw.mem_objectsIn_iff.1 ha
  have hle := hw.add_extentAt_le hx
  rw [Heap.extent_eq hs] at hi
  exact Space.toNat_add hs (by omega)

/-- No address belongs to two blocks. -/
theorem extent_apart (ha : a ∈ h.objects) (hb : b ∈ h.objects) (hab : a ≠ b) {i j : Nat}
    (hi : i < h.extent a) (hj : j < h.extent b) : a + UInt64.ofNat i ≠ b + UInt64.ofNat j := by
  intro heq
  obtain ⟨s, hs, hx⟩ := hw.mem_objects_iff.1 ha
  obtain ⟨t, ht, hy⟩ := hw.mem_objects_iff.1 hb
  obtain ⟨hia, hsa⟩ := hw.ofAddress?_add (hw.mem_objectsIn_iff.2 ⟨hs, hx⟩) hi
  obtain ⟨hjb, htb⟩ := hw.ofAddress?_add (hw.mem_objectsIn_iff.2 ⟨ht, hy⟩) hj
  -- the address tells the space, so both blocks are in the same one
  obtain rfl : s = t := Option.some.inj (hsa.symm.trans (heq ▸ htb))
  have hne : s.offset a ≠ s.offset b := fun hoff => hab (by
    rw [← Space.address_offset hs, hoff, Space.address_offset ht])
  have hapart := hw.extentAt_apart hx hy hne
  have hbase := Space.base_le_of_ofAddress? hs
  have hbase' := Space.base_le_of_ofAddress? ht
  rw [Heap.extent_eq hs] at hi
  rw [Heap.extent_eq ht] at hj
  rw [heq, hjb] at hia
  unfold Space.offset at hapart hi hj
  omega

/-! ### The bytes in use -/

theorem usedIn_eq_sum (s : Space) : h.usedIn s = ((h.objectsIn s).map h.extent).sum := by
  have hextent : (h.objectsIn s).map h.extent = (h.offsetsIn s).map (h.extentAt s) := by
    rw [objectsIn, List.map_map]
    refine List.map_congr_left fun x hx => ?_
    rw [Function.comp_apply, hw.extent_address hx]
  rw [hextent]
  cases s with
  | arena g =>
    have hsum := (hw.arena g).tiled.sum
    rw [Nat.zero_add] at hsum
    exact hsum.symm
  | large =>
    show h.large.used = ((h.large.live.map (·.offset)).map (h.extentAt .large)).sum
    rw [hw.large.used_eq, Block.total, List.map_map]
    exact congrArg List.sum (List.map_congr_left fun block hb => (hw.extentAt_large hb).symm)

/-- The bytes in use are those of the blocks. -/
theorem usedBytes_eq_sum : h.usedBytes = (h.objects.map h.extent).sum := by
  rw [usedBytes, objects, List.map_flatMap, List.flatMap_def, List.sum_flatten, List.map_map]
  exact congrArg List.sum (List.map_congr_left fun s _ => hw.usedIn_eq_sum s)

end WellFormed

theorem length_objects_eq (h : Heap) : h.objects.length = (Space.all.map h.objectCount).sum := by
  rw [objects, List.length_flatMap]
  exact congrArg List.sum (List.map_congr_left fun s _ => List.length_map _)

end Heap

end GenerationalHeap
