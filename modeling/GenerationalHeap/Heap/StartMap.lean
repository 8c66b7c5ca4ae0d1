/-
The set of object starts of an arena, one bit for each aligned offset.

A header cannot be told from payload bytes by its looks, so checks of an
address consult this map. It covers whole groups of 64 aligned offsets, and an
offset past them is never a member.

* `StartMap.isSet` — the view of the map as a set of offsets.
* `StartMap.set`, `StartMap.clearFrom`, `StartMap.cover` — changes, with
  `isSet_set`, `isSet_clearFrom` and `isSet_cover`.
* `StartMap.count` — the size of the set.
-/
import GenerationalHeap.Object.Header

namespace GenerationalHeap

/-- The object starts of an arena. -/
structure StartMap where
  /-- The bits, eight in a byte, the first one lowest. -/
  bits : Pages
  /-- The number of groups that the map covers. -/
  covered : Nat
  deriving Inhabited

namespace StartMap

/-- The number of offsets in a group. -/
def groupSize : Nat := 64

/-- The place of an aligned offset among all of them. -/
def index (offset : Nat) : Nat := offset / alignment

/-- The byte that holds the bit of an offset. -/
def byteOf (offset : Nat) : Nat := index offset / 8

/-- The bit of an offset, alone in its byte. -/
def bitOf (offset : Nat) : UInt8 := 1 <<< UInt8.ofNat (index offset % 8)

/-- The number of groups that cover a capacity. -/
def groupsFor (capacity : Nat) : Nat :=
  ((capacity + (alignment - 1)) / alignment + (groupSize - 1)) / groupSize

/-- The empty set, covering a capacity. -/
def empty (capacity : Nat) : StartMap := ⟨.empty, groupsFor capacity⟩

/-- Whether an object starts at an offset. -/
def isSet (m : StartMap) (offset : Nat) : Bool :=
  (m.bits.byte (byteOf offset)).toNat.testBit (index offset % 8)

/-- Covers a capacity too. Members stay members. -/
def cover : StartMap → Nat → StartMap
  | ⟨bits, covered⟩, capacity => ⟨bits, max covered (groupsFor capacity)⟩

/-- Makes a covered offset a member. -/
def set : StartMap → Nat → StartMap
  | ⟨bits, covered⟩, offset =>
    if index offset / groupSize < covered then
      let byte := bits.byte (byteOf offset)
      ⟨bits.setByte (byteOf offset) (byte ||| bitOf offset), covered⟩
    else ⟨bits, covered⟩

/-- Drops every offset from `offset` on. -/
def clearFrom : StartMap → Nat → StartMap
  | ⟨bits, covered⟩, offset =>
    let byte := bits.byte (byteOf offset)
    let bits :=
      if byte = 0 then bits
      else bits.setByte (byteOf offset) (byte &&& (bitOf offset - 1))
    ⟨bits.clear (byteOf offset + 1) bits.limit, covered⟩

/-- The number of bits that are set in a byte. -/
def bitCount (b : UInt8) : Nat :=
  let bit (k : UInt8) : UInt8 := b >>> k &&& 1
  (bit 0 + bit 1 + bit 2 + bit 3 + bit 4 + bit 5 + bit 6 + bit 7).toNat

/-- The number of members. -/
def count (m : StartMap) : Nat := m.bits.sum bitCount

/-! ### What membership shows of the operations -/

theorem toNat_bitOf (offset : Nat) : (bitOf offset).toNat = 2 ^ (index offset % 8) := by
  rw [bitOf]
  have h : index offset % 8 < 8 := Nat.mod_lt _ (by decide)
  generalize index offset % 8 = k at h
  match k, h with
  | 0, _ | 1, _ | 2, _ | 3, _ | 4, _ | 5, _ | 6, _ | 7, _ => rfl

theorem toNat_bitOf_sub_one (offset : Nat) :
    (bitOf offset - 1).toNat = 2 ^ (index offset % 8) - 1 := by
  rw [UInt8.toNat_sub_of_le, toNat_bitOf]
  · rfl
  · rw [UInt8.le_iff_toNat_le, toNat_bitOf]
    exact Nat.one_le_two_pow

theorem index_eq_iff (x y : Nat) :
    index x = index y ↔ byteOf x = byteOf y ∧ index x % 8 = index y % 8 := by
  unfold byteOf
  omega

/-- The empty set has no members. -/
theorem isSet_empty (capacity offset : Nat) : (empty capacity).isSet offset = false := by
  rw [isSet, empty, Pages.byte_empty]
  exact Nat.zero_testBit _

theorem isSet_cover (m : StartMap) (capacity offset : Nat) :
    (m.cover capacity).isSet offset = m.isSet offset := rfl

theorem isSet_set (m : StartMap) (offset x : Nat) :
    (m.set offset).isSet x =
      (m.isSet x || decide (index x = index offset ∧ index offset / groupSize < m.covered)) := by
  obtain ⟨bits, covered⟩ := m
  rw [set]
  by_cases hc : index offset / groupSize < covered
  · rw [if_pos hc, isSet, isSet, Pages.byte_setByte]
    by_cases hb : byteOf x = byteOf offset
    · rw [if_pos hb, UInt8.toNat_or, Nat.testBit_or, toNat_bitOf, Nat.testBit_two_pow, hb]
      congr 1
      apply decide_eq_decide.2
      rw [index_eq_iff]
      constructor
      · exact fun h => ⟨⟨hb, h.symm⟩, hc⟩
      · exact fun h => h.1.2.symm
    · rw [if_neg hb, decide_eq_false (fun h => hb ((index_eq_iff _ _).1 h.1).1), Bool.or_false]
  · rw [if_neg hc, decide_eq_false (fun h => hc h.2), Bool.or_false]

/-- What a byte is after the bits from that of `offset` on are dropped. -/
theorem byte_dropBits (bits : Pages) (offset i : Nat) :
    (if bits.byte (byteOf offset) = 0 then bits
      else bits.setByte (byteOf offset)
        (bits.byte (byteOf offset) &&& (bitOf offset - 1))).byte i =
      if i = byteOf offset then bits.byte i &&& (bitOf offset - 1) else bits.byte i := by
  by_cases hz : bits.byte (byteOf offset) = 0
  · rw [if_pos hz]
    split
    · rename_i hi
      rw [hi, hz, UInt8.zero_and]
    · rfl
  · rw [if_neg hz, Pages.byte_setByte]
    split
    · rename_i hi
      rw [hi]
    · rfl

theorem isSet_clearFrom (m : StartMap) (offset x : Nat) :
    (m.clearFrom offset).isSet x = (m.isSet x && decide (index x < index offset)) := by
  obtain ⟨bits, covered⟩ := m
  rw [clearFrom, isSet, isSet, Pages.byte_clear_limit, byte_dropBits]
  by_cases hb : byteOf x = byteOf offset
  · rw [if_neg (by omega), if_pos hb, UInt8.toNat_and, Nat.testBit_and, toNat_bitOf_sub_one,
      Nat.testBit_two_pow_sub_one]
    congr 1
    apply decide_eq_decide.2
    unfold byteOf at hb
    omega
  · rw [if_neg hb]
    unfold byteOf at hb ⊢
    by_cases hx : index x < index offset
    · rw [if_neg (by omega), decide_eq_true hx, Bool.and_true]
    · rw [if_pos (by omega), decide_eq_false hx, Bool.and_false]
      exact Nat.zero_testBit _

end StartMap

end GenerationalHeap
