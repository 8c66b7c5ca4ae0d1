/-
The reference slots of objects, and what they hold.

* `TypeInfo.isReferenceSlot_iff` — the check of a field access accepts exactly the
  slots that tracing reads.
* `Heap.slots` — the slots of an object, and `Heap.Plain`, the payload bytes between
  them.
* `Heap.PointsTo`, `Heap.Reaches` — the graph of the objects.
* `Heap.NoDangling` — every reference leads to an object.
* `Heap.stores_setWord`, `Heap.stores_setPayload` — what a field write does.
-/
import GenerationalHeap.Heap.Slots
import GenerationalHeap.Proofs.Changes
import Mathlib.Logic.Relation

namespace GenerationalHeap

/-! ### Slots of a type -/

namespace TypeInfo

variable {t : TypeInfo} {payload offset : Nat}

theorem mem_referenceOffsets_fields {offsets : List UInt32} (hl : t.layout = .fields offsets) :
    offset ∈ t.referenceOffsets payload ↔
      (∃ o ∈ offsets, o.toNat = offset) ∧ offset + slotSize ≤ payload := by
  rw [referenceOffsets, hl]
  simp only [List.mem_filter, List.mem_map, decide_eq_true_eq]

theorem mem_referenceOffsets_allSlots (hl : t.layout = .allSlots) :
    offset ∈ t.referenceOffsets payload ↔ offset % slotSize = 0 ∧ offset + slotSize ≤ payload := by
  rw [referenceOffsets, hl]
  simp only [List.mem_map, List.mem_range]
  unfold slotSize
  constructor
  · rintro ⟨i, hi, rfl⟩
    omega
  · rintro ⟨hmod, hle⟩
    exact ⟨offset / 8, by omega, by omega⟩

theorem slot_of_mem (h : offset ∈ t.referenceOffsets payload) :
    offset % slotSize = 0 ∧ offset + slotSize ≤ payload := by
  cases hl : t.layout with
  | noReferences =>
    rw [referenceOffsets, hl] at h
    exact absurd h List.not_mem_nil
  | fields offsets =>
    obtain ⟨⟨o, ho, rfl⟩, hle⟩ := (mem_referenceOffsets_fields hl).1 h
    have hv := t.valid
    rw [hl] at hv
    exact ⟨hv.2 o ho, hle⟩
  | allSlots => exact (mem_referenceOffsets_allSlots hl).1 h

theorem sorted_referenceOffsets (t : TypeInfo) (payload : Nat) :
    (t.referenceOffsets payload).Pairwise (· < ·) := by
  cases hl : t.layout with
  | noReferences =>
    rw [referenceOffsets, hl]
    exact List.Pairwise.nil
  | fields offsets =>
    rw [referenceOffsets, hl]
    have hv := t.valid
    rw [hl] at hv
    refine List.Pairwise.filter _ (List.pairwise_map.2 (hv.1.imp ?_))
    intro x y hxy
    exact UInt32.lt_iff_toNat_lt.1 hxy
  | allSlots =>
    rw [referenceOffsets, hl]
    refine List.pairwise_map.2 (List.pairwise_lt_range.imp ?_)
    intro x y hxy
    unfold slotSize
    omega

/-- Two slots overlap only if they are the same. -/
theorem slots_apart {x y : Nat} (hx : x ∈ t.referenceOffsets payload)
    (hy : y ∈ t.referenceOffsets payload) : x = y ∨ x + slotSize ≤ y ∨ y + slotSize ≤ x := by
  have hxs := (slot_of_mem hx).1
  have hys := (slot_of_mem hy).1
  unfold slotSize at *
  omega

/-- Inside the payload, a layout has the slots that tracing reads. -/
theorem hasSlot_iff (hp : payload < UInt32.size)
    (hc : offset % slotSize = 0 ∧ offset + slotSize ≤ payload) :
    t.hasSlot offset = true ↔ offset ∈ t.referenceOffsets payload := by
  rw [hasSlot]
  cases hl : t.layout with
  | noReferences => simp [referenceOffsets, hl]
  | fields offsets =>
    -- the list holds 32-bit numbers, and the offset is one of them since the payload is small
    have hsmall : offset < UInt32.size := by omega
    have hback : (UInt32.ofNat offset).toNat = offset := UInt32.toNat_ofNat_of_lt' hsmall
    rw [mem_referenceOffsets_fields hl]
    simp only [List.contains_iff_mem, hc.2, and_true]
    constructor
    · exact fun hmem => ⟨_, hmem, hback⟩
    · rintro ⟨o, ho, rfl⟩
      rwa [UInt32.ofNat_toNat]
  | allSlots => simp only [mem_referenceOffsets_allSlots hl, hc, and_self]

/-- The check of a field access accepts exactly the slots that tracing reads, in every build, as
long as the end of the slot is a word. -/
theorem isReferenceSlot_of_lt (hp : payload < UInt32.size)
    (hfits : offset + slotSize < UInt64.size) (build : Build) :
    t.isReferenceSlot payload offset build =
      .ok (decide (offset ∈ t.referenceOffsets payload)) := by
  rw [isReferenceSlot]
  by_cases haligned : offset % slotSize = 0
  · rw [if_neg (not_not.2 haligned), Build.add_of_lt hfits]
    refine congrArg Except.ok (Bool.eq_iff_iff.2 ?_)
    rw [Bool.and_eq_true, decide_eq_true_eq, decide_eq_true_eq]
    constructor
    · exact fun h => (hasSlot_iff hp ⟨haligned, h.1⟩).1 h.2
    · exact fun h => ⟨(slot_of_mem h).2, (hasSlot_iff hp (slot_of_mem h)).2 h⟩
  · rw [if_pos haligned, decide_eq_false fun h => haligned (slot_of_mem h).1]

theorem isReferenceSlot_of_exact (hp : payload < UInt32.size) {build : Build}
    (hexact : build.Exact (offset + slotSize)) :
    t.isReferenceSlot payload offset build = t.isReferenceSlot payload offset := by
  rcases hexact with rfl | hfits
  · rfl
  · rw [isReferenceSlot_of_lt hp hfits, isReferenceSlot_of_lt hp hfits]

/-- A checked build panics at a slot whose end is no word. -/
theorem isReferenceSlot_of_le (haligned : offset % slotSize = 0)
    (hend : UInt64.size ≤ offset + slotSize) :
    t.isReferenceSlot payload offset = .error .panicked := by
  rw [isReferenceSlot, if_neg (not_not.2 haligned), Build.add_of_le hend]
  rfl

/-- What a checked build accepts is a slot that tracing reads. -/
theorem isReferenceSlot_iff (hp : payload < UInt32.size) :
    t.isReferenceSlot payload offset = .ok true ↔ offset ∈ t.referenceOffsets payload := by
  by_cases hfits : offset + slotSize < UInt64.size
  · rw [isReferenceSlot_of_lt hp hfits, Except.ok.injEq, decide_eq_true_eq]
  · have hout : offset ∉ t.referenceOffsets payload := fun h => by
      have hle := (slot_of_mem h).2
      unfold UInt32.size at hp
      unfold UInt64.size at hfits
      omega
    refine iff_of_false (fun h => ?_) hout
    by_cases haligned : offset % slotSize = 0
    · exact absurd ((isReferenceSlot_of_le haligned (Nat.not_lt.1 hfits)).symm.trans h) (by simp)
    · rw [isReferenceSlot, if_pos haligned] at h
      exact absurd (Except.ok.inj h) Bool.false_ne_true

end TypeInfo

/-! ### Slots of an object -/

namespace Heap

variable {h h' : Heap} {types : TypeSystem} {a b : Address}

/-- The reference slots of the object at an address; none if its type is not known. -/
def slots (h : Heap) (types : TypeSystem) (a : Address) : List Nat :=
  match types (h.header a).typeId with
  | some info => info.referenceOffsets (h.header a).payloadSize
  | none => []

/-- A payload byte that lies in no reference slot. -/
structure Plain (h : Heap) (types : TypeSystem) (a : Address) (i : Nat) : Prop where
  lt : i < (h.header a).payloadSize
  outside : ∀ o ∈ h.slots types a, i < o ∨ o + slotSize ≤ i

theorem Plain.lt_blockSize {i : Nat} (hi : h.Plain types a i) :
    headerSize + i < (h.header a).blockSize := Nat.add_lt_add_left hi.lt _

/-- The types of all objects are known. -/
def Typed (h : Heap) (types : TypeSystem) : Prop :=
  ∀ a ∈ h.objects, (types (h.header a).typeId).isSome = true

/-- An object holds a reference to another one. -/
def PointsTo (h : Heap) (types : TypeSystem) (a b : Address) : Prop :=
  b ≠ 0 ∧ ∃ o ∈ h.slots types a, h.word a o = b

/-- A chain of references leads from an object to another one. -/
def Reaches (h : Heap) (types : TypeSystem) : Address → Address → Prop :=
  Relation.ReflTransGen (h.PointsTo types)

/-- Every reference of every object leads to an object. -/
def NoDangling (h : Heap) (types : TypeSystem) : Prop :=
  ∀ a ∈ h.objects, ∀ b, h.PointsTo types a b → b ∈ h.objects

theorem slot_fits {o : Nat} (ho : o ∈ h.slots types a) : o + 8 ≤ (h.header a).payloadSize := by
  rw [slots] at ho
  split at ho
  · exact (TypeInfo.slot_of_mem ho).2
  · exact absurd ho List.not_mem_nil

theorem slots_apart {x y : Nat} (hx : x ∈ h.slots types a) (hy : y ∈ h.slots types a) :
    x = y ∨ x + 8 ≤ y ∨ y + 8 ≤ x := by
  rw [slots] at hx hy
  cases hinfo : types (h.header a).typeId with
  | some info =>
    rw [hinfo] at hx hy
    exact TypeInfo.slots_apart hx hy
  | none =>
    rw [hinfo] at hx
    exact absurd hx List.not_mem_nil

theorem slots_nodup (h : Heap) (types : TypeSystem) (a : Address) : (h.slots types a).Nodup := by
  rw [slots]
  split
  · exact (TypeInfo.sorted_referenceOffsets _ _).imp Nat.ne_of_lt
  · exact List.nodup_nil

/-- Slots are told by the type and the size in a header. -/
theorem slots_eq_of_type (htype : (h'.header b).typeId = (h.header a).typeId)
    (hsize : (h'.header b).size = (h.header a).size) : h'.slots types b = h.slots types a := by
  rw [slots, slots, htype, Header.payloadSize, Header.payloadSize, hsize]

theorem slots_congr (hid : (h'.header b).identity = (h.header a).identity) :
    h'.slots types b = h.slots types a :=
  slots_eq_of_type (congrArg Header.Identity.typeId hid) (congrArg Header.Identity.size hid)

theorem Plain.congr {i : Nat} (hid : (h'.header b).identity = (h.header a).identity)
    (hi : h.Plain types a i) : h'.Plain types b i where
  lt := by
    have hsize : (h'.header b).size = (h.header a).size := congrArg Header.Identity.size hid
    rw [Header.payloadSize, hsize]
    exact hi.lt
  outside o ho := hi.outside o (slots_congr hid ▸ ho)

theorem slotsOf_eq_ok (ht : (types (h.header a).typeId).isSome = true) :
    h.slotsOf types a = .ok (h.slots types a) := by
  obtain ⟨info, hinfo⟩ := Option.isSome_iff_exists.1 ht
  rw [slotsOf, typeOf, slots]
  simp only [hinfo]

/-- What a slot holds is null or an object. -/
theorem NoDangling.slot (hd : h.NoDangling types) (ha : a ∈ h.objects) {o : Nat}
    (ho : o ∈ h.slots types a) : h.word a o = 0 ∨ h.word a o ∈ h.objects := by
  by_cases hz : h.word a o = 0
  · exact Or.inl hz
  · exact Or.inr (hd a ha _ ⟨hz, o, ho, rfl⟩)

/-! ### Writing into a payload -/

/-- Bytes of a word, put into a slot. -/
def wordBytes (w : UInt64) : ByteArray := Word.pushWord (.emptyWithCapacity 8) w

theorem size_wordBytes (w : UInt64) : (wordBytes w).size = 8 := Word.size_pushWord _ _

theorem stores_setWord (hw : h.WellFormed) (ha : a ∈ h.objects) {o : Nat}
    (ho : o + 8 ≤ (h.header a).payloadSize) (w : UInt64) :
    Stores a (headerSize + o) (wordBytes w) h (h.setWord a o w) := by
  rw [setWord_eq_patch]
  refine stores_patch hw ha (Nat.le_add_right _ _) ?_
  rw [size_wordBytes, Header.blockSize_eq]
  omega

theorem stores_setPayload (hw : h.WellFormed) (ha : a ∈ h.objects) {o : Nat} {bytes : ByteArray}
    (ho : o + bytes.size ≤ (h.header a).payloadSize) :
    Stores a (headerSize + o) bytes h (h.setPayload a o bytes) := by
  rw [setPayload_eq_patch]
  refine stores_patch hw ha (Nat.le_add_right _ _) ?_
  rw [Header.blockSize_eq]
  omega

namespace Stores

variable {k : Nat} {bytes : ByteArray}

theorem word_of_apart (hs : Stores a k bytes h h') (hb : b ∈ h.objects) {o : Nat}
    (ho : o + 8 ≤ (h.header b).payloadSize)
    (hapart : b ≠ a ∨ headerSize + o + 8 ≤ k ∨ k + bytes.size ≤ headerSize + o) :
    h'.word b o = h.word b o := by
  refine word_congr ?_
  intro i hi
  rw [hs.byte b hb _ (Header.payload_lt ho hi), if_neg]
  rintro ⟨hba, hlo, hhi⟩
  rcases hapart with hne | hout
  · exact hne hba
  · omega

theorem slots (hs : Stores a k bytes h h') (hb : b ∈ h.objects) :
    h'.slots types b = h.slots types b :=
  slots_congr (congrArg Header.identity (hs.header b hb))

end Stores

theorem word_setWord (hw : h.WellFormed) (ha : a ∈ h.objects) {o : Nat}
    (ho : o + 8 ≤ (h.header a).payloadSize) (w : UInt64) : (h.setWord a o w).word a o = w := by
  have hs := stores_setWord hw ha ho w
  -- all eight bytes of the slot are the new ones
  rw [word_eq_bytes]
  refine (Word.littleEndian_congr ?_).trans (Word.littleEndian_byteOf w)
  intro i hi
  rw [hs.byte a ha _ (Header.payload_lt ho hi), size_wordBytes, if_pos ⟨rfl, by omega, by omega⟩,
    Nat.add_sub_cancel_left, wordBytes, Word.byte_pushWord,
    show (ByteArray.emptyWithCapacity 8).size = 0 from rfl, if_pos (by omega), Nat.sub_zero]

end Heap

end GenerationalHeap
