/-
How the objects fill their spaces.

* `Arena.Tidy` — an arena whose blocks lie back to back from the bottom to the top, and that
  holds zeroes above.
* `Heap.WellFormed.not_mem_of_interior`, `Heap.WellFormed.toNat_mod`,
  `Heap.WellFormed.not_mem_of_top_le` — where no object begins.
* `Collector.Reachable.arenas_are_tiled` — between any two calls all arenas are tidy, and an
  address passes the check exactly if it is the one of an object. A store that a wrapping build
  takes for one in a slot may undo this, and `Collector.nursery_untidied_by_store` is such a store.
* `Collector.Reachable.blocks_keep_limits` — the bytes in use stay within the heap limit, and
  every block within the range of its space.
-/
import GenerationalHeap.Proofs.Accounts
import GenerationalHeap.Proofs.Extents
import GenerationalHeap.Proofs.Guarantees

namespace GenerationalHeap

/-- What the arena of a generation looks like between any two calls, to the byte. -/
structure Arena.Tidy (a : Arena) (g : Generation) : Prop where
  /-- The blocks that the walk meets lie back to back from the bottom to the top. -/
  tiled : Tiles a.sizeAt 0 a.offsets a.top
  top_le : a.top ≤ a.capacity
  aligned : ∀ x ∈ a.offsets, (a.header x).payloadSize % alignment = 0 ∧ a.sizeAt x % alignment = 0
  tag : ∀ x ∈ a.offsets, (a.header x).space = .arena g
  unmarked : ∀ x ∈ a.offsets, (a.header x).isMarked = false
  unforwarded : ∀ x ∈ a.offsets, (a.header x).isForwarded = false ∧ (a.header x).forwarding = 0
  /-- A start is recorded wherever the walk meets a block, and nowhere else. -/
  isSet_iff : ∀ x, x % alignment = 0 → (a.starts.isSet x = true ↔ x ∈ a.offsets)
  tail : ∀ i, a.top ≤ i → i < a.capacity → a.memory.byte i = 0

namespace Heap

variable {h : Heap} {types : TypeSystem} {a b : Address} {s : Space} {g : Generation}

theorem mem_objects_iff_objectsIn : a ∈ h.objects ↔ ∃ s, a ∈ h.objectsIn s := by
  rw [objects, List.mem_flatMap]
  constructor
  · rintro ⟨s, -, ha⟩
    exact ⟨s, ha⟩
  · rintro ⟨s, ha⟩
    exact ⟨s, s.mem_all, ha⟩

/-- The object whose block is at an offset of an arena. -/
theorem WellFormed.address_mem (hw : h.WellFormed) {x : Nat} (hx : x ∈ (h.arena g).offsets) :
    (Space.arena g).address x ∈ h.objectsIn (.arena g) ∧
      h.header ((Space.arena g).address x) = (h.arena g).header x :=
  ⟨List.mem_map_of_mem hx, hw.header_address (s := .arena g) hx⟩

theorem Sound.tidy (hs : h.Sound types) (g : Generation) : (h.arena g).Tidy g := by
  have ha := hs.wellFormed.arena g
  -- what is known of the headers is known of them as headers of objects
  have hobject : ∀ x ∈ (h.arena g).offsets, ∃ a ∈ h.objectsIn (.arena g), a ∈ h.objects ∧
      h.header a = (h.arena g).header x := by
    intro x hx
    obtain ⟨hin, hheader⟩ := hs.wellFormed.address_mem hx
    exact ⟨_, hin, address_mem_objects (s := .arena g) hx, hheader⟩
  refine ⟨ha.tiled, ha.top_le, fun x hx => ⟨ha.aligned x hx, ha.sizeAt_mod hx⟩, ?_, ?_, ?_,
    ha.isSet_iff, fun i hi _ => ha.zero_above i hi⟩
  · intro x hx
    obtain ⟨a, hin, -, hheader⟩ := hobject x hx
    rw [← hheader]
    exact hs.tagged _ a hin
  · intro x hx
    obtain ⟨a, -, hmem, hheader⟩ := hobject x hx
    rw [← hheader]
    exact hs.clean.isMarked a hmem
  · intro x hx
    obtain ⟨a, -, hmem, hheader⟩ := hobject x hx
    rw [← hheader]
    exact ⟨hs.clean.isForwarded a hmem, hs.clean.forwarding a hmem⟩

/-! ### Where no object begins -/

/-- The end of the highest block of a space. -/
def topOf (h : Heap) : Space → Nat
  | .arena g => (h.arena g).top
  | .large => h.large.top

namespace WellFormed

variable (hw : h.WellFormed)
include hw

theorem offset_mod {x : Nat} (hx : x ∈ h.offsetsIn s) : x % alignment = 0 := by
  cases s with
  | arena g => exact (hw.arena g).mod_eq_zero hx
  | large =>
    obtain ⟨b, hb, rfl⟩ := List.mem_map.1 hx
    have hpages : largeAlignment ∣ b.offset := (hw.large.paged.live b hb).offset
    exact Nat.mod_eq_zero_of_dvd (Nat.dvd_trans (by decide) hpages)

/-- Objects begin at multiples of the alignment. -/
theorem toNat_mod (ha : a ∈ h.objects) : a.toNat % alignment = 0 := by
  obtain ⟨s, hs, hx⟩ := hw.mem_objects_iff.1 ha
  have hoffset := hw.offset_mod hx
  have hbase := s.base_mod
  have hle := Space.base_le_of_ofAddress? hs
  have hsum : a.toNat = s.base + s.offset a := by
    rw [Space.offset, Nat.add_sub_cancel' hle]
  rw [hsum, Nat.add_mod, hbase, hoffset]
  rfl

theorem extent_pos (ha : a ∈ h.objects) : 0 < h.extent a := by
  obtain ⟨s, hs, -⟩ := hw.mem_objects_iff.1 ha
  rw [hw.extent_eq_roomFor ha hs]
  exact Nat.lt_of_lt_of_le (h.header a).blockSize_pos (s.blockSize_le_roomFor _)

/-- No object begins within the block of another one. -/
theorem not_mem_of_interior (ha : a ∈ h.objectsIn s) {i : Nat} (hpos : 0 < i)
    (hi : i < h.extent a) : a + UInt64.ofNat i ∉ h.objects := by
  intro hb
  have hmem : a ∈ h.objects := mem_objects_iff_objectsIn.2 ⟨s, ha⟩
  have hadd := (hw.ofAddress?_add ha hi).1
  have hne : a + UInt64.ofNat i ≠ a := by
    intro heq
    rw [heq] at hadd
    omega
  -- otherwise the first byte of its block would lie in both
  exact hw.extent_apart hb hmem hne (hw.extent_pos hb) hi (UInt64.add_zero _)

/-- No object begins at or above the top of its space. -/
theorem not_mem_of_top_le {x : Nat} (htop : h.topOf s ≤ x) (hx : x < spaceLimit) :
    s.address x ∉ h.objects := by
  intro ha
  obtain ⟨t, ht, hin⟩ := hw.mem_objects_iff.1 ha
  obtain rfl : t = s := Option.some.inj (ht.symm.trans (Space.ofAddress?_address hx))
  rw [Space.offset_address hx] at hin
  cases t with
  | arena g =>
    have hle := (hw.arena g).add_sizeAt_le hin
    have hpos := (hw.arena g).tiled.size_pos hin
    have hle' : (h.arena g).top ≤ x := htop
    omega
  | large =>
    obtain ⟨b, hb, rfl⟩ := List.mem_map.1 hin
    have hle := hw.large.live_le b hb
    have hpos := Block.offset_lt_stop (hw.large.live.2 b hb)
    have hle' : h.large.top ≤ b.offset := htop
    omega

end WellFormed

end Heap

namespace Collector

variable {κ : Type} {config : Config} {types : TypeRegistry} {c : Collector κ TypeRegistry}
  {a : Address}

/-! ### What the calls reject -/

/-- All calls that name an object refuse the address, and do nothing. -/
structure Refuses (a : Address) (c : Collector κ TypeRegistry) : Prop where
  sizeOf : sizeOf a c = .error (.invalidObject a) c
  typeOf : typeOf a c = .error (.invalidObject a) c
  spaceOf : spaceOf a c = .error (.invalidObject a) c
  readRef : ∀ offset, readRef a offset c = .error (.invalidObject a) c
  writeRef : ∀ offset value, writeRef a offset value c = .error (.invalidObject a) c
  /-- As the value that is stored in a slot of an object. -/
  storeRef : ∀ b ∈ c.heap.objects, ∀ offset,
    Collector.writeRef b offset (some a) c = .error (.invalidObject a) c
  readData : ∀ offset length, readData a offset length c = .error (.invalidObject a) c
  writeData : ∀ offset bytes, writeData a offset bytes c = .error (.invalidObject a) c
  registerFinalizer : ∀ callback, registerFinalizer a callback c = .error (.invalidObject a) c
  suppressFinalization : suppressFinalization a c = .error (.invalidObject a) c
  addRoot : addRoot a c = .error (.invalidObject a) c
  setRoot : ∀ id, setRoot id a c = .error (.invalidObject a) c
  createWeak : createWeak a c = .error (.invalidObject a) c

/-- Whatever is not an object is refused by all calls. -/
theorem Sound.refuses (hc : c.Sound) (ha : a ∉ c.heap.objects) : Refuses a c := by
  have hcheck := hc.checkObject_eq_error ha
  -- every call begins with the check of the object that it is about
  have hfirst : ∀ {α : Type} (rest : Space → Action (Collector κ TypeRegistry) α),
      (checkObject a >>= rest) c = .error (.invalidObject a) c := fun rest =>
    Action.bind_of_error hcheck rest
  exact
    { sizeOf := hfirst _
      typeOf := hfirst _
      spaceOf := hcheck
      readRef := fun _ => hfirst _
      writeRef := fun _ _ => hfirst _
      storeRef := fun b hb _ => by
        obtain ⟨s, hs⟩ := hc.checkObject_eq hb
        exact (Action.bind_of_ok hs _).trans (hfirst _)
      readData := fun _ _ => hfirst _
      writeData := fun _ _ => hfirst _
      registerFinalizer := fun _ => hfirst _
      suppressFinalization := hfirst _
      addRoot := hfirst _
      setRoot := fun _ => hfirst _
      createWeak := hfirst _ }

/-! ### Arenas -/

/-- Between any two calls the blocks of each arena fill it from the bottom to the top, and an
address passes the check exactly if it is the one of an object. So addresses within a block,
addresses that are not aligned and those above the top of a space are refused. -/
theorem Reachable.arenas_are_tiled (h : Reachable config types c) :
    (∀ g, (c.heap.arena g).Tidy g) ∧
    (∀ a, c.heap.isObject a = true ↔ ∃ s, a ∈ c.heap.objectsIn s) ∧
    (∀ a s, c.heap.check a = .ok s ↔ a ∈ c.heap.objectsIn s) ∧
    (∀ a, c.heap.isObject a = false →
      c.heap.check a = .error (.invalidObject a) ∧ Refuses a c) ∧
    (∀ s, ∀ a ∈ c.heap.objectsIn s, ∀ i, 0 < i → i < c.heap.extent a →
      (a + UInt64.ofNat i).toNat = a.toNat + i ∧ c.heap.isObject (a + UInt64.ofNat i) = false) ∧
    (∀ a : Address, a.toNat % alignment ≠ 0 → c.heap.isObject a = false) ∧
    ∀ s x, c.heap.topOf s ≤ x → x < spaceLimit → c.heap.isObject (s.address x) = false := by
  have hc := h.sound
  have hw := hc.heap.wellFormed
  -- the start bits and the walk over the blocks find the same objects
  have hobject : ∀ a, c.heap.isObject a = true ↔ a ∈ c.heap.objects := fun a =>
    Heap.isObject_iff hw hc.heap.tagged
  have hreject : ∀ a, c.heap.isObject a = false ↔ a ∉ c.heap.objects := fun a => by
    rw [← hobject, Bool.not_eq_true]
  refine ⟨hc.heap.tidy, ?_, ?_, ?_, ?_, ?_, ?_⟩
  · intro a
    rw [hobject, Heap.mem_objects_iff_objectsIn]
  · intro a s
    rw [Heap.check_eq_ok_iff hw hc.heap.tagged]
    constructor
    · rintro ⟨ha, hs⟩
      obtain ⟨t, ht, hx⟩ := hw.mem_objects_iff.1 ha
      obtain rfl : t = s := Option.some.inj (ht.symm.trans hs)
      exact hw.mem_objectsIn_iff.2 ⟨ht, hx⟩
    · intro ha
      exact ⟨Heap.mem_objects_iff_objectsIn.2 ⟨s, ha⟩, (hw.mem_objectsIn_iff.1 ha).1⟩
  · intro a ha
    have hno := (hreject a).1 ha
    exact ⟨hc.check_eq_error hno, hc.refuses hno⟩
  · intro s a ha i hpos hi
    exact ⟨(hw.ofAddress?_add ha hi).1, (hreject _).2 (hw.not_mem_of_interior ha hpos hi)⟩
  · intro a hmod
    exact (hreject a).2 fun ha => hmod (hw.toNat_mod ha)
  · intro s x htop hx
    exact (hreject _).2 (hw.not_mem_of_top_le htop hx)

/-- The payload of the young object of `pair` is zeroed and looks like a header, but its address
is refused, and so is the one behind the block. -/
theorem refused_of_pair : (pair.heap.arena .gen0).Tidy .gen0 ∧
    pair.heap.isObject young = true ∧
    addRoot (young + 8) pair = .error (.invalidObject (young + 8)) pair ∧
    pair.heap.isObject (young + 3) = false := by
  obtain ⟨htidy, hobject, -, hrefuse, hinterior, hmod, -⟩ := reachable_pair.arenas_are_tiled
  have hyoung : young ∈ pair.heap.objectsIn (.arena .gen0) := by decide +kernel
  have hextent : 8 < pair.heap.extent young := by decide +kernel
  have hno := (hinterior _ young hyoung 8 (by decide) hextent).2
  exact ⟨htidy .gen0, (hobject young).2 ⟨_, hyoung⟩, (hrefuse _ hno).2.addRoot,
    hmod (young + 3) (by decide)⟩

/-- A wrapping build leaves an address in the header of the young object of `pair` when it stores
a reference in a slot whose end is cut off, and the nursery is not tidy any more. -/
theorem nursery_untidied_by_store :
    (∃ u, writeRefIn .wrapping young lastOffset (some old) pair = .ok u overwritten) ∧
    0 ∈ (overwritten.heap.arena .gen0).offsets ∧
    ((overwritten.heap.arena .gen0).header 0).forwarding = old ∧
    ¬(overwritten.heap.arena .gen0).Tidy .gen0 := by
  obtain ⟨-, -, hmem, hforwarding, -⟩ := overwritten_spec
  refine ⟨writeRef_overwritten, hmem, hforwarding, ?_⟩
  intro htidy
  exact absurd (hforwarding.symm.trans (htidy.unforwarded 0 hmem).2) (by decide)

/-! ### Limits -/

/-- The bytes in use stay within the heap limit, and the block of every object within the range
of its space, where no other block is. So the address of any byte of a block names its space. -/
theorem Reachable.blocks_keep_limits (h : Reachable config types c) :
    c.heap.usedBytes ≤ config.maxHeapSize ∧
    c.heap.usedBytes = (c.heap.objects.map c.heap.extent).sum ∧
    (∀ s, ∀ a ∈ c.heap.objectsIn s, (c.heap.header a).blockSize ≤ c.heap.extent a ∧
      s.base ≤ a.toNat ∧ a.toNat + c.heap.extent a ≤ s.base + 2 ^ (32 : Nat) ∧
      ∀ i < c.heap.extent a, (a + UInt64.ofNat i).toNat = a.toNat + i ∧
        Space.ofAddress? (a + UInt64.ofNat i) = some s) ∧
    ∀ a ∈ c.heap.objects, ∀ b ∈ c.heap.objects, a ≠ b → ∀ i < c.heap.extent a,
      ∀ j < c.heap.extent b, a + UInt64.ofNat i ≠ b + UInt64.ofNat j := by
  have hc := h.sound
  have hw := hc.heap.wellFormed
  have hused := hc.heap.used_le
  rw [h.maxSize_eq] at hused
  refine ⟨hused, hw.usedBytes_eq_sum, ?_, fun a ha b hb hab i hi j hj =>
    hw.extent_apart ha hb hab hi hj⟩
  intro s a ha
  obtain ⟨hs, hx⟩ := hw.mem_objectsIn_iff.1 ha
  have hmem : a ∈ c.heap.objects := Heap.mem_objects_iff_objectsIn.2 ⟨s, ha⟩
  have hbase := Space.base_le_of_ofAddress? hs
  refine ⟨?_, hbase, ?_, fun i hi => hw.ofAddress?_add ha hi⟩
  · rw [hw.extent_eq_roomFor hmem hs]
    exact s.blockSize_le_roomFor _
  · have hle := hw.add_extentAt_le hx
    have hlimit : spaceLimit = 2 ^ (32 : Nat) := rfl
    rw [Heap.extent_eq hs]
    unfold Space.offset at *
    omega

/-- The blocks of the two objects of `pair`, one of them young and the other a large one. -/
theorem limits_of_pair : pair.heap.usedBytes ≤ 256 * 1024 * 1024 ∧
    young.toNat + pair.heap.extent young ≤ 2 * 2 ^ (32 : Nat) ∧
    old.toNat + pair.heap.extent old ≤ 5 * 2 ^ (32 : Nat) := by
  obtain ⟨hused, -, hblocks, -⟩ := reachable_pair.blocks_keep_limits
  obtain ⟨-, -, hyoung, -⟩ := hblocks (.arena .gen0) young (by decide +kernel)
  obtain ⟨-, -, hold, -⟩ := hblocks .large old (by decide +kernel)
  exact ⟨hused, hyoung, hold⟩

end Collector

end GenerationalHeap
