/-
New objects.

* `Heap.Adds` — a heap with one more object, whose payload is zero.
* `Heap.allocateSmall?_spec`, `Heap.allocateLarge_spec` — an allocation adds an object or
  leaves the heap as it was.
* `Heap.Adds.sound` — a new object refers to nothing, so that the heap stays sound and no
  other object has to be remembered.
-/
import GenerationalHeap.Allocation
import GenerationalHeap.Proofs.Sound

namespace GenerationalHeap

/-! ### Room in an arena -/

namespace Arena

variable {a : Arena} {s : Space} {new : Header}

/-- The arena with a new object on top. -/
def push (a : Arena) (new : Header) : Arena := (a.bump? new.blockSize).2.setHeader a.top new

/-- Where there is room, a block goes on top and its start is recorded. -/
theorem bump?_of_room (hroom : a.top + new.blockSize ≤ a.capacity) :
    a.bump? new.blockSize =
      (some a.top, { a with top := a.top + new.blockSize, starts := a.starts.set a.top }) := by
  rw [bump?, if_pos hroom]

section Push

variable (hw : a.WellFormed s) (hroom : a.top + new.blockSize ≤ a.capacity)
include hroom

theorem push_eq : a.push new =
    { a with
      memory := new.store a.memory a.top
      top := a.top + new.blockSize
      starts := a.starts.set a.top } := by
  rw [push, bump?_of_room hroom]
  rfl

theorem top_push : (a.push new).top = a.top + new.blockSize := by rw [push_eq hroom]

theorem starts_push : (a.push new).starts = a.starts.set a.top := by rw [push_eq hroom]

theorem memory_push : (a.push new).memory = new.store a.memory a.top := by rw [push_eq hroom]

theorem capacity_push : (a.push new).capacity = a.capacity := by
  rw [capacity, memory_push hroom, Header.size_store]
  rfl

theorem header_fits : a.top + headerSize ≤ a.memory.size :=
  Nat.le_trans (Nat.add_le_add_left new.headerSize_le _) hroom

/-- The push writes the header of the new object and no other byte. -/
theorem byte_push (i : Nat) : (a.push new).memory.byte i =
    if a.top ≤ i ∧ i < a.top + headerSize then Page.byte new.bytes (i - a.top)
    else a.memory.byte i := by
  rw [memory_push hroom, Header.byte_store new (header_fits hroom)]

/-- The header on top is the one that was stored there. -/
theorem header_push : (a.push new).header a.top = new := by
  rw [header, memory_push hroom, Header.load_store new (header_fits hroom)]

include hw

/-- The new object lies above the others, so that their headers are what they were. -/
theorem header_push_of_mem {x : Nat} (hx : x ∈ a.offsets) :
    (a.push new).header x = a.header x := by
  have hin := hw.add_sizeAt_le hx
  have hhead := a.headerSize_le_sizeAt x
  refine Header.load_congr ?_
  intro i hi
  rw [byte_push hroom, if_neg (by omega)]

/-- The blocks still follow one another without gaps, the new one last. -/
theorem tiles_push : Tiles (a.push new).sizeAt 0 (a.offsets ++ [a.top]) (a.push new).top := by
  have hself : (a.push new).sizeAt a.top = new.blockSize :=
    congrArg Header.blockSize (header_push hroom)
  have hold : Tiles (a.push new).sizeAt 0 a.offsets a.top :=
    hw.tiled.congr fun x hx => congrArg Header.blockSize (header_push_of_mem hw hroom hx)
  rw [top_push hroom]
  refine hold.append ⟨rfl, ?_, ?_⟩
  · rw [hself]
    exact new.blockSize_pos
  · rw [hself]
    rfl

theorem offsets_push : (a.push new).offsets = a.offsets ++ [a.top] :=
  offsetsFrom_eq_of_tiles (tiles_push hw hroom)

/-- The starts on record are those of the old objects and of the new one. -/
theorem isSet_push {x : Nat} (hx : x % alignment = 0) :
    (a.push new).starts.isSet x = true ↔ x ∈ a.offsets ++ [a.top] := by
  rw [starts_push hroom, StartMap.isSet_set, Bool.or_eq_true, decide_eq_true_eq, hw.isSet_iff x hx,
    List.mem_append, List.mem_singleton]
  refine or_congr_right ⟨?_, ?_⟩
  · intro hindex
    exact StartMap.eq_of_index_eq hx hw.top_mod hindex.1
  · rintro rfl
    have hlt : a.top < a.capacity :=
      Nat.lt_of_lt_of_le (Nat.lt_add_of_pos_right new.blockSize_pos) hroom
    exact ⟨rfl, Nat.lt_of_lt_of_le (StartMap.index_lt_of_lt hlt) hw.covered⟩

/-- A new object on top keeps an arena well formed. -/
theorem wellFormed_push (hmod : new.payloadSize % alignment = 0) : (a.push new).WellFormed s := by
  have hoffsets := offsets_push hw hroom
  refine ⟨?_, hoffsets ▸ tiles_push hw hroom, ?_, ?_, ?_, ?_, ?_, ?_⟩
  · rw [push_eq hroom]
    exact hw.space_eq
  · intro x hx
    rw [hoffsets, List.mem_append, List.mem_singleton] at hx
    rcases hx with hx | rfl
    · rw [header_push_of_mem hw hroom hx]
      exact hw.aligned x hx
    · rw [header_push hroom]
      exact hmod
  · intro x hx
    rw [hoffsets]
    exact isSet_push hw hroom hx
  · intro i hi
    rw [top_push hroom] at hi
    have hhead := new.headerSize_le
    rw [byte_push hroom, if_neg (by omega)]
    exact hw.zero_above i (Nat.le_trans (Nat.le_add_right _ _) hi)
  · rw [top_push hroom, capacity_push hroom]
    exact hroom
  · rw [capacity_push hroom]
    exact hw.capacity_le
  · rw [capacity_push hroom, starts_push hroom, StartMap.covered_set]
    exact hw.covered

end Push

end Arena

/-! ### A large block -/

namespace LargeSpace

variable {s s' : LargeSpace} {new : Header}

theorem setHeader_eq (s : LargeSpace) (x : Nat) (new : Header) :
    s.setHeader x new = { s with memory := new.store s.memory x } := by
  cases s
  rfl

/-- A header is stored in a block and takes no part in the bookkeeping of the blocks. -/
theorem blocks_setHeader (hs : s.Blocks) (x : Nat) (new : Header) : (s.setHeader x new).Blocks := by
  have hsize : (new.store s.memory x).size = s.top := (Header.size_store _ _ _).trans hs.size_eq
  rw [setHeader_eq]
  exact ⟨hs.live, hs.free, hs.apart, hs.live_le, hs.free_le, hsize, hs.top_le, hs.used_eq,
    ⟨hs.paged.live, hs.paged.free, hs.paged.top⟩⟩

section Occupied

variable {x : Nat} (hblocks : s.Blocks) (hs : s'.Blocks)
  (ho : Occupied s s' ⟨x, blockSizeFor new.blockSize⟩)
include hblocks ho

/-- The block that was handed out is the one new live block. -/
theorem mem_live (c : Block) :
    c ∈ s'.live ↔ c ∈ s.live ∨ c = ⟨x, blockSizeFor new.blockSize⟩ := by
  rw [ho.live, Block.mem_insert fun d hd =>
    (ho.apart d hd).symm.offset_ne (hblocks.live.2 d hd) ho.size_pos, or_comm]

include hs

theorem header_fits_block : x + headerSize ≤ s'.memory.size := by
  have hle : x + blockSizeFor new.blockSize ≤ s'.top :=
    hs.live_le _ ((mem_live hblocks ho _).2 (Or.inr rfl))
  have hfit := le_blockSizeFor new.blockSize
  have hhead := new.headerSize_le
  rw [hs.size_eq]
  omega

/-- The new block is cleared before the header of the object is stored in it. -/
theorem byte_setHeader (i : Nat) : (s'.setHeader x new).memory.byte i =
    if x ≤ i ∧ i < x + headerSize then Page.byte new.bytes (i - x)
    else if x ≤ i ∧ i < x + blockSizeFor new.blockSize then 0 else s.memory.byte i := by
  rw [setHeader_eq, Header.byte_store new (header_fits_block hblocks hs ho), ho.byte]
  rfl

/-- The bytes of the other live blocks stay. -/
theorem byte_setHeader_of_mem {c : Block} (hc : c ∈ s.live) {i : Nat} (hi : i < c.size) :
    (s'.setHeader x new).memory.byte (c.offset + i) = s.memory.byte (c.offset + i) := by
  have hapart : x + blockSizeFor new.blockSize ≤ c.offset ∨ c.offset + c.size ≤ x := ho.apart c hc
  have hb := le_blockSizeFor new.blockSize
  have hnew := new.headerSize_le
  rw [byte_setHeader hblocks hs ho, if_neg (by omega), if_neg (by omega)]

theorem header_setHeader_of_mem {c : Block} (hc : c ∈ s.live)
    (hfit : (s.header c.offset).blockSize ≤ c.size) :
    (s'.setHeader x new).header c.offset = s.header c.offset := by
  have hhead := (s.header c.offset).headerSize_le
  exact Header.load_congr fun i hi => byte_setHeader_of_mem hblocks hs ho hc (by omega)

theorem header_setHeader : (s'.setHeader x new).header x = new := by
  rw [header, setHeader_eq, Header.load_store new (header_fits_block hblocks hs ho)]

omit hs in
/-- No live block begins where the new one does. -/
theorem not_mem_offsets : x ∉ s.offsets := by
  intro hmem
  obtain ⟨c, hc, hoff⟩ := List.mem_map.1 hmem
  exact (ho.apart c hc).offset_ne ho.size_pos (hblocks.live.2 c hc) hoff.symm

omit hs in
theorem mem_offsets_setHeader {y : Nat} :
    y ∈ (s'.setHeader x new).offsets ↔ y ∈ s.offsets ∨ y = x := by
  rw [offsets, setHeader_eq, List.mem_map, offsets, List.mem_map]
  constructor
  · rintro ⟨c, hc, rfl⟩
    rcases (mem_live hblocks ho c).1 hc with hc | rfl
    · exact Or.inl ⟨c, hc, rfl⟩
    · exact Or.inr rfl
  · rintro (⟨c, hc, rfl⟩ | rfl)
    · exact ⟨c, (mem_live hblocks ho c).2 (Or.inl hc), rfl⟩
    · exact ⟨_, (mem_live hblocks ho _).2 (Or.inr rfl), rfl⟩

end Occupied

end LargeSpace

/-! ### One more object -/

namespace Heap

variable {h h' : Heap} {types : TypeSystem} {a b : Address} {new : Header} {s : Space}

/-- The heap `h'` is `h` with one more object, whose payload is zero. -/
structure Adds (a : Address) (new : Header) (h h' : Heap) : Prop where
  wellFormed : h'.WellFormed
  mem : ∀ b, b ∈ h'.objects ↔ b ∈ h.objects ∨ b = a
  fresh : a ∉ h.objects
  space : Space.ofAddress? a = some new.space
  byte : ∀ b ∈ h.objects, ∀ i < (h.header b).blockSize, h'.byte b i = h.byte b i
  header_new : h'.header a = new
  zero : ∀ i, headerSize ≤ i → i < new.blockSize → h'.byte a i = 0

/-- A new block at an offset of a space that leaves the other blocks alone. -/
theorem adds_of_block {x : Nat} (hw : h.WellFormed) (hw' : h'.WellFormed)
    (hoffsets : ∀ t y, y ∈ h'.offsetsIn t ↔ y ∈ h.offsetsIn t ∨ t = s ∧ y = x)
    (hfresh : x ∉ h.offsetsIn s)
    (hbyte : ∀ t, ∀ y ∈ h.offsetsIn t, ∀ i < h.sizeAt t y,
      (h'.memory t).byte (y + i) = (h.memory t).byte (y + i))
    (hheader : Header.load (h'.memory s) x = new)
    (hzero : ∀ i, headerSize ≤ i → i < new.blockSize → (h'.memory s).byte (x + i) = 0)
    (hspace : new.space = s) : Adds (s.address x) new h h' := by
  have hlt : x < spaceLimit := hw'.lt_spaceLimit ((hoffsets s x).2 (Or.inr ⟨rfl, rfl⟩))
  have hs := Space.ofAddress?_address (s := s) hlt
  have hx := Space.offset_address (s := s) hlt
  refine ⟨hw', ?_, ?_, hs.trans (congrArg some hspace.symm), ?_, ?_, ?_⟩
  · intro b
    rw [hw'.mem_objects_iff, hw.mem_objects_iff]
    constructor
    · rintro ⟨t, ht, hy⟩
      rcases (hoffsets t _).1 hy with hold | ⟨rfl, hnew⟩
      · exact Or.inl ⟨t, ht, hold⟩
      · exact Or.inr (by rw [← hnew, Space.address_offset ht])
    · rintro (⟨t, ht, hy⟩ | rfl)
      · exact ⟨t, ht, (hoffsets t _).2 (Or.inl hy)⟩
      · exact ⟨s, hs, (hoffsets s _).2 (Or.inr ⟨rfl, hx⟩)⟩
  · intro hmem
    obtain ⟨t, ht, hy⟩ := hw.mem_objects_iff.1 hmem
    obtain rfl : t = s := Option.some.inj (ht.symm.trans hs)
    rw [hx] at hy
    exact hfresh hy
  · intro b hb i hi
    obtain ⟨t, ht, hy⟩ := hw.mem_objects_iff.1 hb
    rw [← sizeAt_offset ht] at hi
    rw [byte_eq ht, byte_eq ht]
    exact hbyte t _ hy i hi
  · rw [header_eq hs, hx]
    exact hheader
  · intro i hlo hhi
    rw [byte_eq hs, hx]
    exact hzero i hlo hhi

namespace Adds

variable (ha : Adds a new h h')
include ha

theorem header (hw : h.WellFormed) (hb : b ∈ h.objects) : h'.header b = h.header b := by
  obtain ⟨t, ht, -⟩ := hw.mem_objects_iff.1 hb
  exact header_congr ht ht fun i hi =>
    ha.byte b hb i (Nat.lt_of_lt_of_le hi (Header.headerSize_le _))

theorem word (hb : b ∈ h.objects) {o : Nat} (ho : o + 8 ≤ (h.header b).payloadSize) :
    h'.word b o = h.word b o := by
  refine word_congr ?_
  intro k hk
  exact ha.byte b hb _ (Header.payload_lt ho hk)

/-- The old objects refer to what they referred to. -/
theorem pointsTo_iff (hw : h.WellFormed) (hb : b ∈ h.objects) {x : Address} :
    h'.PointsTo types b x ↔ h.PointsTo types b x := by
  have hheader := ha.header hw hb
  exact pointsTo_of_words (congrArg Header.typeId hheader) (congrArg Header.size hheader)
    fun o ho => ha.word hb (slot_fits ho)

/-- A new object refers to nothing. -/
theorem not_pointsTo (x : Address) : ¬h'.PointsTo types a x := by
  rintro ⟨hx, o, ho, rfl⟩
  refine hx ?_
  have hfit := slot_fits ho
  rw [ha.header_new] at hfit
  have hzero : ∀ k < 8, h'.byte a (headerSize + o + k) = 0 := by
    intro k hk
    exact ha.zero _ (by omega) (Header.payload_lt hfit hk)
  rw [word_eq_bytes, Word.littleEndian_congr hzero]
  rfl

/-- A new object keeps a heap sound and need not be remembered. -/
theorem sound (hs : h.Sound types) (ht : (types new.typeId).isSome = true)
    (hclean : new.isMarked = false ∧ new.isForwarded = false ∧ new.forwarding = 0)
    (hused : h'.usedBytes ≤ h'.maxSize) (hmax : h'.maxSize ≤ spaceLimit) :
    h'.Sound types ∧ ∀ b ∈ h'.objects, h'.HoldsYounger types b →
      b ∈ h.objects ∧ h.HoldsYounger types b := by
  have hw := hs.wellFormed
  -- every header is an old one or the new one, so each part is shown of both
  have hheader : ∀ b ∈ h'.objects,
      b ∈ h.objects ∧ h'.header b = h.header b ∨ b = a ∧ h'.header b = new := by
    intro b hb
    rcases (ha.mem b).1 hb with hb | rfl
    · exact Or.inl ⟨hb, ha.header hw hb⟩
    · exact Or.inr ⟨rfl, ha.header_new⟩
  refine ⟨⟨⟨ha.wellFormed, ?_, ?_, ?_⟩, ⟨?_, ?_, ?_⟩, hused, hmax⟩, ?_⟩
  · intro s b hb
    have hsp := (ha.wellFormed.mem_objectsIn_iff.1 hb).1
    rcases hheader b (List.mem_flatMap.2 ⟨s, s.mem_all, hb⟩) with ⟨hold, heq⟩ | ⟨rfl, heq⟩
    · obtain ⟨t, ht, hx⟩ := hw.mem_objects_iff.1 hold
      obtain rfl : t = s := Option.some.inj (ht.symm.trans hsp)
      rw [heq]
      exact hs.tagged t b (hw.mem_objectsIn_iff.2 ⟨ht, hx⟩)
    · rw [heq]
      exact Option.some.inj (ha.space.symm.trans hsp)
  · intro b hb
    rcases hheader b hb with ⟨hold, heq⟩ | ⟨-, heq⟩
    · rw [heq]
      exact hs.typed b hold
    · rw [heq]
      exact ht
  · intro b hb x hbx
    rcases hheader b hb with ⟨hold, -⟩ | ⟨rfl, -⟩
    · exact (ha.mem x).2 (Or.inl (hs.noDangling b hold x ((ha.pointsTo_iff hw hold).1 hbx)))
    · exact absurd hbx (ha.not_pointsTo x)
  · intro b hb
    rcases hheader b hb with ⟨hold, heq⟩ | ⟨-, heq⟩
    · rw [heq, hs.clean.isMarked b hold]
    · rw [heq, hclean.1]
  · intro b hb
    rcases hheader b hb with ⟨hold, heq⟩ | ⟨-, heq⟩
    · rw [heq, hs.clean.isForwarded b hold]
    · rw [heq, hclean.2.1]
  · intro b hb
    rcases hheader b hb with ⟨hold, heq⟩ | ⟨-, heq⟩
    · rw [heq, hs.clean.forwarding b hold]
    · rw [heq, hclean.2.2]
  · intro b hb hy
    obtain ⟨x, hbx, hdown⟩ := hy
    rcases hheader b hb with ⟨hold, -⟩ | ⟨rfl, -⟩
    · exact ⟨hold, x, (ha.pointsTo_iff hw hold).1 hbx, hdown⟩
    · exact absurd hbx (ha.not_pointsTo x)

end Adds

/-! ### Small objects -/

section Small

variable {nursery gen1 gen2 : Arena} {large : LargeSpace} {maxSize : Nat}
  (hw : WellFormed ⟨⟨nursery, gen1, gen2⟩, large, maxSize⟩)
  (hroom : nursery.top + new.blockSize ≤ nursery.capacity)
  (hmod : new.payloadSize % alignment = 0)
include hw hroom hmod

/-- A new object on top of the nursery keeps the heap well formed. -/
theorem wellFormed_push : WellFormed ⟨⟨nursery.push new, gen1, gen2⟩, large, maxSize⟩ where
  arena g := by
    cases g with
    | gen0 => exact Arena.wellFormed_push (hw.arena .gen0) hroom hmod
    | gen1 => exact hw.arena .gen1
    | gen2 => exact hw.arena .gen2
  large := hw.large
  large_size := hw.large_size
  large_aligned := hw.large_aligned

/-- An object on top of the nursery is one more object of the heap. -/
theorem adds_push (hspace : new.space = .arena .gen0) :
    Adds ((Space.arena .gen0).address nursery.top) new ⟨⟨nursery, gen1, gen2⟩, large, maxSize⟩
      ⟨⟨nursery.push new, gen1, gen2⟩, large, maxSize⟩ := by
  have hn : nursery.WellFormed (.arena .gen0) := hw.arena .gen0
  refine adds_of_block hw (wellFormed_push hw hroom hmod) ?_ ?_ ?_ (Arena.header_push hroom) ?_
    hspace
  · intro t y
    -- only the nursery has changed, and only above its old top
    cases t with
    | large => exact ⟨Or.inl, fun hor => hor.resolve_right fun hc => absurd hc.1 (by simp)⟩
    | arena g =>
      cases g with
      | gen0 =>
        show y ∈ (nursery.push new).offsets ↔ y ∈ nursery.offsets ∨ _
        rw [Arena.offsets_push hn hroom, List.mem_append, List.mem_singleton]
        exact or_congr_right ⟨fun hy => ⟨rfl, hy⟩, fun hy => hy.2⟩
      | gen1 => exact ⟨Or.inl, fun hor => hor.resolve_right fun hc => absurd hc.1 (by simp)⟩
      | gen2 => exact ⟨Or.inl, fun hor => hor.resolve_right fun hc => absurd hc.1 (by simp)⟩
  · intro hmem
    have hin := hn.tiled.bounds hmem
    have hpos := hn.tiled.size_pos hmem
    omega
  · intro t y hy i hi
    cases t with
    | large => rfl
    | arena g =>
      cases g with
      | gen0 =>
        have hin : y + nursery.sizeAt y ≤ nursery.top := hn.add_sizeAt_le hy
        have hi' : i < nursery.sizeAt y := hi
        show (nursery.push new).memory.byte (y + i) = nursery.memory.byte (y + i)
        rw [Arena.byte_push hroom, if_neg (by omega)]
      | gen1 => rfl
      | gen2 => rfl
  · intro i hlo hhi
    show (nursery.push new).memory.byte (nursery.top + i) = 0
    rw [Arena.byte_push hroom, if_neg (by omega)]
    exact hn.zero_above _ (Nat.le_add_right _ _)

end Small

/-- A small object is put on top of the nursery, or the heap stays as it was. -/
theorem allocateSmall?_spec (hw : h.WellFormed) (hmod : new.payloadSize % alignment = 0)
    (hspace : new.space = .arena .gen0) :
    h.allocateSmall? new = (none, h) ∨
      ∃ a h', h.allocateSmall? new = (some a, h') ∧ Adds a new h h' ∧ h'.maxSize = h.maxSize ∧
        h'.usedBytes = h.usedBytes + new.blockSize := by
  obtain ⟨⟨nursery, gen1, gen2⟩, large, maxSize⟩ := h
  by_cases hroom : nursery.top + new.blockSize ≤ nursery.capacity
  · refine Or.inr ⟨_, _, ?_, adds_push hw hroom hmod hspace, rfl, ?_⟩
    · rw [allocateSmall?]
      simp only [Arena.bump?_of_room hroom, Arena.push]
    · rw [Plan.usedBytes_eq, Plan.usedBytes_eq]
      show (nursery.push new).top + gen1.top + gen2.top + large.used =
        nursery.top + gen1.top + gen2.top + large.used + new.blockSize
      rw [Arena.top_push hroom]
      omega
  · refine Or.inl ?_
    rw [allocateSmall?]
    simp only [Arena.bump?, if_neg hroom]

/-! ### Large objects -/

section Large

variable {arenas : PerGeneration Arena} {large large' : LargeSpace} {maxSize x : Nat}
  (hw : WellFormed ⟨arenas, large, maxSize⟩) (hmod : new.payloadSize % alignment = 0)
  (hs : large'.Blocks)
  (ho : LargeSpace.Occupied large large' ⟨x, LargeSpace.blockSizeFor new.blockSize⟩)
include hw hmod hs ho

omit hmod hs ho in
/-- The object in a live block fits it. -/
theorem blockSize_le_size {c : Block} (hc : c ∈ large.live) :
    (large.header c.offset).blockSize ≤ c.size := by
  rw [hw.large_size c hc]
  exact LargeSpace.le_blockSizeFor _

/-- A large object in a new block keeps the heap well formed. -/
theorem wellFormed_setHeader : WellFormed ⟨arenas, large'.setHeader x new, maxSize⟩ := by
  have hlive : ∀ c ∈ (large'.setHeader x new).live,
      c ∈ large.live ∧ (large'.setHeader x new).header c.offset = large.header c.offset ∨
        c = ⟨x, LargeSpace.blockSizeFor new.blockSize⟩ := by
    intro c hc
    rw [LargeSpace.setHeader_eq] at hc
    rcases (LargeSpace.mem_live hw.large ho c).1 hc with hc | rfl
    · exact Or.inl ⟨hc, LargeSpace.header_setHeader_of_mem hw.large hs ho hc
        (blockSize_le_size hw hc)⟩
    · exact Or.inr rfl
  have hself := LargeSpace.header_setHeader hw.large hs ho
  refine ⟨fun g => show (arenas.get g).WellFormed (.arena g) from hw.arena g,
    LargeSpace.blocks_setHeader hs _ _, fun c hc => ?_, fun c hc => ?_⟩
  · dsimp only at hc ⊢
    rcases hlive c hc with ⟨hc, hheader⟩ | rfl
    · rw [hheader]
      exact hw.large_size c hc
    · rw [hself]
  · dsimp only at hc ⊢
    rcases hlive c hc with ⟨hc, hheader⟩ | rfl
    · rw [hheader]
      exact hw.large_aligned c hc
    · rw [hself]
      exact hmod

/-- An object in a new block of the large space is one more object of the heap. -/
theorem adds_setHeader (hspace : new.space = .large) :
    Adds (Space.large.address x) new ⟨arenas, large, maxSize⟩
      ⟨arenas, large'.setHeader x new, maxSize⟩ := by
  refine adds_of_block hw (wellFormed_setHeader hw hmod hs ho) ?_
    (LargeSpace.not_mem_offsets hw.large ho) ?_ (LargeSpace.header_setHeader hw.large hs ho) ?_
    hspace
  · intro t y
    cases t with
    | arena g =>
      show y ∈ (arenas.get g).offsets ↔ y ∈ (arenas.get g).offsets ∨ _
      exact ⟨Or.inl, fun hor => hor.resolve_right fun hc => absurd hc.1 (by simp)⟩
    | large =>
      show y ∈ (large'.setHeader x new).offsets ↔ y ∈ large.offsets ∨ _
      refine (LargeSpace.mem_offsets_setHeader hw.large ho).trans (or_congr_right ?_)
      exact ⟨fun hy => ⟨rfl, hy⟩, fun hy => hy.2⟩
  · intro t y hy i hi
    cases t with
    | arena g =>
      show (arenas.get g).memory.byte (y + i) = (arenas.get g).memory.byte (y + i)
      rfl
    | large =>
      obtain ⟨c, hc, rfl⟩ := List.mem_map.1 hy
      have hi' : i < (large.header c.offset).blockSize := hi
      show (large'.setHeader x new).memory.byte (c.offset + i) = large.memory.byte (c.offset + i)
      exact LargeSpace.byte_setHeader_of_mem hw.large hs ho hc
        (Nat.lt_of_lt_of_le hi' (blockSize_le_size hw hc))
  · intro i hlo hhi
    have hb := LargeSpace.le_blockSizeFor new.blockSize
    show (large'.setHeader x new).memory.byte (x + i) = 0
    rw [LargeSpace.byte_setHeader hw.large hs ho, if_neg (by omega), if_pos (by omega)]

end Large

/-- A large object gets a block of its own, or the heap stays as it was. -/
theorem allocateLarge_spec (hw : h.WellFormed) (hmod : new.payloadSize % alignment = 0)
    (hspace : new.space = .large) :
    (∃ e, allocateLarge new h = .error e h) ∨
      ∃ a h', allocateLarge new h = .ok a h' ∧ Adds a new h h' ∧ h'.maxSize = h.maxSize ∧
        h'.usedBytes = h.usedBytes + LargeSpace.blockSizeFor new.blockSize := by
  obtain ⟨arenas, large, maxSize⟩ := h
  cases halloc : LargeSpace.allocate new.blockSize large with
  | error e large' =>
    obtain ⟨rfl, -⟩ := hw.large.allocate_error halloc
    refine Or.inl ⟨e, ?_⟩
    rw [allocateLarge]
    simp only [halloc]
  | ok offset large' =>
    obtain ⟨hs, ho⟩ := LargeSpace.allocate_spec hw.large new.blockSize_pos halloc
    refine Or.inr ⟨_, _, ?_, adds_setHeader hw hmod hs ho hspace, rfl, ?_⟩
    · rw [allocateLarge]
      simp only [halloc]
    · have hadd : (large'.setHeader offset new).used =
          large.used + LargeSpace.blockSizeFor new.blockSize := by
        rw [LargeSpace.setHeader_eq]
        exact ho.used
      rw [Plan.usedBytes_eq, Plan.usedBytes_eq]
      show (arenas.get .gen0).top + (arenas.get .gen1).top + (arenas.get .gen2).top +
          (large'.setHeader offset new).used =
        (arenas.get .gen0).top + (arenas.get .gen1).top + (arenas.get .gen2).top + large.used + _
      omega

end Heap

end GenerationalHeap
