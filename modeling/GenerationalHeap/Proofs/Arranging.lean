/-
Compaction as an operation on lists of blocks.

An arena is known by the bytes of its blocks, from the bottom up. A compaction keeps the
marked blocks that stay, or all blocks of an arena that is not collected, and appends those
that are promoted out of the next younger arena. Only the arenas are looked at here: the
large object space may be in any state.

* `Arena.blocks`, `Arena.Packed` — the blocks of an arena, back to back and nothing else.
* `Arena.Rewritten` — what may happen to an arena between the plan and the moves.
* `Heap.withLarge` — the same arenas beside another large object space.
* `Compaction.Settled.blocks_eq` — the blocks of an arena after the moves.
* `Compaction.relocate_arranges_blocks` — plan and moves, as an operation on blocks.
-/
import GenerationalHeap.Proofs.Commuting
import GenerationalHeap.Proofs.Reclaiming
import GenerationalHeap.Proofs.Runs
import GenerationalHeap.Proofs.Transport

namespace GenerationalHeap

/-! ### The blocks of an arena -/

namespace Arena

/-- The bytes of the block at an offset. -/
def block (a : Arena) (x : Nat) : ByteArray := a.memory.slice x (a.sizeAt x)

/-- The blocks of an arena, from the bottom up. -/
def blocks (a : Arena) : List ByteArray := a.offsets.map a.block

/-- An arena holds the given blocks, back to back from its first byte on, and nothing else. -/
structure Packed (a : Arena) (rows : List ByteArray) : Prop where
  blocks : a.blocks = rows
  tiled : Tiles a.sizeAt 0 a.offsets a.top
  top : a.top = (rows.map (·.size)).sum
  isSet_iff : ∀ x, x % alignment = 0 → (a.starts.isSet x = true ↔ x ∈ a.offsets)
  zero_above : ∀ i, a.top ≤ i → a.memory.byte i = 0

/-- The headers of blocks have been written to: the blocks are where they were and as large,
with their payloads. -/
structure Readdressed (a b : Arena) : Prop where
  offsets : b.offsets = a.offsets
  sizeAt : ∀ x ∈ a.offsets, b.sizeAt x = a.sizeAt x
  payload : ∀ x ∈ a.offsets, ∀ i, headerSize ≤ i → i < a.sizeAt x →
    b.memory.byte (x + i) = a.memory.byte (x + i)

/-- Payloads of an arena have been written to: its blocks are where they were, with their
headers. -/
structure Rewritten (a b : Arena) : Prop where
  space : b.space = a.space
  top : b.top = a.top
  starts : b.starts = a.starts
  capacity : b.capacity = a.capacity
  header : ∀ x ∈ a.offsets, b.header x = a.header x
  above : ∀ i, a.top ≤ i → b.memory.byte i = a.memory.byte i

variable {a b : Arena} {s t : Space} {x y : Nat}

theorem WellFormed.size_block (h : a.WellFormed s) (hx : x ∈ a.offsets) :
    (a.block x).size = a.sizeAt x := by
  have hfit := h.add_sizeAt_le hx
  have htop : a.top ≤ a.memory.size := h.top_le
  rw [block, Memory.size_slice]
  omega

theorem WellFormed.packed (h : a.WellFormed s) : a.Packed a.blocks where
  blocks := rfl
  tiled := h.tiled
  top := by
    have hsum := h.tiled.sum
    rw [Nat.zero_add] at hsum
    rw [← hsum, Arena.blocks, List.map_map]
    exact congrArg List.sum (List.map_congr_left fun x hx => (h.size_block hx).symm)
  isSet_iff := h.isSet_iff
  zero_above := h.zero_above

/-- Blocks of the same size with the same bytes. -/
theorem WellFormed.block_eq (ha : a.WellFormed s) (hb : b.WellFormed t) (hx : x ∈ a.offsets)
    (hy : y ∈ b.offsets) (hsize : b.sizeAt y = a.sizeAt x)
    (hbyte : ∀ i < a.sizeAt x, b.memory.byte (y + i) = a.memory.byte (x + i)) :
    b.block y = a.block x := by
  refine Page.eq_of_byte ?_ ?_
  · rw [hb.size_block hy, ha.size_block hx, hsize]
  · intro i
    rw [block, block, Memory.byte_slice, Memory.byte_slice, hsize]
    by_cases hi : i < a.sizeAt x
    · rw [if_pos hi, if_pos hi, hbyte i hi]
    · rw [if_neg hi, if_neg hi]

/-- A block has the size that its first bytes tell. -/
theorem sizeAt_congr (hbyte : ∀ i < a.sizeAt x, b.memory.byte (y + i) = a.memory.byte (x + i)) :
    b.header y = a.header x ∧ b.sizeAt y = a.sizeAt x := by
  have hhead := a.headerSize_le_sizeAt x
  have hheader : b.header y = a.header x :=
    Header.load_congr fun i hi => hbyte i (Nat.lt_of_lt_of_le hi hhead)
  exact ⟨hheader, congrArg Header.blockSize hheader⟩

theorem Rewritten.refl (a : Arena) : a.Rewritten a :=
  ⟨rfl, rfl, rfl, rfl, fun _ _ => rfl, fun _ _ => rfl⟩

namespace Rewritten

variable (h : a.Rewritten b) (hw : a.WellFormed s)
include h

theorem sizeAt (hx : x ∈ a.offsets) : b.sizeAt x = a.sizeAt x :=
  congrArg Header.blockSize (h.header x hx)

include hw

theorem tiled : Tiles b.sizeAt 0 a.offsets b.top := by
  rw [h.top]
  exact hw.tiled.congr fun x hx => h.sizeAt hx

theorem offsets : b.offsets = a.offsets := offsetsFrom_eq_of_tiles (h.tiled hw)

theorem wellFormed : b.WellFormed s where
  space_eq := h.space.trans hw.space_eq
  tiled := by
    rw [h.offsets hw]
    exact h.tiled hw
  aligned x hx := by
    rw [h.offsets hw] at hx
    rw [h.header x hx]
    exact hw.aligned x hx
  isSet_iff x hx := by
    rw [h.starts, h.offsets hw]
    exact hw.isSet_iff x hx
  zero_above i hi := by
    rw [h.top] at hi
    rw [h.above i hi]
    exact hw.zero_above i hi
  top_le := by
    rw [h.top, h.capacity]
    exact hw.top_le
  capacity_le := h.capacity.trans_le hw.capacity_le
  covered := by
    rw [h.capacity, h.starts]
    exact hw.covered

end Rewritten

end Arena

/-- What keeps the payloads of a heap keeps those of its arenas. -/
theorem Heap.SamePayloads.readdressed {h h' : Heap} (hp : h.SamePayloads h') (hw : h.WellFormed)
    (g : Generation) : (h.arena g).Readdressed (h'.arena g) where
  offsets := hp.layout.offsetsIn hw (.arena g)
  sizeAt x hx := hp.layout.sizeAt (.arena g) x hx
  payload x hx i hlow hhigh := by
    have hlt := hw.lt_spaceLimit (s := .arena g) hx
    have hspace := Space.ofAddress?_address (s := .arena g) hlt
    have hoffset := Space.offset_address (s := .arena g) hlt
    have hsize : (h.header ((Space.arena g).address x)).blockSize = (h.arena g).sizeAt x := by
      rw [← Heap.sizeAt_offset hspace, hoffset]
      rfl
    have hbyte := hp.byte _ (Heap.address_mem_objects (s := .arena g) hx) i hlow (hsize ▸ hhigh)
    rwa [Heap.byte_eq hspace, Heap.byte_eq hspace, hoffset] at hbyte

/-! ### The arenas alone -/

namespace Heap

/-- The same arenas beside another large object space. -/
def withLarge (l : LargeSpace) (h : Heap) : Heap := h.mapLarge fun _ => l

variable {h h' : Heap} {g : Generation} {l : LargeSpace}

theorem arena_withLarge (l : LargeSpace) (h : Heap) (g : Generation) :
    (h.withLarge l).arena g = h.arena g := rfl

theorem wellFormed_withLarge (hw : ∀ g, (h.arena g).WellFormed (.arena g)) :
    (h.withLarge .empty).WellFormed where
  arena := hw
  large := LargeSpace.blocks_empty
  large_size _ hb := absurd hb List.not_mem_nil
  large_aligned _ hb := absurd hb List.not_mem_nil

theorem usedBytes_withLarge_le (h : Heap) : (h.withLarge .empty).usedBytes ≤ h.usedBytes := by
  rw [Plan.usedBytes_eq, Plan.usedBytes_eq]
  exact Nat.add_le_add_left (Nat.zero_le _) _

theorem ensureArena_withLarge {needed : Nat} (hok : ensureArena g needed h = .ok () h') :
    ensureArena g needed (h.withLarge l) = .ok () (h'.withLarge l) := by
  rw [ensureArena] at hok ⊢
  rw [arena_withLarge]
  cases hens : Arena.ensure needed (h.arena g) with
  | ok u a =>
    simp only [hens, EStateM.Result.ok.injEq, true_and] at hok ⊢
    rw [← hok]
    rfl
  | error e a =>
    simp only [hens] at hok
    exact absurd hok (by simp)

theorem forM_ensureArena_withLarge {needed : Generation → Nat} {gs : List Generation}
    (hok : (gs.forM fun g => ensureArena g (needed g) : Action Heap Unit) h = .ok () h') :
    (gs.forM fun g => ensureArena g (needed g) : Action Heap Unit) (h.withLarge l)
      = .ok () (h'.withLarge l) := by
  induction gs generalizing h with
  | nil =>
    obtain rfl : h = h' := by simpa using (EStateM.Result.ok.injEq .. ▸ hok : _ ∧ _).2
    rfl
  | cons g rest ih =>
    obtain ⟨u, h₁, hfirst, hrest⟩ := Action.of_bind_ok hok
    exact (Action.bind_of_ok (ensureArena_withLarge hfirst) _).trans (ih hrest)

end Heap

namespace Plan

variable {h h' : Heap} {target : Target} {l : LargeSpace}

theorem writeForwarding_withLarge (p : Plan) (h : Heap) (l : LargeSpace) :
    p.writeForwarding (h.withLarge l) = (p.writeForwarding h).withLarge l := by
  rw [writeForwarding_eq, writeForwarding_eq]
  exact List.foldl_hom (Heap.withLarge l) fun _ _ => rfl

/-- The large object space has no part in a plan. -/
theorem build_withLarge {p : Plan} (hok : build target h = .ok p h') :
    build target (h.withLarge l) = .ok p (h'.withLarge l) := by
  have hbuild : ((Generation.all.forM fun g =>
      Heap.ensureArena g ((ofHeap h target).newTop.get g) : Action Heap Unit) >>=
        fun _ => pure (ofHeap h target)) ((ofHeap h target).writeForwarding h) = .ok p h' := hok
  obtain ⟨u, h₁, hrun, hpure⟩ := Action.of_bind_ok hbuild
  have hrun' := Heap.forM_ensureArena_withLarge (l := l) hrun
  rw [← writeForwarding_withLarge] at hrun'
  obtain ⟨rfl, rfl⟩ := EStateM.Result.ok.injEq .. ▸ hpure
  exact Action.bind_of_ok hrun' fun _ => (pure (ofHeap h target) : Action Heap Plan)

end Plan

/-! ### What a plan counts -/

namespace Plan

/-- The objects of an arena that a collection reclaims. -/
def dying (h : Heap) (target : Target) (g : Generation) : List Nat :=
  if target.condemns (.arena g) then
    (h.arena g).offsets.filter fun x => !((h.arena g).header x).isMarked
  else []

theorem counts_dying (h : Heap) (target : Target) (g : Generation) :
    ((ofHeap h target).spaces.get g).deadObjects = (dying h target g).length ∧
      ((ofHeap h target).spaces.get g).deadBytes =
        ((dying h target g).map (h.arena g).sizeAt).sum := by
  rw [(dead_census h target g).1, (dead_census h target g).2, Census.ofHeap,
    PerGeneration.get_ofFn, dying]
  split
  · rw [census_dead, List.length_map, List.map_map]
    exact ⟨rfl, rfl⟩
  · exact ⟨rfl, rfl⟩

theorem total_dying (h : Heap) (target : Target) :
    (ofHeap h target).deadObjects = (Generation.all.map fun g => (dying h target g).length).sum ∧
      (ofHeap h target).deadBytes = (Generation.all.map fun g =>
        ((dying h target g).map (h.arena g).sizeAt).sum).sum := by
  rw [deadObjects, deadBytes]
  simp only [Generation.all, List.map_cons, List.map_nil, ← (counts_dying h target _).1,
    ← (counts_dying h target _).2]
  exact ⟨rfl, rfl⟩

end Plan

/-! ### The blocks after the moves -/

namespace Compaction

variable {h h' h'' h₁ h₂ : Heap} {target : Target} {g : Generation} {t : Transfer} {c : Compaction}

/-- The objects that an arena keeps, in old order: the marked ones that stay if it is
collected, and else all of them. -/
def remainers (h : Heap) (target : Target) (g : Generation) : List Nat :=
  if target.condemns (.arena g) then (h.arena g).stayers else (h.arena g).offsets

/-- The blocks that are promoted into an arena by the marks of the heap `h`, in old order and
as they are in the heap `h'`. -/
def promoted (h h' : Heap) (target : Target) : Generation → List ByteArray
  | .gen0 => []
  | .gen1 => (Plan.leaving h target .gen0).map (h'.arena .gen0).block
  | .gen2 => (Plan.leaving h target .gen1).map (h'.arena .gen1).block

theorem Ready.of_rewritten (hw : h.WellFormed) (hp : Plan.Written h target h')
    (hre : ∀ g, (h'.arena g).Rewritten (h''.arena g)) (hlarge : h''.WellFormed) :
    Ready h target h'' := by
  have hl := hp.payloads.layout
  have hw' := hl.wellFormed hw
  have hoffsets : ∀ g, (h'.arena g).offsets = (h.arena g).offsets := fun g =>
    hl.offsetsIn hw (.arena g)
  refine ⟨hlarge, ?_, ?_, ?_, ?_⟩
  · intro g
    rw [(hre g).top, hl.top]
  · intro g
    rw [(hre g).offsets (hw'.arena g), hoffsets]
  · intro g x hx
    rw [(hre g).sizeAt ((hoffsets g).symm ▸ hx)]
    exact hl.sizeAt (.arena g) x hx
  · intro g
    rw [(hre g).capacity]
    exact hp.room g

namespace Settled

variable (hs : Settled h target h' h'') (hw : h.WellFormed) (hr : Ready h target h')
include hs hw hr

/-- An object has all of its bytes at its new place. -/
theorem moved_block (ht : t ∈ (Plan.ofHeap h target).transfers) :
    t.move.dest ∈ (h''.arena t.dest).offsets ∧
      (h''.arena t.dest).header t.move.dest = (h'.arena t.source).header t.move.source ∧
      (h''.arena t.dest).block t.move.dest = (h'.arena t.source).block t.move.source := by
  obtain ⟨-, hx, -, hsize⟩ := Plan.transfer_source hw ht
  have hx' : t.move.source ∈ (h'.arena t.source).offsets := (hr.offsets t.source).symm ▸ hx
  have hy := (hs.mem_offsets_iff (g := t.dest) hw).2 (Or.inr ⟨t, ht, rfl, rfl⟩)
  have hbyte : ∀ i < (h'.arena t.source).sizeAt t.move.source,
      (h''.arena t.dest).memory.byte (t.move.dest + i) =
        (h'.arena t.source).memory.byte (t.move.source + i) := by
    intro i hi
    rw [hr.sizeAt _ _ hx, ← hsize] at hi
    exact hs.moved t ht i hi
  obtain ⟨hheader, hsizeAt⟩ := Arena.sizeAt_congr hbyte
  exact ⟨hy, hheader, (hr.wellFormed.arena _).block_eq (hs.wellFormed.arena _) hx' hy hsizeAt hbyte⟩

theorem kept_block (hc : target.condemns (.arena g) = false) {x : Nat}
    (hx : x ∈ (h.arena g).offsets) : (h''.arena g).block x = (h'.arena g).block x := by
  have hx' : x ∈ (h'.arena g).offsets := (hr.offsets g).symm ▸ hx
  have hfit := (hr.wellFormed.arena g).add_sizeAt_le hx'
  have hbyte : ∀ i < (h'.arena g).sizeAt x,
      (h''.arena g).memory.byte (x + i) = (h'.arena g).memory.byte (x + i) := fun i hi =>
    hs.stayed g hc _ (by omega)
  exact (hr.wellFormed.arena g).block_eq (hs.wellFormed.arena g) hx'
    ((hs.mem_offsets_iff hw).2 (Or.inl ⟨hc, hx⟩)) (Arena.sizeAt_congr hbyte).2 hbyte

/-- The blocks at the new places of objects are those at their old places. -/
theorem map_block {k : Generation} {offsets : List Nat} {start : Nat}
    (hmoves : ∀ m ∈ Plan.layOut start (offsets.map (h.arena k).survivor),
      ⟨k, g, m⟩ ∈ (Plan.ofHeap h target).transfers) :
    ((Plan.layOut start (offsets.map (h.arena k).survivor)).map (·.dest)).map
        (h''.arena g).block = offsets.map (h'.arena k).block := by
  have hsources := Plan.map_source_layOut start (offsets.map (h.arena k).survivor)
  have hoffsets : (offsets.map (h.arena k).survivor).map (·.offset) = offsets := by
    rw [List.map_map]
    exact List.map_id _
  calc ((Plan.layOut start (offsets.map (h.arena k).survivor)).map (·.dest)).map
        (h''.arena g).block
      = (Plan.layOut start (offsets.map (h.arena k).survivor)).map
          fun m => (h'.arena k).block m.source := by
        rw [List.map_map]
        exact List.map_congr_left fun m hm => (hs.moved_block hw hr (hmoves m hm)).2.2
    _ = ((Plan.layOut start (offsets.map (h.arena k).survivor)).map (·.source)).map
          (h'.arena k).block := by
        rw [List.map_map]
        rfl
    _ = offsets.map (h'.arena k).block := by rw [hsources, hoffsets]

theorem map_block_stays : (((Plan.ofHeap h target).spaces.get g).stays.map (·.dest)).map
    (h''.arena g).block = (Plan.staying h target g).map (h'.arena g).block := by
  have hmoves : ∀ m ∈ ((Plan.ofHeap h target).spaces.get g).stays,
      ⟨g, g, m⟩ ∈ (Plan.ofHeap h target).transfers := fun m hm =>
    (Plan.mem_transfers _).2 (Or.inl ⟨rfl, hm⟩)
  rw [Plan.stays_eq] at hmoves ⊢
  exact hs.map_block hw hr hmoves

theorem map_block_promotions {k : Generation} (hk : k.older = g) :
    (((Plan.ofHeap h target).spaces.get k).promotions.map (·.dest)).map (h''.arena g).block =
      (Plan.leaving h target k).map (h'.arena k).block := by
  have hmoves : ∀ m ∈ ((Plan.ofHeap h target).spaces.get k).promotions,
      ⟨k, g, m⟩ ∈ (Plan.ofHeap h target).transfers := fun m hm =>
    (Plan.mem_transfers _).2 (Or.inr ⟨hk.symm, hm⟩)
  rw [Plan.promotions_eq] at hmoves ⊢
  exact hs.map_block hw hr hmoves

/-- **Compaction is an operation on blocks**: an arena holds the blocks that it keeps, and
then those that are promoted into it, all in old order. -/
theorem blocks_eq (g : Generation) : (h''.arena g).blocks =
    (remainers h target g).map (h'.arena g).block ++ promoted h h' target g := by
  have harrive : ((Plan.ofHeap h target).arrivals g |>.map (·.dest)).map (h''.arena g).block =
      promoted h h' target g := by
    cases g with
    | gen0 => rfl
    | gen1 => exact hs.map_block_promotions (k := .gen0) hw hr rfl
    | gen2 => exact hs.map_block_promotions (k := .gen1) hw hr rfl
  rw [Arena.blocks, hs.offsets, newOffsets, List.map_append, List.map_append, harrive,
    hs.map_block_stays hw hr, ← List.append_assoc]
  congr 1
  -- either no object stays in place, or none slides
  rw [keptOffsets, Plan.staying, remainers]
  by_cases hc : target.condemns (.arena g) = true
  · rw [if_pos hc, if_pos hc, if_pos hc]
    rfl
  · rw [if_neg hc, if_neg hc, if_neg hc, List.map_nil, List.append_nil]
    exact List.map_congr_left fun x hx => hs.kept_block hw hr (by simpa using hc) hx

end Settled

/-- The moves look at the arenas alone. -/
theorem arena_relocate_withLarge {l : LargeSpace} (hw : h.WellFormed)
    (hplan : c.plan = Plan.ofHeap h target) (h' : Heap) (g : Generation) :
    (c.relocate (h'.withLarge l)).arena g = (c.relocate h').arena g := by
  rw [(arena_relocate_ofHeap hw hplan _ g).1, (arena_relocate_ofHeap hw hplan _ g).1]
  rfl

/-- Where the transfer of a marked object ends. -/
theorem exists_transfer (hc : target.condemns (.arena g) = true) {x : Nat}
    (hx : x ∈ (h.arena g).offsets) (hm : ((h.arena g).header x).isMarked = true) :
    ∃ m, ⟨g, if (h.arena g).leaves x then g.older else g, m⟩ ∈ (Plan.ofHeap h target).transfers ∧
      m.source = x := by
  have hmoves : ∀ (start : Nat) (offsets : List Nat), x ∈ offsets →
      ∃ m ∈ Plan.layOut start (offsets.map (h.arena g).survivor), m.source = x := by
    intro start offsets hx
    have hmem : x ∈ (Plan.layOut start (offsets.map (h.arena g).survivor)).map (·.source) := by
      rw [Plan.map_source_layOut, List.map_map]
      exact List.mem_map.2 ⟨x, hx, rfl⟩
    exact List.mem_map.1 hmem
  by_cases hl : (h.arena g).leaves x = true
  · obtain ⟨m, hm, hsource⟩ := hmoves ((Plan.ofHeap h target).incomingStart.get g.older) _
      (Plan.mem_leaving.2 ⟨hc, hx, hm, hl⟩)
    rw [← Plan.promotions_eq] at hm
    rw [if_pos hl]
    exact ⟨m, (Plan.mem_transfers _).2 (Or.inr ⟨rfl, hm⟩), hsource⟩
  · obtain ⟨m, hm, hsource⟩ := hmoves 0 _
      (Plan.mem_staying.2 ⟨hc, hx, hm, by simpa using hl⟩)
    rw [← Plan.stays_eq] at hm
    rw [if_neg hl]
    exact ⟨m, (Plan.mem_transfers _).2 (Or.inl ⟨rfl, hm⟩), hsource⟩

/-- The header of an object that moves, once the plan is made. -/
theorem header_source (hw : h.WellFormed) (hp : Plan.Written h target h')
    (ht : t ∈ (Plan.ofHeap h target).transfers) :
    (h'.arena t.source).header t.move.source =
      Plan.forwarded (.arena t.source) (h.header t.old) t.dest t.move.dest := by
  rw [← hp.moving t ht, Heap.header_eq (Plan.ofAddress?_old hw ht), Plan.offset_old hw ht]
  rfl

/-- **A compaction rearranges blocks.** A plan is made without fail, whatever is marked, and
counts the objects that are reclaimed. After the moves an arena holds the blocks that it
keeps, and then those that are promoted into it, all in old order, back to back and with
nothing above. Every object that moves is where its forwarding word says, with all of its
bytes and the tag of its arena. Between plan and moves the payloads may be written to. -/
theorem relocate_arranges_blocks (hw : ∀ g, (h.arena g).WellFormed (.arena g))
    (hused : h.usedBytes ≤ spaceLimit) (target : Target) :
    ∃ p h₁, Plan.build target h = .ok p h₁ ∧
      (∀ g, (h.arena g).Readdressed (h₁.arena g)) ∧
      (∀ g, (p.spaces.get g).deadObjects = (Plan.dying h target g).length ∧
        (p.spaces.get g).deadBytes = ((Plan.dying h target g).map (h.arena g).sizeAt).sum) ∧
      p.deadObjects = (Generation.all.map fun g => (Plan.dying h target g).length).sum ∧
      p.deadBytes = (Generation.all.map fun g =>
        ((Plan.dying h target g).map (h.arena g).sizeAt).sum).sum ∧
      ∀ (c : Compaction) (h₂ : Heap), c.plan = p →
        (∀ g, (h₁.arena g).Rewritten (h₂.arena g)) →
        (∀ g, ((c.relocate h₂).arena g).Packed
          ((remainers h target g).map (h₂.arena g).block ++ promoted h h₂ target g)) ∧
        (∀ g, target.condemns (.arena g) = false →
          (h.arena g).offsets <+: ((c.relocate h₂).arena g).offsets) ∧
        ∀ g, target.condemns (.arena g) = true → ∀ x ∈ (h.arena g).offsets,
          ((h.arena g).header x).isMarked = true →
          ∃ k y, k = (if (h.arena g).leaves x then g.older else g) ∧
            ((h₁.arena g).header x).isForwarded = true ∧
            ((h₁.arena g).header x).forwarding = (Space.arena k).address y ∧
            y ∈ ((c.relocate h₂).arena k).offsets ∧
            ((c.relocate h₂).arena k).block y = (h₂.arena g).block x ∧
            (((c.relocate h₂).arena k).header y).space = .arena k := by
  -- all of this is about the arenas, so the large object space may as well be empty
  have hw₀ := Heap.wellFormed_withLarge hw
  obtain ⟨h₁, hbuild, hwritten⟩ := Plan.build_spec hw₀
    (Nat.le_trans h.usedBytes_withLarge_le hused) target
  have hcounts := Plan.total_dying h target
  have hbuild' := Plan.build_withLarge (l := h.large) hbuild
  refine ⟨Plan.ofHeap h target, h₁.withLarge h.large, hbuild',
    hwritten.payloads.readdressed hw₀, Plan.counts_dying h target, hcounts.1, hcounts.2, ?_⟩
  intro c h₂ hplan hre
  have hw₁ : h₁.WellFormed := hwritten.payloads.layout.wellFormed hw₀
  have hw₂ : (h₂.withLarge .empty).WellFormed :=
    Heap.wellFormed_withLarge fun g => (hre g).wellFormed (hw₁.arena g)
  have hready : Ready (h.withLarge .empty) target (h₂.withLarge .empty) :=
    Ready.of_rewritten hw₀ hwritten hre hw₂
  have hsettled : Settled (h.withLarge .empty) target (h₂.withLarge .empty)
      (c.relocate (h₂.withLarge .empty)) := relocate_spec hw₀ hready hplan
  simp only [← arena_relocate_withLarge (l := .empty) hw₀ hplan h₂]
  refine ⟨?_, ?_, ?_⟩
  · intro g
    have hpacked := (hsettled.wellFormed.arena g).packed
    rwa [hsettled.blocks_eq hw₀ hready g] at hpacked
  · intro g hc
    rw [hsettled.offsets, keptOffsets, if_neg (by rw [hc]; decide)]
    exact List.prefix_append _ _
  · intro g hc x hx hm
    obtain ⟨m, ht, rfl⟩ := exists_transfer hc hx hm
    obtain ⟨hy, hheader, hblock⟩ := hsettled.moved_block hw₀ hready ht
    have hforwarded := header_source hw₀ hwritten ht
    have hsame : (h₂.arena g).header m.source = (h₁.arena g).header m.source :=
      (hre g).header _ ((hwritten.payloads.readdressed hw₀ g).offsets ▸ hx)
    refine ⟨_, m.dest, rfl, ?_, ?_, hy, hblock, ?_⟩
    · exact (congrArg Header.isForwarded hforwarded).trans (Header.isForwarded_forwarded _ _ _ _)
    · exact congrArg Header.forwarding hforwarded
    · exact (congrArg Header.space (hheader.trans (hsame.trans hforwarded))).trans
        (Header.space_forwarded _ _ _ _)

/-! ### An instance -/

namespace Sample

/-- The header of an object that is dead. -/
def unmarked : Header := .fresh ⟨0⟩ 16 (.arena .gen0) false

/-- The header of an object that stays. -/
def marked : Header := (Header.fresh ⟨0⟩ 24 (.arena .gen0) false).setMarked true

/-- The header of an object that is promoted. -/
def aged : Header := ((Header.fresh ⟨0⟩ 8 (.arena .gen0) false).setMarked true).setAge 1

/-- A nursery with the three objects. -/
def nursery : Arena := (((Arena.empty (.arena .gen0) 256).push unmarked).push marked).push aged

/-- A heap with that nursery. -/
def heap : Heap :=
  { Heap.empty 256 4096 with
    arenas := ⟨nursery, .empty (.arena .gen1) 0, .empty (.arena .gen2) 0⟩ }

theorem push_spec {a : Arena} {s : Space} {offsets : List Nat}
    (h : a.WellFormed s ∧ a.offsets = offsets) (new : Header)
    (hroom : a.top + new.blockSize ≤ a.capacity) (hmod : new.payloadSize % alignment = 0) :
    (a.push new).WellFormed s ∧ (a.push new).offsets = offsets ++ [a.top] :=
  ⟨Arena.wellFormed_push h.1 hroom hmod, h.2 ▸ Arena.offsets_push h.1 hroom⟩

theorem nursery_spec : nursery.WellFormed (.arena .gen0) ∧ nursery.offsets = [0, 48, 104] := by
  have hempty : (Arena.empty (.arena .gen0) 256).WellFormed (.arena .gen0) ∧
      (Arena.empty (.arena .gen0) 256).offsets = [] :=
    ⟨Arena.wellFormed_empty (by decide), Arena.offsets_empty _ _⟩
  have hfirst := push_spec hempty unmarked (by decide) (by decide)
  have hsecond := push_spec hfirst marked (by decide) (by decide)
  have hthird := push_spec hsecond aged (by decide) (by decide)
  exact ⟨hthird.1, hthird.2.trans (by decide +kernel)⟩

theorem wellFormed_heap (g : Generation) : (heap.arena g).WellFormed (.arena g) := by
  cases g with
  | gen0 => exact nursery_spec.1
  | gen1 => exact Arena.wellFormed_empty (Nat.zero_le _)
  | gen2 => exact Arena.wellFormed_empty (Nat.zero_le _)

/-- The objects of the nursery by what becomes of them. -/
theorem fates : nursery.offsets.filter (fun x => !(nursery.header x).isMarked) = [0] ∧
    nursery.stayers = [48] ∧ nursery.leavers = [104] := by
  rw [Arena.stayers, Arena.leavers, nursery_spec.2]
  decide +kernel

/-- The block that is dead is gone, and the other two are where they belong. -/
theorem blocks_of_sample : ∃ p h₁, Plan.build .gen0 heap = .ok p h₁ ∧
    (p.spaces.get .gen0).deadObjects = 1 ∧
    ((relocate ⟨p, []⟩ h₁).arena .gen0).Packed [(h₁.arena .gen0).block 48] ∧
    ((relocate ⟨p, []⟩ h₁).arena .gen1).Packed [(h₁.arena .gen0).block 104] := by
  have hused : heap.usedBytes ≤ spaceLimit := by decide
  obtain ⟨hdead, hstay, hleave⟩ := fates
  obtain ⟨p, h₁, hbuild, -, hcounts, -, -, hmoves⟩ :=
    relocate_arranges_blocks wellFormed_heap hused .gen0
  obtain ⟨hpacked, -⟩ := hmoves ⟨p, []⟩ h₁ rfl fun g => Arena.Rewritten.refl _
  have hdying : Plan.dying heap .gen0 .gen0 = [0] := hdead
  have hyoung : remainers heap .gen0 .gen0 = [48] := hstay
  have hpromoted : Plan.leaving heap .gen0 .gen0 = [104] := hleave
  have hold : remainers heap .gen0 .gen1 = [] := Arena.offsets_empty _ _
  have hyoung' := hpacked .gen0
  have hold' := hpacked .gen1
  rw [hyoung, promoted] at hyoung'
  rw [hold, promoted, hpromoted] at hold'
  refine ⟨p, h₁, hbuild, ?_, hyoung', hold'⟩
  rw [(hcounts .gen0).1, hdying]
  rfl

end Sample

end Compaction

end GenerationalHeap
