/-
The heap: three generation arenas and the large object space.

The heap stores bytes and knows where objects start. When to collect and where
survivors go is decided elsewhere.

* `Heap.isObject`, `Heap.check` — whether an address names an object.
* `Heap.header`, `Heap.word`, `Heap.payload` and their setters — what is stored
  at an object's address.
* `Heap.objectsIn` — the objects of a space in address order.
* `Heap.allocateSmall?`, `Heap.allocateLarge`, `Heap.growNursery` — room.
* `HoldsHeap`, `modifyHeap`, `onHeap` — a larger state that holds a heap, and
  operations on its heap.
-/
import GenerationalHeap.Heap.Arena
import GenerationalHeap.Heap.LargeSpace

namespace GenerationalHeap

/-- The heap. -/
structure Heap where
  arenas : PerGeneration Arena
  large : LargeSpace
  /-- The most bytes in use over all spaces. -/
  maxSize : Nat
  deriving Inhabited

namespace Heap

/-- A heap without objects. The older arenas start without capacity. -/
def empty (nurserySize maxSize : Nat) : Heap :=
  { arenas :=
      ⟨.empty (.arena .gen0) nurserySize, .empty (.arena .gen1) 0, .empty (.arena .gen2) 0⟩
    large := .empty
    maxSize }

/-! ### Parts -/

/-- The arena of a generation. -/
def arena (h : Heap) (g : Generation) : Arena := h.arenas.get g

/-- Changes the arena of a generation. -/
@[inline] def mapArena (g : Generation) (f : Arena → Arena) : Heap → Heap
  | ⟨arenas, large, maxSize⟩ => ⟨arenas.modify g f, large, maxSize⟩

/-- Changes the large object space. -/
@[inline] def mapLarge (f : LargeSpace → LargeSpace) : Heap → Heap
  | ⟨arenas, large, maxSize⟩ => ⟨arenas, f large, maxSize⟩

/-- The bytes of a space. -/
def memory (h : Heap) : Space → Memory
  | .arena g => (h.arena g).memory
  | .large => h.large.memory

/-- Changes the bytes of a space. -/
@[inline] def mapMemory (s : Space) (f : Memory → Memory) (h : Heap) : Heap :=
  match s with
  | .arena g => h.mapArena g (Arena.mapMemory f)
  | .large => h.mapLarge (LargeSpace.mapMemory f)

/-! ### Accounts -/

/-- The bytes in use in a space. -/
def usedIn (h : Heap) : Space → Nat
  | .arena g => (h.arena g).used
  | .large => h.large.used

/-- The bytes in use over all spaces. -/
def usedBytes (h : Heap) : Nat := (Space.all.map h.usedIn).sum

/-- The bytes that can still be allocated before the limit. -/
def headroom (h : Heap) : Nat := h.maxSize - h.usedBytes

/-! ### Objects -/

/-- Whether an address names an object. -/
def isObject (h : Heap) (a : Address) : Bool :=
  match Space.ofAddress? a with
  | some (.arena g) => (h.arena g).isObjectStart a
  | some .large => h.large.isObjectStart a
  | none => false

/-- The space of the object that an address names. -/
def check (h : Heap) (a : Address) : Except Error Space :=
  match Space.ofAddress? a with
  | some s => if h.isObject a then .ok s else .error (.invalidObject a)
  | none => .error (.invalidObject a)

/-- Reads the bytes of the space of an address, given the address's offset. -/
@[inline] def readAt {α : Type} (h : Heap) (a : Address) (read : Memory → Nat → α) : α :=
  match Space.ofAddress? a with
  | some s => read (h.memory s) (s.offset a)
  | none => read (.zeros 0) 0

/-- Changes the bytes of the space of an address, given the address's offset. -/
@[inline] def writeAt (h : Heap) (a : Address) (write : Nat → Memory → Memory) : Heap :=
  match Space.ofAddress? a with
  | some s => h.mapMemory s (write (s.offset a))
  | none => h

/-- The header of the object at an address. -/
@[inline] def header (h : Heap) (a : Address) : Header := h.readAt a Header.load

/-- Stores the header of the object at an address. -/
def setHeader (h : Heap) (a : Address) (new : Header) : Heap :=
  h.writeAt a fun offset m => new.store m offset

/-- The word at an offset from the start of the block of an object. -/
def blockWord (h : Heap) (a : Address) (offset : Nat) : UInt64 :=
  h.readAt a fun m start => m.word (start + offset)

/-- Stores a word at an offset from the start of the block of an object. -/
def setBlockWord (h : Heap) (a : Address) (offset : Nat) (w : UInt64) : Heap :=
  h.writeAt a fun start m => m.setWord (start + offset) w

/-- The payload word at `offset`. -/
def word (h : Heap) (a : Address) (offset : Nat) : UInt64 :=
  h.readAt a fun m start => m.word (start + headerSize + offset)

/-- Stores the payload word at `offset`. -/
def setWord (h : Heap) (a : Address) (offset : Nat) (w : UInt64) : Heap :=
  h.writeAt a fun start m => m.setWord (start + headerSize + offset) w

/-- The payload bytes from `offset` on. -/
def payload (h : Heap) (a : Address) (offset length : Nat) : ByteArray :=
  h.readAt a fun m start => m.slice (start + headerSize + offset) length

/-- Stores payload bytes from `offset` on. -/
def setPayload (h : Heap) (a : Address) (offset : Nat) (bytes : ByteArray) : Heap :=
  h.writeAt a fun start m => m.overwrite (start + headerSize + offset) bytes

/-- The offsets of the objects of a space, ascending. -/
def offsetsIn (h : Heap) : Space → List Nat
  | .arena g => (h.arena g).offsets
  | .large => h.large.offsets

/-- The addresses of the objects of a space, ascending. -/
def objectsIn (h : Heap) (s : Space) : List Address := (h.offsetsIn s).map s.address

/-- The number of objects of a space. -/
def objectCount (h : Heap) (s : Space) : Nat := (h.offsetsIn s).length

/-! ### Room for objects -/

/-- Puts an object with a given header into the nursery. Nothing happens if the
nursery has no room for its block. -/
def allocateSmall? (header : Header) : Heap → Option Address × Heap
  | ⟨⟨nursery, gen1, gen2⟩, large, maxSize⟩ =>
    match nursery.bump? header.blockSize with
    | (some offset, nursery) =>
      (some ((Space.arena .gen0).address offset),
        ⟨⟨nursery.setHeader offset header, gen1, gen2⟩, large, maxSize⟩)
    | (none, nursery) => (none, ⟨⟨nursery, gen1, gen2⟩, large, maxSize⟩)

/-- Puts an object with a given header into the large object space. The size in a
header has 32 bits, so that what is asked of the space is the same in every build. -/
def allocateLarge (header : Header) : Action Heap Address
  | ⟨arenas, large, maxSize⟩ =>
    match LargeSpace.allocate header.blockSize large with
    | .ok offset large =>
      .ok (Space.large.address offset) ⟨arenas, large.setHeader offset header, maxSize⟩
    | .error e large => .error e ⟨arenas, large, maxSize⟩

/-- Gives back the large object at an address. The answer is the size of its
block. -/
def freeLarge (a : Address) : Action Heap Nat
  | ⟨arenas, large, maxSize⟩ =>
    match LargeSpace.freeAt (Space.large.offset a) large with
    | .ok size large => .ok size ⟨arenas, large, maxSize⟩
    | .error e large => .error e ⟨arenas, large, maxSize⟩

/-- Gives the arena of a generation a capacity of at least `needed` bytes. -/
def ensureArena (g : Generation) (needed : Nat) : Action Heap Unit := fun h =>
  match Arena.ensure needed (h.arena g) with
  | .ok _ arena => .ok () (h.mapArena g fun _ => arena)
  | .error e arena => .error e (h.mapArena g fun _ => arena)

/-- Puts an object with a given header into the arena of a generation, which
grows if it has to. -/
def place (g : Generation) (header : Header) : Action Heap Address := do
  let offset := ((← get).arena g).used
  ensureArena g (offset + header.blockSize)
  modify (mapArena g fun a => (a.bump? header.blockSize).2.setHeader offset header)
  return (Space.arena g).address offset

/-- Makes room for a block of a given size in the nursery. The answer is the old
and the new capacity. -/
def growNursery (blockSize : Nat) : Action Heap (Nat × Nat) := do
  let old := (← get).arena .gen0
  ensureArena .gen0 (old.used + blockSize)
  return (old.capacity, ((← get).arena .gen0).capacity)

end Heap

/-! ### States that hold a heap -/

/-- A state that holds a heap. -/
class HoldsHeap (σ : Type) where
  heap : σ → Heap
  setHeap : Heap → σ → σ

/-- Changes the heap of a state. The heap is taken out meanwhile, so that its bytes
are changed in place. -/
def modifyHeap {σ : Type} [HoldsHeap σ] (f : Heap → Heap) (s : σ) : σ :=
  let h := HoldsHeap.heap s
  let s := HoldsHeap.setHeap default s
  HoldsHeap.setHeap (f h) s

/-- Runs an operation on the heap of a state. The heap is taken out meanwhile,
so that its bytes are changed in place. -/
def onHeap {σ α : Type} [HoldsHeap σ] (act : Action Heap α) : Action σ α := fun s =>
  let h := HoldsHeap.heap s
  let s := HoldsHeap.setHeap default s
  match act h with
  | .ok a h => .ok a (HoldsHeap.setHeap h s)
  | .error e h => .error e (HoldsHeap.setHeap h s)

end GenerationalHeap
