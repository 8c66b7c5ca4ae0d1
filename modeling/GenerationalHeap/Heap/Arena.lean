/-
Arenas: a space whose row of bytes is handed out from the bottom.

Objects stand back to back from offset `0` up to `top`, so an arena can be
walked by the sizes in its headers. Compaction slides survivors down and lowers
`top`; the bytes it gives up are zeroed, so that new payloads are zero.

* `Arena.bump?` — hands out the next block.
* `Arena.ensure` — makes room, at least doubling the capacity.
* `Arena.setTop`, `Arena.rebuildStarts` — what compaction leaves behind.
* `Arena.offsetsFrom` — the walk over the objects.
* `Arena.isObjectStart` — whether an address names an object.
-/
import GenerationalHeap.Heap.StartMap

namespace GenerationalHeap

/-- A space that is handed out from the bottom, as those of the generations are. -/
structure Arena where
  space : Space
  memory : Memory
  /-- The end of the bytes that are handed out. -/
  top : Nat
  starts : StartMap
  deriving Inhabited

namespace Arena

/-- An empty arena with a given capacity, rounded up to the alignment. -/
def empty (s : Space) (capacity : Nat) : Arena :=
  { space := s
    memory := .zeros (roundedUp alignment capacity)
    top := 0
    starts := .empty (roundedUp alignment capacity) }

/-- The bytes in use. -/
def used (a : Arena) : Nat := a.top

/-- The bytes that exist. -/
def capacity (a : Arena) : Nat := a.memory.size

/-- The bytes left to hand out. -/
def remaining (a : Arena) : Nat := a.capacity - a.top

/-- The header at an offset. -/
@[inline] def header (a : Arena) (offset : Nat) : Header := .load a.memory offset

/-- Changes the bytes of an arena. -/
@[inline] def mapMemory (f : Memory → Memory) : Arena → Arena
  | ⟨space, memory, top, starts⟩ => ⟨space, f memory, top, starts⟩

/-- Stores a header at an offset. -/
def setHeader (a : Arena) (offset : Nat) (h : Header) : Arena :=
  a.mapMemory (h.store · offset)

/-! ### Handing out -/

/-- Hands out the next `size` bytes as a block and records its start. Gives the
block's offset, or nothing if the arena is full. -/
def bump? (a : Arena) (size : Nat) : Option Nat × Arena :=
  if a.top + size ≤ a.capacity then
    let offset := a.top
    (some offset, { a with top := offset + size, starts := a.starts.set offset })
  else (none, a)

/-- Gives the arena a capacity of at least `needed` bytes. A larger capacity is
at least double the old one, as far as the address range allows. -/
def ensure (needed : Nat) : Action Arena Unit := fun a =>
  if needed ≤ a.capacity then .ok () a
  else if needed > spaceLimit then
    .error (.outOfMemory needed (spaceLimit - a.top)) a
  else
    let grown := roundedUp alignment (max needed (min (2 * a.capacity) spaceLimit))
    .ok () { a with memory := a.memory.grow grown, starts := a.starts.cover grown }

/-! ### Walking -/

/-- The offsets of the objects between `start`, where an object starts, and
the top. -/
def offsetsFrom (a : Arena) (start : Nat) : List Nat :=
  if start < a.top then start :: a.offsetsFrom (start + (a.header start).blockSize) else []
termination_by a.top - start
decreasing_by
  have := (a.header start).blockSize_pos
  omega

/-- The offsets of all objects, ascending. -/
def offsets (a : Arena) : List Nat := a.offsetsFrom 0

/-- Moves the top. Bytes that are given up become zero. The object starts stay
as they were. -/
def setTop (a : Arena) (top : Nat) : Arena :=
  { a with
    memory := if top < a.top then a.memory.fill top a.top 0 else a.memory
    top := top }

/-- Records the starts of the objects from `start` on anew, by walking them. -/
def rebuildStarts (a : Arena) (start : Nat) : Arena :=
  { a with starts := (a.offsetsFrom start).foldl StartMap.set (a.starts.clearFrom start) }

/-! ### Addresses -/

/-- Whether an address lies in the bytes in use. -/
def contains (a : Arena) (address : Address) : Bool :=
  decide (a.space.base ≤ address.toNat ∧ address.toNat < a.space.base + a.top)

/-- Whether an address names an object: a recorded start, whose header fits
the arena and carries its tag. -/
def isObjectStart (a : Arena) (address : Address) : Bool :=
  if a.contains address ∧ address.toNat % alignment = 0 then
    let offset := a.space.offset address
    let h := a.header offset
    offset + headerSize ≤ a.top ∧ a.starts.isSet offset ∧ h.payloadSize % alignment = 0
      ∧ offset + h.blockSize ≤ a.top ∧ h.space = a.space
  else false

end Arena

end GenerationalHeap
