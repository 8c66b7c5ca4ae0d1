/-
The large object space: blocks that are never moved.

* `LargeSpace.allocateIn`, `LargeSpace.allocate` — takes the lowest free block that
  is large enough and gives back what is left of it, or else takes new bytes at the top.
* `LargeSpace.freeAt` — gives a block back. It joins its free neighbours; a free
  block that reaches the top is given up altogether.
* `LargeSpace.isObjectStart`, `LargeSpace.contains` — what an address names.

Blocks are page aligned. Live and free blocks are kept in lists of ascending
offsets, at most one block for each offset.
-/
import GenerationalHeap.Object.Header

namespace GenerationalHeap

/-! ### Lists of blocks -/

/-- A range of bytes. -/
structure Block where
  offset : Nat
  size : Nat
  deriving DecidableEq

namespace Block

/-- The first offset behind a block. -/
def stop (b : Block) : Nat := b.offset + b.size

/-- Puts a block into its place in an ascending list. It replaces a block with
the same offset. -/
def insert (b : Block) : List Block → List Block
  | [] => [b]
  | c :: rest =>
    if b.offset < c.offset then b :: c :: rest
    else if b.offset = c.offset then b :: rest
    else c :: insert b rest

/-- The block at an offset. -/
def at? (offset : Nat) (blocks : List Block) : Option Block :=
  blocks.find? (·.offset == offset)

/-- The last block that starts below an offset, in an ascending list. -/
def below? (offset : Nat) (blocks : List Block) : Option Block :=
  (blocks.filter (·.offset < offset)).getLast?

/-- A list without the block at an offset. -/
def erase (offset : Nat) (blocks : List Block) : List Block :=
  blocks.filter (·.offset != offset)

/-- Takes `size` bytes from the first block that has as many. Gives their offset
and the list that is left. The rest of the block replaces an empty block at its
offset: empty blocks may lie anywhere, also inside of others. -/
def takeFit? (size : Nat) (blocks : List Block) : Option (Nat × List Block) :=
  (blocks.find? (size ≤ ·.size)).map fun b =>
    let others := erase b.offset blocks
    (b.offset,
      if size < b.size then insert ⟨b.offset + size, b.size - size⟩ others else others)

/-- Joins a free block with the free blocks that touch it. Gives the joined
block and the other blocks. -/
def join (b : Block) (blocks : List Block) : Block × List Block :=
  let (b, blocks) :=
    match below? b.offset blocks with
    | some c =>
      if c.stop = b.offset then ((⟨c.offset, c.size + b.size⟩ : Block), erase c.offset blocks)
      else (b, blocks)
    | none => (b, blocks)
  match at? b.stop blocks with
  | some c => (⟨b.offset, b.size + c.size⟩, erase c.offset blocks)
  | none => (b, blocks)

/-- The bytes in a list of blocks. -/
def total (blocks : List Block) : Nat := (blocks.map (·.size)).sum

end Block

/-! ### The space -/

/-- The alignment of large blocks. -/
def largeAlignment : Nat := 4096

/-- The large object space. -/
structure LargeSpace where
  memory : Memory
  /-- The live blocks. -/
  live : List Block
  /-- The free blocks below the top. -/
  free : List Block
  /-- The end of the highest block that is in use or free. -/
  top : Nat
  /-- The bytes in live blocks. -/
  used : Nat
  deriving Inhabited

namespace LargeSpace

/-- The space without a block. -/
def empty : LargeSpace := { memory := .zeros 0, live := [], free := [], top := 0, used := 0 }

/-- The size of the block for an object of a given size, as a natural number. -/
def blockSizeFor (size : Nat) : Nat := roundedUp largeAlignment size

/-- The size of the block for an object of a given size, as the space reckons it. -/
def blockSize (size : Nat) (build : Build := .checked) : Except Error Nat :=
  build.roundUp largeAlignment size

/-- The header at an offset. -/
def header (s : LargeSpace) (offset : Nat) : Header := .load s.memory offset

/-- Changes the bytes of the space. -/
def mapMemory (f : Memory → Memory) : LargeSpace → LargeSpace
  | ⟨memory, live, free, top, used⟩ => ⟨f memory, live, free, top, used⟩

/-- Stores a header at an offset. -/
def setHeader (s : LargeSpace) (offset : Nat) (h : Header) : LargeSpace :=
  s.mapMemory (h.store · offset)

/-! ### Allocation -/

/-- Makes a zeroed block at `offset` a live one. -/
def occupy (s : LargeSpace) (b : Block) : LargeSpace :=
  { s with
    memory := s.memory.fill b.offset b.stop 0
    live := b.insert s.live
    used := s.used + b.size }

/-- Makes a block a live one. It panics if the bytes of the block are not there, which
a range that ends before it begins is not either. -/
def claim (build : Build) (b : Block) : Action LargeSpace Nat := fun s =>
  match build.add b.offset b.size with
  | .error e => .error e s
  | .ok stop =>
    if b.offset ≤ stop ∧ stop ≤ s.memory.size then .ok b.offset (s.occupy b)
    else .error .panicked s

/-- Takes new bytes at the top. -/
def bump (build : Build) (size : Nat) : Action LargeSpace Nat := fun s =>
  match build.add s.top size with
  | .error e => .error e s
  | .ok top =>
    if top > spaceLimit then .error (.outOfMemory size (spaceLimit - s.top)) s
    else .ok s.top { s with memory := s.memory.grow top, top }

/-- Reserves a zeroed block for an object of a given size and gives its offset.
It is the lowest free block that is large enough, or else the bytes above the
top. -/
def allocateIn (build : Build) (size : Nat) : Action LargeSpace Nat := fun s =>
  match blockSize size build with
  | .error e => .error e s
  | .ok size =>
    match Block.takeFit? size s.free with
    | some (offset, left) => claim build ⟨offset, size⟩ { s with free := left }
    | none =>
      match bump build size s with
      | .ok offset s => claim build ⟨offset, size⟩ s
      | .error e s => .error e s

/-- An allocation in a checked build. -/
def allocate (size : Nat) : Action LargeSpace Nat := allocateIn .checked size

/-- Adds a block to the free ones, joined with its free neighbours. A block
that reaches the top lowers it instead. -/
def release (s : LargeSpace) (b : Block) : LargeSpace :=
  let (b, others) := b.join s.free
  if b.stop = s.top then
    { s with memory := s.memory.truncate b.offset, free := others, top := b.offset }
  else { s with free := b.insert others }

/-- Gives the live block at an offset back. The answer is its size. -/
def freeAt (offset : Nat) : Action LargeSpace Nat := fun s =>
  match Block.at? offset s.live with
  | some b =>
    .ok b.size
      ({ s with live := Block.erase offset s.live, used := s.used - b.size }.release b)
  | none => .error (.invalidObject (Space.large.address offset)) s

/-! ### Addresses and accounts -/

/-- Whether an address is the start of a live block. -/
def isObjectStart (s : LargeSpace) (address : Address) : Bool :=
  decide (Space.large.base ≤ address.toNat)
    && (Block.at? (Space.large.offset address) s.live).isSome

/-- Whether an address lies in a live block. -/
def contains (s : LargeSpace) (address : Address) : Bool :=
  let offset := Space.large.offset address
  decide (Space.large.base ≤ address.toNat)
    && match Block.below? (offset + 1) s.live with
      | some b => decide (offset < b.stop)
      | none => false

/-- The offsets of the live blocks, ascending. -/
def offsets (s : LargeSpace) : List Nat := s.live.map (·.offset)

/-- The bytes that exist, free blocks included. -/
def committed (s : LargeSpace) : Nat := s.memory.size

end LargeSpace

end GenerationalHeap
