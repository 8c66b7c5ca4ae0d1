/-
Object headers: the 32 bytes in front of every payload.

A header is four little-endian words:

* the mark word — bit 0 marked, bit 1 has a finalizer, bit 2 finalized, bit 3
  forwarded, bits 8 to 11 age, bits 12 to 15 space tag, all others unused;
* the payload size in the low half and the type number in the high half;
* the finalizer slot, zero when there is none;
* the forwarding address, which counts only while the forwarded bit is set.

Main definitions: `Header`, `Header.load` and `Header.store`, one reader and
one setter for each field of the mark word, and `Header.blockSize`.
-/
import GenerationalHeap.Build
import GenerationalHeap.Memory

namespace GenerationalHeap

/-- The size of a header in bytes. -/
def headerSize : Nat := 32

/-- Objects start and end at multiples of this. -/
def alignment : Nat := 8

/-- A size rounded up to the alignment. -/
def alignUp (size : Nat) (build : Build := .checked) : Except Error Nat :=
  build.roundUp alignment size

/-- The largest age that a header can hold. -/
def maxAge : Nat := 15

/-- The decoded header of an object. -/
structure Header where
  /-- Flags, age and space tag. -/
  markWord : UInt64
  /-- The size of the payload in bytes. -/
  size : UInt32
  typeId : TypeId
  /-- The key of the object's finalizer; zero when there is none. -/
  slot : UInt64
  /-- The object's new address while it is forwarded. -/
  forwarding : UInt64
  deriving DecidableEq, Inhabited

namespace Header

/-! ### Masks of the mark word -/

/-- The mask of the flag "marked". -/
def markedMask : UInt64 := 1

/-- The mask of the flag "has a finalizer". -/
def finalizerMask : UInt64 := (1 : UInt64) <<< 1

/-- The mask of the flag "finalized". -/
def finalizedMask : UInt64 := (1 : UInt64) <<< 2

/-- The mask of the flag "forwarded". -/
def forwardedMask : UInt64 := (1 : UInt64) <<< 3

/-- The mask of the age. -/
def ageMask : UInt64 := (15 : UInt64) <<< 8

/-- The mask of the space tag. -/
def spaceMask : UInt64 := (15 : UInt64) <<< 12

/-- Whether a flag is set. -/
@[inline] def flag (h : Header) (mask : UInt64) : Bool := h.markWord &&& mask != 0

/-- Sets or clears a flag. -/
@[inline] def setFlag (h : Header) (mask : UInt64) (on : Bool) : Header :=
  { h with markWord := if on then h.markWord ||| mask else h.markWord &&& ~~~mask }

/-! ### Flags -/

/-- Whether tracing has reached the object. -/
@[inline] def isMarked (h : Header) : Bool := h.flag markedMask

/-- Sets or clears the mark. -/
@[inline] def setMarked (h : Header) (on : Bool) : Header := h.setFlag markedMask on

/-- Whether the object wants finalization. -/
@[inline] def hasFinalizer (h : Header) : Bool := h.flag finalizerMask

/-- Says whether the object wants finalization. -/
@[inline] def setHasFinalizer (h : Header) (on : Bool) : Header := h.setFlag finalizerMask on

/-- Whether the object's finalization is over. -/
@[inline] def isFinalized (h : Header) : Bool := h.flag finalizedMask

/-- Says whether the object's finalization is over. -/
@[inline] def setFinalized (h : Header) (on : Bool) : Header := h.setFlag finalizedMask on

/-- Whether an unreachable object in this state is resurrected. -/
@[inline] def needsFinalization (h : Header) : Bool := h.hasFinalizer && !h.isFinalized

/-- Whether the forwarding address counts. -/
@[inline] def isForwarded (h : Header) : Bool := h.flag forwardedMask

/-- Forwards the object to an address. -/
@[inline] def forwardTo (h : Header) (a : Address) : Header :=
  { h with forwarding := a }.setFlag forwardedMask true

/-- Takes the forwarding address back. -/
@[inline] def clearForwarding (h : Header) : Header :=
  { h with forwarding := 0 }.setFlag forwardedMask false

/-! ### Age and space -/

/-- The number of collections of the nursery that the object survived there. -/
def age (h : Header) : Nat := ((h.markWord &&& ageMask) >>> 8).toNat

/-- Sets the age, capped at the largest one. -/
def setAge (h : Header) (age : Nat) : Header :=
  { h with
    markWord := h.markWord &&& ~~~ageMask ||| UInt64.ofNat (min age maxAge) <<< 8 }

/-- The space that the tag names. -/
@[inline] def space (h : Header) : Space := .ofTag ((h.markWord &&& spaceMask) >>> 12).toNat

/-- Tags the object with a space. -/
def setSpace (h : Header) (s : Space) : Header :=
  { h with markWord := h.markWord &&& ~~~spaceMask ||| UInt64.ofNat s.rank <<< 12 }

/-! ### Sizes -/

/-- The size of the payload in bytes. -/
@[inline] def payloadSize (h : Header) : Nat := h.size.toNat

/-- The size of header and payload together. -/
@[inline] def blockSize (h : Header) : Nat := headerSize + h.size.toNat

/-! ### Making, loading and storing -/

/-- The header of a new object: unmarked, of age zero, without a slot. -/
def fresh (typeId : TypeId) (size : UInt32) (space : Space) (hasFinalizer : Bool) : Header :=
  let blank : Header := { markWord := 0, size, typeId, slot := 0, forwarding := 0 }
  (blank.setSpace space).setHasFinalizer hasFinalizer

/-- The header in the bytes from `offset` on. -/
@[inline] def load (m : Memory) (offset : Nat) : Header :=
  let sizeAndType := m.word (offset + 8)
  { markWord := m.word offset
    size := sizeAndType.toUInt32
    typeId := ⟨(sizeAndType >>> 32).toUInt32⟩
    slot := m.word (offset + 16)
    forwarding := m.word (offset + 24) }

/-- The bytes of a header. -/
def bytes (h : Header) : ByteArray :=
  let sizeAndType := h.size.toUInt64 ||| h.typeId.index.toUInt64 <<< 32
  Word.pushWord (Word.pushWord (Word.pushWord
    (Word.pushWord (.emptyWithCapacity headerSize) h.markWord) sizeAndType)
    h.slot) h.forwarding

/-- Stores the header in the bytes from `offset` on. -/
def store (h : Header) (m : Memory) (offset : Nat) : Memory := m.overwrite offset h.bytes

theorem blockSize_pos (h : Header) : 0 < h.blockSize := by
  simp only [blockSize, headerSize]
  omega

end Header

end GenerationalHeap
