/-
The reference slots of an object, by the descriptor of its type.

An object whose type the type system does not know makes the heap corrupt.
-/
import GenerationalHeap.Heap
import GenerationalHeap.Object.Layout

namespace GenerationalHeap

namespace Heap

/-- The descriptor of the type of the object at an address. -/
def typeOf (h : Heap) (types : TypeSystem) (a : Address) : Except Error TypeInfo :=
  let id := (h.header a).typeId
  match types id with
  | some info => .ok info
  | none => .error (.corruptHeap a (.unknownType id))

/-- The offsets of the reference slots of the object at an address. -/
def slotsOf (h : Heap) (types : TypeSystem) (a : Address) : Except Error (List Nat) :=
  match h.typeOf types a with
  | .ok info => .ok (info.referenceOffsets (h.header a).payloadSize)
  | .error e => .error e

end Heap

end GenerationalHeap
