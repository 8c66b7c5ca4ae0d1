/-
The object graph as a mutator sees it: a walk that starts at some objects and
follows the reference slots.

* `ObjectView` — what the walk shows of an object.
* `Collector.references` — the objects that an object holds references to.
* `Collector.graph` — the views of all objects that are reached, nearest first.
-/
import GenerationalHeap.Collector.Mutator

namespace GenerationalHeap

/-- What a walk over the object graph shows of an object. -/
structure ObjectView where
  address : Address
  space : Space
  typeId : TypeId
  /-- The size of the payload in bytes. -/
  size : Nat
  /-- The first bytes of the payload. -/
  data : ByteArray

namespace Collector

variable {κ ω : Type}

/-- An object with at most `limit` bytes of its payload. -/
def view (limit : Nat) (a : Address) : Action (Collector κ ω) ObjectView := do
  let space ← spaceOf a
  let typeId ← typeOf a
  let size ← sizeOf a
  let data ← readData a 0 (min limit size)
  return { address := a, space, typeId, size, data }

/-- The objects in the reference slots of an object, by ascending offset. -/
def references [Host ω] (v : ObjectView) : Action (Collector κ ω) (List Address) := do
  match (← get).types v.typeId with
  | some info => (info.referenceOffsets v.size).filterMapM (readRef v.address)
  | none => return []

/-- The members of a list that are not known, each once. -/
def unknown (known : List Address) : List Address → List Address
  | [] => []
  | a :: rest => if known.contains a then unknown known rest else a :: unknown (a :: known) rest

/-- Shows queued objects and all that they reach, at most `n` objects. The queued
objects are known already. -/
def walk [Host ω] (limit : Nat) : (n : Nat) → (queue known : List Address) →
    Action (Collector κ ω) (List ObjectView)
  | 0, _, _ => return []
  | _, [], _ => return []
  | n + 1, a :: rest, known => do
    let v ← view limit a
    let new := unknown known (← references v)
    let views ← walk limit n (rest ++ new) (new ++ known)
    return v :: views

/-- Shows some objects and all that they reach, each once, nearest first. An
address that names no object makes the walk fail, so the recorded object starts
bound its steps. -/
def graph [Host ω] (limit : Nat) (objects : List Address) :
    Action (Collector κ ω) (List ObjectView) := do
  let bound := Trace.startCount (← get).heap + 1
  let starts := unknown [] objects
  walk limit bound starts starts

end Collector

end GenerationalHeap
