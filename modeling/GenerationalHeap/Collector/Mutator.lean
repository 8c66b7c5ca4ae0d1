/-
The calls of a mutator: objects, fields, handles and finalizers.

Every call that is given the address of an object checks it first. A call that
fails leaves the heap and the tables as they were, but for what collections
that ran for an allocation did.

* `Collector.allocateObjectIn`, `Collector.allocateObject`, `Collector.collect`
* `Collector.writeRefIn`, `Collector.writeRef`, `Collector.readRefIn`,
  `Collector.readRef` — reference slots.
* `Collector.writeData`, `Collector.readData` — plain bytes. A write must not
  touch a reference slot.
* `Collector.registerFinalizer`, `Collector.suppressFinalization`
* `Collector.addRoot`, `Collector.createWeak`, `Collector.addProvider` and the
  other calls on handles.

Design notes: a size or an offset that is given may be so large that sums with it are
no words. Of a call that reckons with it before it has tested it there is one form for
every build, and one for checked builds.
-/
import GenerationalHeap.Collector.Cycle

namespace GenerationalHeap

namespace Collector

variable {κ ω : Type}

/-- The answer of a check that changes nothing. -/
def ask {α : Type} (check : Collector κ ω → Except Error α) : Action (Collector κ ω) α :=
  fun c =>
    match check c with
    | .ok a => .ok a c
    | .error e => .error e c

/-- Checks that an address names an object. The answer is its space. -/
def checkObject (a : Address) : Action (Collector κ ω) Space := ask fun c => c.heap.check a

/-! ### Objects -/

/-- Runs a collection that was asked for. -/
def collect [Host ω] (target : Target) : Action (Collector κ ω) Report :=
  collectFor target .explicit

/-- The collector as the owner of its heap. -/
def owner [Host ω] : Owner (Collector κ ω) where
  collect target reason := discard (collectFor target reason)
  nurseryGrown old new c := c.emit (.heapGrowth (Space.arena .gen0).name old new)

/-- What is noted when an allocation fails. -/
def noteFailure (e : Error) (c : Collector κ ω) : Collector κ ω :=
  match e with
  | .outOfMemory requested _ =>
    { c with statistics := c.statistics.recordFailure }.emit
      (.allocationFailure requested c.heap.usedBytes c.heap.maxSize)
  | _ => c

/-- Allocates a zeroed object, collecting and growing as needed. -/
def allocateObjectIn [Host ω] (build : Build) (typeId : TypeId) (size : Nat)
    (hasFinalizer : Bool) : Action (Collector κ ω) Address := do
  let r ← ask fun c => Request.prepare c.config c.types typeId size hasFinalizer build
  fun c =>
    match allocate owner r c.config c with
    | .ok a c => .ok a { c with statistics := c.statistics.recordAllocation r.blockSize }
    | .error e c => .error e (noteFailure e c)

/-- An allocation in a checked build. -/
abbrev allocateObject [Host ω] (typeId : TypeId) (size : Nat) (hasFinalizer : Bool) :
    Action (Collector κ ω) Address := allocateObjectIn .checked typeId size hasFinalizer

/-- The payload size of an object. -/
def sizeOf (a : Address) : Action (Collector κ ω) Nat := do
  let _ ← checkObject a
  return ((← get).heap.header a).payloadSize

/-- The type of an object. -/
def typeOf (a : Address) : Action (Collector κ ω) TypeId := do
  let _ ← checkObject a
  return ((← get).heap.header a).typeId

/-- The space of an object. -/
def spaceOf (a : Address) : Action (Collector κ ω) Space := checkObject a

/-! ### Fields -/

/-- Checks that a reference slot of an object starts at `offset`. -/
def checkSlot (h : Heap) (types : TypeSystem) (a : Address) (offset : Nat)
    (build : Build := .checked) : Except Error Unit := do
  let info ← h.typeOf types a
  if ← info.isReferenceSlot (h.header a).payloadSize offset build then return ()
  else throw (.invalidArgument (.notReferenceSlot offset info.name))

/-- Checks that plain bytes may be written to a range of an object. -/
def checkData (h : Heap) (types : TypeSystem) (a : Address) (offset length : Nat) :
    Except Error Unit := do
  let payload := (h.header a).payloadSize
  if offset + length > payload then
    throw (.invalidArgument (.writePastEnd length offset payload))
  let info ← h.typeOf types a
  if ← info.overlapsReference payload offset length then
    throw (.invalidArgument (.writeOverReference length offset info.name))

/-- Where a slot is in the block of its object, as an offset that is a word. -/
def slotPlace (offset : Nat) : Nat := (headerSize + offset) % UInt64.size

/-- Stores the address of an object, or null, in a reference slot. -/
def storeRefIn [Host ω] (build : Build) (a : Address) (offset : Nat) (value : Option Address) :
    Action (Collector κ ω) Unit := do
  ask fun c => checkSlot c.heap c.types a offset build
  modify (modifyHeap (·.setBlockWord a (slotPlace offset) (value.getD 0)))
  modify fun c => { c with barrier := c.barrier.store a value }

/-- Stores a reference, or null, in a reference slot. -/
def writeRefIn [Host ω] (build : Build) (a : Address) (offset : Nat) (value : Option Address) :
    Action (Collector κ ω) Unit := do
  let _ ← checkObject a
  if let some target := value then
    let _ ← checkObject target
  storeRefIn build a offset value

/-- A store in a checked build. -/
abbrev writeRef [Host ω] (a : Address) (offset : Nat) (value : Option Address) :
    Action (Collector κ ω) Unit := writeRefIn .checked a offset value

/-- The reference in a reference slot. -/
def readRefIn [Host ω] (build : Build) (a : Address) (offset : Nat) :
    Action (Collector κ ω) (Option Address) := do
  let _ ← checkObject a
  ask fun c => checkSlot c.heap c.types a offset build
  let target := (← get).heap.blockWord a (slotPlace offset)
  return if target = 0 then none else some target

/-- The reference in a reference slot, in a checked build. -/
abbrev readRef [Host ω] (a : Address) (offset : Nat) : Action (Collector κ ω) (Option Address) :=
  readRefIn .checked a offset

/-- Stores plain bytes in the payload of an object. -/
def writeData [Host ω] (a : Address) (offset : Nat) (bytes : ByteArray) :
    Action (Collector κ ω) Unit := do
  let _ ← checkObject a
  ask fun c => checkData c.heap c.types a offset bytes.size
  modify (modifyHeap (·.setPayload a offset bytes))

/-- Bytes of the payload of an object. -/
def readData (a : Address) (offset length : Nat) : Action (Collector κ ω) ByteArray := do
  let _ ← checkObject a
  ask fun c =>
    let payload := (c.heap.header a).payloadSize
    if offset + length > payload then
      .error (.invalidArgument (.readPastEnd length offset payload))
    else .ok (c.heap.payload a offset length)

/-! ### Finalizers -/

/-- Runs an operation on the table of callbacks. -/
def onCallbacks {α : Type} (f : Callbacks κ → α × Callbacks κ) (c : Collector κ ω) :
    α × Collector κ ω :=
  let t := c.callbacks
  let c : Collector κ ω := { c with callbacks := {} }
  let (answer, callbacks) := f t
  (answer, { c with callbacks })

/-- Gives an object a finalizer. It takes the place of one given before, and
arms an object again whose finalization is over. Slots are numbered by words: where
the number behind the new slot is none, the call panics. -/
def registerFinalizer (a : Address) (callback : κ) : Action (Collector κ ω) Unit := do
  let _ ← checkObject a
  let c ← get
  let h := c.heap.header a
  let armed := (h.setHasFinalizer true).setFinalized false
  let slot := h.slot.toNat
  if slot ≠ 0 ∧ c.callbacks.contains slot then
    modify fun c => (c.onCallbacks (·.renew slot callback)).2
    modify (modifyHeap (·.setHeader a armed))
  else if c.callbacks.next + 1 < UInt64.size then
    let slot ← modifyGet fun c => c.onCallbacks (·.add callback)
    modify (modifyHeap (·.setHeader a { armed with slot := UInt64.ofNat slot }))
  else throw .panicked

/-- Takes the finalizer of an object away and says that its finalization is over. -/
def suppressFinalization (a : Address) : Action (Collector κ ω) Unit := do
  let _ ← checkObject a
  let h := (← get).heap.header a
  if h.needsFinalization then
    modify fun c => { c with statistics := c.statistics.recordSuppressed }
  if h.slot ≠ 0 then
    modify fun c => (c.onCallbacks (·.take h.slot.toNat)).2
  modify (modifyHeap (·.setHeader a ({ h with slot := 0 }.setFinalized true)))

/-! ### Handles

A table is taken out of the state while an operation runs on it, so that it is
changed in place. -/

/-- Runs an operation on the table of root handles. -/
def onRoots {α : Type} (act : Action (HandleTable Address) α) : Action (Collector κ ω) α :=
  fun c =>
    let t := c.roots
    let c := { c with roots := {} }
    match act t with
    | .ok a roots => .ok a { c with roots }
    | .error e roots => .error e { c with roots }

/-- Runs an operation on the table of weak handles. -/
def onWeak {α : Type} (act : Action WeakTable α) : Action (Collector κ ω) α := fun c =>
  let t := c.weak
  let c := { c with weak := {} }
  match act t with
  | .ok a weak => .ok a { c with weak }
  | .error e weak => .error e { c with weak }

/-- Runs an operation on the table of providers. -/
def onProviders {α : Type} (act : Action (HandleTable RootSlots) α) :
    Action (Collector κ ω) α := fun c =>
  let t := c.providers
  let c := { c with providers := {} }
  match act t with
  | .ok a providers => .ok a { c with providers }
  | .error e providers => .error e { c with providers }

/-- Makes a strong handle to an object. -/
def addRoot (a : Address) : Action (Collector κ ω) Nat := do
  let _ ← checkObject a
  onRoots (modifyGet (·.add a))

/-- The object of a strong handle. -/
def root (id : Nat) : Action (Collector κ ω) Address := ask fun c => c.roots.get id

/-- Gives a strong handle another object. -/
def setRoot (id : Nat) (a : Address) : Action (Collector κ ω) Unit := do
  let _ ← checkObject a
  onRoots (HandleTable.replace id a)

/-- Releases a strong handle. -/
def removeRoot (id : Nat) : Action (Collector κ ω) Unit :=
  discard (onRoots (HandleTable.remove id))

/-- Makes a weak handle to an object. -/
def createWeak (a : Address) : Action (Collector κ ω) Nat := do
  let _ ← checkObject a
  onWeak (modifyGet (·.create a))

/-- The object of a weak handle, if it is still alive. -/
def resolve (id : Nat) : Action (Collector κ ω) (Option Address) :=
  ask fun c => c.weak.handles.get id

/-- Releases a weak handle. -/
def freeWeak (id : Nat) : Action (Collector κ ω) Unit := onWeak (WeakTable.free id)

/-- Registers a provider of root slots. -/
def addProvider (slots : RootSlots) (c : Collector κ ω) : Nat × Collector κ ω :=
  let t := c.providers
  let c := { c with providers := {} }
  let (id, providers) := t.add slots
  (id, { c with providers })

/-- Changes the slots of a provider. -/
def modifySlots (id : Nat) (f : RootSlots → RootSlots) (c : Collector κ ω) : Collector κ ω :=
  let t := c.providers
  let c := { c with providers := {} }
  { c with providers := t.modify id f }

/-- Takes a provider out. The answer is its slots. -/
def removeProvider (id : Nat) : Action (Collector κ ω) RootSlots :=
  onProviders (HandleTable.remove id)

end Collector

end GenerationalHeap
