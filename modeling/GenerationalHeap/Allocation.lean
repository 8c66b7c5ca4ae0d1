/-
Allocation: size classes, and the ladder that makes room.

A small object is put into the nursery. If that is full, a collection of the
escalated target runs, then a full one, and then the nursery grows as far as
the heap limit allows. A large object may have to wait for a full collection,
before it if large objects are over their budget, and after it has found no
room. Blocks count as a whole against the heap limit.

* `Request`, `Request.prepare` — a checked request.
* `Request.place?` — places an object without a collection, if there is room.
* `Owner` — what the ladder needs from the collector around the heap.
* `escalate` — the first collection for a full nursery.
* `allocate` — the ladder.
-/
import GenerationalHeap.Config
import GenerationalHeap.Heap.Slots
import GenerationalHeap.Report

namespace GenerationalHeap

/-! ### Requests -/

/-- Where an object is put. -/
inductive SizeClass where
  /-- Into the nursery. -/
  | small
  /-- Into the large object space. -/
  | large
  deriving DecidableEq

/-- The size class of a payload. -/
def Config.sizeClassOf (config : Config) (payload : Nat) : SizeClass :=
  if payload > config.largeObjectThreshold then .large else .small

/-- A checked request for an object. -/
structure Request where
  typeId : TypeId
  /-- The size of the payload, a multiple of the alignment. -/
  payload : Nat
  hasFinalizer : Bool
  sizeClass : SizeClass

namespace Request

/-- The bytes that the object takes in its space. -/
def blockSize (r : Request) : Nat :=
  match r.sizeClass with
  | .small => headerSize + r.payload
  | .large => LargeSpace.blockSizeFor (headerSize + r.payload)

/-- The header of the new object. -/
def header (r : Request) : Header :=
  let space := match r.sizeClass with
    | .small => Space.arena .gen0
    | .large => .large
  .fresh r.typeId (UInt32.ofNat r.payload) space r.hasFinalizer

/-- Checks a request against the type's layout and the largest object size. It is the
rounded size that is compared with the largest one. -/
def prepare (config : Config) (types : TypeSystem) (typeId : TypeId) (size : Nat)
    (hasFinalizer : Bool) (build : Build := .checked) : Except Error Request :=
  match types typeId with
  | none => .error (.unknownType typeId)
  | some info =>
    if size < info.minPayload then
      .error (.invalidArgument (.payloadTooSmall size info.name info.minPayload))
    else
      match alignUp size build with
      | .error e => .error e
      | .ok payload =>
        if payload ≥ UInt32.size then .error (.invalidArgument (.payloadTooLarge size))
        else .ok { typeId, payload, hasFinalizer, sizeClass := config.sizeClassOf payload }

/-- Places the object, unless there is no room for it. -/
def place? (r : Request) : Action Heap (Option Address) := fun h =>
  if r.blockSize > h.headroom then .ok none h
  else
    match r.sizeClass with
    | .small => let (a, h) := h.allocateSmall? r.header; .ok a h
    | .large => (some <$> Heap.allocateLarge r.header) h

end Request

/-! ### The collector around the heap -/

/-- What the ladder needs from a state around the heap. -/
structure Owner (σ : Type) where
  /-- Runs a collection. -/
  collect : Target → Reason → Action σ Unit
  /-- Notes that the capacity of the nursery has changed. -/
  nurseryGrown : (old new : Nat) → σ → σ

/-! ### The ladder -/

/-- The collection to run when the nursery is full. -/
def escalate (config : Config) (h : Heap) : Target :=
  if h.usedIn (.arena .gen2) > config.gen2Budget ∨ h.usedIn .large > config.lohBudget then .full
  else if h.usedIn (.arena .gen1) > config.gen1Budget then .gen1
  else .gen0

section Ladder

variable {σ : Type} [HoldsHeap σ] (o : Owner σ) (r : Request)

/-- Places the object, or goes on if there is no room. -/
def Request.placeOr (next : Action σ Address) : Action σ Address := do
  match ← onHeap r.place? with
  | some a => return a
  | none => next

/-- Gives up. -/
def Request.giveUp : Action σ Address := fun s =>
  .error (.outOfMemory r.blockSize (HoldsHeap.heap s).headroom) s

/-- The last rung for small objects: the nursery grows if the heap limit allows. -/
def growAndPlace : Action σ Address := do
  if r.blockSize ≤ (HoldsHeap.heap (← get)).headroom then
    let (old, new) ← onHeap (Heap.growNursery r.blockSize)
    modify (o.nurseryGrown old new)
    r.placeOr r.giveUp
  else r.giveUp

/-- Allocates a small object. -/
def allocateSmall (config : Config) : Action σ Address :=
  r.placeOr do
    let target := escalate config (HoldsHeap.heap (← get))
    o.collect target (.nurseryFull r.blockSize)
    r.placeOr <|
      if target = .full then growAndPlace o r
      else do
        o.collect .full (.allocationFailure r.blockSize)
        r.placeOr (growAndPlace o r)

/-- Allocates a large object. -/
def allocateLarge (config : Config) : Action σ Address := do
  let used := (HoldsHeap.heap (← get)).usedIn .large
  if used > config.lohBudget then
    o.collect .full (.largeBudget used config.lohBudget)
  r.placeOr do
    o.collect .full (.allocationFailure r.blockSize)
    r.placeOr r.giveUp

/-- Allocates an object, collecting and growing as needed. -/
def allocate (config : Config) : Action σ Address :=
  match r.sizeClass with
  | .small => allocateSmall o r config
  | .large => allocateLarge o r config

end Ladder

end GenerationalHeap
