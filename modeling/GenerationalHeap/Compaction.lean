/-
Compaction: survivors move to their planned places and dead space is given up.

1. `Compaction.start` — plans the moves and finds the large survivors.
2. `Compaction.fixReferences` — redirects the references of all survivors and
   of the remembered holders.
3. `Compaction.sweepLarge` — gives dead large objects back.
4. `Compaction.relocate` — copies promoted objects out and slides the others.
5. `Compaction.finish` — clears marks and forwarding addresses, and finds the
   remembered set anew.

Until the moves are done, `Compaction.forward` tells the new address of an
object and `Compaction.fate` what becomes of it.

Design notes: references are redirected while every header is still at its old
address, so each lookup is a single read of a header.
-/
import GenerationalHeap.Compaction.Plan
import GenerationalHeap.Handles
import GenerationalHeap.Heap.Slots
import GenerationalHeap.Remembered

namespace GenerationalHeap

/-- The counts of one compaction. -/
structure CompactionStats where
  survivors : Nat
  promotedObjects : Nat
  promotedBytes : Nat
  reclaimedObjects : Nat
  reclaimedBytes : Nat
  /-- The large objects among the reclaimed ones. -/
  sweptLargeObjects : Nat
  sweptLargeBytes : Nat
  deriving DecidableEq

/-- What the sweep of the large object space gave back. -/
structure Sweep where
  objects : Nat := 0
  bytes : Nat := 0
  /-- The finalizer slots of the objects, in address order. -/
  orphans : List UInt64 := []

/-- A compaction under way. -/
structure Compaction where
  plan : Plan
  /-- The marked large objects, if large objects are collected. -/
  largeSurvivors : List Address

namespace Compaction

/-! ### Planning -/

/-- The marked objects of the large object space. -/
def markedLarge (h : Heap) : List Address :=
  (h.objectsIn .large).filter fun a => (h.header a).isMarked

/-- Plans a compaction by the marks of the heap. -/
def start (target : Target) : Action Heap Compaction := do
  let plan ← Plan.build target
  let h ← get
  return { plan, largeSurvivors := if target.condemns .large then markedLarge h else [] }

/-- The new address of an object. -/
def forward (c : Compaction) (h : Heap) (a : Address) : Address := c.plan.forwardObject h a

/-- What becomes of an object. -/
def fate (c : Compaction) (h : Heap) (a : Address) : Fate :=
  if c.plan.target.condemnsAddress a then
    if (h.header a).isMarked then .lives (c.forward h a) else .dies
  else .untouched

/-! ### Redirecting references -/

/-- Redirects what the reference slot at `offset` of a holder names. -/
def fixSlot (c : Compaction) (holder : Address) (h : Heap) (offset : Nat) : Heap :=
  let old := h.word holder offset
  let new := c.plan.forward h old
  if old = 0 ∨ new = old then h else h.setWord holder offset new

/-- Redirects what the reference slots of a holder name. -/
def fixHolder (c : Compaction) (types : TypeSystem) (holder : Address) : Action Heap Unit :=
  fun h =>
    match h.slotsOf types holder with
    | .ok slots => .ok () (slots.foldl (c.fixSlot holder) h)
    | .error e => .error e h

/-- The survivors of the collected spaces, at their old addresses. -/
def holders (c : Compaction) : List Address :=
  Generation.all.flatMap (fun g =>
    let s := c.plan.spaces.get g
    (s.stays ++ s.promotions).map fun m => (Space.arena g).address m.source)
  ++ c.largeSurvivors

/-- Redirects the references of all survivors and of the remembered holders. -/
def fixReferences (c : Compaction) (types : TypeSystem) (remembered : List Address) :
    Action Heap Unit :=
  (c.holders ++ remembered).forM (c.fixHolder types)

/-! ### Sweeping -/

/-- Gives a large object back and adds it to the counts, unless it is marked. -/
def sweepObject (s : Sweep) (a : Address) : Action Heap Sweep := do
  let header := (← get).header a
  if header.isMarked then return s
  else
    let bytes ← Heap.freeLarge a
    let orphans := if header.slot = 0 then [] else [header.slot]
    return ⟨s.objects + 1, s.bytes + bytes, s.orphans ++ orphans⟩

/-- Gives the unmarked large objects back, if large objects are collected. -/
def sweepLarge (c : Compaction) : Action Heap Sweep := do
  if c.plan.target.condemns .large then
    ((← get).objectsIn .large).foldlM sweepObject {}
  else return {}

/-! ### Moving -/

/-- Copies promoted blocks of a generation into the next older arena. -/
def promote (g : Generation) (moves : List Move) (h : Heap) : Heap :=
  moves.foldl (fun h m =>
    let block := (h.arena g).memory.slice m.source m.size
    h.mapArena g.older (Arena.mapMemory (·.overwrite m.dest block))) h

/-- Slides a block of an arena. -/
def slide (a : Arena) (m : Move) : Arena :=
  if m.source = m.dest then a else a.mapMemory (·.slide m.source m.dest m.size)

/-- Moves the survivors of a collected generation. -/
def moveOut (p : Plan) (h : Heap) (g : Generation) : Heap :=
  (promote g (p.spaces.get g).promotions h).mapArena g fun a =>
    ((p.spaces.get g).stays.foldl slide a).setTop (p.newTop.get g)

/-- Takes the objects that were promoted into an arena that is not collected
into its used part. -/
def takeIn (p : Plan) (h : Heap) (g : Generation) : Heap :=
  if p.target.condemns (.arena g) then h
  else h.mapArena g (·.setTop (p.newTop.get g))

/-- The offset from which on the objects of an arena are where a plan put them. -/
def settledFrom (p : Plan) (g : Generation) : Nat :=
  if p.target.condemns (.arena g) then 0 else p.incomingStart.get g

/-- Moves every survivor to its planned place. The oldest generation goes first,
so that promoted blocks arrive in arenas that are already compacted. -/
def relocate (c : Compaction) (h : Heap) : Heap :=
  let h := c.plan.target.generations.foldl (moveOut c.plan) h
  let h := [Generation.gen1, .gen2].foldl (takeIn c.plan) h
  Generation.all.foldl (fun h g => h.mapArena g (·.rebuildStarts (settledFrom c.plan g))) h

/-! ### Finishing -/

/-- The survivors at their new addresses. -/
def settled (c : Compaction) (h : Heap) : List Address :=
  Generation.all.flatMap (fun g =>
    ((h.arena g).offsetsFrom (settledFrom c.plan g)).map (Space.arena g).address)
  ++ c.largeSurvivors

/-- Clears the mark and the forwarding address of an object. -/
def clearObject (h : Heap) (a : Address) : Heap :=
  h.setHeader a ((h.header a).setMarked false).clearForwarding

/-- Whether an object holds a reference into a younger space. -/
def holdsYounger (h : Heap) (types : TypeSystem) (a : Address) : Except Error Bool :=
  match h.slotsOf types a with
  | .ok slots => .ok (slots.any fun offset => pointsDown a (h.word a offset))
  | .error e => .error e

/-- Clears what the collection left in the headers of the survivors. The answer
is the new remembered set, in which a previous holder stays only if it has to. -/
def finish (c : Compaction) (types : TypeSystem) (previous : List Address) :
    Action Heap Remembered := fun h =>
  let settled := c.settled h
  let h := settled.foldl clearObject h
  match (settled ++ previous).filterM (holdsYounger h types) with
  | .ok holders => .ok (.ofList holders) h
  | .error e => .error e h

/-- Does all that remains to be done once the roots are redirected. The answer is
what the sweep gave back and the new remembered set. -/
def complete (c : Compaction) (types : TypeSystem) (previous : List Address) :
    Action Heap (Sweep × Remembered) := do
  c.fixReferences types previous
  let sweep ← c.sweepLarge
  modify c.relocate
  let remembered ← c.finish types previous
  return (sweep, remembered)

/-- The counts of a compaction, given what the sweep gave back. -/
def stats (c : Compaction) (s : Sweep) : CompactionStats :=
  { survivors := c.plan.survivorCount + c.largeSurvivors.length
    promotedObjects := c.plan.promotedObjects
    promotedBytes := c.plan.promotedBytes
    reclaimedObjects := c.plan.deadObjects + s.objects
    reclaimedBytes := c.plan.deadBytes + s.bytes
    sweptLargeObjects := s.objects
    sweptLargeBytes := s.bytes }

end Compaction

end GenerationalHeap
