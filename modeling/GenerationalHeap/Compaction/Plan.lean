/-
The plan of a compaction: a new place for every marked object.

Each collected arena is walked once. Marked objects that stay slide toward the
start of their arena; promoted ones are appended to the next older arena,
behind its own survivors if it is collected too, and else behind its top. The
new address is written into the object's header, with its new age and tag.

* `Survivor`, `Census` — what is marked in an arena, and where it goes.
* `Move`, `Plan.layOut` — survivors placed back to back.
* `Plan.build` — the plan, and the heap with forwarding addresses written.
* `Plan.forward` — the address that an object has after the moves.

Design notes: a survivor that stays never moves to a higher offset, so the
moves of an arena can be done in address order.
-/
import GenerationalHeap.Heap
import GenerationalHeap.Target

namespace GenerationalHeap

/-- A marked object of an arena, and where it goes. -/
structure Survivor where
  offset : Nat
  size : Nat
  placement : Placement

/-- The move of a block, as offsets in its old and its new arena. -/
structure Move where
  source : Nat
  dest : Nat
  size : Nat
  deriving DecidableEq

/-- What becomes of the objects of a collected arena. -/
structure SpacePlan where
  /-- The survivors that stay, in address order. -/
  stays : List Move := []
  /-- The survivors that are promoted, in address order. -/
  promotions : List Move := []
  deadObjects : Nat := 0
  deadBytes : Nat := 0
  /-- The finalizer slots of dead objects. -/
  orphans : List UInt64 := []
  deriving Inhabited

/-- The plan of a compaction. -/
structure Plan where
  target : Target
  spaces : PerGeneration SpacePlan
  /-- The offset at which promoted objects begin to arrive in an arena. -/
  incomingStart : PerGeneration Nat
  /-- The top of an arena after the moves. -/
  newTop : PerGeneration Nat

/-! ### Survivors -/

/-- What the marks of an arena say of its objects, in address order. -/
structure Census where
  /-- The survivors that stay in the arena. -/
  staying : List Survivor := []
  /-- The survivors that leave it. -/
  leaving : List Survivor := []
  /-- The headers of the dead objects. -/
  dead : List Header := []
  deriving Inhabited

namespace Census

/-- A marked object of a space, with its placement. -/
def survivor? (s : Space) (offset : Nat) (h : Header) : Option Survivor :=
  if h.isMarked then some ⟨offset, h.blockSize, s.place h⟩ else none

/-- The census of an arena. -/
def ofArena (a : Arena) : Census :=
  let objects := a.offsets.map fun offset => (offset, a.header offset)
  let survivors := objects.filterMap fun (offset, h) => survivor? a.space offset h
  let leaves (s : Survivor) : Bool := s.placement.isPromotion a.space
  { staying := survivors.filter fun s => !leaves s
    leaving := survivors.filter leaves
    dead := objects.filterMap fun (_, h) => if h.isMarked then none else some h }

/-- The census of every arena that is collected. -/
def ofHeap (h : Heap) (target : Target) : PerGeneration Census :=
  .ofFn fun g => if target.condemns (.arena g) then .ofArena (h.arena g) else {}

end Census

namespace Plan

/-- Places survivors back to back, the first at `dest`. -/
def layOut (dest : Nat) : List Survivor → List Move
  | [] => []
  | s :: rest => ⟨s.offset, dest, s.size⟩ :: layOut (dest + s.size) rest

/-- The bytes of survivors. -/
def bytes (survivors : List Survivor) : Nat := (survivors.map (·.size)).sum

/-! ### The new layout -/

/-- The offset at which promoted objects begin to arrive in an arena. -/
def arrivalStart (h : Heap) (target : Target) (c : PerGeneration Census) (g : Generation) : Nat :=
  if target.condemns (.arena g) then bytes (c.get g).staying else (h.arena g).used

/-- The bytes that are promoted into an arena. -/
def arriving (c : PerGeneration Census) : Generation → Nat
  | .gen0 => 0
  | .gen1 => bytes (c.get .gen0).leaving
  | .gen2 => bytes (c.get .gen1).leaving

/-- The plan of one arena, given where those that leave it arrive. -/
def ofCensus (c : Census) (arrival : Nat) : SpacePlan :=
  { stays := layOut 0 c.staying
    promotions := layOut arrival c.leaving
    deadObjects := c.dead.length
    deadBytes := (c.dead.map Header.blockSize).sum
    orphans := (c.dead.map (·.slot)).filter (· != 0) }

/-- The plan that the marks of a heap ask for. -/
def ofHeap (h : Heap) (target : Target) : Plan :=
  let c := Census.ofHeap h target
  let incomingStart := PerGeneration.ofFn (arrivalStart h target c)
  { target
    spaces := .ofFn fun g => ofCensus (c.get g) (incomingStart.get g.older)
    incomingStart
    newTop := .ofFn fun g => incomingStart.get g + arriving c g }

/-! ### Forwarding addresses -/

/-- The header of a survivor that moves to `dest` in a generation's arena. -/
def forwarded (old : Space) (h : Header) (g : Generation) (dest : Nat) : Header :=
  (h.forwardTo ((Space.arena g).address dest)).setAge (old.place h).age |>.setSpace (.arena g)

/-- Writes where the objects of a generation move into their headers. -/
def writeMoves (source dest : Generation) (moves : List Move) (h : Heap) : Heap :=
  moves.foldl (fun h m =>
    h.mapArena source fun a =>
      a.setHeader m.source (forwarded a.space (a.header m.source) dest m.dest)) h

/-- Writes the moves of a plan into the headers of the survivors. -/
def writeForwarding (p : Plan) (h : Heap) : Heap :=
  Generation.all.foldl (fun h g =>
    writeMoves g g.older (p.spaces.get g).promotions
      (writeMoves g g (p.spaces.get g).stays h)) h

/-- Plans the compaction of the collected arenas: writes the forwarding
addresses and gives each arena the capacity that the moves need. -/
def build (target : Target) : Action Heap Plan := do
  let p := ofHeap (← get) target
  modify p.writeForwarding
  Generation.all.forM fun g => Heap.ensureArena g (p.newTop.get g)
  return p

/-- The address that the object at `a` has after the moves. Only forwarded
objects of collected arenas have a new one. -/
def forward (p : Plan) (h : Heap) (a : Address) : Address :=
  match Space.ofAddress? a with
  | some (.arena g) =>
    if p.target.condemns (.arena g) then
      let header := h.header a
      if header.isForwarded then header.forwarding else a
    else a
  | _ => a

/-- The new address of an object, which is never null. -/
def forwardObject (p : Plan) (h : Heap) (a : Address) : Address :=
  let moved := p.forward h a
  if moved = 0 then a else moved

/-! ### Accounts -/

/-- The number of objects that survive in the collected arenas. -/
def survivorCount (p : Plan) : Nat :=
  (p.spaces.toList.map fun s => s.stays.length + s.promotions.length).sum

/-- The number of objects that are promoted. -/
def promotedObjects (p : Plan) : Nat := (p.spaces.toList.map (·.promotions.length)).sum

/-- The bytes that are promoted. -/
def promotedBytes (p : Plan) : Nat :=
  (p.spaces.toList.map fun s => (s.promotions.map (·.size)).sum).sum

/-- The number of objects that are reclaimed in the collected arenas. -/
def deadObjects (p : Plan) : Nat := (p.spaces.toList.map (·.deadObjects)).sum

/-- The bytes that are reclaimed in the collected arenas. -/
def deadBytes (p : Plan) : Nat := (p.spaces.toList.map (·.deadBytes)).sum

/-- The finalizer slots of dead objects, in address order. -/
def orphans (p : Plan) : List UInt64 := p.spaces.toList.flatMap (·.orphans)

end Plan

end GenerationalHeap
