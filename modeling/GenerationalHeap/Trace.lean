/-
Tracing: finding the objects of the collected spaces that are reachable.

The mark lives in the header. Objects outside the collected spaces count as
live and are not entered; the references from them into the collected spaces
are found by scanning the remembered holders.

* `Trace` — the heap with the objects that are marked but not yet scanned.
* `Trace.markRoot`, `Trace.scanHolder` — where tracing starts.
* `Trace.drain` — scans until nothing is left.
* `Trace.candidates`, `Trace.resurrect` — unmarked objects that still need
  finalization, and how they are kept alive.
* `Heap.markLive`, `Heap.resurrect` — the two passes of a collection.

Design notes: a failure keeps the marks that were made. An object is entered
into the worklist when it gets its mark, hence once, so the recorded object
starts bound the number of scans.
-/
import GenerationalHeap.Heap.Slots
import GenerationalHeap.Target

namespace GenerationalHeap

/-- The counts of one tracing pass. -/
structure TraceStats where
  /-- Objects marked from roots. -/
  markedObjects : Nat := 0
  markedBytes : Nat := 0
  /-- References read that are not null. -/
  tracedReferences : Nat := 0
  /-- Objects marked only because a finalizer has still to run. -/
  resurrectedObjects : Nat := 0
  resurrectedBytes : Nat := 0
  deriving DecidableEq

/-- The counts of two passes together. -/
def TraceStats.add (s t : TraceStats) : TraceStats :=
  { markedObjects := s.markedObjects + t.markedObjects
    markedBytes := s.markedBytes + t.markedBytes
    tracedReferences := s.tracedReferences + t.tracedReferences
    resurrectedObjects := s.resurrectedObjects + t.resurrectedObjects
    resurrectedBytes := s.resurrectedBytes + t.resurrectedBytes }

/-- Counts one more marked object. -/
def TraceStats.addMarked (s : TraceStats) (bytes : Nat) : TraceStats :=
  { s with markedObjects := s.markedObjects + 1, markedBytes := s.markedBytes + bytes }

/-- Counts one more resurrected object. -/
def TraceStats.addResurrected (s : TraceStats) (bytes : Nat) : TraceStats :=
  { s with
    resurrectedObjects := s.resurrectedObjects + 1
    resurrectedBytes := s.resurrectedBytes + bytes }

/-- A tracing pass under way. -/
structure Trace where
  heap : Heap
  /-- The objects that are marked and still have to be scanned. -/
  worklist : List Address := []
  /-- Whether marks count as resurrections. -/
  resurrecting : Bool := false
  stats : TraceStats := {}

namespace Trace

/-! ### Marking and scanning -/

/-- Marks an object of a collected space and queues it, unless it is marked. -/
def mark (target : Target) (a : Address) (t : Trace) : Trace :=
  if target.condemnsAddress a then
    let h := t.heap.header a
    if h.isMarked then t
    else
      match t with
      | ⟨heap, worklist, resurrecting, stats⟩ =>
        { heap := heap.setHeader a (h.setMarked true)
          worklist := a :: worklist
          resurrecting
          stats :=
            if resurrecting then stats.addResurrected h.blockSize
            else stats.addMarked h.blockSize }
  else t

/-- Marks what the reference slot at `offset` of a holder names. -/
def followSlot (target : Target) (holder : Address) (offset : Nat) : Action Trace Unit :=
  fun t =>
    let a := t.heap.word holder offset
    if a = 0 then .ok () t
    else
      let t : Trace :=
        { t with
          stats := { t.stats with tracedReferences := t.stats.tracedReferences + 1 } }
      if t.heap.isObject a then .ok () (t.mark target a)
      else .error (.corruptHeap holder (.danglingField offset a)) t

/-- Marks what the reference slots of a holder name. -/
def scan (types : TypeSystem) (target : Target) (holder : Address) : Action Trace Unit :=
  fun t =>
    match t.heap.slotsOf types holder with
    | .ok slots => slots.forM (followSlot target holder) t
    | .error e => .error e t

/-- Marks a root. -/
def markRoot (target : Target) (root : Address) : Action Trace Unit := fun t =>
  if t.heap.isObject root then .ok () (t.mark target root)
  else .error (.corruptHeap root .rootNotObject) t

/-- Scans a remembered holder. -/
def scanHolder (types : TypeSystem) (target : Target) (holder : Address) :
    Action Trace Unit := fun t =>
  if t.heap.isObject holder then scan types target holder t
  else .error (.corruptHeap holder .holderNotObject) t

/-! ### The closure -/

/-- Scans queued objects until none is left, at most `n` of them. -/
def drainWithin (types : TypeSystem) (target : Target) : Nat → Action Trace Unit
  | 0 => pure ()
  | n + 1 => fun t =>
    match t.worklist with
    | [] => .ok () t
    | a :: rest => (do scan types target a; drainWithin types target n) { t with worklist := rest }

/-- The number of object starts that a heap records. -/
def startCount (h : Heap) : Nat :=
  (h.arenas.toList.map (·.starts.count)).sum + h.large.live.length

/-- Scans queued objects until none is left. -/
def drain (types : TypeSystem) (target : Target) : Action Trace Unit := fun t =>
  drainWithin types target (t.worklist.length + startCount t.heap) t

/-! ### Finalization -/

/-- The unmarked objects of the collected spaces that need finalization, in
address order. -/
def candidates (target : Target) (h : Heap) : List Address :=
  (Space.all.filter target.condemns).flatMap fun s =>
    (h.objectsIn s).filter fun a =>
      let header := h.header a
      !header.isMarked && header.needsFinalization

/-- Marks objects and all that they reach, counting them as resurrected. -/
def resurrect (types : TypeSystem) (target : Target) (objects : List Address) :
    Action Trace Unit := fun t =>
  let started := objects.foldl (fun t a => t.mark target a) { t with resurrecting := true }
  match drain types target started with
  | .ok _ t => .ok () { t with resurrecting := false }
  | .error e t => .error e { t with resurrecting := false }

/-! ### The passes of a collection -/

/-- Runs a tracing pass on a heap. The answer comes with the counts. -/
def run {α : Type} (act : Action Trace α) : Action Heap (α × TraceStats) := fun h =>
  match act { heap := h } with
  | .ok a t => .ok (a, t.stats) t.heap
  | .error e t => .error e t.heap

end Trace

namespace Heap

/-- Marks every object of the collected spaces that the roots or the remembered
holders reach. -/
def markLive (types : TypeSystem) (target : Target) (roots remembered : List Address) :
    Action Heap TraceStats := do
  let (_, stats) ← Trace.run do
    roots.forM (Trace.markRoot target)
    remembered.forM (Trace.scanHolder types target)
    Trace.drain types target
  return stats

/-- Marks some of the unmarked objects, and all that they reach. -/
def resurrect (types : TypeSystem) (target : Target) (dying : List Address) :
    Action Heap TraceStats := do
  let (_, stats) ← Trace.run (Trace.resurrect types target dying)
  return stats

/-- Clears the mark and the forwarding address of an object that has one. -/
def clearMark (h : Heap) (a : Address) : Heap :=
  let header := h.header a
  if header.isMarked || header.isForwarded then
    h.setHeader a (header.setMarked false).clearForwarding
  else h

/-- Clears what a collection that failed left in the headers of the collected
spaces. -/
def clearMarks (h : Heap) (target : Target) : Heap :=
  (Space.all.filter target.condemns).foldl
    (fun h s => (h.objectsIn s).foldl clearMark h) h

end Heap

end GenerationalHeap
