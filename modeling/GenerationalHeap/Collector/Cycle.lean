/-
One collection, from the first mark to the report.

1. Mark what the roots reach: the root handles, the slots of the providers,
   the objects that wait for finalization, and the remembered holders.
2. Keep the unmarked objects that need finalization alive.
3. Plan the moves; redirect every root and every weak handle; redirect the
   references in the heap; sweep, move, and find the remembered set anew.

* `Collector.runCycle` — the phases.
* `Collector.collectFor` — a collection with its events and its report. If it
  fails, the marks in the heap are taken back and only the log and the number
  of collections have advanced.
-/
import GenerationalHeap.Collector.State

namespace GenerationalHeap

namespace Collector

variable {κ ω : Type}

/-- What the phases of a collection count. -/
structure Tally where
  marked : Nat
  enqueued : Nat
  weakCleared : Nat
  compaction : CompactionStats

/-! ### Parts of a cycle -/

/-- A phase begins. -/
def enter (p : Phase) (c : Collector κ ω) : Collector κ ω := { c with phase := p }

/-- A phase is over. -/
def leave (cycle : Nat) (phase : String) (c : Collector κ ω) : Collector κ ω :=
  c.emit (.phaseEnd cycle phase 0)

/-- The host learns of the visit of every provider, in order. -/
def visitProviders [Host ω] (c : Collector κ ω) : Collector κ ω :=
  { c with
    host := c.providers.ids.foldl (fun w id => Host.visited id c.phase w) c.host }

/-- The objects that are roots: those of root handles, of providers, and of the
finalization queue. -/
def rootObjects (c : Collector κ ω) : List Address :=
  c.roots.values ++ c.providers.values.flatMap RootSlots.objects ++ c.queue.objects

/-- The remembered holders in the spaces that a target leaves alone. -/
def rememberedFor (c : Collector κ ω) (target : Target) : List Address :=
  c.barrier.remembered.within fun s => !target.condemns s

/-- Redirects every root. -/
def redirectRoots (f : Address → Address) (c : Collector κ ω) : Collector κ ω :=
  { c with
    roots := c.roots.map f
    providers := c.providers.map (RootSlots.redirect f)
    queue := c.queue.redirect f }

/-- Tells weak handles what becomes of their objects. The answer is the number
of handles that are cleared. -/
def processWeak (compaction : Compaction) (c : Collector κ ω) : Nat × Collector κ ω :=
  let (cleared, weak) := c.weak.process (compaction.fate c.heap)
  (cleared, { c with weak })

/-- Redirects every root and every weak handle. The answer is the number of weak
handles that are cleared, and the new addresses of some objects. -/
def redirectAll (compaction : Compaction) (objects : List Address) :
    Action (Collector κ ω) (Nat × List Address) := fun c =>
  let forward := compaction.forward c.heap
  let (cleared, c) := (c.redirectRoots forward).processWeak compaction
  .ok (cleared, objects.map forward) c

/-! ### The phases -/

/-- Marks what the roots reach. The answer is the number of marked objects. -/
def markPhase [Host ω] (target : Target) : Action (Collector κ ω) Nat := do
  modify visitProviders
  let c ← get
  let stats ← onHeap (Heap.markLive c.types target c.rootObjects (c.rememberedFor target))
  return stats.markedObjects

/-- Keeps objects that need finalization alive. The answer is those objects and
the number of objects that got their mark. -/
def finalizePhase [Host ω] (target : Target) : Action (Collector κ ω) (List Address × Nat) := do
  let c ← get
  let dying := Trace.candidates target c.heap
  let stats ← onHeap (Heap.resurrect c.types target dying)
  return (dying, stats.resurrectedObjects)

/-- Moves survivors and gives dead objects up. The answer is the counts and the
number of weak handles that were cleared. -/
def compactPhase [Host ω] (target : Target) (dying : List Address) :
    Action (Collector κ ω) (CompactionStats × Nat) := do
  let compaction ← onHeap (Compaction.start target)
  modify visitProviders
  let (cleared, resurrected) ← redirectAll compaction dying
  let c ← get
  let (sweep, holders) ← onHeap (compaction.complete c.types (c.rememberedFor target))
  let orphans := (sweep.orphans ++ compaction.plan.orphans).map UInt64.toNat
  modify fun c =>
    { c with
      barrier := { c.barrier with remembered := holders }
      callbacks := (c.callbacks.release orphans).2
      queue := c.queue.enqueue resurrected }
  return (compaction.stats sweep, cleared)

/-- The phases of a collection. -/
def runCycle [Host ω] (target : Target) (cycle : Nat) : Action (Collector κ ω) Tally := do
  modify (enter .marking)
  let marked ← markPhase target
  modify (leave cycle "mark")
  modify (enter .finalizing)
  let (dying, resurrected) ← finalizePhase target
  modify (leave cycle "finalize")
  modify (enter .compacting)
  let (compaction, weakCleared) ← compactPhase target dying
  modify (leave cycle "compact")
  return { marked := marked + resurrected, enqueued := dying.length, weakCleared, compaction }

/-! ### A whole collection -/

/-- What is logged and noted before the phases. The answer is the bytes in use. -/
def beginCycle (target : Target) (reason : Reason) (c : Collector κ ω) :
    Nat × Collector κ ω :=
  let cycle := c.cycles + 1
  let used := c.heap.usedBytes
  let c := { c with cycles := cycle }.emit (.cycleStart cycle target.name reason.text)
  (used, { c with queue := c.queue.beginCollection })

/-- What is noted after the phases, whether they failed or not. -/
def endCycle (c : Collector κ ω) : Collector κ ω :=
  { c with queue := c.queue.endCollection, phase := .idle }

/-- Takes back what a failed collection left in the heap. -/
def abandon (target : Target) (c : Collector κ ω) : Collector κ ω :=
  modifyHeap (·.clearMarks target) c

/-- The report of a finished collection. -/
def reportOf (cycle : Nat) (target : Target) (reason : Reason) (before after : Nat)
    (t : Tally) : Report :=
  { cycle
    target
    reason := reason.text
    heapUsedBefore := before
    heapUsedAfter := after
    objectsMarked := t.marked
    survivors := t.compaction.survivors
    objectsReclaimed := t.compaction.reclaimedObjects
    bytesReclaimed := t.compaction.reclaimedBytes
    objectsPromoted := t.compaction.promotedObjects
    bytesPromoted := t.compaction.promotedBytes
    largeObjectsSwept := t.compaction.sweptLargeObjects
    finalizersEnqueued := t.enqueued
    weakCleared := t.weakCleared }

/-- The events at the end of a finished collection. -/
def closingEvents (r : Report) : List Event :=
  (if r.finalizersEnqueued > 0 then [.finalizersQueued r.cycle r.finalizersEnqueued] else [])
    ++ (if r.weakCleared > 0 then [.weakCleared r.cycle r.weakCleared] else [])
    ++ [.cycleEnd r.cycle (milliseconds r.pauseNs) r.bytesReclaimed r.bytesPromoted
      r.heapUsedAfter]

/-- Runs a collection. -/
def collectFor [Host ω] (target : Target) (reason : Reason) : Action (Collector κ ω) Report :=
  fun c =>
    let (before, c) := beginCycle target reason c
    let cycle := c.cycles
    match runCycle target cycle c with
    | .error e c => .error e (abandon target c.endCycle)
    | .ok tally c =>
      let c := c.endCycle
      let report := reportOf cycle target reason before c.heap.usedBytes tally
      let c := { c with statistics := c.statistics.recordCollection report }
      .ok report ((closingEvents report).foldl emit c)

end Collector

end GenerationalHeap
