/-
Running the finalizers of queued objects.

A turn has two ends. It begins by taking the callback of the object in flight
out of the table, and ends by saying that the object's finalization is over.
In between the callback may use the collector as it likes: collect, allocate,
register finalizers, even a new one for its own object.

* `Collector.beginTurn` — the callback to run, if there is one.
* `Collector.endTurn` — the end of the turn.
* `Collector.runNext` — one turn.
* `Collector.runPending` — turns until nobody waits.

Design notes: `invoke` tells what a callback does. A callback may make new
objects wait, so the number of turns has a bound of its own. A panic that goes on
behind the callback ends the run where it is: the turn has no end then, and its object
stays in flight.
-/
import GenerationalHeap.Collector.Mutator

namespace GenerationalHeap

namespace Collector

variable {κ ω : Type}

/-- Begins the turn of the object in flight. The answer is the object and its
callback. An object whose finalization is over, or that has no callback, has
nothing to run. -/
def beginTurn (c : Collector κ ω) : Option (Address × κ) × Collector κ ω :=
  match c.queue.inFlight with
  | none => (none, c)
  | some a =>
    let h := c.heap.header a
    if !c.heap.isObject a || h.isFinalized || h.slot == 0 then (none, c)
    else
      let (callback, c) := c.onCallbacks (·.take h.slot.toNat)
      let c := modifyHeap (·.setHeader a { h with slot := 0 }) c
      match callback with
      | some callback => (some (a, callback), { c with queue := c.queue.startCallback })
      | none => (none, c)

/-- Notes how the callback of an object has ended. -/
def noteOutcome (a : Address) (fault : Option String) (c : Collector κ ω) : Collector κ ω :=
  let c := { c with queue := c.queue.finishCallback }
  match fault with
  | none => { c with statistics := c.statistics.recordRun }
  | some message =>
    { c with statistics := c.statistics.recordFault }.emit (.finalizerFault a.toNat message)

/-- Says that the finalization of an object is over, unless a finalizer was
registered for it meanwhile. -/
def settle (a : Address) (c : Collector κ ω) : Collector κ ω :=
  if c.heap.isObject a then
    let h := c.heap.header a
    if h.slot = 0 then modifyHeap (·.setHeader a (h.setFinalized true)) c else c
  else c

/-- Ends the turn of the object in flight. -/
def endTurn (c : Collector κ ω) : Collector κ ω :=
  let c := match c.queue.inFlight with
    | some a => settle a c
    | none => c
  { c with queue := c.queue.complete.2 }

/-- Runs a callback with the flag "inside a finalizer" raised, and notes how it
has ended. -/
def runJob (invoke : κ → Address → Collector κ ω → Outcome × Collector κ ω)
    (job : Address × κ) : Action (Collector κ ω) Unit := fun c =>
  let (fault, flag, c) := runCallback c.inFinalizer
    (fun inside c => invoke job.2 job.1 { c with inFinalizer := inside }) c
  let c := { c with inFinalizer := flag }
  match fault with
  | .ok fault => .ok () (noteOutcome job.1 fault c)
  | .error e => .error e c

/-- Gives the next object its turn. The answer is whether there was one. -/
def runNext (invoke : κ → Address → Collector κ ω → Outcome × Collector κ ω)
    (patience : Patience) : Action (Collector κ ω) Bool := fun c =>
  match c.queue.takeNext patience with
  | (.object _, queue) =>
    match beginTurn { c with queue } with
    | (none, c) => .ok true (endTurn c)
    | (some job, c) =>
      match runJob invoke job c with
      | .ok _ c => .ok true (endTurn c)
      | .error e c => .error e c
  | (_, queue) => .ok false { c with queue }

/-- Gives turns until nobody waits, at most `bound` of them. The answer is their
number. -/
def runTurns (invoke : κ → Address → Collector κ ω → Outcome × Collector κ ω) :
    (bound : Nat) → Action (Collector κ ω) Nat
  | 0, c => .ok 0 c
  | bound + 1, c =>
    match runNext invoke .whilePending c with
    | .ok true c =>
      match runTurns invoke bound c with
      | .ok n c => .ok (n + 1) c
      | .error e c => .error e c
    | .ok false c => .ok 0 c
    | .error e c => .error e c

/-- Runs the finalizers of all objects that wait. Inside a callback nothing runs. -/
def runPending (invoke : κ → Address → Collector κ ω → Outcome × Collector κ ω)
    (bound : Nat) : Action (Collector κ ω) Nat := fun c =>
  if c.inFinalizer then .ok 0 c else runTurns invoke bound c

end Collector

end GenerationalHeap
