/-
Journals: runs of a collector with what has happened in them.

A journal stands beside the collector. It lists what has happened that the collector logs or
counts: collections, whoever asked for them, objects that were placed, nurseries that grew,
requests that came to nothing, and finalizers that broke off; nothing of it is seen by the
collector.

* `Occurrence`, `Occurrence.events` — what has happened, and the events that tell of it.
* `Journal.after` — what a call adds to a journal. Collections that an allocation starts are
  entered one by one.
* `Journal.Kept` — the journal of a run from a new collector.
* `Journal.collector_after`, `Journal.exists_kept` — a journal is about what the collector does,
  and every run has one.
-/
import GenerationalHeap.Proofs.Passes
import GenerationalHeap.Proofs.Recorders

namespace GenerationalHeap

/-! ### Occurrences -/

/-- Something that has happened. -/
inductive Occurrence where
  /-- A collection has succeeded. -/
  | finished (report : Report)
  /-- A collection has failed. -/
  | failed (cycle : Nat) (target : Target) (reason : Reason)
  /-- A block was allocated. -/
  | placed (size : Nat)
  /-- The nursery was given more capacity. -/
  | grown (old new : Nat)
  /-- A request has found no room. -/
  | refused (requested used limit : Nat)
  /-- A finalizer has broken off. -/
  | faulted (object : Address) (message : String)

namespace Occurrence

/-- The number of a collection. -/
def cycle? : Occurrence → Option Nat
  | finished report => some report.cycle
  | failed cycle _ _ => some cycle
  | _ => none

/-- The events that tell of an occurrence. Those of a collection stand together, and if it has
failed, its start is the only one. -/
def events : Occurrence → List Event
  | finished r =>
    [.cycleStart r.cycle r.target.name r.reason, .phaseEnd r.cycle "mark" 0,
        .phaseEnd r.cycle "finalize" 0, .phaseEnd r.cycle "compact" 0]
      ++ (if 0 < r.finalizersEnqueued then [.finalizersQueued r.cycle r.finalizersEnqueued]
        else [])
      ++ (if 0 < r.weakCleared then [.weakCleared r.cycle r.weakCleared] else [])
      ++ [.cycleEnd r.cycle (milliseconds r.pauseNs) r.bytesReclaimed r.bytesPromoted
        r.heapUsedAfter]
  | failed cycle target reason => [.cycleStart cycle target.name reason.text]
  | placed _ => []
  | grown old new => [.heapGrowth (Space.arena .gen0).name old new]
  | refused requested used limit => [.allocationFailure requested used limit]
  | faulted object message => [.finalizerFault object.toNat message]

end Occurrence

/-! ### Journals -/

/-- A collector, and what has happened to it. -/
structure Journal (κ : Type) where
  collector : Collector κ TypeRegistry
  /-- What has happened, in this order. -/
  occurrences : List Occurrence := []

namespace Journal

variable {κ : Type}

instance : HoldsHeap (Journal κ) where
  heap j := j.collector.heap
  setHeap h j := { j with collector := { j.collector with heap := h } }

/-- Another collector. -/
def withCollector (j : Journal κ) (c : Collector κ TypeRegistry) : Journal κ :=
  { j with collector := c }

/-- Enters an occurrence that made `c` of the collector. -/
def entering (o : Occurrence) (c : Collector κ TypeRegistry) (j : Journal κ) : Journal κ :=
  { collector := c, occurrences := j.occurrences ++ [o] }

/-- All events that tell of what has happened. -/
def events (j : Journal κ) : List Event := j.occurrences.flatMap Occurrence.events

/-- Enters a collection, whether it fails or not. -/
def collectFor (target : Target) (reason : Reason) : Action (Journal κ) Report := fun j =>
  match Collector.collectFor target reason j.collector with
  | .ok report c => .ok report (j.entering (.finished report) c)
  | .error e c => .error e (j.entering (.failed (j.collector.cycles + 1) target reason) c)

/-- The journal as the owner of the heap. -/
def owner : Owner (Journal κ) where
  collect target reason := discard (collectFor target reason)
  nurseryGrown old new j :=
    j.entering (.grown old new) (Collector.owner.nurseryGrown old new j.collector)

/-- Enters a request that came to nothing for want of room. -/
def refused (e : Error) (j : Journal κ) : Journal κ :=
  match e with
  | .outOfMemory requested _ =>
    j.entering (.refused requested j.collector.heap.usedBytes j.collector.heap.maxSize)
      (Collector.noteFailure e j.collector)
  | _ => j.withCollector (Collector.noteFailure e j.collector)

/-- A journal follows the allocations of its collector. -/
def recorder : Recorder κ (Journal κ) where
  collector := collector
  owner := owner
  placed r hasFinalizer a j := j.entering (.placed r.blockSize)
    (Collector.recorder.placed r hasFinalizer a j.collector)
  refused := refused

/-- What a call leaves behind, whether it fails or not. -/
def after : Call κ → Journal κ → Journal κ
  | .allocate typeId size hasFinalizer build, j =>
    (recorder.allocateObject typeId size hasFinalizer build).final j
  | .collect target reason, j => (collectFor target reason).final j
  | k, j => j.withCollector (Collector.after k j.collector)

/-- Enters how the callback of an object has ended. -/
def noteOutcome (a : Address) (fault : Option String) (j : Journal κ) : Journal κ :=
  match fault with
  | none => j.withCollector (Collector.noteOutcome a none j.collector)
  | some message =>
    j.entering (.faulted a message) (Collector.noteOutcome a (some message) j.collector)

/-- One step: a call, or a part of the turn of a finalizer. -/
inductive Step : Journal κ → Journal κ → Prop where
  | call (k : Call κ) (j : Journal κ) : Step j (after k j)
  | takeNext (patience : Patience) (j : Journal κ) : Step j (j.withCollector
      { j.collector with queue := (j.collector.queue.takeNext patience).2 })
  | beginTurn (j : Journal κ) : Step j (j.withCollector j.collector.beginTurn.2)
  | flag (inside : Bool) (j : Journal κ) :
    Step j (j.withCollector { j.collector with inFinalizer := inside })
  | noteOutcome (a : Address) (fault : Option String) (j : Journal κ) :
    Step j (noteOutcome a fault j)
  | endTurn (j : Journal κ) : Step j (j.withCollector j.collector.endTurn)

/-- The journal of a run from a new collector. -/
inductive Kept (config : Config) (types : TypeRegistry) : Journal κ → Prop where
  | start (build : Build) {c : Collector κ TypeRegistry} :
    Collector.create config types build = .ok c → Kept config types { collector := c }
  | step {j j' : Journal κ} : Kept config types j → Step j j' → Kept config types j'

/-! ### The collector of a journal -/

variable {config : Config} {types : TypeRegistry} {j j' : Journal κ}

theorem seenAs_collectFor (target : Target) (reason : Reason) :
    Action.SeenAs (collector (κ := κ)) (collectFor target reason)
      (Collector.collectFor target reason) := by
  intro j
  rw [collectFor]
  cases Collector.collectFor target reason j.collector <;> rfl

/-- A journal holds its collector as a part. -/
theorem beside : HoldsHeap.Beside (collector (κ := κ)) withCollector :=
  ⟨fun _ _ => rfl, fun _ => rfl, fun _ _ => rfl⟩

theorem seenAs_owner : Owner.SeenAs (collector (κ := κ)) owner Collector.owner where
  heap _ := rfl
  onHeap := beside.seenAs_onHeap
  collect target reason := Action.seenAs_discard (seenAs_collectFor target reason)
  grown _ _ _ := rfl

theorem collector_refused (e : Error) (j : Journal κ) :
    (refused e j).collector = Collector.noteFailure e j.collector := by
  cases e <;> rfl

theorem seenAs_recorder : (recorder (κ := κ)).SeenAs collector Collector.recorder :=
  ⟨fun _ => rfl, seenAs_owner, fun _ _ _ _ => rfl, fun e j => (collector_refused e j).symm⟩

theorem seenAs_allocateObject (typeId : TypeId) (size : Nat) (hasFinalizer : Bool) (build : Build) :
    Action.SeenAs (collector (κ := κ)) (recorder.allocateObject typeId size hasFinalizer build)
      (Collector.allocateObjectIn build typeId size hasFinalizer) := by
  rw [Collector.allocateObject_eq_recorder]
  exact seenAs_recorder.allocateObject typeId size hasFinalizer build

/-- A journal is about what the collector does. -/
theorem collector_after (k : Call κ) (j : Journal κ) :
    (after k j).collector = Collector.after k j.collector := by
  cases k with
  | allocate typeId size hasFinalizer build =>
    exact ((seenAs_allocateObject typeId size hasFinalizer build).final j).symm
  | collect target reason => exact ((seenAs_collectFor target reason).final j).symm
  | _ => rfl

theorem collector_noteOutcome (a : Address) (fault : Option String) (j : Journal κ) :
    (noteOutcome a fault j).collector = Collector.noteOutcome a fault j.collector := by
  cases fault <;> rfl

theorem Step.collector (h : Step j j') : Collector.Step j.collector j'.collector := by
  cases h with
  | call k =>
    rw [collector_after]
    exact .call k _
  | takeNext patience => exact .takeNext patience _
  | beginTurn => exact .beginTurn _
  | flag inside => exact .flag inside _
  | noteOutcome a fault =>
    rw [collector_noteOutcome]
    exact .noteOutcome a fault _
  | endTurn => exact .endTurn _

/-- The collector of a journal is reached. -/
theorem Kept.reachable (h : Kept config types j) :
    Collector.Reachable config types j.collector := by
  induction h with
  | start build hcreate => exact .start build hcreate
  | step _ hs ih => exact ih.step hs.collector

/-- Every run has a journal. -/
theorem exists_kept {c : Collector κ TypeRegistry} (h : Collector.Reachable config types c) :
    ∃ j, Kept config types j ∧ j.collector = c := by
  induction h with
  | start build hcreate => exact ⟨_, .start build hcreate, rfl⟩
  | step _ hs ih =>
    obtain ⟨j, hj, rfl⟩ := ih
    cases hs with
    | call k => exact ⟨_, hj.step (.call k j), collector_after k j⟩
    | takeNext patience => exact ⟨_, hj.step (.takeNext patience j), rfl⟩
    | beginTurn => exact ⟨_, hj.step (.beginTurn j), rfl⟩
    | flag inside => exact ⟨_, hj.step (.flag inside j), rfl⟩
    | noteOutcome a fault =>
      exact ⟨_, hj.step (.noteOutcome a fault j), collector_noteOutcome a fault j⟩
    | endTurn => exact ⟨_, hj.step (.endTurn j), rfl⟩

end Journal

end GenerationalHeap
