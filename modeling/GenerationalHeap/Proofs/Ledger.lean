/-
Ledgers: runs of a collector that keep the books.

A ledger stands beside the collector. It lists the blocks that were allocated and the reports of
the collections that succeeded, and counts those that failed, whoever asked for them; nothing of
it is seen by the collector.

* `Ledger.after` — what a call adds to a ledger. Collections that an allocation starts are
  entered one by one.
* `Ledger.Kept` — the ledger of a run from a new collector.
* `Ledger.collector_after`, `Ledger.exists_kept` — a ledger is about what the collector does, and
  every run has one.
-/
import GenerationalHeap.Proofs.Passes
import GenerationalHeap.Proofs.Recorders

namespace GenerationalHeap

/-! ### Ledgers -/

/-- A collection that has succeeded. -/
structure Entry where
  /-- How many objects there were in the spaces that it collected. -/
  condemned : Nat
  report : Report

/-- A collector, and the books that are kept of it. -/
structure Ledger (κ : Type) where
  collector : Collector κ TypeRegistry
  /-- The sizes of the blocks that were allocated, the latest first. -/
  blocks : List Nat := []
  /-- The collections that succeeded, the latest first. -/
  entries : List Entry := []
  /-- The number of collections that failed. -/
  failed : Nat := 0

namespace Ledger

variable {κ : Type}

instance : HoldsHeap (Ledger κ) where
  heap l := l.collector.heap
  setHeap h l := { l with collector := { l.collector with heap := h } }

/-- Another collector. -/
def withCollector (l : Ledger κ) (c : Collector κ TypeRegistry) : Ledger κ :=
  { l with collector := c }

/-- Enters a collection that made `c` of the collector. -/
def collected (target : Target) (report : Report) (c : Collector κ TypeRegistry) (l : Ledger κ) :
    Ledger κ :=
  { l with
    collector := c
    entries := ⟨l.collector.heap.condemnedCount target, report⟩ :: l.entries }

/-- Counts a collection that failed and left `c` behind. -/
def failedWith (c : Collector κ TypeRegistry) (l : Ledger κ) : Ledger κ :=
  { l with collector := c, failed := l.failed + 1 }

/-- Enters a block that was allocated. -/
def allocated (size : Nat) (l : Ledger κ) : Ledger κ :=
  { l with
    collector :=
      { l.collector with statistics := l.collector.statistics.recordAllocation size }
    blocks := size :: l.blocks }

/-- Keeps the books of a collection. -/
def collectFor (target : Target) (reason : Reason) : Action (Ledger κ) Report := fun l =>
  match Collector.collectFor target reason l.collector with
  | .ok report c => .ok report (l.collected target report c)
  | .error e c => .error e (l.failedWith c)

/-- The ledger as the owner of the heap. -/
def owner : Owner (Ledger κ) where
  collect target reason := discard (collectFor target reason)
  nurseryGrown old new l := l.withCollector (Collector.owner.nurseryGrown old new l.collector)

/-- A ledger keeps the books of allocations, with the collections that they start. -/
def recorder : Recorder κ (Ledger κ) where
  collector := collector
  owner := owner
  placed r _ _ := allocated r.blockSize
  refused e l := l.withCollector (Collector.noteFailure e l.collector)

/-- What a call leaves behind, whether it fails or not. -/
def after : Call κ → Ledger κ → Ledger κ
  | .allocate typeId size hasFinalizer build, l =>
    (recorder.allocateObject typeId size hasFinalizer build).final l
  | .collect target reason, l => (collectFor target reason).final l
  | k, l => l.withCollector (Collector.after k l.collector)

/-- One step: a call, or a part of the turn of a finalizer. -/
inductive Step : Ledger κ → Ledger κ → Prop where
  | call (k : Call κ) (l : Ledger κ) : Step l (after k l)
  | takeNext (patience : Patience) (l : Ledger κ) : Step l (l.withCollector
      { l.collector with queue := (l.collector.queue.takeNext patience).2 })
  | beginTurn (l : Ledger κ) : Step l (l.withCollector l.collector.beginTurn.2)
  | flag (inside : Bool) (l : Ledger κ) :
    Step l (l.withCollector { l.collector with inFinalizer := inside })
  | noteOutcome (a : Address) (fault : Option String) (l : Ledger κ) :
    Step l (l.withCollector (Collector.noteOutcome a fault l.collector))
  | endTurn (l : Ledger κ) : Step l (l.withCollector l.collector.endTurn)

/-- The ledger of a run from a new collector. -/
inductive Kept (config : Config) (types : TypeRegistry) : Ledger κ → Prop where
  | start (build : Build) {c : Collector κ TypeRegistry} :
    Collector.create config types build = .ok c → Kept config types { collector := c }
  | step {l l' : Ledger κ} : Kept config types l → Step l l' → Kept config types l'

/-! ### The collector of a ledger -/

variable {config : Config} {types : TypeRegistry} {l l' : Ledger κ}

theorem seenAs_collectFor (target : Target) (reason : Reason) :
    Action.SeenAs (collector (κ := κ)) (collectFor target reason)
      (Collector.collectFor target reason) := by
  intro l
  rw [collectFor]
  cases Collector.collectFor target reason l.collector <;> rfl

/-- A ledger holds its collector as a part. -/
theorem beside : HoldsHeap.Beside (collector (κ := κ)) withCollector :=
  ⟨fun _ _ => rfl, fun _ => rfl, fun _ _ => rfl⟩

theorem seenAs_owner : Owner.SeenAs (collector (κ := κ)) owner Collector.owner where
  heap _ := rfl
  onHeap := beside.seenAs_onHeap
  collect target reason := Action.seenAs_discard (seenAs_collectFor target reason)
  grown _ _ _ := rfl

theorem seenAs_recorder : (recorder (κ := κ)).SeenAs collector Collector.recorder :=
  ⟨fun _ => rfl, seenAs_owner, fun _ _ _ _ => rfl, fun _ _ => rfl⟩

/-- A ledger is about what the collector does. -/
theorem collector_after (k : Call κ) (l : Ledger κ) :
    (after k l).collector = Collector.after k l.collector := by
  cases k with
  | allocate typeId size hasFinalizer build =>
    show _ = (Collector.allocateObjectIn build typeId size hasFinalizer).final l.collector
    rw [Collector.allocateObject_eq_recorder]
    exact ((seenAs_recorder.allocateObject typeId size hasFinalizer build).final l).symm
  | collect target reason => exact ((seenAs_collectFor target reason).final l).symm
  | _ => rfl

theorem Step.collector (h : Step l l') : Collector.Step l.collector l'.collector := by
  cases h with
  | call k =>
    rw [collector_after]
    exact .call k _
  | takeNext patience => exact .takeNext patience _
  | beginTurn => exact .beginTurn _
  | flag inside => exact .flag inside _
  | noteOutcome a fault => exact .noteOutcome a fault _
  | endTurn => exact .endTurn _

/-- The collector of a ledger is reached. -/
theorem Kept.reachable (h : Kept config types l) :
    Collector.Reachable config types l.collector := by
  induction h with
  | start build hcreate => exact .start build hcreate
  | step _ hs ih => exact ih.step hs.collector

/-- Every run has a ledger. -/
theorem exists_kept {c : Collector κ TypeRegistry} (h : Collector.Reachable config types c) :
    ∃ l, Kept config types l ∧ l.collector = c := by
  induction h with
  | start build hcreate => exact ⟨_, .start build hcreate, rfl⟩
  | step _ hs ih =>
    obtain ⟨l, hl, rfl⟩ := ih
    cases hs with
    | call k => exact ⟨_, hl.step (.call k l), collector_after k l⟩
    | takeNext patience => exact ⟨_, hl.step (.takeNext patience l), rfl⟩
    | beginTurn => exact ⟨_, hl.step (.beginTurn l), rfl⟩
    | flag inside => exact ⟨_, hl.step (.flag inside l), rfl⟩
    | noteOutcome a fault => exact ⟨_, hl.step (.noteOutcome a fault l), rfl⟩
    | endTurn => exact ⟨_, hl.step (.endTurn l), rfl⟩

end Ledger

end GenerationalHeap
