/-
What a collection reports.

* `Reason` — why a collection runs.
* `Report` — the counts of one finished collection.
* `Report.summary`, `Report.reclaimRatio` — a line for readers, and the part of
  the heap that was reclaimed.
-/
import GenerationalHeap.Target
import GenerationalHeap.Text.Decimal

namespace GenerationalHeap

/-- A count of at most 64 bits as a float. -/
def countToFloat (n : Nat) : Float := (UInt64.ofNat n).toFloat

/-! ### Reasons -/

/-- Why a collection runs. -/
inductive Reason where
  /-- It was asked for. -/
  | explicit
  /-- The nursery had no room for an allocation. -/
  | nurseryFull (requested : Nat)
  /-- An allocation failed after a smaller collection, or at the heap limit. -/
  | allocationFailure (requested : Nat)
  /-- Large objects use more than their budget. -/
  | largeBudget (used budget : Nat)
  deriving DecidableEq

namespace Reason

/-- The kind of a reason. -/
def kind : Reason → String
  | .explicit => "Explicit"
  | .nurseryFull _ => "Gen0Exhausted"
  | .allocationFailure _ => "AllocationFailure"
  | .largeBudget .. => "LargeObjectBudget"

/-- The byte counts of a reason, by name. -/
def amounts : Reason → List (String × Nat)
  | .explicit => []
  | .nurseryFull requested | .allocationFailure requested => [("requested", requested)]
  | .largeBudget used budget => [("used", used), ("budget", budget)]

/-- The reason of a kind, with its byte counts. -/
def ofKind? (kind : String) (amount : String → Nat) : Option Reason :=
  match kind with
  | "Explicit" => some .explicit
  | "Gen0Exhausted" => some (.nurseryFull (amount "requested"))
  | "AllocationFailure" => some (.allocationFailure (amount "requested"))
  | "LargeObjectBudget" => some (.largeBudget (amount "used") (amount "budget"))
  | _ => none

theorem ofKind?_kind (r : Reason) :
    ofKind? r.kind (fun name => (r.amounts.lookup name).getD 0) = some r := by
  cases r <;> rfl

/-- The text of a reason. -/
def text : Reason → String
  | .explicit => "explicit"
  | .nurseryFull requested => s!"gen0 exhausted ({requested} bytes requested)"
  | .allocationFailure requested => s!"allocation failure ({requested} bytes requested)"
  | .largeBudget used budget => s!"large object budget ({used} of {budget} bytes)"

end Reason

/-! ### Reports -/

/-- The counts of one finished collection. Times are in nanoseconds. -/
structure Report where
  /-- The number of the collection, counted from one. -/
  cycle : Nat
  target : Target
  reason : String
  markNs : Nat := 0
  finalizeNs : Nat := 0
  compactNs : Nat := 0
  pauseNs : Nat := 0
  heapUsedBefore : Nat := 0
  heapUsedAfter : Nat := 0
  objectsMarked : Nat := 0
  survivors : Nat := 0
  objectsReclaimed : Nat := 0
  bytesReclaimed : Nat := 0
  objectsPromoted : Nat := 0
  bytesPromoted : Nat := 0
  largeObjectsSwept : Nat := 0
  finalizersEnqueued : Nat := 0
  weakCleared : Nat := 0
  deriving DecidableEq

/-- Nanoseconds as milliseconds. -/
def milliseconds (nanoseconds : Nat) : Float := countToFloat nanoseconds / 1000000.0

namespace Report

/-- The pause as seconds and the nanoseconds behind them. -/
def pause (r : Report) : Nat × Nat := (r.pauseNs / 1000000000, r.pauseNs % 1000000000)

/-- The reclaimed bytes as a part of the bytes in use before; zero if there
were none. -/
def reclaimRatio (r : Report) : Float :=
  if r.heapUsedBefore = 0 then 0.0
  else countToFloat r.bytesReclaimed / countToFloat r.heapUsedBefore

/-- A line for readers. -/
def summary (r : Report) : String :=
  s!"cycle {r.cycle} ({r.target.name}, {r.reason}): " ++
    s!"{r.heapUsedBefore} -> {r.heapUsedAfter} bytes, {r.objectsReclaimed} reclaimed, " ++
    s!"{r.objectsPromoted} promoted, {r.finalizersEnqueued} finalizable, " ++
    Text.fixed 3 (milliseconds r.pauseNs) ++ "ms"

end Report

end GenerationalHeap
