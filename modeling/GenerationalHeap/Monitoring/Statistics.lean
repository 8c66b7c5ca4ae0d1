/-
The running statistics of a collector.

* `Statistics` — counters modulo `2 ^ 64`, the pauses, and the bytes in use
  after the last collection.
* `Statistics.recordCollection` and the other `record…` functions — what each
  event adds.
* `Summary`, `Statistics.summary` — a snapshot for readers.
* `Statistics.metrics` — the same for exports.
-/
import GenerationalHeap.Monitoring.Histogram
import GenerationalHeap.Monitoring.Metrics

namespace GenerationalHeap

/-- The running statistics of a collector. -/
structure Statistics where
  gen0Cycles : UInt64 := 0
  gen1Cycles : UInt64 := 0
  gen2Cycles : UInt64 := 0
  fullCycles : UInt64 := 0
  objectsAllocated : UInt64 := 0
  bytesAllocated : UInt64 := 0
  allocationFailures : UInt64 := 0
  objectsReclaimed : UInt64 := 0
  bytesReclaimed : UInt64 := 0
  objectsPromoted : UInt64 := 0
  bytesPromoted : UInt64 := 0
  finalizersEnqueued : UInt64 := 0
  finalizersRun : UInt64 := 0
  finalizersSuppressed : UInt64 := 0
  finalizerFaults : UInt64 := 0
  weakCleared : UInt64 := 0
  /-- The pauses of the collections, in nanoseconds. -/
  pauses : Histogram := {}
  /-- The bytes in use after the last collection. -/
  heapUsed : Nat := 0

/-- A snapshot of the statistics. Pauses are in milliseconds. -/
structure Summary where
  totalCycles : UInt64
  gen0Cycles : UInt64
  gen1Cycles : UInt64
  gen2Cycles : UInt64
  fullCycles : UInt64
  objectsAllocated : UInt64
  bytesAllocated : UInt64
  allocationFailures : UInt64
  objectsReclaimed : UInt64
  bytesReclaimed : UInt64
  objectsPromoted : UInt64
  bytesPromoted : UInt64
  finalizersEnqueued : UInt64
  finalizersRun : UInt64
  finalizersSuppressed : UInt64
  finalizerFaults : UInt64
  weakCleared : UInt64
  avgPauseMs : Float
  maxPauseMs : Float
  p99PauseMs : Float
  heapUsedBytes : Nat

namespace Statistics

/-! ### Recording -/

/-- Counts an allocation of a block. -/
def recordAllocation (s : Statistics) (bytes : Nat) : Statistics :=
  { s with
    objectsAllocated := s.objectsAllocated + 1
    bytesAllocated := s.bytesAllocated + UInt64.ofNat bytes }

/-- Counts an allocation that found no room. -/
def recordFailure (s : Statistics) : Statistics :=
  { s with allocationFailures := s.allocationFailures + 1 }

/-- Counts a collection of a target. -/
def countCycle (s : Statistics) : Target → Statistics
  | .gen0 => { s with gen0Cycles := s.gen0Cycles + 1 }
  | .gen1 => { s with gen1Cycles := s.gen1Cycles + 1 }
  | .gen2 => { s with gen2Cycles := s.gen2Cycles + 1 }
  | .full => { s with fullCycles := s.fullCycles + 1 }

/-- Adds the counts of a finished collection. -/
def recordCollection (s : Statistics) (r : Report) : Statistics :=
  { s.countCycle r.target with
    objectsReclaimed := s.objectsReclaimed + UInt64.ofNat r.objectsReclaimed
    bytesReclaimed := s.bytesReclaimed + UInt64.ofNat r.bytesReclaimed
    objectsPromoted := s.objectsPromoted + UInt64.ofNat r.objectsPromoted
    bytesPromoted := s.bytesPromoted + UInt64.ofNat r.bytesPromoted
    finalizersEnqueued := s.finalizersEnqueued + UInt64.ofNat r.finalizersEnqueued
    weakCleared := s.weakCleared + UInt64.ofNat r.weakCleared
    pauses := s.pauses.record (UInt64.ofNat r.pauseNs)
    heapUsed := r.heapUsedAfter }

/-- Counts a finalizer that returned. -/
def recordRun (s : Statistics) : Statistics := { s with finalizersRun := s.finalizersRun + 1 }

/-- Counts a finalizer that broke off. -/
def recordFault (s : Statistics) : Statistics :=
  { s with finalizerFaults := s.finalizerFaults + 1 }

/-- Counts a finalizer that was suppressed. -/
def recordSuppressed (s : Statistics) : Statistics :=
  { s with finalizersSuppressed := s.finalizersSuppressed + 1 }

/-- Sets everything back but the bytes in use. -/
def reset (s : Statistics) : Statistics := { heapUsed := s.heapUsed }

/-! ### Reading -/

/-- The number of collections of a target. -/
def cyclesFor (s : Statistics) : Target → UInt64
  | .gen0 => s.gen0Cycles
  | .gen1 => s.gen1Cycles
  | .gen2 => s.gen2Cycles
  | .full => s.fullCycles

/-- The number of collections of all targets. -/
def totalCycles (s : Statistics) : UInt64 :=
  s.gen0Cycles + s.gen1Cycles + s.gen2Cycles + s.fullCycles

/-- A snapshot for readers. -/
def summary (s : Statistics) : Summary :=
  { totalCycles := s.totalCycles
    gen0Cycles := s.gen0Cycles
    gen1Cycles := s.gen1Cycles
    gen2Cycles := s.gen2Cycles
    fullCycles := s.fullCycles
    objectsAllocated := s.objectsAllocated
    bytesAllocated := s.bytesAllocated
    allocationFailures := s.allocationFailures
    objectsReclaimed := s.objectsReclaimed
    bytesReclaimed := s.bytesReclaimed
    objectsPromoted := s.objectsPromoted
    bytesPromoted := s.bytesPromoted
    finalizersEnqueued := s.finalizersEnqueued
    finalizersRun := s.finalizersRun
    finalizersSuppressed := s.finalizersSuppressed
    finalizerFaults := s.finalizerFaults
    weakCleared := s.weakCleared
    avgPauseMs := milliseconds s.pauses.mean
    maxPauseMs := milliseconds s.pauses.max
    p99PauseMs := milliseconds s.pauses.p99
    heapUsedBytes := s.heapUsed }

/-- A snapshot for exports. -/
def metrics (s : Statistics) : Metrics :=
  { entries :=
      [("gengc_collections_total", .counter s.totalCycles),
        ("gengc_gen0_collections_total", .counter s.gen0Cycles),
        ("gengc_gen1_collections_total", .counter s.gen1Cycles),
        ("gengc_gen2_collections_total", .counter s.gen2Cycles),
        ("gengc_full_collections_total", .counter s.fullCycles),
        ("gengc_allocated_bytes_total", .counter s.bytesAllocated),
        ("gengc_reclaimed_bytes_total", .counter s.bytesReclaimed),
        ("gengc_promoted_bytes_total", .counter s.bytesPromoted),
        ("gengc_finalizers_run_total", .counter s.finalizersRun),
        ("gengc_finalizer_faults_total", .counter s.finalizerFaults),
        ("gengc_weak_cleared_total", .counter s.weakCleared),
        ("gengc_heap_used_bytes", .gauge (countToFloat s.heapUsed).toBits),
        ("gengc_pause_max_ms", .gauge (milliseconds s.pauses.max).toBits)] }

end Statistics

end GenerationalHeap
