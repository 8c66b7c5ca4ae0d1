/-
The state of a collector, and the host around it.

* `Phase` — where a collection stands.
* `Host` — what the collector asks of the program it serves: the types, and
  what happens when the providers of root slots are visited.
* `Collector` — everything that a collector keeps.
* `Collector.create` — a new collector, if the configuration is sound.
* `Collector.emit` — how events are logged.

Design notes: the host is a value inside the collector's state, so that a visit
may change it, and callbacks, which are values of any kind `κ`, may too. There
is no clock: durations are zero.
-/
import GenerationalHeap.Allocation
import GenerationalHeap.Compaction
import GenerationalHeap.Event.Log
import GenerationalHeap.Finalization
import GenerationalHeap.Monitoring.Statistics
import GenerationalHeap.Trace

namespace GenerationalHeap

/-! ### Phases -/

/-- Where a collection stands. -/
inductive Phase where
  /-- No collection is under way. -/
  | idle
  | marking
  /-- Objects that need finalization are kept alive. -/
  | finalizing
  /-- Survivors move and dead objects are given up. -/
  | compacting
  deriving DecidableEq, Inhabited

/-- The name of a phase. -/
def Phase.name : Phase → String
  | .idle => "Idle"
  | .marking => "Marking"
  | .finalizing => "Finalizing"
  | .compacting => "Compacting"

/-! ### The host -/

/-- What the collector asks of the program it serves. -/
class Host (ω : Type) where
  /-- The types as the host knows them now. -/
  types : ω → TypeSystem
  /-- The host learns that a provider of root slots is visited. -/
  visited : (provider : Nat) → Phase → ω → ω

/-- A registry of types takes no notice of visits. -/
instance : Host TypeRegistry where
  types := TypeRegistry.info?
  visited _ _ r := r

/-! ### The collector -/

/-- The state of a collector. Callbacks are values of type `κ`, the host is a
value of type `ω`. -/
structure Collector (κ ω : Type) where
  config : Config
  heap : Heap
  roots : HandleTable Address := {}
  providers : HandleTable RootSlots := {}
  weak : WeakTable := {}
  barrier : Barrier := {}
  callbacks : Callbacks κ := {}
  queue : FinalizationQueue := {}
  statistics : Statistics := {}
  /-- The collector's own log. -/
  log : EventLog
  /-- The process-wide log, which takes events only if the collector is verbose. -/
  processLog : EventLog := {}
  /-- The number of collections that were begun. -/
  cycles : Nat := 0
  phase : Phase := .idle
  /-- Whether a finalizer's callback is running. -/
  inFinalizer : Bool := false
  host : ω

instance {κ ω : Type} : HoldsHeap (Collector κ ω) where
  heap c := c.heap
  setHeap h c := { c with heap := h }

namespace Collector

variable {κ ω : Type}

/-- The configuration of a collector's own log. -/
def logConfig (config : Config) : LogConfig :=
  { level := .debug, console := false, history := config.eventHistory }

/-- A new collector without objects, unless its configuration is refused. -/
def create (config : Config) (host : ω) (build : Build := .checked) :
    Except Error (Collector κ ω) :=
  match config.check build with
  | .error e => .error e
  | .ok () =>
    .ok
      { config
        heap := .empty config.gen0Size config.maxHeapSize
        log := { config := logConfig config }
        host }

/-- Logs an event. -/
def emit (c : Collector κ ω) (e : Event) : Collector κ ω :=
  { c with
    log := c.log.record e
    processLog := if c.config.verbose then c.processLog.record e else c.processLog }

/-- The types as the host knows them now. It is unfolded where it is used, so that
a use keeps the host alone, and not the heap beside it. -/
@[macro_inline] def types [Host ω] (c : Collector κ ω) : TypeSystem := Host.types c.host

/-- Whether a collection is under way. -/
def isCollecting (c : Collector κ ω) : Bool := c.phase != .idle

end Collector

end GenerationalHeap
