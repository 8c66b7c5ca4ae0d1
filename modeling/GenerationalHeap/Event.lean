/-
The events of a collector.

* `Event` — what happened.
* `Level` — how important an event is.
* `Event.text` — an event as a line for readers.
* `Event.fields`, `Event.json` — an event as a record of named fields.
* `Event.ofKind?` — the event that such a record stands for (`ofKind?_kind`).
-/
import GenerationalHeap.Report
import GenerationalHeap.Text.Hex
import GenerationalHeap.Text.Quoted

namespace GenerationalHeap

/-! ### Levels -/

/-- How important an event is, the most important first. -/
inductive Level where
  | error
  | warn
  | info
  | debug
  | trace
  deriving DecidableEq, Inhabited

namespace Level

/-- All levels, the most important first. -/
def all : List Level := [.error, .warn, .info, .debug, .trace]

/-- The place of a level in the order of importance. -/
def rank : Level → Nat
  | .error => 0
  | .warn => 1
  | .info => 2
  | .debug => 3
  | .trace => 4

/-- The name of a level. -/
def name : Level → String
  | .error => "Error"
  | .warn => "Warn"
  | .info => "Info"
  | .debug => "Debug"
  | .trace => "Trace"

end Level

/-! ### Events -/

/-- What happened. -/
inductive Event where
  | cycleStart (cycle : Nat) (target reason : String)
  | phaseEnd (cycle : Nat) (phase : String) (durationMs : Float)
  | cycleEnd (cycle : Nat) (pauseMs : Float) (reclaimedBytes promotedBytes heapUsed : Nat)
  /-- Unreachable objects were queued for finalization. -/
  | finalizersQueued (cycle count : Nat)
  /-- Weak handles were cleared. -/
  | weakCleared (cycle count : Nat)
  | allocationFailure (size heapUsed heapLimit : Nat)
  /-- A finalizer broke off. -/
  | finalizerFault (object : Nat) (message : String)
  /-- An arena was given more capacity for an allocation. -/
  | heapGrowth (generation : String) (oldCapacity newCapacity : Nat)
  deriving Inhabited

/-- The value of a field of an event. -/
inductive Field where
  | count (n : Nat)
  | text (s : String)
  | duration (milliseconds : Float)

/-- The number in a field. -/
def Field.count? : Field → Option Nat
  | .count n => some n
  | _ => none

/-- The text in a field. -/
def Field.text? : Field → Option String
  | .text s => some s
  | _ => none

/-- The milliseconds in a field. -/
def Field.duration? : Field → Option Float
  | .duration x => some x
  | _ => none

/-- The written value of a field. -/
def Field.json : Field → String
  | .count n => toString n
  | .text s => Text.quoted s
  | .duration x => Text.number.render x

namespace Event

/-- The level that an event is logged at. -/
def level : Event → Level
  | .allocationFailure .. | .finalizerFault .. => .error
  | .heapGrowth .. => .warn
  | .cycleStart .. | .cycleEnd .. => .info
  | .phaseEnd .. | .finalizersQueued .. | .weakCleared .. => .debug

/-- An event as a line for readers. -/
def text : Event → String
  | .cycleStart cycle target reason => s!"[GC] Cycle {cycle} started ({target}, reason: {reason})"
  | .phaseEnd cycle phase duration =>
    s!"[GC] Cycle {cycle}: {phase} phase completed (" ++ Text.fixed 2 duration ++ "ms)"
  | .cycleEnd cycle pause reclaimed promoted heapUsed =>
    s!"[GC] Cycle {cycle} completed (" ++ Text.fixed 2 pause ++
      s!"ms, reclaimed {reclaimed} bytes, promoted {promoted} bytes, heap used {heapUsed})"
  | .finalizersQueued cycle count =>
    s!"[GC] Cycle {cycle}: {count} objects queued for finalization"
  | .weakCleared cycle count => s!"[GC] Cycle {cycle}: {count} weak handles cleared"
  | .allocationFailure size heapUsed heapLimit =>
    s!"[GC] Allocation failure: {size} bytes (heap used: {heapUsed} of {heapLimit})"
  | .finalizerFault object message =>
    "[GC] Finalizer for " ++ Text.hex object ++ " panicked: " ++ message
  | .heapGrowth generation old new => s!"[GC] {generation} grown from {old} to {new} bytes"

/-- The kind of an event. -/
def kind : Event → String
  | .cycleStart .. => "cycle_start"
  | .phaseEnd .. => "phase_end"
  | .cycleEnd .. => "cycle_end"
  | .finalizersQueued .. => "finalizers_queued"
  | .weakCleared .. => "weak_cleared"
  | .allocationFailure .. => "allocation_failure"
  | .finalizerFault .. => "finalizer_fault"
  | .heapGrowth .. => "heap_growth"

/-- The fields of an event, without its kind. -/
def fields : Event → List (String × Field)
  | .cycleStart cycle target reason =>
    [("cycle", .count cycle), ("target", .text target), ("reason", .text reason)]
  | .phaseEnd cycle phase duration =>
    [("cycle", .count cycle), ("phase", .text phase), ("duration_ms", .duration duration)]
  | .cycleEnd cycle pause reclaimed promoted heapUsed =>
    [("cycle", .count cycle), ("pause_ms", .duration pause), ("reclaimed_bytes", .count reclaimed),
      ("promoted_bytes", .count promoted), ("heap_used", .count heapUsed)]
  | .finalizersQueued cycle count => [("cycle", .count cycle), ("count", .count count)]
  | .weakCleared cycle count => [("cycle", .count cycle), ("count", .count count)]
  | .allocationFailure size heapUsed heapLimit =>
    [("size", .count size), ("heap_used", .count heapUsed), ("heap_limit", .count heapLimit)]
  | .finalizerFault object message => [("object", .count object), ("message", .text message)]
  | .heapGrowth generation old new =>
    [("generation", .text generation), ("old_capacity", .count old), ("new_capacity", .count new)]

/-- The event of a kind, with the values of its fields by their names. -/
def ofKind? (kind : String) (count : String → Nat) (text : String → String)
    (duration : String → Float) : Option Event :=
  match kind with
  | "cycle_start" => some (.cycleStart (count "cycle") (text "target") (text "reason"))
  | "phase_end" => some (.phaseEnd (count "cycle") (text "phase") (duration "duration_ms"))
  | "cycle_end" =>
    some (.cycleEnd (count "cycle") (duration "pause_ms") (count "reclaimed_bytes")
      (count "promoted_bytes") (count "heap_used"))
  | "finalizers_queued" => some (.finalizersQueued (count "cycle") (count "count"))
  | "weak_cleared" => some (.weakCleared (count "cycle") (count "count"))
  | "allocation_failure" =>
    some (.allocationFailure (count "size") (count "heap_used") (count "heap_limit"))
  | "finalizer_fault" => some (.finalizerFault (count "object") (text "message"))
  | "heap_growth" =>
    some (.heapGrowth (text "generation") (count "old_capacity") (count "new_capacity"))
  | _ => none

theorem ofKind?_kind (e : Event) :
    ofKind? e.kind (fun name => ((e.fields.lookup name).bind Field.count?).getD 0)
      (fun name => ((e.fields.lookup name).bind Field.text?).getD "")
      (fun name => ((e.fields.lookup name).bind Field.duration?).getD 0) = some e := by
  cases e <;> rfl

/-- An event as one object, its kind first. -/
def json (e : Event) : String :=
  Text.object <|
    ("type", Text.quoted e.kind) :: e.fields.map fun (name, value) => (name, value.json)

end Event

end GenerationalHeap
