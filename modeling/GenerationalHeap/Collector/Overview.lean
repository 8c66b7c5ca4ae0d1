/-
A look at a collector: occupancy, diagnostics, and its text for debugging.

* `Occupancy` — the bytes and objects in each space and the sizes of the tables.
* `Occupancy.utilization` — the part of the heap limit that is in use.
* `Collector.diagnostics` — the same and more as texts by name.
-/
import GenerationalHeap.Collector.State

namespace GenerationalHeap

/-- The version of this collector. -/
def version : String := "0.1.0"

/-- The occupancy of a heap and the sizes of a collector's tables. -/
structure Occupancy where
  gen0Used : Nat := 0
  gen0Capacity : Nat := 0
  gen0Objects : Nat := 0
  gen1Used : Nat := 0
  gen1Objects : Nat := 0
  gen2Used : Nat := 0
  gen2Objects : Nat := 0
  largeUsed : Nat := 0
  largeObjects : Nat := 0
  largeFreeBlocks : Nat := 0
  largeFreeBytes : Nat := 0
  usedBytes : Nat := 0
  maxBytes : Nat := 0
  rememberedHolders : Nat := 0
  rootHandles : Nat := 0
  rootProviders : Nat := 0
  weakHandles : Nat := 0
  registeredFinalizers : Nat := 0

namespace Occupancy

/-- The part of the heap limit that is in use; zero without a limit. -/
def utilization (o : Occupancy) : Float :=
  if o.maxBytes = 0 then 0.0 else countToFloat o.usedBytes / countToFloat o.maxBytes

/-- The bytes in use in a space. -/
def usedIn (o : Occupancy) : Space → Nat
  | .arena .gen0 => o.gen0Used
  | .arena .gen1 => o.gen1Used
  | .arena .gen2 => o.gen2Used
  | .large => o.largeUsed

end Occupancy

namespace Collector

variable {κ ω : Type}

/-- The occupancy of a collector. -/
def occupancy (c : Collector κ ω) : Occupancy :=
  let h := c.heap
  { gen0Used := h.usedIn (.arena .gen0)
    gen0Capacity := (h.arena .gen0).capacity
    gen0Objects := h.objectCount (.arena .gen0)
    gen1Used := h.usedIn (.arena .gen1)
    gen1Objects := h.objectCount (.arena .gen1)
    gen2Used := h.usedIn (.arena .gen2)
    gen2Objects := h.objectCount (.arena .gen2)
    largeUsed := h.usedIn .large
    largeObjects := h.objectCount .large
    largeFreeBlocks := h.large.free.length
    largeFreeBytes := Block.total h.large.free
    usedBytes := h.usedBytes
    maxBytes := h.maxSize
    rememberedHolders := c.barrier.remembered.size
    rootHandles := c.roots.size
    rootProviders := c.providers.size
    weakHandles := c.weak.handles.size
    registeredFinalizers := c.callbacks.size }

/-- Diagnostics as texts by name. -/
def diagnostics (c : Collector κ ω) : List (String × String) :=
  let o := c.occupancy
  [("state", c.phase.name), ("cycle_count", toString c.cycles),
    ("heap_used", toString o.usedBytes), ("heap_max", toString o.maxBytes),
    ("heap_utilization", Text.fixed 2 o.utilization)]
  ++ Space.all.map (fun s => (s.name ++ "_used", toString (o.usedIn s)))
  ++ [("gen0_capacity", toString o.gen0Capacity),
    ("remembered_holders", toString o.rememberedHolders),
    ("weak_handles", toString o.weakHandles),
    ("pending_finalizers", toString c.queue.size),
    ("finalizer_thread", if c.config.finalizerThread then "true" else "false"),
    ("max_pause_ms", Text.fixed 3 c.statistics.summary.maxPauseMs)]

/-- The collector as diagnostics show it, without a background thread. -/
def debugText (c : Collector κ ω) : String :=
  "GarbageCollector \x7b state: " ++ c.phase.name ++ ", cycle_count: " ++ toString c.cycles
    ++ ", finalizer_thread: None \x7d"

/-- The mutator's view of the collector as diagnostics show it. -/
def mutatorText (c : Collector κ ω) : String :=
  "Mutator \x7b heap_used: " ++ toString c.heap.usedBytes ++ " \x7d"

end Collector

end GenerationalHeap
