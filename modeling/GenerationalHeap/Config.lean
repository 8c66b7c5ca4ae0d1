/-
The configuration of a collector.

* `Config` — sizes, budgets and switches, with the defaults.
* `Config.check` — the first reason to refuse a configuration, if any.
* `Config.ofEnvironment` — the defaults, overridden by environment variables.

An environment is a function from names to texts. A variable whose text is not
a number leaves the default; a switch is on for `1` and for `true` in any mix
of upper and lower case, and off for any other text.
-/
import GenerationalHeap.Object.Header

namespace GenerationalHeap

/-- The configuration of a collector. Sizes and budgets are in bytes. -/
structure Config where
  /-- The capacity of the nursery at the start. -/
  gen0Size : Nat := 256 * 1024
  /-- The most bytes in use over all spaces. -/
  maxHeapSize : Nat := 256 * 1024 * 1024
  /-- Payloads above this size go to the large object space. -/
  largeObjectThreshold : Nat := 85000
  /-- More than this in use in generation 1 makes allocation collect it too. -/
  gen1Budget : Nat := 1024 * 1024
  /-- More than this in use in generation 2 makes allocation collect all. -/
  gen2Budget : Nat := 16 * 1024 * 1024
  /-- More than this in use in the large object space makes allocation collect all. -/
  lohBudget : Nat := 16 * 1024 * 1024
  /-- Whether queued finalizers run in the background. -/
  finalizerThread : Bool := true
  /-- Whether an embedding program is to stop when the heap is corrupt. -/
  abortOnCorruption : Bool := true
  /-- Whether events go to the process-wide log too. -/
  verbose : Bool := false
  /-- How many events the collector's own log keeps. -/
  eventHistory : Nat := 256
  deriving DecidableEq

namespace Config

/-- The first reason to refuse a configuration, if there is one. Nothing keeps the
block of an object at the threshold from having a size that is no word. -/
def check (c : Config) (build : Build := .checked) : Except Error Unit := do
  if c.maxHeapSize = 0 then throw (.refusedConfig .heapLimitZero)
  if c.gen0Size < minNurserySize then throw (.refusedConfig .nurseryTooSmall)
  if c.gen0Size > c.maxHeapSize then throw (.refusedConfig .nurseryAboveHeapLimit)
  if c.maxHeapSize > spaceLimit then throw (.refusedConfig .heapLimitTooLarge)
  if c.largeObjectThreshold = 0 then throw (.refusedConfig .thresholdZero)
  let largest ← build.add c.largeObjectThreshold headerSize
  if largest > c.gen0Size then throw (.refusedConfig .thresholdAboveNursery)
  if c.gen1Budget = 0 ∨ c.gen2Budget = 0 ∨ c.lohBudget = 0 then
    throw (.refusedConfig .budgetZero)
  if c.eventHistory = 0 then throw (.refusedConfig .historyZero)

end Config

/-! ### Environment variables -/

/-- The texts of the environment variables that are set. -/
abbrev Environment := String → Option String

namespace Environment

/-- The number that decimal digits write, if all characters are digits and
there is at least one. -/
def digits? (cs : List Char) : Option Nat :=
  if cs.isEmpty then none
  else cs.foldl (fun acc c => do
    let n ← acc
    if c.isDigit then some (10 * n + (c.toNat - '0'.toNat)) else none) (some 0)

/-- A size of at most 64 bits: digits, with or without a plus sign. -/
def size? (text : String) : Option Nat := do
  let digits := match text.toList with
    | '+' :: rest => rest
    | all => all
  let n ← digits? digits
  if n < UInt64.size then some n else none

/-- Whether a text switches something on. -/
def isOn (text : String) : Bool := text == "1" || text.map Char.toLower == "true"

end Environment

/-- The defaults, overridden by the environment variables. -/
def Config.ofEnvironment (env : Environment) : Config :=
  let d : Config := {}
  let size (name : String) (old : Nat) : Nat :=
    ((env name).bind Environment.size?).getD old
  let switch (name : String) (old : Bool) : Bool :=
    ((env name).map Environment.isOn).getD old
  { d with
    gen0Size := size "GENGC_GEN0_SIZE" d.gen0Size
    maxHeapSize := size "GENGC_MAX_HEAP" d.maxHeapSize
    largeObjectThreshold := size "GENGC_LOH_THRESHOLD" d.largeObjectThreshold
    finalizerThread := switch "GENGC_FINALIZER_THREAD" d.finalizerThread
    verbose := switch "GENGC_VERBOSE" d.verbose }

end GenerationalHeap
