/-
What can go wrong, as causes, and the wording of each cause.

* `ConfigError` — why a configuration is refused.
* `Defect` — how tracing finds the heap inconsistent.
* `ArgumentFlaw` — what is wrong with an argument of a mutator's call.
* `Error` — the failure of an operation, or the panic that has ended it.
* `Action` — an operation on a state that may fail; a failure keeps the state
  that was reached, since marks and statistics outlive a failed operation.
-/
import GenerationalHeap.Space
import GenerationalHeap.Text.Hex

namespace GenerationalHeap

/-- A type descriptor's number, as object headers store it. -/
structure TypeId where
  index : UInt32
  deriving DecidableEq, Inhabited

/-- The text of a type number. -/
def TypeId.text (t : TypeId) : String := "type#" ++ toString t.index.toNat

/-- The smallest nursery that a configuration may ask for. -/
def minNurserySize : Nat := 4096

/-! ### Configurations -/

/-- Why a configuration is refused. -/
inductive ConfigError where
  | heapLimitZero
  | nurseryTooSmall
  | nurseryAboveHeapLimit
  | heapLimitTooLarge
  | thresholdZero
  | thresholdAboveNursery
  | budgetZero
  | historyZero
  deriving DecidableEq

/-- The kind of a refusal. -/
def ConfigError.kind : ConfigError → String
  | .heapLimitZero | .nurseryTooSmall | .nurseryAboveHeapLimit | .heapLimitTooLarge =>
    "InvalidHeapSize"
  | .thresholdZero | .thresholdAboveNursery => "InvalidThreshold"
  | .budgetZero => "InvalidBudget"
  | .historyZero => "InvalidEventHistory"

/-- The text of a refused configuration. -/
def ConfigError.message : ConfigError → String
  | .heapLimitZero => "Invalid heap size: max_heap_size must be > 0"
  | .nurseryTooSmall =>
    "Invalid heap size: gen0_size must be at least " ++ toString minNurserySize ++ " bytes"
  | .nurseryAboveHeapLimit => "Invalid heap size: gen0_size cannot exceed max_heap_size"
  | .heapLimitTooLarge =>
    "Invalid heap size: max_heap_size cannot exceed " ++ toString spaceLimit ++ " bytes"
  | .thresholdZero => "Invalid threshold: large_object_threshold must be > 0"
  | .thresholdAboveNursery =>
    "Invalid threshold: large_object_threshold plus header must fit into gen0_size"
  | .budgetZero => "Invalid budget: generation budgets must be > 0"
  | .historyZero => "Invalid event history: event_history must be > 0"

/-! ### Inconsistent heaps -/

/-- How the heap is found inconsistent. -/
inductive Defect where
  /-- A root does not name an object. -/
  | rootNotObject
  /-- A remembered holder does not name an object. -/
  | holderNotObject
  /-- The type system does not know an object's type. -/
  | unknownType (id : TypeId)
  /-- The reference slot at `offset` holds an address that names no object. -/
  | danglingField (offset : Nat) (target : Address)
  /-- A cause given in words. -/
  | other (text : String)

/-- The text of a defect. -/
def Defect.message : Defect → String
  | .rootNotObject => "root does not reference an object"
  | .holderNotObject => "remembered holder is not an object"
  | .unknownType id => "object has unknown " ++ id.text
  | .danglingField offset target =>
    "field +" ++ toString offset ++ " references " ++ Text.hex target.toNat ++ " outside the heap"
  | .other text => text

/-! ### Wrong arguments -/

/-- What is wrong with an argument. -/
inductive ArgumentFlaw where
  /-- A reference field of a type does not start at a multiple of the slot size. -/
  | misalignedField (offset slotSize : Nat)
  /-- A payload is too small for the reference fields of its type. -/
  | payloadTooSmall (size : Nat) (typeName : String) (needed : Nat)
  /-- A payload does not fit the size field of a header. -/
  | payloadTooLarge (size : Nat)
  /-- An offset does not start a reference slot. -/
  | notReferenceSlot (offset : Nat) (typeName : String)
  /-- A read goes past the payload. -/
  | readPastEnd (length offset payload : Nat)
  /-- A write goes past the payload. -/
  | writePastEnd (length offset payload : Nat)
  /-- A write of plain data touches a reference slot. -/
  | writeOverReference (length offset : Nat) (typeName : String)
  /-- A cause given in words. -/
  | other (text : String)

/-- The text of a wrong argument. -/
def ArgumentFlaw.message : ArgumentFlaw → String
  | .misalignedField offset slotSize =>
    s!"reference offset {offset} is not {slotSize}-byte aligned"
  | .payloadTooSmall size typeName needed =>
    s!"payload of {size} bytes cannot hold the reference fields of {typeName} ({needed} bytes)"
  | .payloadTooLarge size => s!"payload of {size} bytes exceeds the largest object size"
  | .notReferenceSlot offset typeName =>
    s!"offset +{offset} is not a reference slot of {typeName}"
  | .readPastEnd length offset payload =>
    s!"read of {length} bytes at +{offset} exceeds payload of {payload} bytes"
  | .writePastEnd length offset payload =>
    s!"write of {length} bytes at +{offset} exceeds payload of {payload} bytes"
  | .writeOverReference length offset typeName =>
    s!"write of {length} bytes at +{offset} overlaps a reference slot of {typeName}"
  | .other text => text

/-! ### Failures -/

/-- The failure of an operation. -/
inductive Error where
  /-- No room, not even after a full collection and growth of the nursery. -/
  | outOfMemory (requested available : Nat)
  /-- A finalizer broke off. Counted and logged, never the answer of a call. -/
  | finalizerFault (object : Address) (message : String)
  /-- The heap is inconsistent at an address. -/
  | corruptHeap (address : Address) (defect : Defect)
  /-- An address does not name an object. -/
  | invalidObject (address : Address)
  | invalidArgument (flaw : ArgumentFlaw)
  | unknownType (id : TypeId)
  /-- A handle was never issued, or is released. -/
  | invalidHandle (id : Nat)
  /-- A collector was asked for with a configuration that is refused. -/
  | refusedConfig (cause : ConfigError)
  /-- A fault of the configuration in words. -/
  | configuration (text : String)
  /-- A broken promise inside the collector, or an exhausted resource. -/
  | internal (text : String)
  /-- No failure that the call reports: a panic has left it, and it has no answer. -/
  | panicked

namespace Error

/-- The kind of a failure. -/
def kind : Error → String
  | .outOfMemory .. => "OutOfMemory"
  | .finalizerFault .. => "FinalizerFault"
  | .corruptHeap .. => "CorruptHeapInvariant"
  | .invalidObject _ => "InvalidObject"
  | .invalidArgument _ => "InvalidArgument"
  | .unknownType _ => "UnknownType"
  | .invalidHandle _ => "InvalidHandle"
  | .refusedConfig _ | .configuration _ => "Configuration"
  | .internal _ => "Internal"
  | .panicked => "panic"

/-- The text of a failure. -/
def message : Error → String
  | .outOfMemory requested available =>
    s!"Out of memory: requested {requested} bytes, available {available} bytes"
  | .finalizerFault object text =>
    "Finalizer for object " ++ Text.hex object.toNat ++ " panicked: " ++ text
  | .corruptHeap address defect =>
    "Corrupt heap at " ++ Text.hex address.toNat ++ ": " ++ defect.message
  | .invalidObject address => "Invalid object reference: " ++ Text.hex address.toNat
  | .invalidArgument flaw => "Invalid argument: " ++ flaw.message
  | .unknownType id => "Unknown type: " ++ id.text
  | .invalidHandle id => s!"Invalid handle: {id}"
  | .refusedConfig cause => "Configuration error: Invalid configuration: " ++ cause.message
  | .configuration text => "Configuration error: " ++ text
  | .internal text => "Internal error: " ++ text
  | .panicked => ""

/-- The failures that a caller can react to. -/
def isRecoverable : Error → Bool
  | .outOfMemory .. | .invalidObject _ | .invalidArgument _ | .unknownType _
  | .invalidHandle _ => true
  | _ => false

/-- The failures after which the heap must not be used. -/
def isFatal : Error → Bool
  | .corruptHeap .. | .internal _ => true
  | _ => false

end Error

/-- An operation on a state that may fail. A failure keeps the state reached. -/
abbrev Action (σ α : Type) := EStateM Error σ α

end GenerationalHeap
