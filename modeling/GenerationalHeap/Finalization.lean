/-
Deferred finalization: callbacks by slot, and the queue of objects that wait.

An unreachable object that needs finalization is kept alive and queued. The
callbacks of queued objects run one at a time, in queue order; the object whose
turn it is stays in flight, and so alive, until its callback is done.

* `Callbacks` — the callbacks, by the slot in the header of their object.
* `FinalizationQueue` — the waiting objects, and the one in flight.
* `FinalizationQueue.takeNext` — whose turn it is.
* `Outcome`, `runCallback` — how a callback ends.
-/
import GenerationalHeap.Handles

namespace GenerationalHeap

/-- The name of a background runner of finalizers. -/
def finalizerThreadName : String := "gengc-finalizer"

/-! ### Callbacks -/

/-- Callbacks of a kind `κ` by slot. Slots are counted from one, so that zero
in a header means "no callback". -/
abbrev Callbacks (κ : Type) := HandleTable κ

namespace Callbacks

variable {κ : Type}

/-- Puts a callback in place of the one in a slot. The answer is whether there
is such a slot. -/
def renew (t : Callbacks κ) (slot : Nat) (callback : κ) : Bool × Callbacks κ :=
  (t.contains slot, t.modify slot fun _ => callback)

/-- Takes the callback of a slot out of the table. -/
def take (t : Callbacks κ) (slot : Nat) : Option κ × Callbacks κ := (t.get? slot, t.erase slot)

/-- Drops the callbacks of some slots. The answer is how many there were. -/
def release (t : Callbacks κ) (slots : List Nat) : Nat × Callbacks κ :=
  slots.foldl (fun (n, t) slot => (if t.contains slot then n + 1 else n, t.erase slot)) (0, t)

/-- The table as diagnostics show it. -/
def debugText (t : Callbacks κ) : String :=
  "FinalizerTable \x7b callbacks: " ++ toString t.size ++ ", next_slot: " ++ toString t.next
    ++ " \x7d"

end Callbacks

/-! ### The queue -/

/-- What to do when nobody's turn has come. -/
inductive Patience where
  /-- Wait for an object. -/
  | block
  /-- Leave as soon as nobody waits. -/
  | whilePending
  deriving DecidableEq

/-- The answer to a runner that asks for work. -/
inductive Turn where
  /-- It is the turn of this object. -/
  | object (a : Address)
  /-- There is nothing left to do. -/
  | over
  /-- The runner has to wait. -/
  | wait
  deriving DecidableEq

/-- The objects that wait for their callbacks, in order. -/
structure FinalizationQueue where
  pending : List Address := []
  /-- The object whose turn it is. -/
  inFlight : Option Address := none
  /-- Whether the callback of the object in flight is running. -/
  callbackRunning : Bool := false
  /-- Whether a collection is under way, so that no turn begins. -/
  collecting : Bool := false
  /-- Whether no turn will ever begin again. -/
  isShutDown : Bool := false
  enqueuedTotal : Nat := 0
  completedTotal : Nat := 0

namespace FinalizationQueue

/-- Keeps turns from beginning until the collection is over. -/
def beginCollection (q : FinalizationQueue) : FinalizationQueue := { q with collecting := true }

/-- Lets turns begin again. -/
def endCollection (q : FinalizationQueue) : FinalizationQueue := { q with collecting := false }

/-- Lets objects wait, in order. -/
def enqueue (q : FinalizationQueue) (objects : List Address) : FinalizationQueue :=
  { q with
    pending := q.pending ++ objects
    enqueuedTotal := q.enqueuedTotal + objects.length }

/-- The objects that wait and the one in flight. -/
def objects (q : FinalizationQueue) : List Address := q.pending ++ q.inFlight.toList

/-- Gives every object its new address. -/
def redirect (f : Address → Address) (q : FinalizationQueue) : FinalizationQueue :=
  { q with pending := q.pending.map f, inFlight := q.inFlight.map f }

/-- Notes that the callback of the object in flight begins. -/
def startCallback (q : FinalizationQueue) : FinalizationQueue := { q with callbackRunning := true }

/-- Notes that the callback has returned. -/
def finishCallback (q : FinalizationQueue) : FinalizationQueue :=
  { q with callbackRunning := false }

/-- Whose turn it is. The object is then in flight. -/
def takeNext (q : FinalizationQueue) (patience : Patience) : Turn × FinalizationQueue :=
  if q.isShutDown then (.over, q)
  else
    match q.pending with
    | [] => (if patience = .whilePending then .over else .wait, q)
    | a :: rest =>
      if q.collecting ∨ q.inFlight.isSome then (.wait, q)
      else (.object a, { q with pending := rest, inFlight := some a })

/-- Ends the turn of the object in flight. The answer is its address. -/
def complete (q : FinalizationQueue) : Option Address × FinalizationQueue :=
  (q.inFlight,
    { q with
      inFlight := none
      completedTotal := q.completedTotal + if q.inFlight.isSome then 1 else 0 })

/-- Whether nobody waits or is in flight. -/
def isIdle (q : FinalizationQueue) : Bool := q.pending.isEmpty && q.inFlight.isNone

/-- The number of objects that wait or are in flight. -/
def size (q : FinalizationQueue) : Nat := q.pending.length + if q.inFlight.isSome then 1 else 0

/-- Lets no turn begin any more. The answer is how many objects wait in vain. -/
def shutDown (q : FinalizationQueue) : Nat × FinalizationQueue :=
  (q.pending.length, { q with isShutDown := true })

/-- Whether a wait for the end of a callback returns at once. -/
def callbackIsOver (q : FinalizationQueue) : Bool := !q.callbackRunning

/-- Whether a wait for an idle queue returns at once. -/
def waitIsOver (q : FinalizationQueue) : Bool := q.isIdle || q.isShutDown

end FinalizationQueue

/-! ### Running a callback -/

/-- How a callback ends. -/
inductive Outcome where
  | returned
  /-- It broke off with a message. -/
  | brokeOff (message : String)
  /-- It broke off without a message. -/
  | brokeOffSilently
  /-- It broke off with a value whose own destructor panics. -/
  | escaped
  deriving Inhabited

namespace Outcome

/-- Whether all is over when the callback has ended. The value that a callback breaks off
with is dropped where panics are not caught any more, and with it goes what its
destructor does. -/
def isCaught : Outcome → Bool
  | .escaped => false
  | _ => true

/-- The message of a callback that broke off. -/
def fault? : Outcome → Option String
  | .returned => none
  | .brokeOff message => some message
  | .brokeOffSilently | .escaped => some "finalizer panicked"

end Outcome

/-- Runs a callback with the flag "inside a finalizer" raised, and gives the flag
back as it was, also when a panic goes on to the caller. -/
def runCallback {σ : Type} (flag : Bool) (callback : Bool → σ → Outcome × σ) (s : σ) :
    Except Error (Option String) × Bool × σ :=
  let (outcome, s) := callback true s
  (if outcome.isCaught then .ok outcome.fault? else .error .panicked, flag, s)

end GenerationalHeap
