/-
Whoever follows a collector through its allocations.

* `Recorder` — a state that holds a collector, an owner of the heap in that state, and what is
  noted of the requests.
* `Recorder.allocateObject` — an allocation, with the collections that it starts.
* `Recorder.final_allocateObject` — what is left behind, from what the rungs of the ladder keep.
* `Recorder.SeenAs.allocateObject` — recorders that note more see the same allocations.
-/
import GenerationalHeap.Proofs.Requests

namespace GenerationalHeap

/-- Whoever follows a collector through its allocations. -/
structure Recorder (κ σ : Type) where
  collector : σ → Collector κ TypeRegistry
  owner : Owner σ
  /-- Notes an object that was placed. -/
  placed : Request → (hasFinalizer : Bool) → Address → σ → σ
  /-- Notes a request that came to nothing. -/
  refused : Error → σ → σ

namespace Recorder

variable {κ σ τ : Type} [HoldsHeap σ] [HoldsHeap τ] {p : Recorder κ σ} {q : Recorder κ τ}
  {typeId : TypeId} {size : Nat} {hasFinalizer : Bool} {build : Build} {s : σ}

/-- An allocation, with the collections that it starts. -/
def allocateObject (p : Recorder κ σ) (typeId : TypeId) (size : Nat) (hasFinalizer : Bool)
    (build : Build) : Action σ Address := fun s =>
  match Request.prepare (p.collector s).config (p.collector s).types typeId size hasFinalizer
    build with
  | .error e => .error e s
  | .ok r =>
    match allocate p.owner r (p.collector s).config s with
    | .ok a s => .ok a (p.placed r hasFinalizer a s)
    | .error e s => .error e (p.refused e s)

/-- A request is checked, then the ladder is climbed, and then it is noted what came of it. -/
theorem final_allocateObject {R : σ → Prop} (hs : R s)
    (hladder : ∀ r, Request.prepare (p.collector s).config (p.collector s).types typeId size
        hasFinalizer build = .ok r →
      (allocate p.owner r (p.collector s).config).Ends s (fun s' => ∀ e, R (p.refused e s'))
        fun a s' => R (p.placed r hasFinalizer a s')) :
    R ((p.allocateObject typeId size hasFinalizer build).final s) := by
  rw [Action.final, allocateObject]
  cases hr : Request.prepare (p.collector s).config (p.collector s).types typeId size
    hasFinalizer build with
  | error e => exact hs
  | ok r =>
    have hends := hladder r hr
    dsimp only
    cases hrun : allocate p.owner r (p.collector s).config s with
    | ok a s' => exact hends.of_ok hrun
    | error e s' => exact hends.of_error hrun e

/-- A recorder that notes more than another one. -/
structure SeenAs (view : σ → τ) (p : Recorder κ σ) (q : Recorder κ τ) : Prop where
  collector : ∀ s, q.collector (view s) = p.collector s
  owner : p.owner.SeenAs view q.owner
  placed : ∀ r hasFinalizer a s,
    q.placed r hasFinalizer a (view s) = view (p.placed r hasFinalizer a s)
  refused : ∀ e s, q.refused e (view s) = view (p.refused e s)

theorem SeenAs.allocateObject {view : σ → τ} (h : p.SeenAs view q) (typeId : TypeId) (size : Nat)
    (hasFinalizer : Bool) (build : Build) :
    Action.SeenAs view (p.allocateObject typeId size hasFinalizer build)
      (q.allocateObject typeId size hasFinalizer build) := by
  intro s
  rw [Recorder.allocateObject, Recorder.allocateObject, h.collector]
  cases Request.prepare (p.collector s).config (p.collector s).types typeId size hasFinalizer
    build with
  | error e => rfl
  | ok r =>
    have hladder := h.owner.allocate (r := r) (p.collector s).config
    dsimp only
    cases hrun : allocate p.owner r (p.collector s).config s with
    | ok a s' =>
      rw [hladder.of_ok hrun]
      exact congrArg (EStateM.Result.ok a) (h.placed r hasFinalizer a s')
    | error e s' =>
      rw [hladder.of_error hrun]
      exact congrArg (EStateM.Result.error e) (h.refused e s')

end Recorder

namespace Collector

variable {κ : Type}

/-- A collector, which counts its allocations. -/
def recorder : Recorder κ (Collector κ TypeRegistry) where
  collector c := c
  owner := owner
  placed r _ _ c := { c with statistics := c.statistics.recordAllocation r.blockSize }
  refused := noteFailure

theorem allocateObject_eq_recorder (typeId : TypeId) (size : Nat) (hasFinalizer : Bool)
    (build : Build) :
    allocateObjectIn (κ := κ) build typeId size hasFinalizer =
      recorder.allocateObject typeId size hasFinalizer build := by
  funext c
  rw [Recorder.allocateObject]
  dsimp only [recorder]
  cases hr : Request.prepare c.config c.types typeId size hasFinalizer build with
  | error e => exact allocateObject_of_error hr
  | ok r =>
    obtain ⟨hok, herror⟩ := allocateObject_of_ok hr
    dsimp only
    cases hrun : allocate owner r c.config c with
    | ok a c' => exact hok a c' hrun
    | error e c' => exact herror e c' hrun

end Collector

end GenerationalHeap
