/-
What every step of a trace keeps.

A trace does two things to a heap and its own state: it marks objects, and it takes the
objects that it scans off its worklist. A property that survives both survives everything that
a trace does, be it the step at which tracing fails.

* `Trace.MarkInvariant` — a property that marking keeps; `Trace.MarkInvariant.keeps_scan` and the
  like — so does whatever takes nothing off the worklist.
* `Trace.Invariant` — a property that taking an object off the worklist keeps as well;
  `Trace.Invariant.keeps_drain` — so does the closure.
* `Trace.of_run_ok`, `Trace.Invariant.of_markLive` — a pass that succeeds, with the trace that
  it leaves.
-/
import GenerationalHeap.Proofs.Actions
import GenerationalHeap.Proofs.Objects
import GenerationalHeap.Trace

namespace GenerationalHeap

namespace Trace

/-- A property that no mark takes away from a trace over the objects of `h`. -/
structure MarkInvariant (h : Heap) (target : Target) (P : Trace → Prop) : Prop where
  isObject : ∀ {t a}, P t → t.heap.isObject a = true → a ∈ h.objects
  mark : ∀ {t a}, P t → a ∈ h.objects → P (t.mark target a)
  /-- References are counted before they are looked at. -/
  counted : ∀ {t}, P t →
    P { t with stats := { t.stats with tracedReferences := t.stats.tracedReferences + 1 } }

/-- A property that no step takes away from a trace over the objects of `h`. -/
structure Invariant (h : Heap) (target : Target) (P : Trace → Prop) : Prop
    extends MarkInvariant h target P where
  popped : ∀ {t a rest}, P t → t.worklist = a :: rest → P { t with worklist := rest }

section Steps

variable {h : Heap} {types : TypeSystem} {target : Target} {P : Trace → Prop}

namespace MarkInvariant

theorem keeps_followSlot (hP : MarkInvariant h target P) (holder : Address) (o : Nat) :
    Action.Keeps P (followSlot target holder o) := by
  intro t ht
  by_cases hz : t.heap.word holder o = 0
  · simpa only [Action.final, followSlot, hz, if_true] using ht
  -- the reference is counted, and then marked if it leads to an object
  have hcounted := hP.counted ht
  by_cases hobj : t.heap.isObject (t.heap.word holder o) = true
  · simp only [Action.final, followSlot, hz, hobj, if_false, if_true]
    exact hP.mark hcounted (hP.isObject ht hobj)
  · simp only [Action.final, followSlot, hz, hobj, if_false]
    exact hcounted

theorem keeps_scan (hP : MarkInvariant h target P) (holder : Address) :
    Action.Keeps P (scan types target holder) := by
  intro t ht
  cases hslots : t.heap.slotsOf types holder with
  | error e => simpa only [Action.final, scan, hslots] using ht
  | ok slots =>
    have hrun : scan types target holder t = slots.forM (followSlot target holder) t := by
      rw [scan, hslots]
    rw [Action.final, hrun]
    exact Action.keeps_forM (fun o _ => hP.keeps_followSlot holder o) t ht

theorem keeps_markRoot (hP : MarkInvariant h target P) (root : Address) :
    Action.Keeps P (markRoot target root) := by
  intro t ht
  by_cases hobj : t.heap.isObject root = true
  · simp only [Action.final, markRoot, hobj, if_true]
    exact hP.mark ht (hP.isObject ht hobj)
  · simp only [Action.final, markRoot, hobj]
    exact ht

theorem keeps_scanHolder (hP : MarkInvariant h target P) (holder : Address) :
    Action.Keeps P (scanHolder types target holder) := by
  intro t ht
  by_cases hobj : t.heap.isObject holder = true
  · rw [Action.final, scanHolder, if_pos hobj]
    exact hP.keeps_scan holder t ht
  · simp only [Action.final, scanHolder, hobj]
    exact ht

theorem markAll (hP : MarkInvariant h target P) {l : List Address}
    (hl : ∀ a ∈ l, a ∈ h.objects) {t : Trace} (ht : P t) :
    P (l.foldl (fun t a => t.mark target a) t) := by
  induction l generalizing t with
  | nil => exact ht
  | cons a rest ih =>
    exact ih (fun b hb => hl b (List.mem_cons_of_mem _ hb)) (hP.mark ht (hl a List.mem_cons_self))

end MarkInvariant

/-- The loop ends as the worklist is empty. -/
theorem drainWithin_of_nil {n : Nat} {t : Trace} (hq : t.worklist = []) :
    drainWithin types target n t = .ok () t := by
  cases n with
  | zero => rfl
  | succ n => simp only [drainWithin, hq]

/-- A round of the loop scans the first object of the worklist. -/
theorem drainWithin_of_cons {n : Nat} {t : Trace} {a : Address} {rest : List Address}
    (hq : t.worklist = a :: rest) :
    drainWithin types target (n + 1) t =
      (scan types target a >>= fun _ => drainWithin types target n)
        { t with worklist := rest } := by
  simp only [drainWithin, hq]

namespace Invariant

theorem keeps_drainWithin (hP : Invariant h target P) (n : Nat) :
    Action.Keeps P (drainWithin types target n) := by
  induction n with
  | zero => exact Action.keeps_pure ()
  | succ n ih =>
    intro t ht
    cases hq : t.worklist with
    | nil =>
      rw [Action.final_of_ok (drainWithin_of_nil hq)]
      exact ht
    | cons a rest =>
      rw [Action.final, drainWithin_of_cons hq]
      exact ((hP.keeps_scan a).bind fun _ => ih) _ (hP.popped ht hq)

theorem keeps_drain (hP : Invariant h target P) : Action.Keeps P (drain types target) :=
  fun t ht => hP.keeps_drainWithin (t.worklist.length + startCount t.heap) t ht

end Invariant

end Steps

/-! ### Passes over a heap -/

/-- A tracing pass that succeeds, with the trace that it leaves. -/
theorem of_run_ok {α : Type} {act : Action Trace α} {h h' : Heap} {x : α × TraceStats}
    (hrun : run act h = .ok x h') :
    ∃ t, act { heap := h } = .ok x.1 t ∧ x.2 = t.stats ∧ h' = t.heap := by
  cases hact : act { heap := h } with
  | ok a t =>
    simp only [run, hact] at hrun
    obtain ⟨rfl, rfl⟩ := EStateM.Result.ok.inj hrun
    exact ⟨t, rfl, rfl, rfl⟩
  | error e t =>
    simp only [run, hact] at hrun
    exact absurd hrun (by simp)

/-- The first pass of a collection, if it succeeds. -/
theorem Invariant.of_markLive {h h' : Heap} {types : TypeSystem} {target : Target}
    {P : Trace → Prop} {roots holders : List Address} {stats : TraceStats}
    (hP : Invariant h target P) (hstart : P { heap := h })
    (hrun : Heap.markLive types target roots holders h = .ok stats h') :
    ∃ t, P t ∧ stats = t.stats ∧ h' = t.heap := by
  have hkeeps : Action.Keeps P (do
      roots.forM (markRoot target)
      holders.forM (scanHolder types target)
      drain types target) :=
    (Action.keeps_forM fun a _ => hP.keeps_markRoot a).bind fun _ =>
      (Action.keeps_forM fun a _ => hP.keeps_scanHolder a).bind fun _ => hP.keeps_drain
  obtain ⟨x, h₁, hpass, hend⟩ := Action.of_bind_ok hrun
  obtain ⟨rfl, rfl⟩ := EStateM.Result.ok.inj hend
  obtain ⟨t, hact, hstats, rfl⟩ := of_run_ok hpass
  exact ⟨t, hkeeps.of_ok hstart hact, hstats, rfl⟩

end Trace

end GenerationalHeap
