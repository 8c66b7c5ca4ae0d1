/-
Tracing counts the objects that it marks.

* `Trace.Counted` — a counter of a trace grows with the number of marked objects.
* `Trace.Counted.invariant` — no step breaks that, be it the one at which tracing fails.
* `Heap.markedObjects_eq`, `Heap.resurrectedObjects_eq` — what the two passes of a collection
  count.
-/
import GenerationalHeap.Proofs.Keeping
import GenerationalHeap.Proofs.Liveness

namespace GenerationalHeap

namespace Heap

/-- The number of objects that another heap with the same objects has marked. -/
def markedCount (h h' : Heap) : Nat := h.objects.countP fun a => (h'.header a).isMarked

end Heap

namespace Trace

/-- The counter that a pass advances. -/
def counter (t : Trace) : Nat :=
  if t.resurrecting then t.stats.resurrectedObjects else t.stats.markedObjects

/-- An object that gets its mark is counted once. -/
theorem counter_mark {t : Trace} {target : Target} {a : Address}
    (hcond : target.condemnsAddress a = true) (hm : (t.heap.header a).isMarked = false) :
    (t.mark target a).counter = t.counter + 1 := by
  rw [mark_of_condemned hcond hm, counter, counter]
  cases t.resurrecting <;> rfl

/-- The counter and the marks of a trace grow together. There were `n` more marks than counts
when the trace began. -/
structure Counted (h : Heap) (target : Target) (n : Nat) (resurrecting : Bool) (t : Trace) : Prop
    extends t.Valid h target fun _ => True where
  mode : t.resurrecting = resurrecting
  counter_eq : t.counter + n = h.markedCount t.heap

variable {h : Heap} {types : TypeSystem} {target : Target} {n : Nat} {resurrecting : Bool}
  {t : Trace} {a : Address}

/-- The counter grows exactly if an object gets its mark. -/
theorem Counted.mark (hw : h.WellFormed) (hc : t.Counted h target n resurrecting)
    (ha : a ∈ h.objects) : (t.mark target a).Counted h target n resurrecting := by
  have hvalid := (mark_spec hw hc.toValid ha fun _ => trivial).1
  by_cases hnew : target.condemnsAddress a = true ∧ (t.heap.header a).isMarked = false
  · obtain ⟨hcond, hm⟩ := hnew
    have hcounter := counter_mark hcond hm
    rw [mark_of_condemned hcond hm] at hvalid hcounter ⊢
    obtain ⟨-, hset⟩ := hc.marks.setMarked hw ha hm
    have hself := hset a ha
    rw [decide_eq_true rfl, Bool.true_or] at hself
    -- no other mark is new
    have hmore : h.markedCount (t.heap.setHeader a ((t.heap.header a).setMarked true)) =
        h.markedCount t.heap + 1 :=
      countP_of_one_less hw.objects_nodup ha hself hm fun b hb hba => by
        rw [hset b hb, decide_eq_false hba, Bool.false_or]
    have hcount := hc.counter_eq
    refine ⟨hvalid, hc.mode, ?_⟩
    rw [hmore, hcounter]
    omega
  · rw [mark_of_not hnew]
    exact hc

/-- No step breaks the count. -/
theorem Counted.invariant (hw : h.WellFormed) (ht : h.Tagged) :
    Invariant h target (Counted h target n resurrecting) where
  isObject hc hobj := (hc.marks.isObject_iff hw ht).1 hobj
  mark hc ha := hc.mark hw ha
  counted hc := ⟨hc.withStats _, hc.mode, hc.counter_eq⟩
  popped hc hq := ⟨(valid_of_worklist hc.toValid hq).2.2.1, hc.mode, hc.counter_eq⟩

end Trace

namespace Heap

variable {h h' h'' : Heap} {types : TypeSystem} {target : Target} {roots holders : List Address}
  {stats : TraceStats}

/-- The first pass counts the marks that it leaves. -/
theorem markedObjects_eq (hw : h.WellFormed) (ht : h.Tagged) (hclean : h.Clean)
    (hrun : markLive types target roots holders h = .ok stats h') :
    stats.markedObjects = h.markedCount h' := by
  have hzero : h.markedCount h = 0 :=
    List.countP_eq_zero.2 fun a ha hm => absurd (hclean.isMarked a ha) (by simp [hm])
  have hstart : ({ heap := h } : Trace).Counted h target 0 false :=
    ⟨.start hw hclean, rfl, hzero.symm⟩
  obtain ⟨t, hcounted, hstats, rfl⟩ := (Trace.Counted.invariant hw ht).of_markLive hstart hrun
  have hcounter := hcounted.counter_eq
  rw [Trace.counter, hcounted.mode, if_neg Bool.false_ne_true] at hcounter
  rw [hstats]
  exact hcounter

/-- The second pass counts the marks that it adds. -/
theorem resurrectedObjects_eq (hw : h.WellFormed) (ht : h.Tagged) (hm : h.OnlyMarks h')
    (hcond : ∀ a ∈ h.objects, (h'.header a).isMarked = true → target.condemnsAddress a = true)
    {dying : List Address} (hdying : ∀ a ∈ dying, a ∈ h.objects)
    (hrun : resurrect types target dying h' = .ok stats h'') :
    stats.resurrectedObjects + h.markedCount h' = h.markedCount h'' := by
  have hstart : ({ heap := h', resurrecting := true } : Trace).Counted h target
      (h.markedCount h') true :=
    { marks := hm
      worklist := fun a ha => absurd ha List.not_mem_nil
      sound := fun a ha hma => ⟨hcond a ha hma, trivial⟩
      mode := rfl
      counter_eq := Nat.zero_add _ }
  obtain ⟨x, h₁, hpass, hend⟩ := Action.of_bind_ok hrun
  obtain ⟨rfl, rfl⟩ := EStateM.Result.ok.inj hend
  obtain ⟨t, hact, hstats, rfl⟩ := Trace.of_run_ok hpass
  have hcounted : Trace.Invariant h target (Trace.Counted h target (h.markedCount h') true) :=
    Trace.Counted.invariant hw ht
  have hkeeps : Action.Keeps (Trace.Counted h target (h.markedCount h') true)
      (Trace.drain types target) := hcounted.keeps_drain
  have hdrain := hkeeps _ (hcounted.markAll hdying hstart)
  -- what the second pass resurrects is marked first, and then what is reached from there
  rw [Trace.resurrect] at hact
  split at hact
  · rename_i t₁ hok
    obtain ⟨-, rfl⟩ := EStateM.Result.ok.inj hact
    rw [Action.final_of_ok hok] at hdrain
    have hcounter := hdrain.counter_eq
    rw [Trace.counter, hdrain.mode, if_pos rfl] at hcounter
    rw [hstats]
    exact hcounter
  · exact absurd hact (by simp)

end Heap

end GenerationalHeap
