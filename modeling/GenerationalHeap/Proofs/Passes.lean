/-
The passes of a collection that succeeds, and what its report tells of them.

* `Collector.Passes` — the heaps between the passes of a collection, with what the passes
  count.
* `Collector.Passes.outcome`, `Collector.Passes.of_runCycle` — a cycle that succeeds has made
  them all, and leaves in the tables what they tell.
* `Collector.Passes.of_collectFor` — so does a collection, which reports what they count.
* `Collector.Reported`, `Collector.Sound.reported_of_ok` — the numbers of a report, told by the
  heap and the tables before and after.
* `Collector.Sound.failed_of_error` — a collection that fails is counted, and nothing else.
-/
import GenerationalHeap.Proofs.Accounts
import GenerationalHeap.Proofs.Counting
import GenerationalHeap.Proofs.Failures
import GenerationalHeap.Proofs.Reclaiming

namespace GenerationalHeap

namespace Collector

variable {κ : Type} {target : Target} {c c' : Collector κ TypeRegistry}

theorem of_onHeap_ok {α : Type} {act : Action Heap α} {x : α} (h : onHeap act c = .ok x c') :
    ∃ heap, act c.heap = .ok x heap ∧ c' = { c with heap } := by
  cases hact : act c.heap with
  | ok y heap =>
    obtain ⟨rfl, rfl⟩ := EStateM.Result.ok.inj ((onHeap_of_ok hact).symm.trans h)
    exact ⟨heap, rfl, rfl⟩
  | error e heap =>
    rw [onHeap_of_error hact] at h
    exact absurd h (by simp)

/-- What is noted after a cycle that succeeded. -/
def conclude (report : Report) (c : Collector κ TypeRegistry) : Collector κ TypeRegistry :=
  (closingEvents report).foldl emit
    { c.endCycle with statistics := c.endCycle.statistics.recordCollection report }

/-- The passes of a collection, with the heap that each of them leaves. -/
structure Passes (target : Target) (c : Collector κ TypeRegistry) where
  marking : TraceStats
  marked : Heap
  resurrection : TraceStats
  kept : Heap
  compaction : Compaction
  planned : Heap
  sweep : Sweep
  remembered : Remembered
  finished : Heap
  markLive : Heap.markLive c.types target c.rootObjects (c.rememberedFor target) c.heap =
    .ok marking marked
  resurrect : Heap.resurrect c.types target (Trace.candidates target marked) marked =
    .ok resurrection kept
  start : Compaction.start target kept = .ok compaction planned
  complete : compaction.complete c.types (c.rememberedFor target) planned =
    .ok (sweep, remembered) finished

namespace Passes

/-- The objects that wait for their finalization from now on, at their old places. -/
def dying (p : Passes target c) : List Address := Trace.candidates target p.marked

/-- What the passes count. -/
def tally (p : Passes target c) : Tally :=
  { marked := p.marking.markedObjects + p.resurrection.resurrectedObjects
    enqueued := p.dying.length
    weakCleared := (c.weak.process (p.compaction.fate p.planned)).1
    compaction := p.compaction.stats p.sweep }

/-- The queue after the passes. -/
def queue (p : Passes target c) : FinalizationQueue :=
  (c.queue.redirect (p.compaction.forward p.planned)).enqueue
    (p.dying.map (p.compaction.forward p.planned))

/-- What a collection leaves when it has made the passes and reports what they count. -/
structure Leaves (p : Passes target c) (report : Report) (c' : Collector κ TypeRegistry) :
    Prop where
  config : c'.config = c.config
  heap : c'.heap = p.finished
  weak : c'.weak = (c.weak.process (p.compaction.fate p.planned)).2
  queue : c'.queue = p.queue.endCollection
  statistics : c'.statistics = c.statistics.recordCollection report
  cycles : c'.cycles = c.cycles + 1

/-- The collector after the passes. -/
def outcome (p : Passes target c) (cycle : Nat) : Collector κ TypeRegistry :=
  { leave cycle "compact" (leave cycle "finalize" (leave cycle "mark" c)) with
    heap := p.finished
    roots := c.roots.map (p.compaction.forward p.planned)
    providers := c.providers.map (RootSlots.redirect (p.compaction.forward p.planned))
    weak := (c.weak.process (p.compaction.fate p.planned)).2
    barrier := { c.barrier with remembered := p.remembered }
    callbacks :=
      (c.callbacks.release ((p.sweep.orphans ++ p.compaction.plan.orphans).map UInt64.toNat)).2
    queue := p.queue
    phase := .compacting }

/-- A cycle that succeeds has made all passes, and nothing else. -/
theorem of_runCycle {cycle : Nat} {tally : Tally} (h : runCycle target cycle c = .ok tally c') :
    ∃ p : Passes target c, tally = p.tally ∧ c' = p.outcome cycle := by
  rw [runCycle, Action.modify_bind] at h
  obtain ⟨n, d₁, hmark, h⟩ := Action.of_bind_ok h
  rw [Action.modify_bind, Action.modify_bind] at h
  obtain ⟨⟨dying, m⟩, d₂, hfinal, h⟩ := Action.of_bind_ok h
  dsimp only at h
  rw [Action.modify_bind, Action.modify_bind] at h
  obtain ⟨⟨counts, cleared⟩, d₃, hcompact, h⟩ := Action.of_bind_ok h
  dsimp only at h
  rw [Action.modify_bind] at h
  obtain ⟨rfl, rfl⟩ := EStateM.Result.ok.inj h
  -- each phase runs one pass over the heap, the last one two of them
  rw [markPhase, Action.modify_bind, Action.get_bind, visitProviders_eq] at hmark
  obtain ⟨marking, e, hfirst, hend⟩ := Action.of_bind_ok hmark
  obtain ⟨rfl, rfl⟩ := EStateM.Result.ok.inj hend
  obtain ⟨marked, hmarkLive, rfl⟩ := of_onHeap_ok hfirst
  rw [finalizePhase, Action.get_bind] at hfinal
  obtain ⟨resurrection, e, hsecond, hend⟩ := Action.of_bind_ok hfinal
  obtain ⟨hdying, rfl⟩ := EStateM.Result.ok.inj hend
  obtain ⟨rfl, rfl⟩ := Prod.mk.inj hdying
  obtain ⟨kept, hresurrect, rfl⟩ := of_onHeap_ok hsecond
  rw [compactPhase] at hcompact
  obtain ⟨compaction, e, hplan, hrest⟩ := Action.of_bind_ok hcompact
  obtain ⟨planned, hstart, rfl⟩ := of_onHeap_ok hplan
  rw [Action.modify_bind, visitProviders_eq] at hrest
  obtain ⟨⟨cleared', resurrected⟩, e, hredirect, hrest⟩ := Action.of_bind_ok hrest
  obtain ⟨hcleared, rfl⟩ := EStateM.Result.ok.inj hredirect
  obtain ⟨rfl, rfl⟩ := Prod.mk.inj hcleared
  dsimp only at hrest
  rw [Action.get_bind] at hrest
  obtain ⟨⟨sweep, remembered⟩, e, hlast, hend⟩ := Action.of_bind_ok hrest
  obtain ⟨finished, hcomplete, rfl⟩ := of_onHeap_ok hlast
  obtain ⟨hcounts, rfl⟩ := EStateM.Result.ok.inj hend
  have hpair := Prod.mk.inj hcounts
  refine ⟨⟨marking, marked, resurrection, kept, compaction, planned, sweep, remembered, finished,
    hmarkLive, hresurrect, hstart, hcomplete⟩, ?_, rfl⟩
  rw [← hpair.1, ← hpair.2]
  rfl

/-- A collection that succeeds is a cycle between what is noted before and after it. -/
theorem of_collectFor_begun {reason : Reason} {report : Report}
    (h : collectFor target reason c = .ok report c') :
    ∃ p : Passes target (beginCycle target reason c).2,
      report = reportOf (c.cycles + 1) target reason c.heap.usedBytes p.finished.usedBytes p.tally ∧
      c' = (p.outcome (c.cycles + 1)).conclude report := by
  rw [collectFor] at h
  -- the collector in which the cycle begins is kept folded, since it is large
  generalize hbegin : beginCycle target reason c = begun at h ⊢
  have hused : begun.1 = c.heap.usedBytes := by rw [← hbegin]; rfl
  have hcycles : begun.2.cycles = c.cycles + 1 := by rw [← hbegin]; rfl
  obtain ⟨used, d⟩ := begun
  dsimp only at h hused hcycles
  rw [hused, hcycles] at h
  split at h
  · exact absurd h (by simp)
  rename_i tally e hrun
  obtain ⟨hreport, hend⟩ := EStateM.Result.ok.inj h
  obtain ⟨p, rfl, rfl⟩ := of_runCycle hrun
  rw [hreport] at hend
  exact ⟨p, hreport.symm, hend.symm⟩

/-- What is noted before the passes is not read by them. -/
def ofBegun {reason : Reason} (p : Passes target (beginCycle target reason c).2) :
    Passes target c :=
  ⟨p.marking, p.marked, p.resurrection, p.kept, p.compaction, p.planned, p.sweep, p.remembered,
    p.finished, p.markLive, p.resurrect, p.start, p.complete⟩

theorem tally_ofBegun {reason : Reason} (p : Passes target (beginCycle target reason c).2) :
    p.ofBegun.tally = p.tally := by
  rw [tally, tally]
  rfl

/-- A collection that succeeds has made all passes, and reports what they count. -/
theorem of_collectFor {reason : Reason} {report : Report}
    (h : collectFor target reason c = .ok report c') :
    ∃ p : Passes target c, p.Leaves report c' ∧
      report =
        reportOf (c.cycles + 1) target reason c.heap.usedBytes c'.heap.usedBytes p.tally := by
  obtain ⟨p, hreport, rfl⟩ := of_collectFor_begun h
  rw [conclude, foldl_emit]
  rw [← tally_ofBegun] at hreport
  refine ⟨p.ofBegun, ⟨?_, ?_, ?_, ?_, ?_, ?_⟩, hreport⟩ <;>
    simp only [outcome, endCycle, leave, emit, beginCycle, ofBegun, queue, dying]
  -- the flag of the queue that the collection has set is down again
  rfl

section Sound

variable (hc : c.Sound) (p : Passes target c)
include hc

theorem onlyMarks_marked : c.heap.OnlyMarks p.marked ∧
    ∀ a ∈ c.heap.objects, (p.marked.header a).isMarked = true ↔
      target.condemnsAddress a = true ∧ c.heap.Held c.types target c.rootObjects a := by
  have hrem := (hc.remembersYounger target).remembers hc.heap.wellFormed hc.heap.noDangling
  rcases Heap.markLive_spec hc.heap.toTraceable hc.heap.clean hrem with
    ⟨e, h', hrun, -⟩ | ⟨stats, h', hrun, hm, -, hmarked⟩
  · rw [p.markLive] at hrun
    exact absurd hrun (by simp)
  · obtain ⟨-, rfl⟩ := EStateM.Result.ok.inj (p.markLive.symm.trans hrun)
    exact ⟨hm, hmarked⟩

theorem onlyMarks_kept : c.heap.OnlyMarks p.kept ∧
    ∀ a ∈ c.heap.objects, (p.kept.header a).isMarked = true ↔
      target.condemnsAddress a = true ∧ c.heap.Kept c.types target c.rootObjects a := by
  obtain ⟨hm, hmarked⟩ := p.onlyMarks_marked hc
  obtain ⟨stats, h', hrun, hm', hkept⟩ := Heap.resurrect_spec hc.heap.toTraceable hm hmarked
  obtain ⟨-, rfl⟩ := EStateM.Result.ok.inj (p.resurrect.symm.trans hrun)
  exact ⟨hm', hkept⟩

theorem traced : p.kept.Traced c.types target := by
  obtain ⟨hm, hkept⟩ := p.onlyMarks_kept hc
  exact (hc.heap.traced hm hkept).1

theorem remembersYounger : p.kept.RemembersYounger c.types target (c.rememberedFor target) :=
  (hc.remembersYounger target).of_onlyMarks hc.heap.wellFormed (p.onlyMarks_kept hc).1

theorem objects_kept : p.kept.objects = c.heap.objects :=
  (p.onlyMarks_kept hc).1.layout.objects hc.heap.wellFormed

theorem started : Compaction.Started p.kept target p.compaction p.planned := by
  have hT := p.traced hc
  obtain ⟨comp, h₁, hrun, hs⟩ := Compaction.start_spec hT.wellFormed hT.used_le target
  obtain ⟨rfl, rfl⟩ := EStateM.Result.ok.inj (p.start.symm.trans hrun)
  exact hs

theorem compacted : Compaction.Compacted c.types target p.kept p.finished := by
  obtain ⟨sweep, r, h', hrun, hcompacted, -⟩ :=
    Compaction.complete_spec (p.traced hc) (p.started hc) (p.remembersYounger hc)
  obtain ⟨-, rfl⟩ := EStateM.Result.ok.inj (p.complete.symm.trans hrun)
  exact hcompacted

/-- The objects that the passes count as marked are those that survive. -/
theorem marked_eq : p.tally.marked = (p.kept.retained target).length := by
  have hw := hc.heap.wellFormed
  obtain ⟨hm, hmarked⟩ := p.onlyMarks_marked hc
  have hfirst := Heap.markedObjects_eq hw hc.heap.tagged hc.heap.clean p.markLive
  have hsecond := Heap.resurrectedObjects_eq hw hc.heap.tagged hm
    (fun a ha hma => ((hmarked a ha).1 hma).1)
    (fun a ha => hm.layout.objects hw ▸ Heap.mem_objects_of_candidates ha) p.resurrect
  have hall : c.heap.markedCount p.kept = (p.kept.retained target).length := by
    rw [Heap.markedCount, Heap.retained, p.objects_kept hc, List.countP_eq_length_filter]
    refine congrArg List.length (List.filter_congr fun a ha => ?_)
    cases hma : (p.kept.header a).isMarked with
    | true => rw [(((p.onlyMarks_kept hc).2 a ha).1 hma).1, Bool.true_and]
    | false => rw [Bool.and_false]
  rw [tally, hfirst, ← hall, ← hsecond]
  exact Nat.add_comm _ _

/-- What the compaction counts. -/
theorem compaction_eq : p.tally.compaction.survivors = (p.kept.retained target).length ∧
    p.tally.compaction.reclaimedObjects = (p.kept.reclaimed target).length ∧
    p.tally.compaction.reclaimedBytes =
      ((p.kept.reclaimed target).map p.kept.extent).sum := by
  have hT := p.traced hc
  have hs := p.started hc
  obtain ⟨h₂, hfix, hr, -⟩ := Compaction.redirects_all hT hs (p.remembersYounger hc)
  have hrun := p.complete
  rw [Compaction.complete, Action.bind_of_ok hfix] at hrun
  obtain ⟨sweep, h₃, hsweep, hrest⟩ := Action.of_bind_ok hrun
  rw [Action.modify_bind] at hrest
  obtain ⟨r, h₄, -, hend⟩ := Action.of_bind_ok hrest
  obtain ⟨rfl, rfl⟩ := Prod.mk.inj (EStateM.Result.ok.inj hend).1
  exact ⟨hs.survivors_eq hT, hs.reclaimed_eq hT hr.layout hr.header hsweep⟩

end Sound

end Passes

/-! ### Reports -/

/-- What a report says of a collection that made `c'` of `c`. -/
structure Reported (target : Target) (report : Report) (c c' : Collector κ TypeRegistry) :
    Prop where
  used_before : report.heapUsedBefore = c.heap.usedBytes
  used_after : report.heapUsedAfter = c'.heap.usedBytes
  bytes : c'.heap.usedBytes + report.bytesReclaimed = c.heap.usedBytes
  objects : c'.heap.objects.length + report.objectsReclaimed = c.heap.objects.length
  marked : report.objectsMarked = report.survivors
  condemned : report.survivors + report.objectsReclaimed = c.heap.condemnedCount target
  weakCleared : report.weakCleared = c.weak.handles.values.countP fun o =>
    o.any fun a => (c.placeAfter target a).isNone
  /-- No weak handle is given out or taken back. -/
  weak : c'.weak.handles.next = c.weak.handles.next
  taken : c'.queue.taken = c.queue.taken + report.finalizersEnqueued
  enqueued : c'.queue.enqueuedTotal = c.queue.enqueuedTotal + report.finalizersEnqueued
  statistics : c'.statistics = c.statistics.recordCollection report
  cycles : c'.cycles = c.cycles + 1

/-- A report tells what its collection has done. -/
theorem Sound.reported_of_ok (hc : c.Sound) {reason : Reason} {report : Report}
    (h : Collector.collectFor target reason c = .ok report c') :
    Reported target report c c' := by
  obtain ⟨p, hleaves, rfl⟩ := Passes.of_collectFor h
  have hheap := hleaves.heap
  have hqueue := hleaves.queue
  have hT := p.traced hc
  have hcompacted := p.compacted hc
  obtain ⟨hsurvivors, hobjects, hbytes⟩ := p.compaction_eq hc
  have hlayout := (p.onlyMarks_kept hc).1.layout
  have hlength := Compaction.length_objects_add hT hcompacted
  have hused := Compaction.usedBytes_add hT hcompacted
  have hcount := hT.wellFormed.condemnedCount_eq target
  refine
    { used_before := rfl
      used_after := rfl
      bytes := ?_
      objects := ?_
      marked := (p.marked_eq hc).trans hsurvivors.symm
      condemned := ?_
      weakCleared := ?_
      weak := by rw [hleaves.weak]; exact HandleTable.next_map _ _
      taken := ?_
      enqueued := ?_
      statistics := hleaves.statistics
      cycles := hleaves.cycles }
  · show c'.heap.usedBytes + p.tally.compaction.reclaimedBytes = c.heap.usedBytes
    rw [hheap, hbytes, hused, hlayout.usedBytes]
  · show c'.heap.objects.length + p.tally.compaction.reclaimedObjects = c.heap.objects.length
    rw [hheap, hobjects, hlength, p.objects_kept hc]
  · show p.tally.compaction.survivors + p.tally.compaction.reclaimedObjects =
      c.heap.condemnedCount target
    have hsame : p.kept.objectCount = c.heap.objectCount := funext fun s =>
      congrArg List.length (hlayout.offsetsIn hc.heap.wellFormed s)
    rw [hsurvivors, hobjects, ← hcount, Heap.condemnedCount, hsame, Heap.condemnedCount]
  · -- a handle is cleared exactly if its object has no place any more
    have hplace : ∀ a, (p.compaction.fate p.planned a = .dies) ↔ c.placeAfter target a = none := by
      intro a
      rw [placeAfter, Heap.placeAfter_of_ok p.markLive p.resurrect p.start]
      cases p.compaction.fate p.planned a <;> simp [Fate.apply]
    show (c.weak.process (p.compaction.fate p.planned)).1 = _
    refine List.countP_congr fun o _ => ?_
    cases o with
    | none => rfl
    | some a => simpa using hplace a
  · rw [hqueue]
    show p.queue.taken = _
    rw [Passes.queue, FinalizationQueue.taken_enqueue, FinalizationQueue.taken_redirect,
      List.length_map]
    rfl
  · rw [hqueue]
    show c.queue.enqueuedTotal + (p.dying.map _).length = _
    rw [List.length_map]
    rfl

/-- A collection that fails is counted, and changes no other account. -/
structure Failed (c c' : Collector κ TypeRegistry) : Prop where
  objects : c'.heap.objects = c.heap.objects
  used : c'.heap.usedBytes = c.heap.usedBytes
  queue : c'.queue = c.queue
  statistics : c'.statistics = c.statistics
  cycles : c'.cycles = c.cycles + 1

theorem Sound.failed_of_error (hc : c.Sound) (hrest : c.AtRest) {reason : Reason} {e : Error}
    (h : Collector.collectFor target reason c = .error e c') : Failed c c' := by
  have hfixed : FixedTypes TypeRegistry := fun _ _ _ => rfl
  have hrestored := restored_of_error hfixed hc.heap.intact hrest.collecting h
  have hlayout := (hc.untouched_of_error h).heap.layout
  exact ⟨hlayout.objects hc.heap.wellFormed, hlayout.usedBytes, hrestored.queue,
    hrestored.statistics, hrestored.cycles⟩

end Collector

end GenerationalHeap
