/-
What a step leaves alone.

* `Collector.SameAccounts` — the blocks, the counts of objects and bytes, the number of
  collections, and how many objects were enqueued and served.
* `Collector.Sound.sameAccounts_after`, `Collector.Sound.sameAccounts_beginTurn` and the like —
  all but allocations and collections keep them.
* `Collector.Reachable.maxSize_eq` — the heap limit is the one of the configuration.
-/
import GenerationalHeap.Proofs.Callbacks

namespace GenerationalHeap

/-! ### Accounts -/

/-- The counts of objects, bytes and collections are the same. -/
structure Statistics.SameCounts (s s' : Statistics) : Prop where
  objectsAllocated : s'.objectsAllocated = s.objectsAllocated
  bytesAllocated : s'.bytesAllocated = s.bytesAllocated
  objectsReclaimed : s'.objectsReclaimed = s.objectsReclaimed
  bytesReclaimed : s'.bytesReclaimed = s.bytesReclaimed
  finalizersEnqueued : s'.finalizersEnqueued = s.finalizersEnqueued
  totalCycles : s'.totalCycles = s.totalCycles

theorem Statistics.SameCounts.refl (s : Statistics) : s.SameCounts s :=
  ⟨rfl, rfl, rfl, rfl, rfl, rfl⟩

/-- How many objects were ever taken into a queue, those that wait and the one in flight
included. -/
def FinalizationQueue.taken (q : FinalizationQueue) : Nat := q.completedTotal + q.size

theorem FinalizationQueue.taken_takeNext (q : FinalizationQueue) (patience : Patience) :
    (q.takeNext patience).2.taken = q.taken := by
  rcases q.takeNext_cases patience with ⟨turn, hturn, -⟩ | ⟨a, rest, hpending, -, hidle, hturn⟩
  · rw [hturn]
  · rw [hturn, taken, taken, size, size, hpending, hidle]
    rfl

theorem FinalizationQueue.taken_complete (q : FinalizationQueue) :
    q.complete.2.taken = q.taken := by
  show q.completedTotal + (if q.inFlight.isSome then 1 else 0) + (q.pending.length + 0) =
    q.completedTotal + (q.pending.length + if q.inFlight.isSome then 1 else 0)
  omega

theorem FinalizationQueue.taken_enqueue (q : FinalizationQueue) (objects : List Address) :
    (q.enqueue objects).taken = q.taken + objects.length := by
  show q.completedTotal + ((q.pending ++ objects).length + if q.inFlight.isSome then 1 else 0) =
    q.completedTotal + (q.pending.length + if q.inFlight.isSome then 1 else 0) + objects.length
  rw [List.length_append]
  omega

theorem FinalizationQueue.taken_redirect (q : FinalizationQueue) (f : Address → Address) :
    (q.redirect f).taken = q.taken := by
  show q.completedTotal + ((q.pending.map f).length + if (q.inFlight.map f).isSome then 1 else 0) =
    q.completedTotal + (q.pending.length + if q.inFlight.isSome then 1 else 0)
  rw [List.length_map, Option.isSome_map]

namespace Collector

variable {κ : Type} {config : Config} {types : TypeRegistry} {c c' d : Collector κ TypeRegistry}

/-- The blocks and the counts of a collector are the same. -/
structure SameAccounts (c c' : Collector κ TypeRegistry) : Prop where
  layout : c.heap.SameLayout c'.heap
  counts : c.statistics.SameCounts c'.statistics
  cycles : c'.cycles = c.cycles
  enqueued : c'.queue.enqueuedTotal = c.queue.enqueuedTotal
  taken : c'.queue.taken = c.queue.taken

/-- A change of parts that hold no accounts. -/
theorem Sound.sameAccounts (hc : c.Sound) (hheap : c'.heap = c.heap)
    (hcounts : c.statistics.SameCounts c'.statistics) (hcycles : c'.cycles = c.cycles)
    (hqueue : c'.queue.enqueuedTotal = c.queue.enqueuedTotal)
    (htaken : c'.queue.taken = c.queue.taken) : SameAccounts c c' where
  layout := by
    rw [hheap]
    exact .refl hc.heap.wellFormed
  counts := hcounts
  cycles := hcycles
  enqueued := hqueue
  taken := htaken

theorem Sound.sameAccounts_refl (hc : c.Sound) : SameAccounts c c :=
  hc.sameAccounts rfl (.refl _) rfl rfl rfl

/-- A change of a header that leaves the size of the object as it is. -/
theorem Sound.sameAccounts_setHeader (hc : c.Sound) {a : Address} {new : Header}
    (hheap : c'.heap = c.heap.setHeader a new) (ha : a ∈ c.heap.objects)
    (hsize : new.size = (c.heap.header a).size) (hcounts : c.statistics.SameCounts c'.statistics)
    (hcycles : c'.cycles = c.cycles) (hqueue : c'.queue.enqueuedTotal = c.queue.enqueuedTotal)
    (htaken : c'.queue.taken = c.queue.taken) : SameAccounts c c' where
  layout := by
    rw [hheap]
    exact (Heap.relabels_setHeader hc.heap.wellFormed ha hsize).layout
  counts := hcounts
  cycles := hcycles
  enqueued := hqueue
  taken := htaken

theorem Touches.sameAccounts {k : Call κ} (hc : c.Sound) (h : Touches k c d) :
    SameAccounts c d := by
  cases h with
  | fields barrier hst => exact ⟨hst.layout, .refl _, rfl, rfl, rfl⟩
  | _ => exact hc.sameAccounts rfl (.refl _) rfl rfl rfl

theorem Reflags.sameAccounts (hc : c.Sound) (h : Reflags c d) : SameAccounts c d := by
  cases h with
  | nothing => exact hc.sameAccounts_refl
  | header _ _ ha hsize _ =>
    exact hc.sameAccounts_setHeader rfl ha hsize ⟨rfl, rfl, rfl, rfl, rfl, rfl⟩ rfl rfl rfl

/-- Calls that run no collection and allocate nothing keep the accounts. -/
theorem Sound.sameAccounts_after (hc : c.Sound) {k : Call κ} (hk : k.mayCollect = false) :
    SameAccounts c (Collector.after k c) := by
  cases hquiet : k.isQuiet with
  | true => exact (hc.touches_after hquiet).sameAccounts hc
  | false => exact (hc.reflags_after hquiet hk).sameAccounts hc

theorem Sound.sameAccounts_takeNext (hc : c.Sound) (patience : Patience) :
    SameAccounts c { c with queue := (c.queue.takeNext patience).2 } := by
  refine hc.sameAccounts rfl (.refl _) rfl ?_ (c.queue.taken_takeNext patience)
  rcases c.queue.takeNext_cases patience with ⟨turn, hturn, -⟩ | ⟨a, rest, -, -, -, hturn⟩ <;>
    rw [hturn]

theorem Sound.sameAccounts_beginTurn (hc : c.Sound) : SameAccounts c c.beginTurn.2 := by
  rcases hc.beginTurn_eq with ⟨hrun, -⟩ | ⟨a, -, ha, -, running, hrun⟩
  · rw [hrun]
    exact hc.sameAccounts_refl
  · rw [hrun]
    exact hc.sameAccounts_setHeader rfl ha rfl (.refl _) rfl rfl rfl

theorem Sound.sameAccounts_noteOutcome (hc : c.Sound) (a : Address) (fault : Option String) :
    SameAccounts c (noteOutcome a fault c) := by
  cases fault with
  | none => exact hc.sameAccounts rfl ⟨rfl, rfl, rfl, rfl, rfl, rfl⟩ rfl rfl rfl
  | some message => exact hc.sameAccounts rfl ⟨rfl, rfl, rfl, rfl, rfl, rfl⟩ rfl rfl rfl

/-- A failed allocation is counted as such. -/
theorem Sound.sameAccounts_noteFailure (hc : c.Sound) (e : Error) :
    SameAccounts c (noteFailure e c) := by
  cases e with
  | outOfMemory requested target =>
    exact hc.sameAccounts rfl ⟨rfl, rfl, rfl, rfl, rfl, rfl⟩ rfl rfl rfl
  | _ => exact hc.sameAccounts_refl

theorem Sound.sameAccounts_endTurn (hc : c.Sound) : SameAccounts c c.endTurn := by
  rw [hc.endTurn_eq]
  refine ⟨?_, .refl _, rfl, rfl, c.queue.taken_complete⟩
  cases hflight : c.queue.inFlight with
  | none => exact .refl hc.heap.wellFormed
  | some a =>
    have ha : a ∈ c.heap.objects :=
      hc.queue a (FinalizationQueue.mem_objects_of_inFlight hflight)
    have hsize : ((c.heap.header a).setFinalized true).size = (c.heap.header a).size := rfl
    show c.heap.SameLayout (if _ then _ else _)
    split
    · exact (Heap.relabels_setHeader hc.heap.wellFormed ha hsize).layout
    · exact .refl hc.heap.wellFormed

/-- A larger nursery holds the same blocks. -/
theorem Sound.sameAccounts_growNursery (hc : c.Sound) (blockSize : Nat) :
    SameAccounts c ((onHeap (Heap.growNursery blockSize) :
      Action (Collector κ TypeRegistry) _).final c) := by
  have hlayout := (Heap.relabels_growNursery hc.heap.wellFormed blockSize).layout
  cases hrun : Heap.growNursery blockSize c.heap with
  | ok sizes h =>
    rw [Action.final_of_ok hrun] at hlayout
    rw [Action.final_of_ok (onHeap_of_ok hrun)]
    exact ⟨hlayout, .refl _, rfl, rfl, rfl⟩
  | error e h =>
    rw [Action.final_of_error hrun] at hlayout
    rw [Action.final_of_error (onHeap_of_error hrun)]
    exact ⟨hlayout, .refl _, rfl, rfl, rfl⟩

/-! ### The heap limit -/

theorem Sound.maxSize_collectFor (hc : c.Sound) (target : Target) (reason : Reason) :
    ((Collector.collectFor target reason).final c).heap.maxSize = c.heap.maxSize := by
  rcases hc.final_collectFor target reason with h | ⟨F, dying, -, h⟩
  · exact h.heap.layout.maxSize
  · exact h.maxSize

theorem keeps_maxSize (r : Request) (config : Config) (limit : Nat) :
    Action.Keeps (fun c : Collector κ TypeRegistry => Ready r c ∧ c.heap.maxSize = limit)
      (allocate owner r config) := by
  have ho : owner.Upholds r (fun c : Collector κ TypeRegistry => Ready r c ∧ c.heap.maxSize = limit)
      fun _ c => Ready r c ∧ c.heap.maxSize = limit :=
    { place := fun c hc => by
        -- a failed attempt changes nothing, and a new object not the limit
        have hready := keeps_place.ends hc.1
        have hplaced := hc.1.toSound.place_ends hc.1.prepared
        cases hrun : onHeap r.place? c with
        | error e c' =>
          obtain rfl : c' = c := hplaced.of_error hrun
          exact Action.ends_of_error hrun hc
        | ok placed c' =>
          have hready' := hready.of_ok hrun
          have hplaced' := hplaced.of_ok hrun
          refine Action.ends_of_ok hrun ?_
          cases placed with
          | none => exact ⟨hready', by rw [show c' = c from hplaced', hc.2]⟩
          | some a =>
            obtain ⟨heap, rfl, -, hmax, -⟩ := hplaced'
            exact ⟨hready', hmax.trans hc.2⟩
      grow := fun c hc =>
        Action.Keeps.ends (fun c hc => ⟨keeps_growNursery r.blockSize c hc.1, ?_⟩) hc
      grown := fun _ _ c hc => ⟨⟨hc.1.toSound.of_tables ⟨rfl, rfl, rfl, rfl, rfl, rfl, rfl⟩ rfl,
        hc.1.prepared⟩, hc.2⟩
      collect := fun target reason c hc =>
        Action.Keeps.ends (fun c hc => ⟨keeps_collect target reason c hc.1, ?_⟩) hc }
  · exact Action.keeps_of_ends fun c hc => ho.allocate config hc
  · rw [(hc.1.toSound.sameAccounts_growNursery r.blockSize).layout.maxSize, hc.2]
  · rw [owner, Action.final_discard, hc.1.maxSize_collectFor, hc.2]

theorem Step.maxSize (hs : Step c c') (hc : c.Sound) : c'.heap.maxSize = c.heap.maxSize := by
  cases hs with
  | call k =>
    cases hk : k.mayCollect with
    | false => exact (hc.sameAccounts_after hk).layout.maxSize
    | true =>
      cases k with
      | allocate typeId size hasFinalizer build =>
        refine final_allocateObject (P := fun d => d.heap.maxSize = c.heap.maxSize) rfl
          fun r hr _ _ _ => ?_
        exact (keeps_maxSize r c.config c.heap.maxSize c ⟨⟨hc, hr⟩, rfl⟩).2
      | collect target reason => exact hc.maxSize_collectFor target reason
      | _ => exact absurd hk Bool.false_ne_true
  | takeNext patience => rfl
  | beginTurn => exact hc.sameAccounts_beginTurn.layout.maxSize
  | flag inside => rfl
  | noteOutcome a fault => exact (hc.sameAccounts_noteOutcome a fault).layout.maxSize
  | endTurn => exact hc.sameAccounts_endTurn.layout.maxSize

/-- The heap limit is the one of the configuration. -/
theorem Reachable.maxSize_eq (h : Reachable config types c) :
    c.heap.maxSize = config.maxHeapSize := by
  induction h with
  | start build hcreate =>
    rw [eq_of_create hcreate]
    rfl
  | step hprev hs ih => exact (hs.maxSize hprev.sound).trans ih

end Collector

end GenerationalHeap
