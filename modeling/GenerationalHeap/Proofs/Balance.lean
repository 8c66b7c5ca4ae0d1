/-
The books balance.

* `Ledger.Balances` — what holds of a ledger whose entries add up to what the collector counts.
* `Ledger.Balances.collected`, `Ledger.Balances.allocated` and the like — every step keeps that.
* `Ledger.Kept.balances` — so they balance along every run.
* `Collector.Reachable.books_balance` — so the counters of the statistics and the numbers of the
  reports tell what is in the heap and in the queue.
-/
import GenerationalHeap.Proofs.Guarantees
import GenerationalHeap.Proofs.Ledger

namespace GenerationalHeap

/-! ### New blocks -/

theorem Request.blockSize_eq_roomFor {r : Request} {types : TypeSystem} (hr : r.Prepared types) :
    r.blockSize = r.header.space.roomFor r.header := by
  have hblock := blockSize_header hr
  cases hclass : r.sizeClass with
  | small => rw [space_header_of_small hclass, Space.roomFor, hblock, blockSize, hclass]
  | large => rw [space_header_of_large hclass, Space.roomFor, hblock, blockSize, hclass]

namespace Heap.Adds

variable {h h' : Heap} {a : Address} {new : Header}

theorem objects_perm (hw : h.WellFormed) (ha : Adds a new h h') :
    h'.objects.Perm (a :: h.objects) := by
  refine (List.perm_ext_iff_of_nodup ha.wellFormed.objects_nodup
    (List.nodup_cons.2 ⟨ha.fresh, hw.objects_nodup⟩)).2 fun b => ?_
  rw [ha.mem, List.mem_cons, or_comm]

/-- A new object takes its block, and no other block changes its size. -/
theorem usedBytes_eq (hw : h.WellFormed) (ha : Adds a new h h') :
    h'.usedBytes = new.space.roomFor new + h.usedBytes := by
  have hnew : h'.extent a = new.space.roomFor new := by
    rw [ha.wellFormed.extent_eq_roomFor ((ha.mem a).2 (Or.inr rfl)) ha.space, ha.header_new]
  have hold : ∀ b ∈ h.objects, h'.extent b = h.extent b := by
    intro b hb
    obtain ⟨s, hs, -⟩ := hw.mem_objects_iff.1 hb
    rw [ha.wellFormed.extent_eq_roomFor ((ha.mem b).2 (Or.inl hb)) hs, ha.header hw hb,
      hw.extent_eq_roomFor hb hs]
  rw [ha.wellFormed.usedBytes_eq_sum, hw.usedBytes_eq_sum, ((ha.objects_perm hw).map _).sum_eq,
    List.map_cons, List.sum_cons, hnew, List.map_congr_left hold]

end Heap.Adds

/-- Every object takes bytes. -/
theorem Heap.WellFormed.length_objects_le {h : Heap} (hw : h.WellFormed) :
    h.objects.length ≤ h.usedBytes := by
  have hpos : ∀ n ∈ h.objects.map h.extent, 1 ≤ n := by
    intro n hn
    obtain ⟨a, ha, rfl⟩ := List.mem_map.1 hn
    obtain ⟨s, hs, -⟩ := hw.mem_objects_iff.1 ha
    rw [hw.extent_eq_roomFor ha hs]
    exact Nat.le_trans (h.header a).blockSize_pos (s.blockSize_le_roomFor _)
  rw [hw.usedBytes_eq_sum, ← List.length_map (f := h.extent)]
  exact List.length_le_sum_of_one_le _ hpos

/-! ### Balances -/

/-- The numbers of a report add up. -/
structure Entry.AddsUp (e : Entry) : Prop where
  bytes : e.report.heapUsedBefore = e.report.heapUsedAfter + e.report.bytesReclaimed
  marked : e.report.objectsMarked = e.report.survivors
  condemned : e.report.survivors + e.report.objectsReclaimed = e.condemned

namespace Ledger

variable {κ : Type}

/-- The sum of a number that the reports tell. -/
def total (f : Report → Nat) (l : Ledger κ) : Nat := (l.entries.map fun e => f e.report).sum

/-- The entries of a ledger add up to what the collector counts. -/
structure Balances (l : Ledger κ) : Prop where
  used : l.collector.heap.usedBytes + l.total (·.bytesReclaimed) = l.blocks.sum
  objects : l.collector.heap.objects.length + l.total (·.objectsReclaimed) = l.blocks.length
  taken : l.collector.queue.taken = l.total (·.finalizersEnqueued)
  enqueued : l.collector.queue.enqueuedTotal = l.total (·.finalizersEnqueued)
  cycles : l.collector.cycles = l.entries.length + l.failed
  entries : ∀ e ∈ l.entries, e.AddsUp
  objectsAllocated : l.collector.statistics.objectsAllocated = UInt64.ofNat l.blocks.length
  bytesAllocated : l.collector.statistics.bytesAllocated = UInt64.ofNat l.blocks.sum
  objectsReclaimed : l.collector.statistics.objectsReclaimed =
    UInt64.ofNat (l.total (·.objectsReclaimed))
  bytesReclaimed : l.collector.statistics.bytesReclaimed =
    UInt64.ofNat (l.total (·.bytesReclaimed))
  finalizersEnqueued : l.collector.statistics.finalizersEnqueued =
    UInt64.ofNat (l.total (·.finalizersEnqueued))
  totalCycles : l.collector.statistics.totalCycles = UInt64.ofNat l.entries.length

open Collector (SameAccounts Reported Failed)

variable {config : Config} {types : TypeRegistry} {l l' : Ledger κ} {c : Collector κ TypeRegistry}
  {target : Target} {report : Report} {r : Request}

theorem total_collected (f : Report → Nat) (l : Ledger κ) :
    (l.collected target report c).total f = f report + l.total f := rfl

/-- What changes no account leaves the books balanced. -/
theorem Balances.of_sameAccounts (hl : l.Balances) (hw : l.collector.heap.WellFormed)
    (h : SameAccounts l.collector c) : (l.withCollector c).Balances where
  used := h.layout.usedBytes ▸ hl.used
  objects := h.layout.objects hw ▸ hl.objects
  taken := h.taken ▸ hl.taken
  enqueued := h.enqueued ▸ hl.enqueued
  cycles := h.cycles ▸ hl.cycles
  entries := hl.entries
  objectsAllocated := h.counts.objectsAllocated ▸ hl.objectsAllocated
  bytesAllocated := h.counts.bytesAllocated ▸ hl.bytesAllocated
  objectsReclaimed := h.counts.objectsReclaimed ▸ hl.objectsReclaimed
  bytesReclaimed := h.counts.bytesReclaimed ▸ hl.bytesReclaimed
  finalizersEnqueued := h.counts.finalizersEnqueued ▸ hl.finalizersEnqueued
  totalCycles := h.counts.totalCycles ▸ hl.totalCycles

theorem totalCycles_recordCollection (s : Statistics) (report : Report) :
    (s.recordCollection report).totalCycles = s.totalCycles + 1 := by
  show (s.countCycle report.target).totalCycles = _
  rw [Statistics.totalCycles, Statistics.totalCycles]
  cases report.target <;> simp only [Statistics.countCycle] <;> ac_rfl

theorem allocated_recordCollection (s : Statistics) (report : Report) :
    (s.recordCollection report).objectsAllocated = s.objectsAllocated ∧
      (s.recordCollection report).bytesAllocated = s.bytesAllocated := by
  show (s.countCycle report.target).objectsAllocated = _ ∧
    (s.countCycle report.target).bytesAllocated = _
  cases report.target <;> exact ⟨rfl, rfl⟩

/-- A report enters what its collection has done. -/
theorem Balances.collected (hl : l.Balances) (h : Reported target report l.collector c) :
    (l.collected target report c).Balances where
  used := by
    have hused := hl.used
    have hbytes := h.bytes
    -- what is in use no longer was reclaimed
    rw [total_collected]
    show c.heap.usedBytes + _ = l.blocks.sum
    omega
  objects := by
    have hobjects := hl.objects
    have hcount := h.objects
    rw [total_collected]
    show c.heap.objects.length + _ = l.blocks.length
    omega
  taken := by
    rw [total_collected, Nat.add_comm, ← hl.taken]
    exact h.taken
  enqueued := by
    rw [total_collected, Nat.add_comm, ← hl.enqueued]
    exact h.enqueued
  cycles := by
    have hcycles := hl.cycles
    show c.cycles = l.entries.length + 1 + l.failed
    rw [h.cycles]
    omega
  entries e he := by
    rcases List.mem_cons.1 he with rfl | he
    · have hused : report.heapUsedBefore = report.heapUsedAfter + report.bytesReclaimed := by
        rw [h.used_before, h.used_after, h.bytes]
      exact ⟨hused, h.marked, h.condemned⟩
    · exact hl.entries e he
  objectsAllocated := by
    show c.statistics.objectsAllocated = _
    rw [h.statistics, (allocated_recordCollection _ _).1]
    exact hl.objectsAllocated
  bytesAllocated := by
    show c.statistics.bytesAllocated = _
    rw [h.statistics, (allocated_recordCollection _ _).2]
    exact hl.bytesAllocated
  objectsReclaimed := by
    rw [total_collected, UInt64.ofNat_add, UInt64.add_comm, ← hl.objectsReclaimed]
    show c.statistics.objectsReclaimed = _
    rw [h.statistics]
    rfl
  bytesReclaimed := by
    -- the counters of the statistics wrap as the sums do
    rw [total_collected, UInt64.ofNat_add, UInt64.add_comm, ← hl.bytesReclaimed]
    show c.statistics.bytesReclaimed = _
    rw [h.statistics]
    rfl
  finalizersEnqueued := by
    rw [total_collected, UInt64.ofNat_add, UInt64.add_comm, ← hl.finalizersEnqueued]
    show c.statistics.finalizersEnqueued = _
    rw [h.statistics]
    rfl
  totalCycles := by
    show c.statistics.totalCycles = UInt64.ofNat (l.entries.length + 1)
    rw [h.statistics, totalCycles_recordCollection, hl.totalCycles, UInt64.ofNat_add]
    rfl

/-- A collection that fails is counted, and leaves all other accounts as they are. -/
theorem Balances.failedWith (hl : l.Balances) (h : Failed l.collector c) :
    (l.failedWith c).Balances where
  used := h.used ▸ hl.used
  objects := h.objects ▸ hl.objects
  taken := h.queue ▸ hl.taken
  enqueued := h.queue ▸ hl.enqueued
  cycles := by
    have hcycles := hl.cycles
    show c.cycles = l.entries.length + (l.failed + 1)
    rw [h.cycles]
    omega
  entries := hl.entries
  objectsAllocated := h.statistics ▸ hl.objectsAllocated
  bytesAllocated := h.statistics ▸ hl.bytesAllocated
  objectsReclaimed := h.statistics ▸ hl.objectsReclaimed
  bytesReclaimed := h.statistics ▸ hl.bytesReclaimed
  finalizersEnqueued := h.statistics ▸ hl.finalizersEnqueued
  totalCycles := h.statistics ▸ hl.totalCycles

/-- A new object is counted with its block. -/
theorem Balances.allocated (hl : l.Balances) (hw : l.collector.heap.WellFormed)
    (hr : r.Prepared l.collector.types) {a : Address} {heap : Heap}
    (h : Heap.Adds a r.header l.collector.heap heap) :
    ((l.withCollector { l.collector with heap }).allocated r.blockSize).Balances where
  used := by
    have hused := hl.used
    show heap.usedBytes + l.total (·.bytesReclaimed) = r.blockSize + l.blocks.sum
    rw [h.usedBytes_eq hw, ← Request.blockSize_eq_roomFor hr]
    omega
  objects := by
    have hobjects := hl.objects
    show heap.objects.length + l.total (·.objectsReclaimed) = l.blocks.length + 1
    rw [(h.objects_perm hw).length_eq, List.length_cons]
    omega
  taken := hl.taken
  enqueued := hl.enqueued
  cycles := hl.cycles
  entries := hl.entries
  objectsAllocated := by
    show l.collector.statistics.objectsAllocated + 1 = UInt64.ofNat (l.blocks.length + 1)
    rw [hl.objectsAllocated, UInt64.ofNat_add]
    rfl
  bytesAllocated := by
    show l.collector.statistics.bytesAllocated + UInt64.ofNat r.blockSize =
      UInt64.ofNat (r.blockSize + l.blocks.sum)
    rw [hl.bytesAllocated, UInt64.ofNat_add, UInt64.add_comm]
  objectsReclaimed := hl.objectsReclaimed
  bytesReclaimed := hl.bytesReclaimed
  finalizersEnqueued := hl.finalizersEnqueued
  totalCycles := hl.totalCycles

/-! ### Calls -/

/-- Whether it fails or not, a collection leaves the books balanced. -/
theorem Balances.collectFor (hl : l.Balances) (hc : l.collector.Steady) (target : Target)
    (reason : Reason) : ((Ledger.collectFor target reason).final l).Balances := by
  rw [Action.final, Ledger.collectFor]
  cases hrun : Collector.collectFor target reason l.collector with
  | ok report c => exact hl.collected (hc.reported_of_ok hrun)
  | error e c => exact hl.failedWith (hc.failed_of_error hc.toAtRest hrun)

/-- What holds on every rung of the ladder of an allocation. -/
structure Climbs (r : Request) (l : Ledger κ) : Prop extends l.Balances where
  steady : l.collector.Steady
  prepared : r.Prepared l.collector.types

theorem Climbs.of_sameAccounts (hl : Climbs r l) (h : SameAccounts l.collector c) (hc : c.Steady)
    (ht : c.types = l.collector.types) : Climbs r (l.withCollector c) where
  toBalances := hl.toBalances.of_sameAccounts hl.steady.heap.wellFormed h
  steady := hc
  prepared := by
    show r.Prepared c.types
    rw [ht]
    exact hl.prepared

theorem Climbs.of_tables (hl : Climbs r l) (hs : Collector.SameTables l.collector c)
    (hheap : c.heap = l.collector.heap) (hq : Collector.Quiet l.collector c)
    (h : SameAccounts l.collector c) : Climbs r (l.withCollector c) :=
  hl.of_sameAccounts h (hl.steady.of_tables hs hheap hq) hs.types

theorem upholds_owner (r : Request) :
    owner.Upholds r (Climbs (κ := κ) r) fun _ l => (l.allocated r.blockSize).Balances where
  place l hl := by
    refine (beside.ends_onHeap (hl.steady.place_ends hl.prepared)).imp ?_ ?_
    · rintro _ ⟨c, rfl, rfl⟩
      exact hl
    · rintro (_ | a) _ ⟨c, rfl, hc⟩
      · obtain rfl : c = l.collector := hc
        exact hl
      · -- an object that is placed is counted before anything else happens
        obtain ⟨heap, rfl, hadd, -⟩ := hc
        exact hl.toBalances.allocated hl.steady.heap.wellFormed hl.prepared hadd
  grow l hl := by
    refine beside.ends_of_final ?_
    refine hl.of_sameAccounts (hl.steady.sameAccounts_growNursery r.blockSize)
      (hl.steady.growNursery hl.prepared r.blockSize) ?_
    rw [Action.final, onHeap]
    cases Heap.growNursery r.blockSize l.collector.heap <;> rfl
  grown old new l hl :=
    hl.of_tables ⟨rfl, rfl, rfl, rfl, rfl, rfl, rfl⟩ rfl
      ⟨rfl, fun _ _ => rfl, rfl, rfl, rfl, rfl, rfl⟩
      (hl.steady.sameAccounts rfl (.refl _) rfl rfl rfl)
  collect target reason l hl := by
    refine Action.ends_of_final ?_
    rw [owner, Action.final_discard]
    refine ⟨hl.toBalances.collectFor hl.steady target reason, ?_, ?_⟩
    · rw [← (seenAs_collectFor target reason).final l]
      exact hl.steady.collectFor target reason
    · have htypes : ((Ledger.collectFor target reason).final l).collector.types =
          l.collector.types := by
        rw [← (seenAs_collectFor target reason).final l]
        exact congrArg Host.types (hl.steady.toSound.host_collectFor target reason)
      rw [htypes]
      exact hl.prepared

/-- An allocation leaves the books balanced, with all the collections that it starts, whether it
fails or not. -/
theorem Balances.allocateObject (hl : l.Balances) (hc : l.collector.Steady) (typeId : TypeId)
    (size : Nat) (hasFinalizer : Bool) (build : Build) :
    ((recorder.allocateObject typeId size hasFinalizer build).final l).Balances := by
  refine Recorder.final_allocateObject hl fun r hr => ?_
  have hends := (upholds_owner r).allocate l.collector.config ⟨hl, hc, Request.prepare_spec hr⟩
  refine hends.imp ?_ fun _ _ h => h
  intro l' hkept e
  exact hkept.toBalances.of_sameAccounts hkept.steady.heap.wellFormed
    (hkept.steady.sameAccounts_noteFailure e)

theorem Balances.after (hl : l.Balances) (hc : l.collector.Steady) (k : Call κ) :
    (Ledger.after k l).Balances := by
  have hother : k.mayCollect = false →
      (l.withCollector (Collector.after k l.collector)).Balances := fun hk =>
    hl.of_sameAccounts hc.heap.wellFormed (hc.sameAccounts_after hk)
  cases k with
  | allocate typeId size hasFinalizer build =>
    exact hl.allocateObject hc typeId size hasFinalizer build
  | collect target reason => exact hl.collectFor hc target reason
  | _ => exact hother rfl

/-- Every step leaves the books balanced. -/
theorem Balances.of_step (hl : l.Balances) (hc : l.collector.Steady) (hs : Step l l') :
    l'.Balances := by
  have hw := hc.heap.wellFormed
  cases hs with
  | call k => exact hl.after hc k
  | takeNext patience => exact hl.of_sameAccounts hw (hc.sameAccounts_takeNext patience)
  | beginTurn => exact hl.of_sameAccounts hw hc.sameAccounts_beginTurn
  | flag inside => exact hl.of_sameAccounts hw (hc.sameAccounts rfl (.refl _) rfl rfl rfl)
  | noteOutcome a fault => exact hl.of_sameAccounts hw (hc.sameAccounts_noteOutcome a fault)
  | endTurn => exact hl.of_sameAccounts hw hc.sameAccounts_endTurn

/-- The books balance along every run. -/
theorem Kept.balances (h : Kept config types l) : l.Balances := by
  induction h with
  | start build hcreate =>
    have hobjects := Heap.objects_empty config.gen0Size config.maxHeapSize
    obtain rfl := Collector.eq_of_create hcreate
    refine ⟨?_, ?_, rfl, rfl, rfl, fun e he => absurd he List.not_mem_nil, rfl, rfl, rfl, rfl, rfl,
      rfl⟩
    · rfl
    · show (Heap.empty config.gen0Size config.maxHeapSize).objects.length + 0 = 0
      rw [hobjects]
      rfl
  | step hprev hs ih => exact ih.of_step hprev.reachable.steady hs

/-- The counters wrap, but their difference tells what there is. -/
theorem toNat_sub_of_add_eq {n m k : Nat} (h : n + m = k) (hn : n < UInt64.size) :
    (UInt64.ofNat k - UInt64.ofNat m).toNat = n := by
  rw [← UInt64.ofNat_sub (by omega), ← h, Nat.add_sub_cancel]
  exact UInt64.toNat_ofNat_of_lt' hn

end Ledger

namespace Collector

variable {κ : Type} {config : Config} {types : TypeRegistry} {c : Collector κ TypeRegistry}

/-- The books balance in whatever state a collector is: the counters of the statistics tell the
bytes in use and the number of objects, how many objects have come into the queue, and how many
collections there were, and so do the reports of the collections that succeed. -/
theorem Reachable.books_balance (h : Reachable config types c) :
    (c.statistics.bytesAllocated - c.statistics.bytesReclaimed).toNat = c.heap.usedBytes ∧
    (c.statistics.objectsAllocated - c.statistics.objectsReclaimed).toNat =
      (Space.all.map c.heap.objectCount).sum ∧
    c.statistics.finalizersEnqueued = UInt64.ofNat (c.queue.completedTotal + c.queue.size) ∧
    (∃ l, Ledger.Kept config types l ∧ l.collector = c) ∧
    (∀ l, Ledger.Kept config types l → l.collector = c →
      UInt64.ofNat c.cycles = c.statistics.totalCycles + UInt64.ofNat l.failed ∧
      ∀ e ∈ l.entries, e.AddsUp) ∧
    ∀ target reason report c', collectFor target reason c = .ok report c' →
      report.heapUsedBefore = report.heapUsedAfter + report.bytesReclaimed ∧
      report.objectsMarked = report.survivors ∧
      report.survivors + report.objectsReclaimed =
        ((Space.all.filter target.condemns).map c.heap.objectCount).sum := by
  have hc := h.steady
  -- neither the bytes nor the objects in use reach the wrap of the counters
  have hlimit : c.heap.usedBytes < UInt64.size :=
    Nat.lt_of_le_of_lt (Nat.le_trans hc.heap.used_le hc.heap.maxSize_le) (by decide)
  have hcount : c.heap.objects.length < UInt64.size :=
    Nat.lt_of_le_of_lt hc.heap.wellFormed.length_objects_le hlimit
  obtain ⟨l, hkept, hl⟩ := Ledger.exists_kept h
  have hbalances := hkept.balances
  subst hl
  refine ⟨?_, ?_, ?_, ⟨l, hkept, rfl⟩, ?_, ?_⟩
  · rw [hbalances.bytesAllocated, hbalances.bytesReclaimed]
    exact Ledger.toNat_sub_of_add_eq hbalances.used hlimit
  · rw [← Heap.length_objects_eq, hbalances.objectsAllocated, hbalances.objectsReclaimed]
    exact Ledger.toNat_sub_of_add_eq hbalances.objects hcount
  · rw [hbalances.finalizersEnqueued, ← hbalances.taken]
    rfl
  · -- another ledger of the same collector may count other collections that failed
    intro l' hkept' hsame
    have hbalances' := hkept'.balances
    refine ⟨?_, hbalances'.entries⟩
    rw [← hsame, hbalances'.totalCycles, hbalances'.cycles, UInt64.ofNat_add]
  · intro target reason report c' hrun
    have hreported := hc.reported_of_ok hrun
    refine ⟨?_, hreported.marked, hreported.condemned⟩
    rw [hreported.used_before, hreported.used_after, hreported.bytes]

/-- A collection of the nursery of `pair` counts the only young object. -/
theorem balance_of_pair :
    (pair.statistics.bytesAllocated - pair.statistics.bytesReclaimed).toNat =
      pair.heap.usedBytes ∧
    ∃ report c', collectFor .gen0 .explicit pair = .ok report c' ∧
      report.survivors + report.objectsReclaimed = 1 := by
  obtain ⟨hbytes, -, -, -, -, hreports⟩ := reachable_pair.books_balance
  obtain ⟨report, c', hrun⟩ := reachable_pair.sound.collectFor_ok provided_pair .gen0 .explicit
  have hone : ((Space.all.filter Target.gen0.condemns).map pair.heap.objectCount).sum = 1 := by
    decide +kernel
  obtain ⟨-, -, hcondemned⟩ := hreports _ _ _ _ hrun
  exact ⟨hbytes, report, c', hrun, hcondemned.trans hone⟩

end Collector

end GenerationalHeap
