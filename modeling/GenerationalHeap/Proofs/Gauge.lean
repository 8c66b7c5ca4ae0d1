/-
The gauge of the bytes in use.

The statistics keep a copy of the number of bytes in use, which summaries and exported metrics
show. A collection that succeeds renews the copy, and nothing else does. So it lacks the blocks
that were allocated since.

* `Occurrence.unseen` — the bytes that the gauge lacks.
* `Journal.Told.used_eq` — the bytes in use, by the gauge and what it lacks.
* `Collector.Reachable.gauge_lags_behind` — what the gauge shows in any state, after collections and
  after allocations.
-/
import GenerationalHeap.Collector.Overview
import GenerationalHeap.Proofs.Occurrences

namespace GenerationalHeap

/-! ### Blocks that the gauge lacks -/

/-- The bytes of the blocks that were allocated since a collection has succeeded, if there were `n`
before an occurrence. -/
def Occurrence.unseen (n : Nat) : Occurrence → Nat
  | finished _ => 0
  | placed size => n + size
  | _ => n

theorem Occurrence.foldl_used (occurrences : List Occurrence) (g n : Nat) :
    occurrences.foldl used (g + n) = occurrences.foldl gauge g + occurrences.foldl unseen n := by
  induction occurrences generalizing g n with
  | nil => rfl
  | cons o rest ih =>
    have hstep : used (g + n) o = gauge g o + unseen n o := by
      cases o with
      | placed size => exact Nat.add_assoc g n size
      | _ => rfl
    rw [List.foldl_cons, List.foldl_cons, List.foldl_cons, hstep, ih]

namespace Journal

variable {κ : Type} {config : Config} {j j' : Journal κ}

/-- What the gauge lacks are the blocks that were allocated since a collection has succeeded. -/
theorem Told.used_eq (h : j.Told config) : j.collector.heap.usedBytes =
    j.collector.statistics.heapUsed + j.occurrences.foldl Occurrence.unseen 0 := by
  rw [h.used, h.gauge, ← Occurrence.foldl_used]

/-- What an allocation that succeeds enters last is that its block was placed. -/
theorem occurrences_of_allocateObject_ok {typeId : TypeId} {size : Nat} {hasFinalizer : Bool}
    {build : Build} {a : Address}
    (hrun : recorder.allocateObject typeId size hasFinalizer build j = .ok a j') :
    ∃ r earlier,
      Request.prepare j.collector.config j.collector.types typeId size hasFinalizer build =
        .ok r ∧
      j'.occurrences = earlier ++ [.placed r.blockSize] := by
  rw [Recorder.allocateObject] at hrun
  dsimp only [recorder] at hrun
  cases hr :
      Request.prepare j.collector.config j.collector.types typeId size hasFinalizer build with
  | error e =>
    rw [hr] at hrun
    exact absurd hrun (by simp)
  | ok r =>
    rw [hr] at hrun
    dsimp only at hrun
    cases hladder : allocate owner r j.collector.config j with
    | error e w =>
      rw [hladder] at hrun
      exact absurd hrun (by simp)
    | ok b w =>
      rw [hladder] at hrun
      obtain ⟨-, rfl⟩ := EStateM.Result.ok.inj hrun
      exact ⟨r, w.occurrences, rfl, rfl⟩

/-- Every block that was allocated since a collection has succeeded is lacking. -/
theorem blockSize_le_unseen {earlier : List Occurrence} {size : Nat}
    (h : j.occurrences = earlier ++ [.placed size]) :
    size ≤ j.occurrences.foldl Occurrence.unseen 0 := by
  rw [h, List.foldl_append]
  exact Nat.le_add_left _ _

end Journal

theorem Request.blockSize_pos {r : Request} {types : TypeSystem} (hr : r.Prepared types) :
    0 < r.blockSize := by
  rw [blockSize_eq_roomFor hr]
  exact Nat.lt_of_lt_of_le r.header.blockSize_pos (Space.blockSize_le_roomFor _ _)

namespace Collector

variable {κ : Type} {config : Config} {types : TypeRegistry} {c c' : Collector κ TypeRegistry}

/-- After an allocation the gauge lacks at least the new block. -/
theorem Reachable.gauge_add_blockSize_le (h : Reachable config types c) {typeId : TypeId}
    {size : Nat} {hasFinalizer : Bool} {build : Build} {a : Address}
    (hrun : allocateObjectIn build typeId size hasFinalizer c = .ok a c') :
    ∃ r, Request.prepare c.config c.types typeId size hasFinalizer build = .ok r ∧ 0 < r.blockSize ∧
      c'.statistics.heapUsed + r.blockSize ≤ c'.heap.usedBytes := by
  obtain ⟨j, hkept, rfl⟩ := Journal.exists_kept h
  have hseen := Journal.seenAs_allocateObject (κ := κ) typeId size hasFinalizer build
  cases hjournal : Journal.recorder.allocateObject typeId size hasFinalizer build j with
  | error e j' => exact absurd ((hseen.of_error hjournal).symm.trans hrun) (by simp)
  | ok b j' =>
    obtain ⟨rfl, rfl⟩ := EStateM.Result.ok.inj ((hseen.of_ok hjournal).symm.trans hrun)
    obtain ⟨r, earlier, hr, hlast⟩ := Journal.occurrences_of_allocateObject_ok hjournal
    have htold : j'.Told config := by
      have hstep := hkept.step (.call (.allocate typeId size hasFinalizer build) j)
      rw [Journal.after, Action.final_of_ok hjournal] at hstep
      exact hstep.told
    have hlacks := Journal.blockSize_le_unseen hlast
    refine ⟨r, hr, Request.blockSize_pos (Request.prepare_spec hr), ?_⟩
    rw [htold.used_eq]
    omega

/-- The gauge shows the bytes in use right after each collection that succeeds, and then stays as
it is. It lacks the blocks that were allocated since, so that after each allocation it shows too
little. -/
theorem Reachable.gauge_lags_behind (h : Reachable config types c) :
    (∀ target reason report c', collectFor target reason c = .ok report c' →
      c'.statistics.summary.heapUsedBytes = c'.occupancy.usedBytes) ∧
    (∀ typeId size hasFinalizer a c', allocateObject typeId size hasFinalizer c = .ok a c' →
      ∃ r, Request.prepare c.config c.types typeId size hasFinalizer = .ok r ∧ 0 < r.blockSize ∧
        c'.statistics.summary.heapUsedBytes + r.blockSize ≤ c'.occupancy.usedBytes) ∧
    (∀ j, Journal.Kept config types j → j.collector = c →
      c.statistics.summary.heapUsedBytes = j.occurrences.foldl Occurrence.gauge 0 ∧
      c.occupancy.usedBytes =
        c.statistics.summary.heapUsedBytes + j.occurrences.foldl Occurrence.unseen 0) ∧
    c.statistics.metrics.get? "gengc_heap_used_bytes" =
      some (.gauge (countToFloat c.statistics.summary.heapUsedBytes).toBits) := by
  refine ⟨?_, fun _ _ _ _ _ hrun => h.gauge_add_blockSize_le hrun, ?_, rfl⟩
  · intro target reason report c' hrun
    have hshows := h.sound.shows_finished hrun
    exact hshows.gauge.trans hshows.used.symm
  · rintro j hkept rfl
    exact ⟨hkept.told.gauge, hkept.told.used_eq⟩

/-- A third object beside those of `pair`. -/
theorem gauge_of_pair : ∃ a c', allocateObject ⟨0⟩ 20 true pair = .ok a c' ∧
    c'.statistics.summary.heapUsedBytes < c'.occupancy.usedBytes := by
  obtain ⟨a, c', hrun⟩ := allocates_pair
  obtain ⟨r, -, hpos, hle⟩ := reachable_pair.gauge_lags_behind.2.1 _ _ _ _ _ hrun
  exact ⟨a, c', hrun, by omega⟩

/-- The gauge is not renewed by allocations. -/
theorem gauge_misses_allocation :
    ¬∀ (c c' : Collector Unit TypeRegistry) (typeId : TypeId) (size : Nat) (hasFinalizer : Bool)
        (a : Address), Reachable {} ⟨#[.array "row"]⟩ c →
      allocateObject typeId size hasFinalizer c = .ok a c' →
        c'.statistics.summary.heapUsedBytes = c'.occupancy.usedBytes := by
  intro hall
  obtain ⟨a, c', hrun⟩ := allocates_pair
  have hdiffers : ((allocateObject ⟨0⟩ 20 true).final pair).statistics.summary.heapUsedBytes ≠
      ((allocateObject ⟨0⟩ 20 true).final pair).occupancy.usedBytes := by decide +kernel
  rw [Action.final_of_ok hrun] at hdiffers
  exact hdiffers (hall pair c' ⟨0⟩ 20 true a reachable_pair hrun)

end Collector

end GenerationalHeap
