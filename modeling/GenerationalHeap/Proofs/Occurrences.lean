/-
What journals tell.

* `Collector.Emits` — the events that were logged between two states.
* `Collector.Shows` — what an occurrence says of the collector before and after it, and
  `Collector.Silent` — that nothing has occurred.
* `Collector.Sound.shows_finished`, `Collector.Steady.shows_failed` — collections occur as they are
  entered.
* `Collector.Sound.silent_after` and the like — calls that enter nothing are silent.
* `Journal.Told`, `Journal.Kept.told` — so a journal tells the log, the number of collections, the
  bytes in use and the gauge of them along every run.
-/
import GenerationalHeap.Proofs.Journal
import GenerationalHeap.Proofs.Balance
import GenerationalHeap.Proofs.Lasting

namespace GenerationalHeap

namespace Occurrence

theorem events_finished (r : Report) :
    (finished r).events = [.cycleStart r.cycle r.target.name r.reason] ++
      ([.phaseEnd r.cycle "mark" 0, .phaseEnd r.cycle "finalize" 0, .phaseEnd r.cycle "compact" 0]
        ++ Collector.closingEvents r) := rfl

/-- The bytes in use after an occurrence, if there were `n` before. -/
def used (n : Nat) : Occurrence → Nat
  | finished report => report.heapUsedAfter
  | placed size => n + size
  | _ => n

/-- What the gauge of the bytes in use shows after an occurrence, if it showed `n` before. -/
def gauge (n : Nat) : Occurrence → Nat
  | finished report => report.heapUsedAfter
  | _ => n

end Occurrence

namespace Collector

variable {κ : Type} {config : Config} {types : TypeRegistry} {c c' c'' : Collector κ TypeRegistry}
  {target : Target} {reason : Reason}

/-! ### Events between two states -/

/-- The events that were logged between two states. -/
structure Emits (events : List Event) (c c' : Collector κ TypeRegistry) : Prop where
  config : c'.config = c.config
  log : c'.log = events.foldl EventLog.record c.log
  processLog : c'.processLog =
    if c.config.verbose then events.foldl EventLog.record c.processLog else c.processLog

theorem Emits.trans {events events' : List Event} (h : Emits events c c')
    (h' : Emits events' c' c'') : Emits (events ++ events') c c'' where
  config := h'.config.trans h.config
  log := by rw [h'.log, h.log, List.foldl_append]
  processLog := by
    rw [h'.processLog, h.processLog, h.config, List.foldl_append]
    split <;> rfl

theorem emits_nil (hconfig : c'.config = c.config) (hlog : c'.log = c.log)
    (hprocess : c'.processLog = c.processLog) : Emits [] c c' where
  config := hconfig
  log := hlog
  processLog := by rw [hprocess, List.foldl_nil, ite_self]

theorem emits_foldl_emit (events : List Event) (c : Collector κ TypeRegistry) :
    Emits events c (events.foldl emit c) := by
  induction events generalizing c with
  | nil => exact emits_nil rfl rfl rfl
  | cons e rest ih =>
    have hfirst : Emits [e] c (c.emit e) := ⟨rfl, rfl, rfl⟩
    exact hfirst.trans (ih (c.emit e))

theorem emits_beginCycle (target : Target) (reason : Reason) (c : Collector κ TypeRegistry) :
    Emits [.cycleStart (c.cycles + 1) target.name reason.text] c
      (beginCycle target reason c).2 :=
  ⟨rfl, rfl, rfl⟩

theorem emits_leave (cycle : Nat) (phase : String) (c : Collector κ TypeRegistry) :
    Emits [.phaseEnd cycle phase 0] c (leave cycle phase c) :=
  ⟨rfl, rfl, rfl⟩

theorem Passes.emits_outcome (p : Passes target c) (cycle : Nat) :
    Emits [.phaseEnd cycle "mark" 0, .phaseEnd cycle "finalize" 0, .phaseEnd cycle "compact" 0] c
      (p.outcome cycle) :=
  (emits_leave cycle "mark" c).trans <| (emits_leave cycle "finalize" _).trans <|
    (emits_leave cycle "compact" _).trans (emits_nil rfl rfl rfl)

theorem emits_conclude (report : Report) (c : Collector κ TypeRegistry) :
    Emits (closingEvents report) c (conclude report c) :=
  (emits_nil rfl rfl rfl : Emits [] c
    { c.endCycle with statistics := c.endCycle.statistics.recordCollection report }).trans
    (emits_foldl_emit (closingEvents report) _)

/-- A report names the collection that it is about. -/
theorem named_of_ok {report : Report} (h : collectFor target reason c = .ok report c') :
    report.cycle = c.cycles + 1 ∧ report.target = target ∧ report.reason = reason.text := by
  obtain ⟨p, rfl, -⟩ := Passes.of_collectFor_begun h
  exact ⟨rfl, rfl, rfl⟩

/-- A collection that succeeds leaves all its events, from its start to its end. -/
theorem emits_of_ok {report : Report} (h : collectFor target reason c = .ok report c') :
    Emits (Occurrence.finished report).events c c' := by
  obtain ⟨hcycle, htarget, hreason⟩ := named_of_ok h
  obtain ⟨p, -, rfl⟩ := Passes.of_collectFor_begun h
  rw [Occurrence.events_finished, hcycle, htarget, hreason]
  exact (emits_beginCycle target reason c).trans
    ((p.emits_outcome (c.cycles + 1)).trans (emits_conclude report _))

/-- A collection fails while it marks, so that its start is all that it leaves. -/
theorem Sound.emits_of_error (hc : c.Sound) {e : Error}
    (h : Collector.collectFor target reason c = .error e c') :
    Emits [.cycleStart (c.cycles + 1) target.name reason.text] c c' := by
  have hbegin := emits_beginCycle target reason c
  have hsound : (beginCycle target reason c).2.Sound :=
    hc.of_tables ⟨rfl, rfl, rfl, rfl, rfl, rfl, rfl⟩ rfl
  rw [Collector.collectFor] at h
  generalize beginCycle target reason c = begun at h hbegin hsound
  dsimp only at h
  -- a cycle that fails has not come to the end of its first phase
  rcases hsound.runCycle_spec target begun.2.cycles with ⟨e', heap, hrun, -⟩ | ⟨_, _, _, _, hrun, -⟩
  · rw [hrun] at h
    obtain ⟨-, rfl⟩ := EStateM.Result.error.inj h
    exact hbegin.trans (emits_nil rfl rfl rfl)
  · rw [hrun] at h
    exact absurd h (by simp)

/-! ### What occurrences say -/

/-- What an occurrence says of the collector before and after it. -/
structure Shows (o : Occurrence) (c c' : Collector κ TypeRegistry) : Prop
    extends Emits o.events c c' where
  cycles : o.cycle? = none ∧ c'.cycles = c.cycles ∨
    o.cycle? = some (c.cycles + 1) ∧ c'.cycles = c.cycles + 1
  used : c'.heap.usedBytes = o.used c.heap.usedBytes
  gauge : c'.statistics.heapUsed = o.gauge c.statistics.heapUsed

theorem Sound.shows_finished (hc : c.Sound) {report : Report}
    (h : Collector.collectFor target reason c = .ok report c') :
    Shows (.finished report) c c' := by
  have hreported := hc.reported_of_ok h
  have hcycle := (named_of_ok h).1
  exact
    { emits_of_ok h with
      cycles := Or.inr ⟨congrArg some hcycle, hreported.cycles⟩
      used := hreported.used_after.symm
      gauge := by rw [hreported.statistics]; rfl }

theorem Steady.shows_failed (hc : c.Steady) {e : Error}
    (h : Collector.collectFor target reason c = .error e c') :
    Shows (.failed (c.cycles + 1) target reason) c c' := by
  have hfailed := hc.failed_of_error hc.toAtRest h
  exact
    { hc.emits_of_error h with
      cycles := Or.inr ⟨rfl, hfailed.cycles⟩
      used := hfailed.used
      gauge := congrArg Statistics.heapUsed hfailed.statistics }

theorem Sound.shows_placed (hc : c.Sound) {r : Request} (hr : r.Prepared c.types) {a : Address}
    {heap : Heap} (h : Heap.Adds a r.header c.heap heap) (hasFinalizer : Bool) :
    Shows (.placed r.blockSize) c (recorder.placed r hasFinalizer a { c with heap }) where
  toEmits := emits_nil rfl rfl rfl
  cycles := Or.inl ⟨rfl, rfl⟩
  used := by
    show heap.usedBytes = c.heap.usedBytes + r.blockSize
    rw [h.usedBytes_eq hc.heap.wellFormed, ← Request.blockSize_eq_roomFor hr, Nat.add_comm]
  gauge := rfl

theorem shows_grown (old new : Nat) (c : Collector κ TypeRegistry) :
    Shows (.grown old new) c (owner.nurseryGrown old new c) :=
  ⟨⟨rfl, rfl, rfl⟩, Or.inl ⟨rfl, rfl⟩, rfl, rfl⟩

theorem shows_refused (requested available : Nat) (c : Collector κ TypeRegistry) :
    Shows (.refused requested c.heap.usedBytes c.heap.maxSize) c
      (noteFailure (.outOfMemory requested available) c) :=
  ⟨⟨rfl, rfl, rfl⟩, Or.inl ⟨rfl, rfl⟩, rfl, rfl⟩

theorem shows_faulted (a : Address) (message : String) (c : Collector κ TypeRegistry) :
    Shows (.faulted a message) c (noteOutcome a (some message) c) :=
  ⟨⟨rfl, rfl, rfl⟩, Or.inl ⟨rfl, rfl⟩, rfl, rfl⟩

/-! ### Silence -/

/-- Nothing has occurred. -/
structure Silent (c c' : Collector κ TypeRegistry) : Prop extends Emits [] c c' where
  cycles : c'.cycles = c.cycles
  used : c'.heap.usedBytes = c.heap.usedBytes
  gauge : c'.statistics.heapUsed = c.statistics.heapUsed

theorem SameAccounts.silent (h : SameAccounts c c') (hemits : Emits [] c c')
    (hgauge : c'.statistics.heapUsed = c.statistics.heapUsed) : Silent c c' :=
  { hemits with cycles := h.cycles, used := h.layout.usedBytes, gauge := hgauge }

theorem Touches.emits {k : Call κ} (h : Touches k c c') : Emits [] c c' := by
  cases h <;> exact emits_nil rfl rfl rfl

theorem Touches.gauge_eq {k : Call κ} (h : Touches k c c') :
    c'.statistics.heapUsed = c.statistics.heapUsed := by
  cases h <;> rfl

theorem Reflags.emits (h : Reflags c c') : Emits [] c c' := by
  cases h <;> exact emits_nil rfl rfl rfl

theorem Reflags.gauge_eq (h : Reflags c c') : c'.statistics.heapUsed = c.statistics.heapUsed := by
  cases h <;> rfl

theorem silent_flag (inside : Bool) (c : Collector κ TypeRegistry) :
    Silent c { c with inFinalizer := inside } :=
  ⟨emits_nil rfl rfl rfl, rfl, rfl, rfl⟩

section Sound

variable (hc : c.Sound)
include hc

/-- Calls that run no collection and allocate nothing are silent. -/
theorem Sound.silent_after {k : Call κ} (hk : k.mayCollect = false) :
    Silent c (Collector.after k c) := by
  have haccounts := hc.sameAccounts_after hk
  cases hquiet : k.isQuiet with
  | true =>
    have htouches := hc.touches_after hquiet
    exact haccounts.silent htouches.emits htouches.gauge_eq
  | false =>
    have hreflags := hc.reflags_after hquiet hk
    exact haccounts.silent hreflags.emits hreflags.gauge_eq

theorem Sound.silent_takeNext (patience : Patience) :
    Silent c { c with queue := (c.queue.takeNext patience).2 } :=
  (hc.sameAccounts_takeNext patience).silent (emits_nil rfl rfl rfl) rfl

theorem Sound.silent_beginTurn : Silent c c.beginTurn.2 := by
  have haccounts := hc.sameAccounts_beginTurn
  rcases hc.beginTurn_eq with ⟨hrun, -⟩ | ⟨a, -, -, -, running, hrun⟩
  · rw [hrun] at haccounts ⊢
    exact haccounts.silent (emits_nil rfl rfl rfl) rfl
  · rw [hrun] at haccounts ⊢
    exact haccounts.silent (emits_nil rfl rfl rfl) rfl

theorem Sound.silent_returned (a : Address) : Silent c (noteOutcome a none c) :=
  (hc.sameAccounts_noteOutcome a none).silent (emits_nil rfl rfl rfl) rfl

theorem Sound.silent_endTurn : Silent c c.endTurn := by
  have haccounts := hc.sameAccounts_endTurn
  rw [hc.endTurn_eq] at haccounts ⊢
  exact haccounts.silent (emits_nil rfl rfl rfl) rfl

theorem Sound.silent_growNursery (blockSize : Nat) :
    Silent c ((onHeap (Heap.growNursery blockSize) :
      Action (Collector κ TypeRegistry) _).final c) := by
  have haccounts := hc.sameAccounts_growNursery blockSize
  cases hrun : Heap.growNursery blockSize c.heap with
  | ok sizes heap =>
    rw [Action.final_of_ok (onHeap_of_ok hrun)] at haccounts ⊢
    exact haccounts.silent (emits_nil rfl rfl rfl) rfl
  | error e heap =>
    rw [Action.final_of_error (onHeap_of_error hrun)] at haccounts ⊢
    exact haccounts.silent (emits_nil rfl rfl rfl) rfl

end Sound

end Collector

namespace Journal

variable {κ : Type} {config : Config} {types : TypeRegistry} {j j' : Journal κ}
  {c : Collector κ TypeRegistry} {o : Occurrence} {r : Request}

open Collector (Shows Silent)

/-! ### What a journal tells -/

/-- A journal tells the logs, the number of collections, and the bytes in use with their gauge. -/
structure Told (config : Config) (j : Journal κ) : Prop where
  configured : j.collector.config = config
  log : j.collector.log = j.events.foldl EventLog.record { config := Collector.logConfig config }
  processLog : config.verbose = true → j.collector.processLog = j.events.foldl EventLog.record {}
  /-- Collections are numbered in their order, from one on. -/
  cycles : j.occurrences.filterMap Occurrence.cycle? = List.range' 1 j.collector.cycles
  used : j.collector.heap.usedBytes = j.occurrences.foldl Occurrence.used 0
  gauge : j.collector.statistics.heapUsed = j.occurrences.foldl Occurrence.gauge 0

theorem events_entering (o : Occurrence) (c : Collector κ TypeRegistry) (j : Journal κ) :
    (j.entering o c).events = j.events ++ o.events := by
  rw [events, entering, List.flatMap_append, List.flatMap_singleton, events]

theorem Told.entering (h : j.Told config) (hs : Shows o j.collector c) :
    (j.entering o c).Told config where
  configured := hs.config.trans h.configured
  log := by
    rw [events_entering, List.foldl_append, ← h.log]
    exact hs.log
  processLog hverbose := by
    rw [events_entering, List.foldl_append, ← h.processLog hverbose]
    refine hs.processLog.trans (if_pos ?_)
    rw [h.configured]
    exact hverbose
  cycles := by
    show (j.occurrences ++ [o]).filterMap Occurrence.cycle? = List.range' 1 c.cycles
    rw [List.filterMap_append, h.cycles]
    -- an occurrence tells of the next cycle or of none
    rcases hs.cycles with ⟨hnone, hsame⟩ | ⟨hsome, hnext⟩
    · rw [List.filterMap_cons_none hnone, List.filterMap_nil, List.append_nil, hsame]
    · rw [List.filterMap_cons_some hsome, List.filterMap_nil, hnext, List.range'_1_concat,
        Nat.add_comm 1]
  used := by
    show c.heap.usedBytes = (j.occurrences ++ [o]).foldl Occurrence.used 0
    rw [List.foldl_append, ← h.used]
    exact hs.used
  gauge := by
    show c.statistics.heapUsed = (j.occurrences ++ [o]).foldl Occurrence.gauge 0
    rw [List.foldl_append, ← h.gauge]
    exact hs.gauge

/-- What is silent need not be entered. -/
theorem Told.withCollector (h : j.Told config) (hs : Silent j.collector c) :
    (j.withCollector c).Told config where
  configured := hs.config.trans h.configured
  log := hs.log.trans h.log
  processLog hverbose := by
    refine hs.processLog.trans ((if_pos ?_).trans (h.processLog hverbose))
    rw [h.configured]
    exact hverbose
  cycles := by
    show j.occurrences.filterMap Occurrence.cycle? = List.range' 1 c.cycles
    rw [hs.cycles]
    exact h.cycles
  used := hs.used.trans h.used
  gauge := hs.gauge.trans h.gauge

/-- Whether it fails or not, a collection is entered as it occurs. -/
theorem Told.collectFor (h : j.Told config) (hc : j.collector.Steady) (target : Target)
    (reason : Reason) : ((Journal.collectFor target reason).final j).Told config := by
  rw [Action.final, Journal.collectFor]
  cases hrun : Collector.collectFor target reason j.collector with
  | ok report c => exact h.entering (hc.shows_finished hrun)
  | error e c => exact h.entering (hc.shows_failed hrun)

/-! ### Allocations -/

theorem Told.refused (h : j.Told config) (e : Error) : (Journal.refused e j).Told config := by
  cases e with
  | outOfMemory requested available =>
    exact h.entering (Collector.shows_refused requested available j.collector)
  | _ => exact h

/-- What holds on every rung of the ladder of an allocation. -/
structure Climbs (config : Config) (r : Request) (j : Journal κ) : Prop extends j.Told config where
  steady : j.collector.Steady
  prepared : r.Prepared j.collector.types

/-- An object is placed, and entered before anything else happens. -/
theorem upholds_owner (config : Config) (r : Request) (hasFinalizer : Bool) :
    owner.Upholds r (Climbs (κ := κ) config r) fun a j =>
      (recorder.placed r hasFinalizer a j).Told config where
  place j hj := by
    refine (beside.ends_onHeap (hj.steady.place_ends hj.prepared)).imp ?_ ?_
    · rintro _ ⟨c, rfl, rfl⟩
      exact hj
    · -- a heap that has no room was left alone
      rintro (_ | a) _ ⟨c, rfl, hc⟩
      · obtain rfl : c = j.collector := hc
        exact hj
      · obtain ⟨heap, rfl, hadd, -⟩ := hc
        exact hj.toTold.entering (hj.steady.shows_placed hj.prepared hadd hasFinalizer)
  grow j hj := by
    refine beside.ends_of_final ⟨hj.toTold.withCollector (hj.steady.silent_growNursery _),
      hj.steady.growNursery hj.prepared r.blockSize, ?_⟩
    have htypes : (j.withCollector ((onHeap (Heap.growNursery r.blockSize)).final
        j.collector)).collector.types = j.collector.types := by
      rw [Action.final, onHeap]
      cases Heap.growNursery r.blockSize (HoldsHeap.heap j.collector) <;> rfl
    rw [htypes]
    exact hj.prepared
  grown old new j hj :=
    ⟨hj.toTold.entering (Collector.shows_grown old new j.collector),
      hj.steady.of_tables ⟨rfl, rfl, rfl, rfl, rfl, rfl, rfl⟩ rfl
        ⟨rfl, fun _ _ => rfl, rfl, rfl, rfl, rfl, rfl⟩,
      hj.prepared⟩
  collect target reason j hj := by
    refine Action.ends_of_final ?_
    rw [owner, Action.final_discard]
    have hcollector := (seenAs_collectFor target reason).final j
    refine ⟨hj.toTold.collectFor hj.steady target reason, ?_, ?_⟩
    · rw [← hcollector]
      exact hj.steady.collectFor target reason
    · have htypes : ((Journal.collectFor target reason).final j).collector.types =
          j.collector.types := by
        rw [← hcollector]
        exact congrArg Host.types (hj.steady.toSound.host_collectFor target reason)
      rw [htypes]
      exact hj.prepared

/-- An allocation is entered with all the collections that it starts, whether it fails or not. -/
theorem Told.allocateObject (h : j.Told config) (hc : j.collector.Steady) (typeId : TypeId)
    (size : Nat) (hasFinalizer : Bool) (build : Build) :
    ((recorder.allocateObject typeId size hasFinalizer build).final j).Told config := by
  refine Recorder.final_allocateObject h fun r hr => ?_
  refine ((upholds_owner config r hasFinalizer).allocate j.collector.config
    ⟨h, hc, Request.prepare_spec hr⟩).imp ?_ fun _ _ htold => htold
  exact fun _ hclimbs e => hclimbs.toTold.refused e

/-! ### Steps -/

theorem Told.after (h : j.Told config) (hc : j.collector.Steady) (k : Call κ) :
    (Journal.after k j).Told config := by
  have hother : k.mayCollect = false →
      (j.withCollector (Collector.after k j.collector)).Told config := fun hk =>
    h.withCollector (hc.silent_after hk)
  cases k with
  | allocate typeId size hasFinalizer build =>
    exact h.allocateObject hc typeId size hasFinalizer build
  | collect target reason => exact h.collectFor hc target reason
  | _ => exact hother rfl

/-- Every step is told. -/
theorem Told.of_step (h : j.Told config) (hc : j.collector.Steady) (hs : Step j j') :
    j'.Told config := by
  cases hs with
  | call k => exact h.after hc k
  | takeNext patience => exact h.withCollector (hc.silent_takeNext patience)
  | beginTurn => exact h.withCollector hc.silent_beginTurn
  | flag inside => exact h.withCollector (Collector.silent_flag inside _)
  | noteOutcome a fault =>
    cases fault with
    | none => exact h.withCollector (hc.silent_returned a)
    | some message => exact h.entering (Collector.shows_faulted a message j.collector)
  | endTurn => exact h.withCollector hc.silent_endTurn

/-- A journal tells what has happened along every run. -/
theorem Kept.told (h : Kept config types j) : j.Told config := by
  induction h with
  | start build hcreate =>
    obtain rfl := Collector.eq_of_create hcreate
    exact ⟨rfl, rfl, fun _ => rfl, rfl, rfl, rfl⟩
  | step hprev hs ih => exact ih.of_step hprev.reachable.steady hs

end Journal

end GenerationalHeap
