/-
What becomes of the objects that wait when all of them get their turns.

A callback that leaves the collector alone is one that works on the program around it. So the
headers, slots and callbacks of the objects further back stay as they were until their turns
come, and what a whole run does can be told from the state that it starts in. A callback may break
off with any value. If that value panics itself when it is dropped, this second panic goes on to
whoever has asked for the run, and the turn has no end.

* `Collector.aside` — a callback that works beside the collector.
* `Collector.due?`, `Collector.jobs` — the callbacks that are due, in the order of the queue.
* `Collector.perform` — callbacks one after the other, each inside a finalizer.
* `Collector.Caught` — no panic goes on when callbacks have ended.
* `Collector.Served` — what the turns of some objects leave behind.
* `Collector.stranded` — what is left of a turn that has no end.
* `Collector.Steady.serve` — one turn; `Collector.Steady.serve_all` — the turns of those in front.
* `Collector.Reachable.pending_are_served` — a run of all finalizers that wait.
-/
import GenerationalHeap.Proofs.Agreement
import GenerationalHeap.Proofs.Guarantees
import GenerationalHeap.Proofs.Leisure

namespace GenerationalHeap

/-! ### Headers of objects whose turns end -/

namespace Heap

variable {h h' : Heap} {a : Address}

/-- An object without a slot has none to lose. -/
theorem relabels_of_no_slot (hw : h.WellFormed) (hz : (h.header a).slot = 0) :
    Relabels (fun b x => if b = a then { x with slot := 0 } else x) h h := by
  have hself : ({ h.header a with slot := 0 } : Header) = h.header a := by rw [← hz]
  refine (Relabels.refl hw).congr fun b _ => ?_
  split
  · rename_i hba
    rw [hba, hself]
  · rfl

/-- An object loses its slot. -/
theorem relabels_clear_slot (hw : h.WellFormed) (ha : a ∈ h.objects) :
    Relabels (fun b x => if b = a then { x with slot := 0 } else x) h
      (h.setHeader a { h.header a with slot := 0 }) := by
  have hsize : ({ h.header a with slot := 0 } : Header).size = (h.header a).size := rfl
  refine (relabels_setHeader hw ha hsize).congr fun b _ => ?_
  split
  · rename_i hba
    rw [hba]
  · rfl

/-- An object without a slot that is marked as finalized is settled. -/
theorem relabels_settled (hw : h.WellFormed) (ha : a ∈ h.objects)
    (hr : Relabels (fun b x => if b = a then { x with slot := 0 } else x) h h') :
    Relabels (fun b x => if b ∈ [a] then x.settled else x) h
      (h'.setHeader a ((h'.header a).setFinalized true)) := by
  have ha' : a ∈ h'.objects := hr.layout.objects hw ▸ ha
  have hself : h'.header a = { h.header a with slot := 0 } := by rw [hr.header a ha, if_pos rfl]
  have hsize : ((h'.header a).setFinalized true).size = (h'.header a).size := rfl
  have hset := relabels_setHeader (hr.layout.wellFormed hw) ha' hsize
  refine (hr.trans hset hw).congr fun b _ => ?_
  by_cases hba : b = a
  · subst hba
    rw [if_pos rfl, if_pos List.mem_cons_self, hself, Header.settled]
  · rw [if_neg hba, if_neg hba, if_neg (hba ∘ List.mem_singleton.1)]

end Heap

namespace Collector

variable {κ ω : Type} {config : Config} {types : TypeRegistry} {c d e : Collector κ TypeRegistry}
  {a b : Address} {l rest : List Address}

/-! ### Callbacks that leave the collector alone -/

/-- The collector of a program that is in the state `w`. Turns never look at the host, so any
program may stand in the place of the registry. -/
def withHost (w : ω) (c : Collector κ TypeRegistry) : Collector κ ω := { c with host := w }

@[simp] theorem heap_withHost (w : ω) (c : Collector κ TypeRegistry) :
    (c.withHost w).heap = c.heap := rfl

@[simp] theorem queue_withHost (w : ω) (c : Collector κ TypeRegistry) :
    (c.withHost w).queue = c.queue := rfl

@[simp] theorem callbacks_withHost (w : ω) (c : Collector κ TypeRegistry) :
    (c.withHost w).callbacks = c.callbacks := rfl

/-- A callback that does not call the collector. It sees the object and whether it runs inside
a finalizer, and changes the program. -/
def aside (act : κ → Address → Bool → ω → Outcome × ω) (callback : κ) (a : Address)
    (c : Collector κ ω) : Outcome × Collector κ ω :=
  let (outcome, w) := act callback a c.inFinalizer c.host
  (outcome, { c with host := w })

/-- The callback that is due for an object: that in its slot, unless its finalization is over. -/
def due? (c : Collector κ ω) (a : Address) : Option κ :=
  if (c.heap.header a).isFinalized = true ∨ (c.heap.header a).slot = 0 then none
  else c.callbacks.get? (c.heap.header a).slot.toNat

/-- The callbacks that are due for some objects, in order. -/
def jobs (c : Collector κ ω) (l : List Address) : List (Address × κ) :=
  l.filterMap fun a => (c.due? a).map (a, ·)

/-- Runs callbacks one after the other, each inside a finalizer. The answer is how they have
ended, and what they have made of the program. -/
def perform (act : κ → Address → Bool → ω → Outcome × ω) :
    List (Address × κ) → ω → List (Address × Outcome) × ω
  | [], w => ([], w)
  | (a, callback) :: rest, w =>
    let (outcome, w) := act callback a true w
    let (ends, w) := perform act rest w
    ((a, outcome) :: ends, w)

/-- No panic goes on when callbacks have ended so. -/
def Caught (ends : List (Address × Outcome)) : Prop := ∀ e ∈ ends, e.2.isCaught = true

instance (ends : List (Address × Outcome)) : Decidable (Caught ends) :=
  inferInstanceAs (Decidable (∀ e ∈ ends, e.2.isCaught = true))

/-- The faults among the ends of callbacks, each about its own object. -/
def faults (ends : List (Address × Outcome)) : List Event :=
  ends.filterMap fun e => e.2.fault?.map (.finalizerFault e.1.toNat ·)

theorem jobs_append (c : Collector κ ω) (l l' : List Address) :
    c.jobs (l ++ l') = c.jobs l ++ c.jobs l' := List.filterMap_append

theorem caught_append {ends ends' : List (Address × Outcome)} :
    Caught (ends ++ ends') ↔ Caught ends ∧ Caught ends' := List.forall_mem_append

theorem faults_append (ends ends' : List (Address × Outcome)) :
    faults (ends ++ ends') = faults ends ++ faults ends' := List.filterMap_append

section Perform

variable (act : κ → Address → Bool → ω → Outcome × ω)

theorem perform_append (jobs jobs' : List (Address × κ)) (w : ω) :
    perform act (jobs ++ jobs') w =
      ((perform act jobs w).1 ++ (perform act jobs' (perform act jobs w).2).1,
        (perform act jobs' (perform act jobs w).2).2) := by
  induction jobs generalizing w with
  | nil => rfl
  | cons job rest ih => simp only [List.cons_append, perform, ih]

/-- Each callback runs once. -/
theorem length_perform (jobs : List (Address × κ)) (w : ω) :
    (perform act jobs w).1.length = jobs.length := by
  induction jobs generalizing w with
  | nil => rfl
  | cons job rest ih => simp only [perform, List.length_cons, ih]

/-- Every callback returns or breaks off. -/
theorem length_eq_countP (ends : List (Address × Outcome)) : ends.length =
    (ends.countP fun e => e.2.fault?.isNone) + ends.countP fun e => e.2.fault?.isSome := by
  rw [List.length_eq_countP_add_countP fun e : Address × Outcome => e.2.fault?.isNone]
  congr 2
  funext e
  cases e.2.fault? <;> rfl

end Perform

/-! ### Whose callback is due -/

section Due

variable (hs : c.Slotted) (ha : a ∈ c.heap.objects)
include hs ha

/-- An object with a slot has a callback that is due. -/
theorem Slotted.exists_due (hz : (c.heap.header a).slot ≠ 0) :
    ∃ callback, c.callbacks.get? (c.heap.header a).slot.toNat = some callback ∧
      c.due? a = some callback := by
  obtain ⟨callback, hget⟩ := Option.isSome_iff_exists.1 (contains_iff_of_slot hs ha hz)
  refine ⟨callback, hget, ?_⟩
  rw [due?, if_neg, hget]
  rintro (hover | hzero)
  · rw [hs.isFinalized_of_slot ha hz] at hover
    exact absurd hover Bool.false_ne_true
  · exact hz hzero

theorem Slotted.isSome_due?_iff : (c.due? a).isSome = true ↔
    (c.heap.header a).isFinalized = false ∧ (c.heap.header a).slot ≠ 0 := by
  constructor
  · intro hdue
    by_contra hno
    rw [due?, if_pos] at hdue
    · exact absurd hdue Bool.false_ne_true
    · by_contra hor
      rw [not_or, Bool.not_eq_true] at hor
      exact hno hor
  · rintro ⟨-, hz⟩
    obtain ⟨callback, -, hdue⟩ := hs.exists_due ha hz
    rw [hdue]
    rfl

end Due

/-! ### Turns beside the collector -/

theorem beginTurn_withHost (w : ω) (c : Collector κ TypeRegistry) :
    (c.withHost w).beginTurn = (c.beginTurn.1, c.beginTurn.2.withHost w) := by
  simp only [beginTurn, heap_withHost, queue_withHost]
  cases c.queue.inFlight with
  | none => rfl
  | some a =>
    dsimp only
    by_cases hskip : (!c.heap.isObject a || (c.heap.header a).isFinalized ||
        (c.heap.header a).slot == 0) = true
    · simp only [hskip, if_true]
    · simp only [hskip, onCallbacks, Callbacks.take, callbacks_withHost]
      cases c.callbacks.get? (c.heap.header a).slot.toNat <;> rfl

theorem settle_withHost (w : ω) (a : Address) (c : Collector κ TypeRegistry) :
    settle a (c.withHost w) = (settle a c).withHost w := by
  simp only [settle, heap_withHost]
  by_cases hobject : c.heap.isObject a = true
  · by_cases hz : (c.heap.header a).slot = 0
    · simp only [hobject, hz, if_true]
      rfl
    · simp only [hobject, hz, if_true, if_false]
  · simp only [hobject]
    rfl

theorem endTurn_withHost (w : ω) (c : Collector κ TypeRegistry) :
    (c.withHost w).endTurn = c.endTurn.withHost w := by
  simp only [endTurn, queue_withHost]
  cases c.queue.inFlight with
  | none => rfl
  | some a =>
    simp only [settle_withHost]
    rfl

section Aside

variable {act : κ → Address → Bool → ω → Outcome × ω} {queue : FinalizationQueue}
  {patience : Patience} {callback : κ} {outcome : Outcome} {w w' : ω}

theorem runNext_aside_of_none (hturn : c.queue.takeNext patience = (.object a, queue))
    (hbegin : beginTurn { c with queue } = (none, d)) :
    runNext (aside act) patience (c.withHost w) = .ok true (d.endTurn.withHost w) := by
  have hbegin' := beginTurn_withHost w { c with queue }
  have hturn' : (c.withHost w).queue.takeNext patience = (.object a, queue) := hturn
  have hqueue : ({ c.withHost w with queue } : Collector κ ω) = withHost w { c with queue } := rfl
  rw [hbegin] at hbegin'
  simp only [runNext, hturn', hqueue, hbegin', endTurn_withHost]

/-- The turn of an object with a callback ends, unless a panic goes on behind the callback. -/
theorem runNext_aside_of_some (hturn : c.queue.takeNext patience = (.object b, queue))
    (hbegin : beginTurn { c with queue } = (some (a, callback), d))
    (hact : act callback a true w = (outcome, w')) :
    runNext (aside act) patience (c.withHost w) =
      if outcome.isCaught then .ok true ((noteOutcome a outcome.fault? d).endTurn.withHost w')
      else .error .panicked (d.withHost w') := by
  have hbegin' := beginTurn_withHost w { c with queue }
  have hturn' : (c.withHost w).queue.takeNext patience = (.object b, queue) := hturn
  have hqueue : ({ c.withHost w with queue } : Collector κ ω) = withHost w { c with queue } := rfl
  have hjob : runJob (aside act) (a, callback) (d.withHost w) =
      if outcome.isCaught then .ok () ((noteOutcome a outcome.fault? d).withHost w')
      else .error .panicked (d.withHost w') := by
    simp only [runJob, runCallback, aside, withHost, hact]
    cases outcome.isCaught with
    | true => cases outcome.fault? <;> rfl
    | false => rfl
  rw [hbegin] at hbegin'
  simp only [runNext, hturn', hqueue, hbegin', hjob]
  cases outcome.isCaught with
  | true => simp only [if_true, endTurn_withHost]
  | false => rfl

end Aside

/-! ### What turns leave behind -/

/-- Notes that some turns have ended: of the objects that waited those of `rest` are left, the
ends of the callbacks are counted, and the faults are logged. -/
def noteTurns (turns : Nat) (rest : List Address) (ends : List (Address × Outcome))
    (c : Collector κ ω) : Collector κ ω :=
  { c with
    queue :=
      { c.queue with
        pending := rest
        completedTotal := c.queue.completedTotal + turns }
    statistics :=
      { c.statistics with
        finalizersRun := c.statistics.finalizersRun +
          UInt64.ofNat (ends.countP fun e => e.2.fault?.isNone)
        finalizerFaults := c.statistics.finalizerFaults +
          UInt64.ofNat (ends.countP fun e => e.2.fault?.isSome) }
    log := (faults ends).foldl EventLog.record c.log
    processLog :=
      if c.config.verbose then (faults ends).foldl EventLog.record c.processLog
      else c.processLog }

/-- How a callback has ended is noted before its turn is over. -/
theorem noteOutcome_eq (a : Address) (outcome : Outcome) (turns : Nat) (rest : List Address)
    (c : Collector κ ω) : noteOutcome a outcome.fault? c =
      { c.noteTurns turns rest [(a, outcome)] with queue := c.queue.finishCallback } := by
  cases hfault : outcome.fault? with
  | none => simp [noteOutcome, noteTurns, faults, hfault, Statistics.recordRun]
  | some message =>
    simp [noteOutcome, noteTurns, faults, hfault, Statistics.recordFault, emit]

/-- What is left of the turn of an object whose callback is gone, but whose end has not come: the
object stays in flight, and those of `rest` still wait. -/
def stranded (a : Address) (rest : List Address) (c : Collector κ ω) : Collector κ ω :=
  { c with
    heap := c.heap.setHeader a { c.heap.header a with slot := 0 }
    callbacks := c.callbacks.erase (c.heap.header a).slot.toNat
    queue := { c.queue with pending := rest, inFlight := some a, callbackRunning := true } }

/-- What the turns of the objects `l` leave behind, of which the callbacks have ended as `ends`
tell, when those of `rest` still wait. -/
structure Served (l rest : List Address) (ends : List (Address × Outcome))
    (c d : Collector κ TypeRegistry) : Prop where
  /-- The finalization of the objects is over. No other header changes, and no payload. -/
  heap : Heap.Relabels (fun a x => if a ∈ l then x.settled else x) c.heap d.heap
  /-- No byte outside of headers changes, and nothing that is noted of the spaces. -/
  agrees : Heap.AgreesBut c.heap.InHeader c.heap d.heap
  /-- The callbacks of the objects are gone, and no others. -/
  callbacks : ∀ id, d.callbacks.get? id =
    if id ∈ l.map fun a => (c.heap.header a).slot.toNat then none else c.callbacks.get? id
  next : d.callbacks.next = c.callbacks.next
  /-- Nothing else changes, but for what is counted and logged. -/
  eq : d = { c.noteTurns l.length rest ends with heap := d.heap, callbacks := d.callbacks }

namespace Served

variable {ends ends' : List (Address × Outcome)} {l' rest' : List Address}

theorem queue_eq (h : Served l rest ends c d) : d.queue =
    { c.queue with pending := rest, completedTotal := c.queue.completedTotal + l.length } := by
  rw [h.eq, noteTurns]

theorem pending_eq (h : Served l rest ends c d) : d.queue.pending = rest := by rw [h.queue_eq]

theorem isShutDown_eq (h : Served l rest ends c d) : d.queue.isShutDown = c.queue.isShutDown := by
  rw [h.queue_eq]

theorem atLeisure (h : Served l rest ends c d) (hl : c.AtLeisure) : d.AtLeisure := by
  rw [h.eq]
  exact ⟨hl.1, hl.2, hl.3⟩

/-- Nobody's turn. -/
theorem nil (hc : c.Sound) : Served [] c.queue.pending [] c c where
  heap := (Heap.Relabels.refl hc.heap.wellFormed).congr fun _ _ => (if_neg List.not_mem_nil).symm
  agrees := .refl _ _
  callbacks _ := (if_neg List.not_mem_nil).symm
  next := rfl
  eq := by simp [noteTurns, faults]

/-- One turn: the object loses its slot, if it has one, and is finalized. -/
theorem single (hc : c.Sound) (ha : a ∈ c.heap.objects) {heap : Heap}
    (hr : Heap.Relabels (fun b x => if b = a then { x with slot := 0 } else x) c.heap heap)
    (hagrees : Heap.AgreesBut c.heap.InHeader c.heap heap)
    (hheap : d.heap = heap.setHeader a ((heap.header a).setFinalized true))
    (hcallbacks : ∀ id, d.callbacks.get? id =
      if id = (c.heap.header a).slot.toNat then none else c.callbacks.get? id)
    (hnext : d.callbacks.next = c.callbacks.next)
    (heq : d = { c.noteTurns 1 rest ends with heap := d.heap, callbacks := d.callbacks }) :
    Served [a] rest ends c d where
  heap := hheap ▸ Heap.relabels_settled hc.heap.wellFormed ha hr
  agrees := hheap ▸ hagrees.trans (Heap.agrees_setHeader hc.heap.wellFormed hr.layout ha _)
  callbacks id := by
    rw [hcallbacks]
    exact if_congr List.mem_singleton.symm rfl rfl
  next := hnext
  eq := heq

/-- Objects whose turns have not come are as they were, and so are their callbacks. -/
theorem header_eq (h : Served l rest ends c d) (hb : b ∈ c.heap.objects) (hout : b ∉ l) :
    d.heap.header b = c.heap.header b := by
  rw [h.heap.header b hb, if_neg hout]

theorem due?_eq (h : Served l rest ends c d) (hs : c.Slotted) (hl : ∀ a ∈ l, a ∈ c.heap.objects)
    (hb : b ∈ c.heap.objects) (hout : b ∉ l) : d.due? b = c.due? b := by
  rw [due?, due?, h.header_eq hb hout]
  split
  · rfl
  · rename_i hno
    rw [h.callbacks, if_neg]
    intro hin
    obtain ⟨a, ha, hslot⟩ := List.mem_map.1 hin
    -- no two objects share a slot
    have hz : (c.heap.header b).slot ≠ 0 := fun hz => hno (Or.inr hz)
    exact hout (hs.distinct b hb a (hl a ha) hz (UInt64.toNat_inj.1 hslot.symm) ▸ ha)

/-- Turns, and then others. -/
theorem append (h : Served l rest ends c d) (h' : Served l' rest' ends' d e) (hc : c.Sound)
    (hl : ∀ b ∈ l', b ∈ c.heap.objects) (hout : ∀ b ∈ l', b ∉ l) :
    Served (l ++ l') rest' (ends ++ ends') c e where
  heap := by
    refine (h.heap.trans h'.heap hc.heap.wellFormed).congr fun b _ => ?_
    by_cases hb : b ∈ l
    · rw [if_neg fun hb' => hout b hb' hb, if_pos hb, if_pos (List.mem_append_left _ hb)]
    · simp only [hb, List.mem_append, false_or, if_false]
  agrees := by
    refine h.agrees.trans (h'.agrees.mono fun s i => ?_)
    rintro ⟨x, hx, hi⟩
    exact ⟨x, h.heap.layout.offsetsIn hc.heap.wellFormed s ▸ hx, hi⟩
  callbacks id := by
    have hmap : (l'.map fun b => (d.heap.header b).slot.toNat) =
        l'.map fun b => (c.heap.header b).slot.toNat :=
      List.map_congr_left fun b hb => by rw [h.header_eq (hl b hb) (hout b hb)]
    rw [h'.callbacks, hmap, h.callbacks, ← ite_or, List.map_append]
    simp only [List.mem_append, or_comm]
  next := h'.next.trans h.next
  eq := by
    rw [h'.eq, h.eq]
    simp only [noteTurns, faults_append, List.foldl_append, List.countP_append, UInt64.ofNat_add,
      UInt64.add_assoc, List.length_append, Nat.add_assoc]
    by_cases hverbose : c.config.verbose = true <;> simp [hverbose]

end Served

/-! ### Turns -/

variable (act : κ → Address → Bool → ω → Outcome × ω)

theorem Sound.endTurn_of_slot (hc : c.Sound) (hin : c.queue.inFlight = some a)
    (hz : (c.heap.header a).slot = 0) : c.endTurn =
      { c with
        heap := c.heap.setHeader a ((c.heap.header a).setFinalized true)
        queue := c.queue.complete.2 } := by
  rw [hc.endTurn_eq, hin, Option.elim, if_pos hz]

/-- A turn that has a callback to run says that it is running. -/
theorem callbackRunning_of_beginTurn {job : Address × κ} (h : c.beginTurn = (some job, d)) :
    d.queue.callbackRunning = true := by
  rw [beginTurn] at h
  cases hflight : c.queue.inFlight with
  | none => simp [hflight] at h
  | some a =>
    simp only [hflight, onCallbacks, Callbacks.take] at h
    split at h
    · exact absurd h (by simp)
    · cases hget : c.callbacks.get? (c.heap.header a).slot.toNat with
      | none => simp [hget] at h
      | some callback =>
        simp only [hget] at h
        rw [← (Prod.mk.inj h).2]
        rfl

/-- The turn of an object that has a callback: the callback is taken and runs, and the turn ends
unless a panic goes on. -/
theorem Steady.begin_job {outcome : Outcome} {callback : κ} {w w' : ω}
    (hc' : Steady { c with queue := { c.queue with pending := rest, inFlight := some a } })
    (hturn : c.queue.takeNext .whilePending =
      (.object a, { c.queue with pending := rest, inFlight := some a }))
    (hdue : c.due? a = some callback) (hact : act callback a true w = (outcome, w')) :
    (c.stranded a rest).Steady ∧ runNext (aside act) .whilePending (c.withHost w) =
      if outcome.isCaught then
        .ok true ((noteOutcome a outcome.fault? (c.stranded a rest)).endTurn.withHost w')
      else .error .panicked ((c.stranded a rest).withHost w') := by
  by_cases hskip : (c.heap.header a).isFinalized = true ∨ (c.heap.header a).slot = 0
  · rw [due?, if_pos hskip] at hdue
    exact absurd hdue (by simp)
  · rw [due?, if_neg hskip] at hdue
    rcases hc'.beginTurn_eq with ⟨-, hno⟩ | ⟨b, hb, -, -, running, hbegin⟩
    · exact absurd (hno a rfl) hskip
    · obtain rfl : a = b := Option.some.inj hb
      rw [hdue, Option.map_some] at hbegin
      obtain rfl : running = true := callbackRunning_of_beginTurn hbegin
      have hbegun := hc'.of_step (.beginTurn _)
      rw [hbegin] at hbegun
      exact ⟨hbegun, runNext_aside_of_some hturn hbegin hact⟩

section Serve

variable (hc : c.Steady) (hl : c.AtLeisure) (ha : a ∈ c.heap.objects)
  (hc' : Steady { c with queue := { c.queue with pending := rest, inFlight := some a } })
  (hturn : c.queue.takeNext .whilePending =
    (.object a, { c.queue with pending := rest, inFlight := some a })) (w : ω)
include hc hl ha hc' hturn

/-- The turn of an object without a slot: no callback runs. -/
theorem Steady.serve_idle (hz : (c.heap.header a).slot = 0) :
    ∃ d, runNext (aside act) .whilePending (c.withHost w) =
        .ok true (d.withHost (perform act (c.jobs [a]) w).2) ∧
      d.Steady ∧ Served [a] rest (perform act (c.jobs [a]) w).1 c d := by
  have hjobs : c.jobs [a] = [] := by simp [jobs, due?, hz]
  rcases hc'.beginTurn_eq with ⟨hbegin, -⟩ | ⟨b, hb, -, hne, -⟩
  · refine ⟨_, (runNext_aside_of_none hturn hbegin).trans ?_, hc'.of_step (.endTurn _), ?_⟩
    · rw [hjobs]
      rfl
    · rw [hjobs, hc'.toSound.endTurn_of_slot rfl hz]
      refine .single hc.toSound ha (Heap.relabels_of_no_slot hc.heap.wellFormed hz) (.refl _ _) rfl
        (fun id => ?_) rfl ?_
      · -- the handle zero is in no table
        split
        · rename_i hid
          rw [hid, hz]
          rfl
        · rfl
      · simp [noteTurns, faults, FinalizationQueue.complete, perform, hl.inFlight]
  · obtain rfl : a = b := Option.some.inj hb
    exact absurd hz hne

/-- The turn of an object with a slot: its callback runs. -/
theorem Steady.serve_job (hz : (c.heap.header a).slot ≠ 0)
    (hcaught : Caught (perform act (c.jobs [a]) w).1) :
    ∃ d, runNext (aside act) .whilePending (c.withHost w) =
        .ok true (d.withHost (perform act (c.jobs [a]) w).2) ∧
      d.Steady ∧ Served [a] rest (perform act (c.jobs [a]) w).1 c d := by
  have hw := hc.heap.wellFormed
  obtain ⟨callback, -, hdue⟩ := hc.exists_due ha hz
  have hjobs : c.jobs [a] = [(a, callback)] := by simp [jobs, hdue]
  obtain ⟨⟨outcome, w'⟩, hact⟩ : ∃ x, act callback a true w = x := ⟨_, rfl⟩
  have hperform : perform act [(a, callback)] w = ([(a, outcome)], w') := by
    rw [perform, hact]
    rfl
  rw [hjobs, hperform] at hcaught ⊢
  obtain ⟨hbegun, hrun⟩ := hc'.begin_job act hturn hdue hact
  rw [if_pos (hcaught _ List.mem_cons_self)] at hrun
  have hnoted := hbegun.of_step (.noteOutcome a outcome.fault? _)
  -- when the turn ends, its object has no slot any more
  have hself : (c.heap.setHeader a { c.heap.header a with slot := 0 }).header a =
      { c.heap.header a with slot := 0 } := Heap.header_setHeader hw ha _
  refine ⟨_, hrun, hnoted.of_step (.endTurn _), ?_⟩
  rw [noteOutcome_eq a outcome 0 []] at hnoted ⊢
  rw [hnoted.toSound.endTurn_of_slot rfl (congrArg Header.slot hself)]
  refine .single hc.toSound ha (Heap.relabels_clear_slot hw ha)
    (Heap.agrees_setHeader hw (.refl hw) ha _) rfl (fun _ => HandleTable.get?_erase _ _ _)
    (HandleTable.next_erase _ _) ?_
  dsimp only [stranded]
  simp [noteTurns, FinalizationQueue.complete, FinalizationQueue.finishCallback, hl.inFlight,
    hl.callbackRunning]

end Serve

/-- The next object is the first one that waits. -/
theorem Steady.takeNext_eq (hc : c.Steady) (hl : c.AtLeisure) (hopen : c.queue.isShutDown = false)
    (hpending : c.queue.pending = a :: rest) :
    c.queue.takeNext .whilePending =
      (.object a, { c.queue with pending := rest, inFlight := some a }) ∧
    Steady { c with queue := { c.queue with pending := rest, inFlight := some a } } := by
  have hturn : c.queue.takeNext .whilePending =
      (.object a, { c.queue with pending := rest, inFlight := some a }) := by
    simp [FinalizationQueue.takeNext, hopen, hpending, hc.collecting, hl.inFlight]
  have htaken := hc.of_step (.takeNext .whilePending c)
  rw [hturn] at htaken
  exact ⟨hturn, htaken⟩

/-- The next object gets its turn: the callback that is due for it runs, if there is one. -/
theorem Steady.serve (hc : c.Steady) (hl : c.AtLeisure) (hopen : c.queue.isShutDown = false)
    (hpending : c.queue.pending = a :: rest) (w : ω)
    (hcaught : Caught (perform act (c.jobs [a]) w).1) :
    ∃ d, runNext (aside act) .whilePending (c.withHost w) =
        .ok true (d.withHost (perform act (c.jobs [a]) w).2) ∧
      d.Steady ∧ Served [a] rest (perform act (c.jobs [a]) w).1 c d := by
  have ha : a ∈ c.heap.objects :=
    hc.queue a (List.mem_append_left _ (hpending ▸ List.mem_cons_self))
  obtain ⟨hturn, hc'⟩ := hc.takeNext_eq hl hopen hpending
  by_cases hz : (c.heap.header a).slot = 0
  · exact hc.serve_idle act hl ha hc' hturn w hz
  · exact hc.serve_job act hl ha hc' hturn w hz hcaught

/-- The objects in front get their turns one after the other. -/
theorem Steady.serve_all (hc : c.Steady) (hl : c.AtLeisure) (hopen : c.queue.isShutDown = false)
    (hpending : c.queue.pending = l ++ rest) (hn : l.Nodup) (w : ω)
    (hcaught : Caught (perform act (c.jobs l) w).1) :
    ∃ d, runTurns (aside act) l.length (c.withHost w) =
        .ok l.length (d.withHost (perform act (c.jobs l) w).2) ∧
      d.Steady ∧ Served l rest (perform act (c.jobs l) w).1 c d := by
  induction l generalizing c w with
  | nil =>
    obtain rfl : c.queue.pending = rest := hpending
    exact ⟨c, rfl, hc, .nil hc.toSound⟩
  | cons a l ih =>
    obtain ⟨hnot, hn⟩ := List.nodup_cons.1 hn
    have hobjects : ∀ b ∈ a :: l, b ∈ c.heap.objects := fun b hb =>
      hc.queue b (List.mem_append_left _ (hpending ▸ List.mem_append_left _ hb))
    have hsplit := perform_append act (c.jobs [a]) (c.jobs l) w
    rw [← jobs_append, List.singleton_append] at hsplit
    rw [hsplit] at hcaught ⊢
    obtain ⟨hfirst, hlater⟩ := caught_append.1 hcaught
    obtain ⟨d, hnext, hd, hserved⟩ := hc.serve act hl hopen hpending w hfirst
    have hout : ∀ b ∈ l, b ∉ [a] := fun b hb hin => hnot (List.mem_singleton.1 hin ▸ hb)
    -- what is due for the others is due for them still
    have hjobs : d.jobs l = c.jobs l := List.filterMap_congr fun b hb => by
      rw [hserved.due?_eq hc.toSlotted
        (fun x hx => hobjects x (List.mem_singleton.1 hx ▸ List.mem_cons_self))
        (hobjects b (List.mem_cons_of_mem _ hb)) (hout b hb)]
    obtain ⟨e, hturns, he, hserved'⟩ := ih hd (hserved.atLeisure hl)
      (hserved.isShutDown_eq.trans hopen) hserved.pending_eq hn (perform act (c.jobs [a]) w).2
      (hjobs.symm ▸ hlater)
    rw [hjobs] at hturns hserved'
    refine ⟨e, ?_, he, ?_⟩
    · simp only [List.length_cons, runTurns, hnext, hturns]
    · exact hserved.append hserved' hc.toSound
        (fun b hb => hobjects b (List.mem_cons_of_mem _ hb)) hout

/-! ### All that wait -/

section Bound

variable {invoke : κ → Address → Collector κ ω → Outcome × Collector κ ω}

/-- If nobody waits, no turn begins. -/
theorem runTurns_of_pending_nil {c : Collector κ ω} (hempty : c.queue.pending = [])
    (bound : Nat) : runTurns invoke bound c = .ok 0 c := by
  cases bound with
  | zero => rfl
  | succ bound =>
    have hturn : c.queue.takeNext .whilePending = (.over, c.queue) := by
      rw [FinalizationQueue.takeNext, hempty]
      split <;> rfl
    simp only [runTurns, runNext, hturn]

/-- Once all of some turns were given, others may follow. -/
theorem runTurns_add {c d : Collector κ ω} {m : Nat} (h : runTurns invoke m c = .ok m d) (n : Nat) :
    runTurns invoke (m + n) c =
      match runTurns invoke n d with
      | .ok k e => .ok (k + m) e
      | .error e s => .error e s := by
  induction m generalizing c with
  | zero =>
    obtain ⟨-, rfl⟩ := EStateM.Result.ok.inj h
    rw [Nat.zero_add]
    cases runTurns invoke n c <;> rfl
  | succ m ih =>
    rw [runTurns] at h
    rw [Nat.add_right_comm, runTurns]
    cases hnext : runNext invoke .whilePending c with
    | ok more c' =>
      rw [hnext] at h
      cases more with
      | true =>
        cases hrun : runTurns invoke m c' with
        | ok k d' =>
          simp only [hrun] at h
          obtain ⟨hk, rfl⟩ := EStateM.Result.ok.inj h
          obtain rfl := Nat.succ.inj hk
          simp only [ih hrun]
          cases runTurns invoke n d' <;> rfl
        | error e d' =>
          simp only [hrun] at h
          exact absurd h (by simp)
      | false => exact absurd (EStateM.Result.ok.inj h).1 (Nat.succ_ne_zero m).symm
    | error e c' =>
      rw [hnext] at h
      exact absurd h (by simp)

end Bound

/-- From every reachable state outside of callbacks, all finalizers that wait are run, unless
the collector was shut down, which is what dropping it does. Each object gets one turn, in the
order of the queue. When it comes, its header and its callback are as they were at the start, and
the callback runs, once and inside a finalizer, if the object has a slot and is not finalized.
However the callbacks end, the finalization of every object that has waited is over, nobody waits,
and nothing is in flight. Only a value that panics when it is dropped cuts the run off, if a
callback has broken off with it: the objects in front have had their turns by then, and of that
one the callback is gone, but nothing is noted and the object stays in flight. -/
theorem Reachable.pending_are_served (h : Reachable config types c) (hl : c.AtLeisure)
    (hopen : c.queue.isShutDown = false) (act : κ → Address → Bool → ω → Outcome × ω) (w : ω)
    (bound : Nat) (hbound : c.queue.pending.length ≤ bound) :
    c.queue.pending.Nodup ∧
    (∀ a ∈ c.queue.pending, (c.due? a).isSome = true ↔
      (c.heap.header a).isFinalized = false ∧ (c.heap.header a).slot ≠ 0) ∧
    (∀ before a rest, c.queue.pending = before ++ a :: rest →
      Caught (perform act (c.jobs before) w).1 →
      ∃ d : Collector κ TypeRegistry, runTurns (aside act) before.length (c.withHost w) =
          .ok before.length (d.withHost (perform act (c.jobs before) w).2) ∧
        Served before (a :: rest) (perform act (c.jobs before) w).1 c d ∧
        d.heap.header a = c.heap.header a ∧ d.due? a = c.due? a ∧
        ∀ callback outcome w', c.due? a = some callback →
          act callback a true (perform act (c.jobs before) w).2 = (outcome, w') →
          outcome.isCaught = false → Collector.runPending (aside act) bound (c.withHost w) =
            .error .panicked ((d.stranded a rest).withHost w')) ∧
    ∃ ends w', perform act (c.jobs c.queue.pending) w = (ends, w') ∧
      (Caught ends → ∃ d,
        Collector.runPending (aside act) bound (c.withHost w) =
          .ok c.queue.pending.length (d.withHost w') ∧
        Served c.queue.pending [] ends c d ∧
        (∀ a ∈ c.queue.pending, (d.heap.header a).isFinalized = true ∧
          (d.heap.header a).slot = 0 ∧
          d.callbacks.get? (c.heap.header a).slot.toNat = none) ∧
        d.statistics.finalizersRun + d.statistics.finalizerFaults =
          c.statistics.finalizersRun + c.statistics.finalizerFaults +
            UInt64.ofNat (c.jobs c.queue.pending).length ∧
        d.queue.isIdle = true ∧ d.inFinalizer = false) := by
  have hc := h.steady
  have hn : c.queue.pending.Nodup := (List.nodup_append'.1 h.nodup_queue).1
  have hobjects : ∀ a ∈ c.queue.pending, a ∈ c.heap.objects := fun a ha =>
    hc.queue a (List.mem_append_left _ ha)
  have hrun : Collector.runPending (aside act) bound (c.withHost w) =
      runTurns (aside act) bound (c.withHost w) := by
    rw [Collector.runPending, if_neg]
    rw [show (c.withHost w).inFinalizer = false from hl.inFinalizer]
    exact Bool.false_ne_true
  refine ⟨hn, fun a ha => hc.isSome_due?_iff (hobjects a ha), ?_, _, _, rfl, ?_⟩
  · intro before a rest hsplit hcaught
    rw [hsplit] at hn hobjects hbound
    obtain ⟨hbefore, -, hapart⟩ := List.nodup_append'.1 hn
    have hout : a ∉ before := fun hin => hapart hin List.mem_cons_self
    have ha := hobjects a (List.mem_append_right _ List.mem_cons_self)
    -- the turns of the others before it leave its header and its callback alone
    obtain ⟨d, hturns, hd, hserved⟩ := hc.serve_all act hl hopen hsplit hbefore w hcaught
    have hdue := hserved.due?_eq hc.toSlotted
      (fun x hx => hobjects x (List.mem_append_left _ hx)) ha hout
    refine ⟨d, hturns, hserved, hserved.header_eq ha hout, hdue, ?_⟩
    intro callback outcome w' hcallback hact hescaped
    obtain ⟨hturn, hd'⟩ := hd.takeNext_eq (hserved.atLeisure hl)
      (hserved.isShutDown_eq.trans hopen) hserved.pending_eq
    obtain ⟨-, hnext⟩ := hd'.begin_job act hturn (hdue.trans hcallback) hact
    rw [hescaped, if_neg Bool.false_ne_true] at hnext
    -- of the turns that are left, the first one has no end
    obtain ⟨n, rfl⟩ : ∃ n, bound = before.length + (n + 1) := by
      rw [List.length_append, List.length_cons] at hbound
      exact ⟨bound - before.length - 1, by omega⟩
    rw [hrun, runTurns_add hturns, runTurns, hnext]
  · intro hcaught
    obtain ⟨d, hturns, -, hserved⟩ :=
      hc.serve_all act hl hopen (List.append_nil _).symm hn w hcaught
    refine ⟨d, ?_, hserved, fun a ha => ?_, ?_, ?_, ?_⟩
    · -- after as many turns as objects have waited, nobody is left
      have hempty : ∀ w', (d.withHost w' : Collector κ ω).queue.pending = [] := fun _ =>
        hserved.pending_eq
      have hadd := runTurns_add hturns (bound - c.queue.pending.length)
      rw [Nat.add_sub_cancel' hbound, runTurns_of_pending_nil (hempty _)] at hadd
      simp only [hrun, hadd, Nat.zero_add]
    · rw [hserved.heap.header a (hobjects a ha), if_pos ha, hserved.callbacks,
        if_pos (List.mem_map_of_mem ha)]
      exact ⟨Header.isFinalized_setFinalized _ true, Header.slot_settled _, rfl⟩
    · rw [← length_perform act (c.jobs c.queue.pending) w, length_eq_countP, UInt64.ofNat_add,
        hserved.eq]
      simp only [noteTurns]
      ac_rfl
    · rw [hserved.queue_eq, FinalizationQueue.isIdle, hl.inFlight]
      rfl
    · exact (hserved.atLeisure hl).inFinalizer

/-- Two objects that wait, each with a callback. -/
def twoWaiting : Collector Bool TypeRegistry :=
  [.allocate ⟨0⟩ 16 true, .allocate ⟨0⟩ 16 true, .registerFinalizer young false,
    .registerFinalizer (young + 48) true, .collect .gen0 .explicit].foldl (fun c k => after k c)
    { config := { gen0Size := 4096, largeObjectThreshold := 1024, finalizerThread := false }
      heap := .empty 4096 (256 * 1024 * 1024)
      log := { config := logConfig {} }
      host := ⟨#[.array "row"]⟩ }

theorem reachable_twoWaiting :
    Reachable { gen0Size := 4096, largeObjectThreshold := 1024, finalizerThread := false }
      ⟨#[.array "row"]⟩ twoWaiting :=
  (Reachable.start .checked rfl).calls _

/-- A callback that lists what it sees, and then returns or breaks off. -/
def lister (returns : Bool) (a : Address) (inside : Bool) (seen : List (Address × Bool)) :
    Outcome × List (Address × Bool) :=
  (if returns then .returned else .brokeOffSilently, seen ++ [(a, inside)])

/-- A callback that lists what it sees, and breaks off with a value that panics when it is
dropped. -/
def quitter (_ : Bool) (a : Address) (inside : Bool) (seen : List (Address × Bool)) :
    Outcome × List (Address × Bool) := (.escaped, seen ++ [(a, inside)])

/-- The callback of the first object breaks off, and that of the second runs all the same, unless
a second panic has cut the run off. -/
theorem served_of_twoWaiting :
    (∃ d : Collector Bool TypeRegistry, runPending (aside lister) 2 (twoWaiting.withHost []) =
        .ok 2 (d.withHost [(young, true), (young + 48, true)]) ∧
      d.statistics.finalizersRun + d.statistics.finalizerFaults = 2 ∧ d.queue.isIdle = true) ∧
    ∃ d : Collector Bool TypeRegistry, runPending (aside quitter) 2 (twoWaiting.withHost []) =
        .error .panicked ((d.stranded young [young + 48]).withHost [(young, true)]) := by
  obtain ⟨hidle, hrunning, hinside, hopen, hpending, hdue, hjobs, hcounts⟩ :
      twoWaiting.queue.inFlight = none ∧ twoWaiting.queue.callbackRunning = false ∧
      twoWaiting.inFinalizer = false ∧ twoWaiting.queue.isShutDown = false ∧
      twoWaiting.queue.pending = [young, young + 48] ∧
      twoWaiting.due? young = some false ∧
      twoWaiting.jobs twoWaiting.queue.pending = [(young, false), (young + 48, true)] ∧
      twoWaiting.statistics.finalizersRun + twoWaiting.statistics.finalizerFaults = 0 := by
    decide +kernel
  have hbound : twoWaiting.queue.pending.length ≤ 2 := by rw [hpending]; decide
  obtain ⟨-, -, -, ends, w, hperform, hserved⟩ :=
    reachable_twoWaiting.pending_are_served ⟨hidle, hrunning, hinside⟩ hopen lister [] 2 hbound
  obtain ⟨-, -, hstranded, -⟩ :=
    reachable_twoWaiting.pending_are_served ⟨hidle, hrunning, hinside⟩ hopen quitter [] 2 hbound
  rw [hjobs] at hperform
  obtain ⟨rfl, rfl⟩ := Prod.mk.inj hperform
  obtain ⟨d, hrun, -, -, hcount, hdone, -⟩ := hserved (by decide)
  rw [hpending] at hrun
  rw [hjobs, hcounts] at hcount
  obtain ⟨e, -, -, -, -, hcut⟩ := hstranded [] young [young + 48] hpending fun _ he =>
    absurd he List.not_mem_nil
  exact ⟨⟨d, hrun, hcount, hdone⟩, e, hcut false .escaped _ hdue rfl rfl⟩

/-- A run of two turns in which callbacks break off with values that panic when they are
dropped. -/
def quittingRun : Action (Collector Bool (List (Address × Bool))) Nat :=
  runPending (aside quitter) 2

/-- The first of two callbacks breaks off with a value that panics when it is dropped, and the run
is given up. Its object stays in flight and is not finalized, no fault is counted, and the other
object goes on waiting. -/
theorem second_panic_cuts_run_off :
    Reachable { gen0Size := 4096, largeObjectThreshold := 1024, finalizerThread := false }
      ⟨#[.array "row"]⟩ twoWaiting ∧ twoWaiting.AtLeisure ∧
    twoWaiting.queue.pending = [young, young + 48] ∧
    ∃ e d, quittingRun (twoWaiting.withHost []) = .error e d ∧
      d.host = [(young, true)] ∧ d.queue.inFlight = some young ∧
      d.queue.pending = [young + 48] ∧ (d.heap.header young).isFinalized = false ∧
      d.statistics.finalizersRun + d.statistics.finalizerFaults = 0 := by
  obtain ⟨hidle, hrunning, hinside, hpending, hfails, hend⟩ :
      twoWaiting.queue.inFlight = none ∧ twoWaiting.queue.callbackRunning = false ∧
      twoWaiting.inFinalizer = false ∧ twoWaiting.queue.pending = [young, young + 48] ∧
      (quittingRun.outcome (twoWaiting.withHost [])).isOk = false ∧
      (quittingRun.final (twoWaiting.withHost [])).host = [(young, true)] ∧
      (quittingRun.final (twoWaiting.withHost [])).queue.inFlight = some young ∧
      (quittingRun.final (twoWaiting.withHost [])).queue.pending = [young + 48] ∧
      ((quittingRun.final (twoWaiting.withHost [])).heap.header young).isFinalized = false ∧
      (quittingRun.final (twoWaiting.withHost [])).statistics.finalizersRun +
        (quittingRun.final (twoWaiting.withHost [])).statistics.finalizerFaults = 0 := by
    decide +kernel
  obtain ⟨e, d, hrun⟩ := Action.exists_error_of_isOk hfails
  rw [Action.final_of_error hrun] at hend
  exact ⟨reachable_twoWaiting, ⟨hidle, hrunning, hinside⟩, hpending, e, d, hrun, hend⟩

end Collector

end GenerationalHeap
