/-
Chronicles: runs of a collector that follow every object.

A chronicle stands beside the collector. It keeps the place of every object, as the compactions
of the collector tell it, and notes what happens to the objects; nothing of it is seen by the
collector.

* `Chronicle.after` — what a call adds to a chronicle. Collections that an allocation starts
  are recorded one by one.
* `Chronicle.Step` — one call, or a part of the turn of a finalizer. A turn that has begun
  ends before the next one.
* `Chronicle.Recorded` — the chronicle of a run from a new collector.
* `Chronicle.collector_after` — a chronicle is about what the collector does.
* `Chronicle.Recorded.runPending` — running the finalizers has a chronicle.
-/
import GenerationalHeap.Proofs.Notes
import GenerationalHeap.Proofs.Recorders
import GenerationalHeap.Proofs.Runs

namespace GenerationalHeap

/-! ### Chronicles -/

/-- How far the turn of an object has come. -/
inductive Stage (κ : Type) where
  /-- It is nobody's turn. -/
  | between
  /-- An object was taken from the queue. -/
  | taken
  /-- The callback, if there is one, was taken from the table and runs for the object of that
  number. -/
  | begun (job : Option (Nat × κ))
  deriving DecidableEq

/-- Whether a turn has come so far that a callback may run. -/
def Stage.isBegun {κ : Type} : Stage κ → Bool
  | begun _ => true
  | _ => false

/-- A collector, and what is known of its objects by their numbers. -/
structure Chronicle (κ : Type) where
  collector : Collector κ TypeRegistry
  /-- Where each object is; nowhere once it is reclaimed. -/
  places : List (Option Address) := []
  stage : Stage κ := .between
  /-- What happened to the objects. -/
  notes : Notes κ := []

namespace Chronicle

variable {κ : Type}

/-- Where an object is. -/
def place (w : Chronicle κ) (o : Nat) : Option Address := w.places[o]?.join

/-- The number of the object at an address. -/
def number (w : Chronicle κ) (a : Address) : Nat := w.places.idxOf (some a)

instance : HoldsHeap (Chronicle κ) where
  heap w := w.collector.heap
  setHeap h w := { w with collector := { w.collector with heap := h } }

/-- Another collector. -/
def withCollector (w : Chronicle κ) (c : Collector κ TypeRegistry) : Chronicle κ :=
  { w with collector := c }

/-- Notes what happens. -/
def note (n : Note κ) (w : Chronicle κ) : Chronicle κ := { w with notes := n :: w.notes }

/-- Notes which objects are enqueued. -/
def noteEnqueued (w : Chronicle κ) (l : List Address) : Chronicle κ :=
  { w with notes := (l.map fun a => .enqueued (w.number a)) ++ w.notes }

/-! ### Calls -/

/-- Runs an operation on the collector, and notes it if it succeeds. -/
def noting {α : Type} (n : Note κ) (act : Action (Collector κ TypeRegistry) α) :
    Action (Chronicle κ) α := fun w =>
  match act w.collector with
  | .ok x c => .ok x ((w.withCollector c).note n)
  | .error e c => .error e (w.withCollector c)

/-- Follows the objects through a collection. -/
def follow (target : Target) (w : Chronicle κ) (c : Collector κ TypeRegistry) : Chronicle κ :=
  { w with
    collector := c
    places := w.places.map fun place => place.bind (w.collector.placeAfter target) }

/-- Records a collection. The objects that are new to the queue are those at its end. -/
def collectFor (target : Target) (reason : Reason) : Action (Chronicle κ) Report := fun w =>
  match Collector.collectFor target reason w.collector with
  | .ok report c =>
    .ok report
      ((w.follow target c).noteEnqueued (c.queue.pending.drop w.collector.queue.pending.length))
  | .error e c => .error e (w.withCollector c)

/-- The chronicle as the owner of the heap. -/
def owner : Owner (Chronicle κ) where
  collect target reason := discard (collectFor target reason)
  nurseryGrown old new w := w.withCollector (Collector.owner.nurseryGrown old new w.collector)

/-- Records the birth of an object. -/
def born (a : Address) (hasFinalizer : Bool) (w : Chronicle κ) : Chronicle κ :=
  { w with places := w.places ++ [some a] }.note (.born w.places.length hasFinalizer)

/-- Records an allocation, with the collections that it starts. -/
def allocateObject (typeId : TypeId) (size : Nat) (hasFinalizer : Bool) (build : Build) :
    Action (Chronicle κ) Address := fun w =>
  match Request.prepare w.collector.config w.collector.types typeId size hasFinalizer build with
  | .error e => .error e w
  | .ok r =>
    match allocate owner r w.collector.config w with
    | .ok a w =>
      let c := w.collector
      .ok a ((w.withCollector
        { c with statistics := c.statistics.recordAllocation r.blockSize }).born a hasFinalizer)
    | .error e w => .error e (w.withCollector (Collector.noteFailure e w.collector))

/-- What a call leaves behind, whether it fails or not. -/
def after : Call κ → Chronicle κ → Chronicle κ
  | .allocate typeId size hasFinalizer build, w =>
    (allocateObject typeId size hasFinalizer build).final w
  | .collect target reason, w => (collectFor target reason).final w
  | .registerFinalizer a callback, w =>
    (noting (.registered (w.number a) callback) (Collector.registerFinalizer a callback)).final w
  | .suppressFinalization a, w =>
    (noting (.suppressed (w.number a)) (Collector.suppressFinalization a)).final w
  | k, w => w.withCollector (Collector.after k w.collector)

/-! ### The turn of a finalizer -/

/-- Records that a runner asks whose turn it is. -/
def takeNext (patience : Patience) (w : Chronicle κ) : Chronicle κ :=
  match w.collector.queue.takeNext patience with
  | (.object _, queue) => { w.withCollector { w.collector with queue } with stage := .taken }
  | (_, queue) => w.withCollector { w.collector with queue }

/-- Records the beginning of a turn. -/
def beginTurn (w : Chronicle κ) : Chronicle κ :=
  match w.collector.beginTurn with
  | (some (a, callback), c) =>
    { w.withCollector c with stage := .begun (some (w.number a, callback)) }.note
      (.invoked (w.number a) callback)
  | (none, c) => { w.withCollector c with stage := .begun none }

/-- Records the end of a turn. -/
def endTurn (w : Chronicle κ) : Chronicle κ :=
  { w.withCollector w.collector.endTurn with stage := .between }

/-- One step: a call, or a part of the turn of a finalizer. Other calls may come between the
parts of a turn, those of its callback among them, but no part of another turn. -/
inductive Step : Chronicle κ → Chronicle κ → Prop where
  | call (k : Call κ) (w : Chronicle κ) : Step w (after k w)
  | takeNext (patience : Patience) (w : Chronicle κ) : Step w (w.takeNext patience)
  | beginTurn (w : Chronicle κ) : w.stage = .taken → Step w w.beginTurn
  | flag (inside : Bool) (w : Chronicle κ) :
    Step w (w.withCollector { w.collector with inFinalizer := inside })
  | noteOutcome (a : Address) (fault : Option String) (w : Chronicle κ) :
    Step w (w.withCollector (Collector.noteOutcome a fault w.collector))
  | endTurn (w : Chronicle κ) : w.stage.isBegun = true → Step w w.endTurn

/-- The chronicle of a run from a new collector. -/
inductive Recorded (config : Config) (types : TypeRegistry) : Chronicle κ → Prop where
  | start (build : Build) {c : Collector κ TypeRegistry} :
    Collector.create config types build = .ok c → Recorded config types { collector := c }
  | step {w w' : Chronicle κ} : Recorded config types w → Step w w' → Recorded config types w'

/-! ### The collector of a chronicle -/

variable {config : Config} {types : TypeRegistry} {w w' : Chronicle κ}

theorem seenAs_noting {α : Type} (n : Note κ) (act : Action (Collector κ TypeRegistry) α) :
    Action.SeenAs collector (noting n act) act := by
  intro w
  rw [noting]
  cases act w.collector <;> rfl

theorem seenAs_collectFor (target : Target) (reason : Reason) :
    Action.SeenAs (collector (κ := κ)) (collectFor target reason)
      (Collector.collectFor target reason) := by
  intro w
  rw [collectFor]
  cases Collector.collectFor target reason w.collector <;> rfl

/-- A chronicle holds its collector as a part. -/
theorem beside : HoldsHeap.Beside (collector (κ := κ)) withCollector :=
  ⟨fun _ _ => rfl, fun _ => rfl, fun _ _ => rfl⟩

theorem seenAs_owner : Owner.SeenAs (collector (κ := κ)) owner Collector.owner where
  heap _ := rfl
  onHeap := beside.seenAs_onHeap
  collect target reason := Action.seenAs_discard (seenAs_collectFor target reason)
  grown _ _ _ := rfl

/-- A chronicle follows the allocations of its collector. -/
def recorder : Recorder κ (Chronicle κ) where
  collector := collector
  owner := owner
  placed r hasFinalizer a w := (w.withCollector
    { w.collector with statistics := w.collector.statistics.recordAllocation r.blockSize }).born a
      hasFinalizer
  refused e w := w.withCollector (Collector.noteFailure e w.collector)

theorem allocateObject_eq_recorder (typeId : TypeId) (size : Nat) (hasFinalizer : Bool)
    (build : Build) :
    allocateObject (κ := κ) typeId size hasFinalizer build =
      recorder.allocateObject typeId size hasFinalizer build := by
  funext w
  rw [allocateObject, Recorder.allocateObject]
  dsimp only [recorder]
  cases Request.prepare w.collector.config w.collector.types typeId size hasFinalizer build with
  | error e => rfl
  | ok r =>
    dsimp only
    cases allocate owner r w.collector.config w <;> rfl

theorem seenAs_recorder : (recorder (κ := κ)).SeenAs collector Collector.recorder :=
  ⟨fun _ => rfl, seenAs_owner, fun _ _ _ _ => rfl, fun _ _ => rfl⟩

theorem seenAs_allocateObject (typeId : TypeId) (size : Nat) (hasFinalizer : Bool) (build : Build) :
    Action.SeenAs (collector (κ := κ)) (allocateObject typeId size hasFinalizer build)
      (Collector.allocateObjectIn build typeId size hasFinalizer) := by
  rw [allocateObject_eq_recorder, Collector.allocateObject_eq_recorder]
  exact seenAs_recorder.allocateObject typeId size hasFinalizer build

/-- A chronicle is about what the collector does. -/
theorem collector_after (k : Call κ) (w : Chronicle κ) :
    (after k w).collector = Collector.after k w.collector := by
  cases k with
  | allocate typeId size hasFinalizer build =>
    exact ((seenAs_allocateObject typeId size hasFinalizer build).final w).symm
  | collect target reason => exact ((seenAs_collectFor target reason).final w).symm
  | registerFinalizer a callback => exact ((seenAs_noting _ _).final w).symm
  | suppressFinalization a => exact ((seenAs_noting _ _).final w).symm
  | _ => rfl

theorem collector_takeNext (patience : Patience) (w : Chronicle κ) :
    (w.takeNext patience).collector =
      { w.collector with queue := (w.collector.queue.takeNext patience).2 } := by
  rw [takeNext]
  split
  · rename_i a queue hturn
    rw [hturn]
    rfl
  · rename_i turn queue _ hturn
    rw [hturn]
    rfl

theorem collector_beginTurn (w : Chronicle κ) :
    w.beginTurn.collector = w.collector.beginTurn.2 := by
  rw [beginTurn]
  split
  · rename_i a callback c hturn
    rw [hturn]
    rfl
  · rename_i c hturn
    rw [hturn]
    rfl

theorem Step.collector (h : Step w w') : Collector.Step w.collector w'.collector := by
  cases h with
  | call k =>
    rw [collector_after]
    exact .call k _
  | takeNext patience =>
    rw [collector_takeNext]
    exact .takeNext patience _
  | beginTurn =>
    rw [collector_beginTurn]
    exact .beginTurn _
  | flag inside => exact .flag inside _
  | noteOutcome a fault => exact .noteOutcome a fault _
  | endTurn => exact .endTurn _

/-- The collector of a chronicle is reached. -/
theorem Recorded.reachable (h : Recorded config types w) :
    Collector.Reachable config types w.collector := by
  induction h with
  | start build hcreate => exact .start build hcreate
  | step _ hs ih => exact ih.step hs.collector

/-! ### Running finalizers -/

open Relation (ReflTransGen)

theorem stage_noting {α : Type} (n : Note κ) (act : Action (Collector κ TypeRegistry) α)
    (w : Chronicle κ) : ((noting n act).final w).stage = w.stage := by
  rw [Action.final, noting]
  cases act w.collector <;> rfl

theorem stage_collectFor (target : Target) (reason : Reason) (w : Chronicle κ) :
    ((collectFor target reason).final w).stage = w.stage := by
  rw [Action.final, collectFor]
  cases Collector.collectFor target reason w.collector <;> rfl

theorem stage_onHeap {α : Type} (act : Action Heap α) (w : Chronicle κ) :
    ((onHeap act : Action (Chronicle κ) α).final w).stage = w.stage := by
  rw [Action.final, onHeap]
  cases act (HoldsHeap.heap w) <;> rfl

theorem stage_allocateObject (typeId : TypeId) (size : Nat) (hasFinalizer : Bool) (build : Build)
    (w : Chronicle κ) :
    ((allocateObject typeId size hasFinalizer build).final w).stage = w.stage := by
  rw [allocateObject_eq_recorder]
  refine Recorder.final_allocateObject (R := fun v : Chronicle κ => v.stage = w.stage) rfl
    fun r _ => ?_
  have hladder : owner.Upholds r (fun v : Chronicle κ => v.stage = w.stage)
      fun _ v => v.stage = w.stage :=
    { place := fun v hv => (Action.ends_of_final (P := fun v : Chronicle κ => v.stage = w.stage)
        ((stage_onHeap r.place? v).trans hv)).imp (fun _ h => h) fun placed _ h => by
          cases placed <;> exact h
      grow := fun v hv => Action.ends_of_final (P := fun v : Chronicle κ => v.stage = w.stage)
        ((stage_onHeap _ v).trans hv)
      grown := fun _ _ _ hv => hv
      collect := fun target reason v hv => by
        refine Action.ends_of_final (P := fun v : Chronicle κ => v.stage = w.stage) ?_
        rw [owner, Action.final_discard]
        exact (stage_collectFor target reason v).trans hv }
  exact (hladder.allocate w.collector.config (s := w) rfl).imp (fun _ h _ => h) fun _ _ h => h

/-- Calls leave the turn as it is. -/
theorem stage_after (k : Call κ) (w : Chronicle κ) : (after k w).stage = w.stage := by
  cases k with
  | allocate typeId size hasFinalizer build =>
    exact stage_allocateObject typeId size hasFinalizer build w
  | collect target reason => exact stage_collectFor target reason w
  | registerFinalizer a callback => exact stage_noting _ _ w
  | suppressFinalization a => exact stage_noting _ _ w
  | _ => rfl

/-- Steps that leave the turn as it is lead to a collector. -/
def LeadsTo (w : Chronicle κ) (c : Collector κ TypeRegistry) : Prop :=
  ∃ w', ReflTransGen Step w w' ∧ w'.stage = w.stage ∧ w'.collector = c

theorem leadsTo_of_calls {c : Collector κ TypeRegistry}
    (h : ReflTransGen (fun c c' => ∃ k, c' = Collector.after k c) w.collector c) :
    w.LeadsTo c := by
  induction h with
  | refl => exact ⟨w, .refl, rfl, rfl⟩
  | tail _ hcall ih =>
    obtain ⟨w', hsteps, hstage, rfl⟩ := ih
    obtain ⟨k, rfl⟩ := hcall
    exact ⟨after k w', hsteps.tail (.call k w'), (stage_after k w').trans hstage,
      collector_after k w'⟩

/-- What steps within a turn lead to is recorded, and the turn may end there. -/
theorem Recorded.of_leadsTo (h : Recorded config types w) (hbegun : w.stage.isBegun = true)
    {c : Collector κ TypeRegistry} (hc : w.LeadsTo c) :
    (∃ w', Recorded config types w' ∧ w'.collector = c) ∧
      ∃ w', Recorded config types w' ∧ w'.collector = c.endTurn := by
  obtain ⟨w', hsteps, hstage, rfl⟩ := hc
  have hrec : Recorded config types w' := by
    clear hstage
    induction hsteps with
    | refl => exact h
    | tail _ hs ih => exact ih.step hs
  exact ⟨⟨w', hrec, rfl⟩, w'.endTurn, hrec.step (.endTurn w' (hstage ▸ hbegun)), rfl⟩

section Invoke

variable {invoke : κ → Address → Collector κ TypeRegistry → Outcome × Collector κ TypeRegistry}
  (hinvoke : ∀ callback a c,
    ReflTransGen (fun c c' => ∃ k, c' = Collector.after k c) c (invoke callback a c).2)
include hinvoke

theorem leadsTo_runJob (job : Address × κ) (w : Chronicle κ) :
    w.LeadsTo ((Collector.runJob invoke job).final w.collector) := by
  have hraise : Step w (w.withCollector { w.collector with inFinalizer := true }) := .flag true w
  obtain ⟨w₁, hcalls, hstage, hw₁⟩ := leadsTo_of_calls
    (hinvoke job.2 job.1 (w.withCollector { w.collector with inFinalizer := true }).collector)
  have hlower := Step.flag w.collector.inFinalizer w₁
  have hnote := Step.noteOutcome job.1
    (invoke job.2 job.1 { w.collector with inFinalizer := true }).1.fault?
    (w₁.withCollector { w₁.collector with inFinalizer := w.collector.inFinalizer })
  rw [hw₁] at hlower hnote
  have hlowered := ((ReflTransGen.single hraise).trans hcalls).tail hlower
  cases hcaught : (invoke job.2 job.1 { w.collector with inFinalizer := true }).1.isCaught with
  | true =>
    simp only [Action.final, Collector.runJob, runCallback, hcaught, if_true]
    exact ⟨_, hlowered.tail hnote, hstage, rfl⟩
  | false =>
    simp only [Action.final, Collector.runJob, runCallback, hcaught, Bool.false_eq_true, if_false]
    exact ⟨_, hlowered, hstage, rfl⟩

theorem recorded_runNext (h : Recorded config types w) (patience : Patience) :
    ∃ w', Recorded config types w' ∧
      w'.collector = (Collector.runNext invoke patience).final w.collector := by
  have htake := h.step (.takeNext patience w)
  have hcollector := collector_takeNext patience w
  rw [Action.final, Collector.runNext]
  rcases hturn : w.collector.queue.takeNext patience with ⟨turn, queue⟩
  rw [hturn] at hcollector
  cases turn with
  | object a =>
    have hstage : (w.takeNext patience).stage = .taken := by rw [takeNext, hturn]
    -- the turn begins, the callback runs, and then the turn ends, unless a panic goes on
    have hbegin := htake.step (.beginTurn _ hstage)
    have hbegun : (w.takeNext patience).beginTurn.stage.isBegun = true := by
      rw [beginTurn]
      split <;> rfl
    have hbeginTurn := collector_beginTurn (w.takeNext patience)
    dsimp only
    rw [← hcollector]
    rcases hjob : (w.takeNext patience).collector.beginTurn with ⟨job, d⟩
    rw [hjob] at hbeginTurn
    cases job with
    | none => exact (hbegin.of_leadsTo hbegun ⟨_, .refl, rfl, hbeginTurn⟩).2
    | some job =>
      have hrun := leadsTo_runJob hinvoke job (w.takeNext patience).beginTurn
      rw [hbeginTurn] at hrun
      obtain ⟨hcut, hended⟩ := hbegin.of_leadsTo hbegun hrun
      dsimp only
      cases hran : Collector.runJob invoke job d with
      | ok _ e =>
        rw [Action.final_of_ok hran] at hended
        exact hended
      | error _ e =>
        rw [Action.final_of_error hran] at hcut
        exact hcut
  | _ => exact ⟨_, htake, hcollector⟩

theorem recorded_runTurns (bound : Nat) (h : Recorded config types w) :
    ∃ w', Recorded config types w' ∧
      w'.collector = (Collector.runTurns invoke bound).final w.collector := by
  induction bound generalizing w with
  | zero => exact ⟨w, h, rfl⟩
  | succ bound ih =>
    obtain ⟨w', hrec, hnext⟩ := recorded_runNext hinvoke h .whilePending
    rw [Action.final, Collector.runTurns]
    cases hturn : Collector.runNext invoke .whilePending w.collector with
    | ok more d =>
      rw [Action.final_of_ok hturn] at hnext
      subst hnext
      cases more with
      | true =>
        obtain ⟨w'', hrec', hrest⟩ := ih hrec
        refine ⟨w'', hrec', hrest.trans ?_⟩
        cases hrun : Collector.runTurns invoke bound w'.collector with
        | ok n e => simp only [Action.final, hrun]
        | error _ e => simp only [Action.final, hrun]
      | false => exact ⟨w', hrec, rfl⟩
    | error e d =>
      rw [Action.final_of_error hturn] at hnext
      exact ⟨w', hrec, hnext⟩

/-- Running the finalizers has a chronicle, if these act by calls, also when a panic ends their
run. -/
theorem Recorded.runPending (h : Recorded config types w) (bound : Nat) :
    ∃ w', Recorded config types w' ∧
      w'.collector = (Collector.runPending invoke bound).final w.collector := by
  rw [Action.final, Collector.runPending]
  by_cases hinside : w.collector.inFinalizer
  · rw [if_pos hinside]
    exact ⟨w, h, rfl⟩
  · rw [if_neg hinside]
    exact recorded_runTurns hinvoke bound h

end Invoke

end Chronicle

end GenerationalHeap
