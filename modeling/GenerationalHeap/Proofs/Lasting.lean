/-
What lasts along every run of a roster.

Three things can happen to the objects: they stay where they are, a collection that succeeds moves
or reclaims them, or a new one is born. A step may do several of these, one after the other.

* `Collector.Unmoved` — the objects stay, with their sizes and ages.
* `Collector.Sound.unmoved_after`, `Collector.Sound.unmoved_beginTurn` and the like — so they do in
  everything that neither collects nor allocates.
* `Roster.Lasting` — a property that each of the three keeps.
* `Roster.Lasting.of_step` — every step keeps it, with the collections that an allocation starts.
-/
import GenerationalHeap.Proofs.Placing
import GenerationalHeap.Proofs.Roster

namespace GenerationalHeap

namespace Collector

variable {κ : Type} {config : Config} {types : TypeRegistry} {c c' c'' : Collector κ TypeRegistry}
  {target : Target} {a : Address}

/-! ### The configuration -/

theorem Steady.config_of_error (hc : c.Steady) {reason : Reason} {e : Error}
    (hrun : Collector.collectFor target reason c = .error e c') : c'.config = c.config :=
  (restored_of_error (fun _ _ _ => rfl) hc.heap.intact hc.collecting hrun).config

theorem config_of_ok {reason : Reason} {report : Report}
    (hrun : Collector.collectFor target reason c = .ok report c') : c'.config = c.config := by
  obtain ⟨p, hleaves, -⟩ := Passes.of_collectFor hrun
  exact hleaves.config

/-- A collection leaves the configuration alone, whether it fails or not. -/
theorem Steady.config_collectFor (hc : c.Steady) (target : Target) (reason : Reason) :
    ((Collector.collectFor target reason).final c).config = c.config := by
  cases hrun : Collector.collectFor target reason c with
  | ok report d =>
    rw [Action.final_of_ok hrun]
    exact config_of_ok hrun
  | error e d =>
    rw [Action.final_of_error hrun]
    exact hc.config_of_error hrun

theorem Touches.config_eq {k : Call κ} (h : Touches k c c') : c'.config = c.config := by
  cases h <;> rfl

/-! ### Objects that stay -/

/-- The objects stay where they are, and keep their sizes and ages. -/
structure Unmoved (c c' : Collector κ TypeRegistry) : Prop where
  config : c'.config = c.config
  objects : c'.heap.objects = c.heap.objects
  header : ∀ a ∈ c.heap.objects, (c'.heap.header a).size = (c.heap.header a).size ∧
    (c'.heap.header a).age = (c.heap.header a).age

theorem Unmoved.of_heap (hconfig : c'.config = c.config) (hheap : c'.heap = c.heap) :
    Unmoved c c' where
  config := hconfig
  objects := by rw [hheap]
  header a _ := by rw [hheap]; exact ⟨rfl, rfl⟩

theorem Unmoved.of_quiet (hconfig : c'.config = c.config) (hq : Quiet c c') : Unmoved c c' where
  config := hconfig
  objects := hq.objects
  header a ha := by rw [hq.header a ha]; exact ⟨rfl, rfl⟩

section Sound

variable (hc : c.Sound)
include hc

theorem Sound.unmoved_setHeader {new : Header} (hconfig : c'.config = c.config)
    (hheap : c'.heap = c.heap.setHeader a new) (ha : a ∈ c.heap.objects)
    (hsize : new.size = (c.heap.header a).size) (hage : new.age = (c.heap.header a).age) :
    Unmoved c c' := by
  have hr := Heap.relabels_setHeader hc.heap.wellFormed ha hsize
  rw [← hheap] at hr
  refine ⟨hconfig, hr.layout.objects hc.heap.wellFormed, fun b hb => ?_⟩
  rw [hr.header b hb]
  split
  · rename_i hba
    exact hba ▸ ⟨hsize, hage⟩
  · exact ⟨rfl, rfl⟩

/-- Flags of finalization say nothing about ages. -/
theorem Sound.unmoved_of_reflags (h : Reflags c c') : Unmoved c c' := by
  cases h with
  | nothing => exact .of_heap rfl rfl
  | header _ _ ha hsize hage => exact hc.unmoved_setHeader rfl rfl ha hsize hage

theorem Sound.unmoved_after {k : Call κ} (hk : k.mayCollect = false) :
    Unmoved c (Collector.after k c) := by
  cases hquiet : k.isQuiet with
  | true =>
    exact .of_quiet (hc.touches_after hquiet).config_eq (hc.quiet_after hquiet)
  | false => exact hc.unmoved_of_reflags (hc.reflags_after hquiet hk)

theorem Sound.unmoved_beginTurn : Unmoved c c.beginTurn.2 := by
  rcases hc.beginTurn_eq with ⟨hrun, -⟩ | ⟨a, -, ha, -, running, hrun⟩
  · rw [hrun]
    exact .of_heap rfl rfl
  · rw [hrun]
    exact hc.unmoved_setHeader rfl rfl ha rfl rfl

theorem Sound.unmoved_endTurn : Unmoved c c.endTurn := by
  rw [hc.endTurn_eq]
  cases hflight : c.queue.inFlight with
  | none => exact .of_heap rfl rfl
  | some a =>
    have ha : a ∈ c.heap.objects :=
      hc.queue a (FinalizationQueue.mem_objects_of_inFlight hflight)
    by_cases hslot : (c.heap.header a).slot = 0
    · refine hc.unmoved_setHeader rfl (if_pos hslot) ha rfl ?_
      exact Header.age_setFlag _ (by decide) true
    · exact .of_heap rfl (if_neg hslot)

theorem Sound.unmoved_growNursery (blockSize : Nat) :
    Unmoved c ((onHeap (Heap.growNursery blockSize) :
      Action (Collector κ TypeRegistry) _).final c) := by
  refine .of_quiet ?_ (hc.quiet_growNursery blockSize)
  rw [Action.final, onHeap]
  cases Heap.growNursery blockSize (HoldsHeap.heap c) <;> rfl

end Sound

/-- A collection that fails moves nothing. -/
theorem Steady.unmoved_of_error (hc : c.Steady) {reason : Reason} {e : Error}
    (hrun : Collector.collectFor target reason c = .error e c') : Unmoved c c' :=
  .of_quiet (hc.config_of_error hrun) (hc.toSound.quiet_of_error hc.toAtRest hrun)

end Collector

/-! ### Collections and places in a chronicle -/

namespace Chronicle

variable {κ : Type} {w w' : Chronicle κ} {target : Target} {reason : Reason}

theorem of_collectFor_error {e : Error}
    (hrun : Chronicle.collectFor target reason w = .error e w') :
    ∃ c, Collector.collectFor target reason w.collector = .error e c ∧ w' = w.withCollector c := by
  rw [Chronicle.collectFor] at hrun
  cases hcollect : Collector.collectFor target reason w.collector with
  | ok report c =>
    rw [hcollect] at hrun
    exact absurd hrun (by simp)
  | error e' c =>
    rw [hcollect] at hrun
    obtain ⟨rfl, rfl⟩ := EStateM.Result.error.inj hrun
    exact ⟨c, rfl, rfl⟩

/-- What a chronicle tells of a collection that has succeeded. -/
theorem Faithful.of_collectFor_ok (hw : w.Faithful) {report : Report}
    (hrun : Chronicle.collectFor target reason w = .ok report w') :
    Collector.collectFor target reason w.collector = .ok report w'.collector ∧
      w'.places.length = w.places.length ∧
      ∃ F dying, Collector.Collected target F dying w.collector w'.collector ∧
        ∀ o b, w'.place o = some b ↔ ∃ a, w.place o = some a ∧
          w.collector.heap.Survives w.collector.types target w.collector.rootObjects a ∧
            F a = b := by
  obtain ⟨hcollect, hplaces⟩ := places_of_collectFor hrun
  obtain ⟨F, dying, -, hcol⟩ := hw.steady.collected_of_ok hcollect
  refine ⟨hcollect, ?_, F, dying, hcol, fun o b => ?_⟩
  · rw [hplaces]
    exact List.length_map _
  · rw [place, hplaces]
    exact place_follow_iff hw hcol

theorem places_noting {α : Type} (n : Note κ) (act : Action (Collector κ TypeRegistry) α)
    (w : Chronicle κ) : ((noting n act).final w).places = w.places := by
  rw [Action.final, noting]
  cases act w.collector <;> rfl

theorem places_after {k : Call κ} (hk : k.mayCollect = false) (w : Chronicle κ) :
    (after k w).places = w.places := by
  cases k with
  | allocate | collect => exact absurd hk.symm Bool.false_ne_true
  | registerFinalizer | suppressFinalization => exact places_noting _ _ w
  | _ => rfl

theorem places_takeNext (patience : Patience) (w : Chronicle κ) :
    (w.takeNext patience).places = w.places := by
  rw [takeNext]
  split <;> rfl

theorem places_beginTurn (w : Chronicle κ) : w.beginTurn.places = w.places := by
  rw [beginTurn]
  split <;> rfl

end Chronicle

theorem Request.sizeClass_of_prepare {config : Config} {types : TypeSystem} {typeId : TypeId}
    {size : Nat} {hasFinalizer : Bool} {build : Build} {r : Request}
    (hr : prepare config types typeId size hasFinalizer build = .ok r) :
    r.sizeClass = config.sizeClassOf r.payload := by
  obtain ⟨-, -, -, -, -, heq⟩ := of_prepare hr
  rw [heq]

namespace Roster

variable {κ : Type} {config : Config} {types : TypeRegistry} {v v' : Roster κ} {a : Address}

theorem turnovers_after {k : Call κ} (hk : k.mayCollect = false) (v : Roster κ) :
    (after k v).turnovers = v.turnovers := by
  cases k with
  | allocate | collect => exact absurd hk.symm Bool.false_ne_true
  | _ => rfl

/-! ### What can happen to objects -/

/-- The objects stay where they are, and no collection has succeeded. -/
structure Stays (v v' : Roster κ) : Prop extends
    Collector.Unmoved v.collector v'.collector where
  places : v'.chronicle.places = v.chronicle.places
  turnovers : v'.turnovers = v.turnovers

theorem Stays.place (h : v.Stays v') (o : Nat) : v'.place o = v.place o := by
  show v'.chronicle.places[o]?.join = v.chronicle.places[o]?.join
  rw [h.places]

theorem stays_withCollector {c : Collector κ TypeRegistry} (h : v.collector.Unmoved c) :
    v.Stays (v.withChronicle (v.chronicle.withCollector c)) :=
  { h with places := rfl, turnovers := rfl }

/-- A collection that has succeeded. -/
def collected (target : Target) (report : Report) (w : Chronicle κ) (v : Roster κ) : Roster κ :=
  { v with
    chronicle := w
    turnovers := ⟨target, report, v.watched, v.chronicle, w⟩ :: v.turnovers }

/-- A new object, in the heap that it was put into. -/
def born (a : Address) (hasFinalizer : Bool) (heap : Heap) (statistics : Statistics)
    (v : Roster κ) : Roster κ :=
  v.withChronicle
    ((v.chronicle.withCollector { v.collector with heap, statistics }).born a hasFinalizer)

/-- A property that is kept by all that can happen to objects. -/
structure Lasting (P : Roster κ → Prop) : Prop where
  stays : ∀ v v', v.Faithful → v.Stays v' → P v → P v'
  collected : ∀ v target reason report w, v.Faithful →
    Chronicle.collectFor target reason v.chronicle = .ok report w → P v →
      P (v.collected target report w)
  /-- The size class of a new object is the one that the configuration tells. -/
  born : ∀ v (r : Request) a hasFinalizer heap statistics, v.Faithful →
    r.Prepared v.collector.types → r.sizeClass = v.collector.config.sizeClassOf r.payload →
      Heap.Adds a r.header v.collector.heap heap → P v → P (v.born a hasFinalizer heap statistics)

namespace Lasting

variable {P : Roster κ → Prop} (hP : Lasting P)
include hP

/-- Whether it fails or not, a collection keeps what lasts. -/
theorem collectFor (hv : v.Faithful) (target : Target) (reason : Reason) (h : P v) :
    P ((Roster.collectFor target reason).final v) := by
  rw [Action.final, Roster.collectFor]
  cases hrun : Chronicle.collectFor target reason v.chronicle with
  | ok report w => exact hP.collected v target reason report w hv hrun h
  | error e w =>
    obtain ⟨c, hcollect, rfl⟩ := Chronicle.of_collectFor_error hrun
    exact hP.stays v _ hv (stays_withCollector (hv.steady.unmoved_of_error hcollect)) h

/-! ### Allocations -/

/-- What holds on every rung of the ladder of an allocation that starts from `v`. -/
structure Rung (P : Roster κ → Prop) (r : Request) (v v' : Roster κ) : Prop
    extends Climbs r v v' where
  config : v'.collector.config = v.collector.config
  lasts : P v'

omit hP in
theorem Rung.faithful {r : Request} (hv : v.Faithful) (h : Rung P r v v') : v'.Faithful :=
  (hv.of_carries h.chronicle.toFaithful h.carries h.toKept).1

/-- The object is placed from one of the rungs. -/
def Placed (P : Roster κ → Prop) (r : Request) (v : Roster κ) (a : Address) (v' : Roster κ) :
    Prop :=
  ∃ u heap, Rung P r v u ∧
    v' = u.withChronicle (u.chronicle.withCollector { u.collector with heap }) ∧
    Heap.Adds a r.header u.collector.heap heap

theorem upholds (hv : v.Faithful) (r : Request) : owner.Upholds r (Rung P r v) (Placed P r v) where
  place u hu := by
    have hplace := hu.chronicle.steady.place_ends hu.chronicle.prepared
    refine (beside.ends_onHeap (Chronicle.beside.ends_onHeap hplace)).imp ?_ ?_
    · rintro _ ⟨_, rfl, c, rfl, rfl⟩
      exact hu
    · rintro (_ | a) _ ⟨_, rfl, c, rfl, hc⟩
      · obtain rfl : c = u.chronicle.collector := hc
        exact hu
      · obtain ⟨heap, rfl, hadd, -⟩ := hc
        exact ⟨u, heap, hu, rfl, hadd⟩
  grow u hu := by
    have hclimbs := ((upholds_owner r hv).grow u hu.toClimbs).final
    -- growing the nursery leaves everyone where they are
    have hstays := stays_withCollector
      ((hu.faithful hv).steady.toSound.unmoved_growNursery r.blockSize)
    refine beside.ends_of_final ?_
    rw [beside.final_onHeap] at hclimbs
    rw [Chronicle.beside.final_onHeap] at hclimbs ⊢
    exact ⟨hclimbs, hstays.config.trans hu.config, hP.stays u _ (hu.faithful hv) hstays hu.lasts⟩
  grown old new u hu := by
    have hstays : u.Stays (owner.nurseryGrown old new u) := stays_withCollector (.of_heap rfl rfl)
    exact ⟨(upholds_owner r hv).grown old new u hu.toClimbs, hstays.config.trans hu.config,
      hP.stays u _ (hu.faithful hv) hstays hu.lasts⟩
  collect target reason u hu := by
    have hclimbs := ((upholds_owner r hv).collect target reason u hu.toClimbs).final
    refine Action.ends_of_final ?_
    rw [owner, Action.final_discard] at hclimbs ⊢
    refine ⟨hclimbs, ?_, hP.collectFor (hu.faithful hv) target reason hu.lasts⟩
    have hseen := (seenAs_collectFor target reason).final u
    have hseen' := (Chronicle.seenAs_collectFor target reason).final u.chronicle
    rw [collector, ← hseen, ← hseen']
    exact ((hu.faithful hv).steady.config_collectFor target reason).trans hu.config

/-- An allocation keeps what lasts, with all the collections that it starts. -/
theorem allocateObject (hv : v.Faithful) (typeId : TypeId) (size : Nat) (hasFinalizer : Bool)
    (build : Build) (h : P v) :
    P ((recorder.allocateObject typeId size hasFinalizer build).final v) := by
  refine Recorder.final_allocateObject h fun r hr => ?_
  have hprepared : r.Prepared v.collector.types := Request.prepare_spec hr
  have hstart : Rung P r v v :=
    ⟨⟨hv.kept v.chronicle, ⟨hv.chronicle, .refl _, hprepared⟩, .refl _⟩, rfl, h⟩
  refine ((hP.upholds hv r).allocate v.collector.config hstart).imp ?_ ?_
  · intro u hu e
    obtain ⟨statistics, log, processLog, heq⟩ := Collector.noteFailure_eq e u.chronicle.collector
    have hstays : u.Stays (recorder.refused e u) := by
      refine stays_withCollector ?_
      show Collector.Unmoved _ (Collector.noteFailure e u.chronicle.collector)
      rw [heq]
      exact .of_heap rfl rfl
    exact hP.stays u _ (hu.faithful hv) hstays hu.lasts
  · rintro a _ ⟨u, heap, hu, rfl, hadd⟩
    have hclass : r.sizeClass = u.collector.config.sizeClassOf r.payload :=
      hu.config ▸ Request.sizeClass_of_prepare hr
    exact hP.born u r a hasFinalizer heap _ (hu.faithful hv) hu.chronicle.prepared hclass hadd
      hu.lasts

/-! ### Steps -/

/-- Whatever can happen to objects, a step does nothing else to them. -/
theorem of_step (hv : v.Faithful) (hs : Step v v') (h : P v) : P v' := by
  -- only calls that may collect or allocate change who is where
  have hstays : ∀ {u}, v.Stays u → P u := fun hu => hP.stays v _ hv hu h
  cases hs with
  | call k =>
    cases hk : k.mayCollect with
    | true =>
      cases k with
      | allocate typeId size hasFinalizer build =>
        exact hP.allocateObject hv typeId size hasFinalizer build h
      | collect target reason => exact hP.collectFor hv target reason h
      | _ => exact absurd hk Bool.false_ne_true
    | false =>
      have hunmoved : v.collector.Unmoved (Collector.after k v.chronicle.collector) :=
        hv.steady.toSound.unmoved_after hk
      rw [← Chronicle.collector_after, ← chronicle_after] at hunmoved
      exact hstays { hunmoved with
        places := by rw [chronicle_after, Chronicle.places_after hk]
        turnovers := turnovers_after hk v }
  | takeNext patience =>
    have hunmoved : v.collector.Unmoved (v.chronicle.takeNext patience).collector := by
      rw [Chronicle.collector_takeNext]
      exact .of_heap rfl rfl
    exact hstays { hunmoved with
      places := Chronicle.places_takeNext patience v.chronicle
      turnovers := rfl }
  | beginTurn =>
    have hunmoved : v.collector.Unmoved v.chronicle.beginTurn.collector := by
      rw [Chronicle.collector_beginTurn]
      exact hv.steady.toSound.unmoved_beginTurn
    exact hstays { hunmoved with
      places := Chronicle.places_beginTurn v.chronicle
      turnovers := rfl }
  | flag inside => exact hstays (stays_withCollector (.of_heap rfl rfl))
  | noteOutcome a fault =>
    refine hstays (stays_withCollector ?_)
    cases fault <;> exact .of_heap rfl rfl
  | endTurn =>
    exact hstays { hv.steady.toSound.unmoved_endTurn with places := rfl, turnovers := rfl }

end Lasting

end Roster

end GenerationalHeap
