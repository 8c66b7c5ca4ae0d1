/-
Runs of a collector.

* `Call` — the public calls.
* `Collector.Step` — one call, or a part of the turn of a finalizer.
* `Collector.Reachable` — what a new collector becomes in any number of steps.
* `Collector.Reachable.sound` — a collector is sound whenever it is reached.
* `Collector.Reachable.runPending` — finalizers that act by steps lead to where steps lead.
* `Collector.Reachable.allocate_congr` — the collections that an allocation starts begin in
  reachable states.
-/
import GenerationalHeap.Collector.Finalizers
import GenerationalHeap.Proofs.Mutating

namespace GenerationalHeap

/-! ### A new collector -/

theorem Config.le_of_check {c : Config} {build : Build} (h : c.check build = .ok ()) :
    c.gen0Size ≤ c.maxHeapSize ∧ c.maxHeapSize ≤ spaceLimit := by
  by_contra hno
  have hbad : c.gen0Size > c.maxHeapSize ∨ c.maxHeapSize > spaceLimit := by omega
  simp only [check, bind, Except.bind, throw, throwThe, MonadExceptOf.throw, pure, Except.pure] at h
  repeat' split at h
  all_goals first | omega | exact absurd h (by simp)

theorem Arena.offsets_empty (s : Space) (capacity : Nat) :
    (Arena.empty s capacity).offsets = [] := by
  rw [offsets, offsetsFrom, if_neg]
  exact Nat.lt_irrefl 0

theorem Arena.wellFormed_empty {s : Space} {capacity : Nat} (hcap : capacity ≤ spaceLimit) :
    (Arena.empty s capacity).WellFormed s := by
  have hoffsets := offsets_empty s capacity
  refine ⟨rfl, ?_, ?_, ?_, fun i _ => Memory.byte_zeros _ i, Nat.zero_le _,
    roundedUp_le_spaceLimit hcap, Nat.le_refl _⟩
  · rw [hoffsets]
    rfl
  · intro x hx
    rw [hoffsets] at hx
    exact absurd hx List.not_mem_nil
  · intro x _
    rw [hoffsets]
    have hset : (Arena.empty s capacity).starts.isSet x = false := StartMap.isSet_empty _ x
    simp [hset]

namespace Heap

theorem wellFormed_empty {nurserySize : Nat} (h : nurserySize ≤ spaceLimit) (maxSize : Nat) :
    (Heap.empty nurserySize maxSize).WellFormed where
  arena g := by
    cases g with
    | gen0 => exact Arena.wellFormed_empty h
    | gen1 => exact Arena.wellFormed_empty (Nat.zero_le _)
    | gen2 => exact Arena.wellFormed_empty (Nat.zero_le _)
  large := LargeSpace.blocks_empty
  large_size _ hb := absurd hb List.not_mem_nil
  large_aligned _ hb := absurd hb List.not_mem_nil

theorem objects_empty (nurserySize maxSize : Nat) :
    (Heap.empty nurserySize maxSize).objects = [] := by
  refine List.flatMap_eq_nil_iff.2 ?_
  intro s _
  rw [objectsIn, List.map_eq_nil_iff]
  cases s with
  | large => rfl
  | arena g => cases g <;> exact Arena.offsets_empty _ _

end Heap

namespace Collector

variable {κ : Type} {config : Config} {types : TypeRegistry} {c c' d : Collector κ TypeRegistry}

/-- A new collector has no objects and names none. -/
theorem sound_of_create {build : Build} (h : create config types build = .ok c) : c.Sound := by
  rw [create] at h
  cases hcheck : config.check build with
  | error e => simp [hcheck] at h
  | ok u =>
    simp only [hcheck] at h
    obtain rfl := Except.ok.inj h
    obtain ⟨hle, hmax⟩ := Config.le_of_check hcheck
    have hobjects := Heap.objects_empty config.gen0Size config.maxHeapSize
    -- in an empty heap there is nothing to be shown of any object
    have hnone : ∀ a, a ∉ (Heap.empty config.gen0Size config.maxHeapSize).objects := by
      intro a ha
      rw [hobjects] at ha
      exact List.not_mem_nil ha
    have hw := Heap.wellFormed_empty (Nat.le_trans hle hmax) config.maxHeapSize
    exact
      { heap :=
          { wellFormed := hw
            tagged := fun s a ha => absurd (List.mem_flatMap.2 ⟨s, s.mem_all, ha⟩) (hnone a)
            typed := fun a ha => absurd ha (hnone a)
            noDangling := fun a ha => absurd ha (hnone a)
            clean :=
              ⟨fun a ha => absurd ha (hnone a), fun a ha => absurd ha (hnone a), fun a ha =>
                absurd ha (hnone a)⟩
            used_le := Nat.zero_le _
            maxSize_le := hmax }
        roots := fun a ha => absurd ha List.not_mem_nil
        queue := fun a ha => absurd ha List.not_mem_nil
        weak := fun a ha => absurd ha List.not_mem_nil
        remembered := fun a ha => absurd (Array.mem_toList_iff.2 ha) List.not_mem_nil
        nodup := List.nodup_nil
        complete := fun a ha => absurd ha (hnone a) }

/-! ### The turn of a finalizer -/

theorem Sound.takeNext (hc : c.Sound) (patience : Patience) :
    Sound { c with queue := (c.queue.takeNext patience).2 } := by
  have hsame : ∀ a ∈ (c.queue.takeNext patience).2.objects, a ∈ c.queue.objects := by
    intro a ha
    rw [FinalizationQueue.takeNext] at ha
    split at ha
    · exact ha
    · split at ha
      · exact ha
      · rename_i b rest hpending
        split at ha
        · exact ha
        · rw [FinalizationQueue.objects, hpending]
          rcases List.mem_append.1 ha with ha | ha
          · exact List.mem_append_left _ (List.mem_cons_of_mem _ ha)
          · obtain rfl := List.mem_singleton.1 ha
            exact List.mem_append_left _ List.mem_cons_self
  exact ⟨hc.heap, hc.roots, fun a ha => hc.queue a (hsame a ha), hc.weak, hc.remembered, hc.nodup,
    hc.complete⟩

theorem Sound.beginTurn (hc : c.Sound) : c.beginTurn.2.Sound := by
  rw [Collector.beginTurn]
  split
  · exact hc
  · rename_i a hflight
    dsimp only
    split
    · exact hc
    · have ha : a ∈ c.heap.objects :=
        hc.queue a (FinalizationQueue.mem_objects_of_inFlight hflight)
      have hset : Sound (modifyHeap (·.setHeader a { c.heap.header a with slot := 0 })
          (c.onCallbacks (·.take (c.heap.header a).slot.toNat)).2) :=
        hc.setHeader ⟨rfl, rfl, rfl, rfl, rfl, rfl, rfl⟩ rfl ha (Header.alike_slot _ 0)
      split
      · exact hset.of_tables ⟨rfl, rfl, rfl, rfl, rfl, rfl, rfl⟩ rfl
      · exact hset

theorem Sound.of_noteOutcome (hc : c.Sound) (a : Address) (fault : Option String) :
    (noteOutcome a fault c).Sound := by
  cases fault with
  | none => exact hc.of_tables ⟨rfl, rfl, rfl, rfl, rfl, rfl, rfl⟩ rfl
  | some message => exact hc.of_tables ⟨rfl, rfl, rfl, rfl, rfl, rfl, rfl⟩ rfl

theorem Sound.of_settle (hc : c.Sound) (a : Address) : (settle a c).Sound := by
  rw [settle]
  split
  · rename_i hobject
    have ha := (Heap.isObject_iff hc.heap.wellFormed hc.heap.tagged).1 hobject
    dsimp only
    split
    · exact hc.setHeader ⟨rfl, rfl, rfl, rfl, rfl, rfl, rfl⟩ rfl ha
        (Header.alike_setFinalized _ true)
    · exact hc
  · exact hc

theorem Sound.endTurn (hc : c.Sound) : c.endTurn.Sound := by
  have hcomplete : ∀ {d : Collector κ TypeRegistry}, d.Sound →
      Sound { d with queue := d.queue.complete.2 } := by
    intro d hd
    refine ⟨hd.heap, hd.roots, fun a ha => hd.queue a ?_, hd.weak, hd.remembered, hd.nodup,
      hd.complete⟩
    rcases List.mem_append.1 ha with ha | ha
    · exact List.mem_append_left _ ha
    · exact absurd ha List.not_mem_nil
  rw [Collector.endTurn]
  split
  · exact hcomplete (hc.of_settle _)
  · exact hcomplete hc

end Collector

/-! ### Calls -/

/-- The public calls. A collection is one that is asked for, or one that an allocation
starts. The slots of a provider are the host's, who may change them in any way. An allocation is
one of any build. On fields all builds do the same, but for a slot whose end is no word, and
there the calls are those of a checked build. -/
inductive Call (κ : Type) where
  | allocate (typeId : TypeId) (size : Nat) (hasFinalizer : Bool) (build : Build := .checked)
  | collect (target : Target) (reason : Reason)
  | readRef (a : Address) (offset : Nat)
  | writeRef (a : Address) (offset : Nat) (value : Option Address)
  | readData (a : Address) (offset length : Nat)
  | writeData (a : Address) (offset : Nat) (bytes : ByteArray)
  | sizeOf (a : Address)
  | typeOf (a : Address)
  | spaceOf (a : Address)
  | registerFinalizer (a : Address) (callback : κ)
  | suppressFinalization (a : Address)
  | addRoot (a : Address)
  | root (id : Nat)
  | setRoot (id : Nat) (a : Address)
  | removeRoot (id : Nat)
  | createWeak (a : Address)
  | resolve (id : Nat)
  | freeWeak (id : Nat)
  | addProvider (slots : RootSlots)
  | changeSlots (id : Nat) (f : RootSlots → RootSlots)
  | removeProvider (id : Nat)
  | registerType (t : TypeInfo)
  | shutDown

namespace Collector

variable {κ : Type} {config : Config} {types : TypeRegistry} {c c' : Collector κ TypeRegistry}

/-- What a call leaves behind, whether it fails or not. -/
def after : Call κ → Collector κ TypeRegistry → Collector κ TypeRegistry
  | .allocate typeId size hasFinalizer build =>
    (allocateObjectIn build typeId size hasFinalizer).final
  | .collect target reason => (collectFor target reason).final
  | .readRef a offset => (readRef a offset).final
  | .writeRef a offset value => (writeRef a offset value).final
  | .readData a offset length => (readData a offset length).final
  | .writeData a offset bytes => (writeData a offset bytes).final
  | .sizeOf a => (sizeOf a).final
  | .typeOf a => (typeOf a).final
  | .spaceOf a => (spaceOf a).final
  | .registerFinalizer a callback => (registerFinalizer a callback).final
  | .suppressFinalization a => (suppressFinalization a).final
  | .addRoot a => (addRoot a).final
  | .root id => (root id).final
  | .setRoot id a => (setRoot id a).final
  | .removeRoot id => (removeRoot id).final
  | .createWeak a => (createWeak a).final
  | .resolve id => (resolve id).final
  | .freeWeak id => (freeWeak id).final
  | .addProvider slots => fun c => (c.addProvider slots).2
  | .changeSlots id f => modifySlots id f
  | .removeProvider id => (removeProvider id).final
  | .registerType t => fun c => { c with host := (c.host.register t).2 }
  | .shutDown => fun c => { c with queue := c.queue.shutDown.2 }

theorem keeps_ask {P : Collector κ TypeRegistry → Prop} {α : Type}
    (check : Collector κ TypeRegistry → Except Error α) : Action.Keeps P (ask check) := by
  intro c hc
  rw [Action.final, ask]
  cases check c <;> exact hc

/-- A new type leaves the types of the objects as they were. -/
theorem Sound.registerType (hc : c.Sound) (t : TypeInfo) :
    Sound { c with host := (c.host.register t).2 } := by
  have htype : ∀ a ∈ c.heap.objects, (c.host.register t).2.info? (c.heap.header a).typeId =
      c.host.info? (c.heap.header a).typeId := fun a ha =>
    TypeRegistry.info?_register (hc.heap.typed a ha)
  refine ⟨hc.heap.of_types htype, hc.roots, hc.queue, hc.weak, hc.remembered, hc.nodup,
    fun a ha hy => hc.complete a ha ?_⟩
  obtain ⟨b, hab, hdown⟩ := hy
  exact ⟨b, (Heap.pointsTo_of_types (htype a ha)).1 hab, hdown⟩

theorem Sound.after (hc : c.Sound) (k : Call κ) : (Collector.after k c).Sound := by
  cases k with
  | allocate typeId size hasFinalizer build =>
    exact hc.allocateObject build typeId size hasFinalizer
  | collect target reason => exact hc.collectFor target reason
  | readRef a offset =>
    exact ((keeps_ask _).bind fun _ => (keeps_ask _).bind fun _ => Action.keeps_get.bind fun _ =>
      Action.keeps_pure _) c hc
  | writeRef a offset value => exact hc.writeRef a offset value
  | readData a offset length => exact ((keeps_ask _).bind fun _ => keeps_ask _) c hc
  | writeData a offset bytes => exact hc.writeData a offset bytes
  | sizeOf a =>
    exact ((keeps_ask _).bind fun _ => Action.keeps_get.bind fun _ => Action.keeps_pure _) c hc
  | typeOf a =>
    exact ((keeps_ask _).bind fun _ => Action.keeps_get.bind fun _ => Action.keeps_pure _) c hc
  | spaceOf a => exact keeps_ask (fun c => c.heap.check a) c hc
  | registerFinalizer a callback => exact hc.registerFinalizer a callback
  | suppressFinalization a => exact hc.suppressFinalization a
  | addRoot a => exact hc.addRoot a
  | root id => exact keeps_ask _ c hc
  | setRoot id a => exact hc.setRoot id a
  | removeRoot id => exact hc.removeRoot id
  | createWeak a => exact hc.createWeak a
  | resolve id => exact keeps_ask _ c hc
  | freeWeak id => exact hc.freeWeak id
  | addProvider slots => exact hc.addProvider slots
  | changeSlots id f => exact hc.modifySlots id f
  | removeProvider id => exact hc.removeProvider id
  | registerType t => exact hc.registerType t
  | shutDown => exact hc.of_tables ⟨rfl, rfl, rfl, rfl, rfl, rfl, rfl⟩ rfl

/-! ### Steps -/

/-- One step: a call, or a part of the turn of a finalizer. Other calls may come between the
parts of a turn, those of its callback among them. -/
inductive Step : Collector κ TypeRegistry → Collector κ TypeRegistry → Prop where
  | call (k : Call κ) (c : Collector κ TypeRegistry) : Step c (after k c)
  | takeNext (patience : Patience) (c : Collector κ TypeRegistry) :
    Step c { c with queue := (c.queue.takeNext patience).2 }
  | beginTurn (c : Collector κ TypeRegistry) : Step c c.beginTurn.2
  | flag (inside : Bool) (c : Collector κ TypeRegistry) : Step c { c with inFinalizer := inside }
  | noteOutcome (a : Address) (fault : Option String) (c : Collector κ TypeRegistry) :
    Step c (noteOutcome a fault c)
  | endTurn (c : Collector κ TypeRegistry) : Step c c.endTurn

/-- What a new collector becomes in any number of steps. -/
inductive Reachable (config : Config) (types : TypeRegistry) : Collector κ TypeRegistry → Prop where
  | start (build : Build) {c : Collector κ TypeRegistry} :
    create config types build = .ok c → Reachable config types c
  | step {c c' : Collector κ TypeRegistry} :
    Reachable config types c → Step c c' → Reachable config types c'

/-- Any finite sequence of calls. -/
theorem Reachable.calls (h : Reachable config types c) (ks : List (Call κ)) :
    Reachable config types (ks.foldl (fun c k => after k c) c) := by
  induction ks generalizing c with
  | nil => exact h
  | cons k rest ih => exact ih (h.step (.call k c))

theorem Step.sound (hs : Step c c') (hc : c.Sound) : c'.Sound := by
  cases hs with
  | call k => exact hc.after k
  | takeNext patience => exact hc.takeNext patience
  | beginTurn => exact hc.beginTurn
  | flag inside => exact hc.of_tables ⟨rfl, rfl, rfl, rfl, rfl, rfl, rfl⟩ rfl
  | noteOutcome a fault => exact hc.of_noteOutcome a fault
  | endTurn => exact hc.endTurn

/-- A collector is sound whenever it is reached. -/
theorem Reachable.sound (h : Reachable config types c) : c.Sound := by
  induction h with
  | start build hcreate => exact sound_of_create hcreate
  | step _ hs ih => exact hs.sound ih

/-! ### Running finalizers -/

open Relation (ReflTransGen)

theorem Reachable.steps (h : Reachable config types c) (hs : ReflTransGen Step c c') :
    Reachable config types c' := by
  induction hs with
  | refl => exact h
  | tail _ hstep ih => exact ih.step hstep

section Invoke

variable {invoke : κ → Address → Collector κ TypeRegistry → Outcome × Collector κ TypeRegistry}
  (hinvoke : ∀ callback a c, ReflTransGen Step c (invoke callback a c).2)
include hinvoke

theorem steps_runJob (job : Address × κ) (c : Collector κ TypeRegistry) :
    ReflTransGen Step c ((runJob invoke job).final c) := by
  have hraise : Step c { c with inFinalizer := true } := .flag true c
  have hcall := hinvoke job.2 job.1 { c with inFinalizer := true }
  have hlowered := ((ReflTransGen.single hraise).trans hcall).tail (.flag c.inFinalizer _)
  cases hcaught : (invoke job.2 job.1 { c with inFinalizer := true }).1.isCaught with
  | true =>
    simp only [Action.final, runJob, runCallback, hcaught, if_true]
    exact hlowered.tail (.noteOutcome job.1 _ _)
  | false => simpa [Action.final, runJob, runCallback, hcaught] using hlowered

theorem steps_runNext (patience : Patience) (c : Collector κ TypeRegistry) :
    ReflTransGen Step c ((runNext invoke patience).final c) := by
  have htake : Step c { c with queue := (c.queue.takeNext patience).2 } := .takeNext patience c
  rw [Action.final, runNext]
  rcases hturn : c.queue.takeNext patience with ⟨turn, queue⟩
  rw [hturn] at htake
  cases turn with
  | object a =>
    have hbegin := (ReflTransGen.single htake).tail (.beginTurn { c with queue })
    dsimp only
    rcases hjob : beginTurn { c with queue } with ⟨job, d⟩
    rw [hjob] at hbegin
    cases job with
    | none => exact hbegin.tail (.endTurn d)
    | some job =>
      have hran := hbegin.trans (steps_runJob hinvoke job d)
      dsimp only
      cases hrun : runJob invoke job d with
      | ok _ e =>
        rw [Action.final_of_ok hrun] at hran
        exact hran.tail (.endTurn e)
      | error _ e =>
        rw [Action.final_of_error hrun] at hran
        exact hran
  | _ => exact .single htake

theorem steps_runTurns (bound : Nat) (c : Collector κ TypeRegistry) :
    ReflTransGen Step c ((runTurns invoke bound).final c) := by
  induction bound generalizing c with
  | zero => exact .refl
  | succ bound ih =>
    have hnext := steps_runNext hinvoke .whilePending c
    rw [Action.final, runTurns]
    cases hturn : runNext invoke .whilePending c with
    | ok more d =>
      rw [Action.final_of_ok hturn] at hnext
      cases more with
      | true =>
        have hrest := ih d
        cases hrun : runTurns invoke bound d with
        | ok n e =>
          rw [Action.final_of_ok hrun] at hrest
          simpa only [hrun] using hnext.trans hrest
        | error _ e =>
          rw [Action.final_of_error hrun] at hrest
          simpa only [hrun] using hnext.trans hrest
      | false => exact hnext
    | error e d =>
      rw [Action.final_of_error hturn] at hnext
      exact hnext

/-- Finalizers that act by steps lead to where steps lead, also when a panic ends their run. -/
theorem Reachable.runPending (h : Reachable config types c) (bound : Nat) :
    Reachable config types ((runPending invoke bound).final c) := by
  rw [Action.final, Collector.runPending]
  by_cases hinside : c.inFinalizer
  · rw [if_pos hinside]
    exact h
  · rw [if_neg hinside]
    exact h.steps (steps_runTurns hinvoke bound c)

end Invoke

/-! ### Collections within allocations -/

/-- An allocation starts collections in reachable states alone: an owner may do as it likes
in all others. -/
theorem Reachable.allocate_congr (h : Reachable config types c) {r : Request}
    {o : Owner (Collector κ TypeRegistry)} (hr : r.Prepared c.types)
    (hcollect : ∀ target reason d, Reachable config types d →
      o.collect target reason d = owner.collect target reason d)
    (hgrown : o.nurseryGrown = owner.nurseryGrown) :
    allocate o r c.config c = allocate owner r c.config c := by
  refine Collector.allocate_congr
    (P := fun d => Reachable config types d ∧ r.Prepared d.types) ?_
    (fun target reason d hd => hcollect target reason d hd.1)
    (fun d hd => ⟨hd.1.sound, hd.2⟩) hgrown c.config ⟨h, hr⟩
  intro target reason d hd
  have hfinal : (owner.collect target reason).final d = (collectFor target reason).final d :=
    Action.final_discard _ d
  rw [hfinal]
  refine ⟨hd.1.step (.call (.collect target reason) d), ?_⟩
  have htypes : ((collectFor target reason).final d).types = d.types :=
    congrArg Host.types (hd.1.sound.host_collectFor target reason)
  rw [htypes]
  exact hd.2

end Collector

end GenerationalHeap
