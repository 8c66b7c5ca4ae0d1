/-
What the calls change, and what they leave alone.

* `Collector.Touches`, `Collector.Sound.touches_after` — calls on fields, handles, providers and
  types change one part of the collector each.
* `Collector.Quiet`, `Collector.Touches.quiet` — what finalization and collections go by is left
  alone by them.
* `Collector.Sound.registerFinalizer_cases`, `Collector.Sound.suppressFinalization_cases`,
  `Collector.Sound.beginTurn_eq`, `Collector.Sound.endTurn_eq` — what the others change.
* `Collector.Reflags`, `Collector.Sound.reflags_after` — what the calls on finalizers have in
  common.
* `Collector.Sound.addRoot_cases`, `Collector.Sound.createWeak_cases` and the like — what the calls
  on handles answer and change.
* `Collector.Reachable.atRest` — between any two calls no collection is under way.
-/
import GenerationalHeap.Proofs.Runs

namespace GenerationalHeap

/-! ### Flags of finalization -/

namespace Header

variable (h : Header) (on : Bool)

@[simp] theorem hasFinalizer_setHasFinalizer : (h.setHasFinalizer on).hasFinalizer = on :=
  flag_setFlag_self h (by decide) on

@[simp] theorem hasFinalizer_setFinalized : (h.setFinalized on).hasFinalizer = h.hasFinalizer :=
  flag_setFlag_of_apart h (by decide) on

@[simp] theorem isFinalized_setFinalized : (h.setFinalized on).isFinalized = on :=
  flag_setFlag_self h (by decide) on

/-- A header as a finalizer that is registered leaves it, but for the slot. -/
def armed : Header := (h.setHasFinalizer true).setFinalized false

@[simp] theorem needsFinalization_armed : h.armed.needsFinalization = true := by
  simp [armed, needsFinalization]

@[simp] theorem age_armed : h.armed.age = h.age :=
  (age_setFlag _ (by decide) false).trans (age_setFlag _ (by decide) true)

/-- A header as the end of the finalization leaves it. -/
def settled : Header := { h with slot := 0 }.setFinalized true

@[simp] theorem needsFinalization_settled : h.settled.needsFinalization = false := by
  simp [settled, needsFinalization]

@[simp] theorem slot_settled : h.settled.slot = 0 := rfl

@[simp] theorem age_settled : h.settled.age = h.age := age_setFlag _ (by decide) true

/-- Whether an object awaits finalization is told by what a collection leaves alone. -/
theorem needsFinalization_congr {x y : Header} (h : y.identity = x.identity) :
    y.needsFinalization = x.needsFinalization := by
  rw [needsFinalization, needsFinalization, show y.hasFinalizer = x.hasFinalizer from
    congrArg Identity.hasFinalizer h, show y.isFinalized = x.isFinalized from
    congrArg Identity.isFinalized h]

end Header

/-! ### Whose turn it is -/

/-- The queue gives the first object its turn, or stays as it is. -/
theorem FinalizationQueue.takeNext_cases (q : FinalizationQueue) (patience : Patience) :
    (∃ turn, q.takeNext patience = (turn, q) ∧ ∀ a, turn ≠ .object a) ∨
    ∃ a rest, q.pending = a :: rest ∧ q.collecting = false ∧ q.inFlight = none ∧
      q.takeNext patience = (.object a, { q with pending := rest, inFlight := some a }) := by
  rw [FinalizationQueue.takeNext]
  split
  · exact Or.inl ⟨.over, rfl, fun a => by simp⟩
  · cases hpending : q.pending with
    | nil =>
      refine Or.inl ⟨if patience = .whilePending then .over else .wait, rfl, fun a => ?_⟩
      split <;> simp
    | cons a rest =>
      dsimp only
      split
      · exact Or.inl ⟨.wait, rfl, fun a => by simp⟩
      · rename_i hidle
        refine Or.inr ⟨a, rest, rfl, ?_, ?_, rfl⟩
        · simpa using fun h => hidle (Or.inl h)
        · simpa using fun h => hidle (Or.inr h)

/-- The object only moves from the front of the queue to its turn. -/
theorem FinalizationQueue.perm_takeNext (q : FinalizationQueue) (patience : Patience) :
    (q.takeNext patience).2.objects.Perm q.objects := by
  rcases q.takeNext_cases patience with ⟨turn, hturn, -⟩ | ⟨a, rest, hpending, -, hidle, hturn⟩
  · rw [hturn]
  · rw [hturn, objects, objects, hpending, hidle, Option.toList_none, List.append_nil]
    exact List.perm_append_comm

namespace Collector

variable {κ : Type} {config : Config} {types : TypeRegistry} {c c' : Collector κ TypeRegistry}
  {a : Address}

/-! ### Quiet calls -/

/-- What finalization and collections go by is left alone. -/
structure Quiet (c c' : Collector κ TypeRegistry) : Prop where
  objects : c'.heap.objects = c.heap.objects
  header : ∀ a ∈ c.heap.objects, c'.heap.header a = c.heap.header a
  callbacks : c'.callbacks = c.callbacks
  pending : c'.queue.pending = c.queue.pending
  inFlight : c'.queue.inFlight = c.queue.inFlight
  collecting : c'.queue.collecting = c.queue.collecting
  phase : c'.phase = c.phase

theorem Quiet.queue (hq : Quiet c c') : c'.queue.objects = c.queue.objects := by
  rw [FinalizationQueue.objects, FinalizationQueue.objects, hq.pending, hq.inFlight]

end Collector

/-- Calls on root handles. -/
def Call.onRoots {κ : Type} : Call κ → Bool
  | .addRoot .. | .setRoot .. | .removeRoot .. => true
  | _ => false

/-- Calls on weak handles. -/
def Call.onWeak {κ : Type} : Call κ → Bool
  | .createWeak .. | .freeWeak .. => true
  | _ => false

/-- Calls that may run collections. -/
def Call.mayCollect {κ : Type} : Call κ → Bool
  | .allocate .. | .collect .. => true
  | _ => false

/-- Calls that neither allocate nor collect nor speak of finalizers. -/
def Call.isQuiet {κ : Type} : Call κ → Bool
  | .allocate .. | .collect .. | .registerFinalizer .. | .suppressFinalization .. => false
  | _ => true

namespace Collector

variable {κ : Type} {config : Config} {types : TypeRegistry} {c c' : Collector κ TypeRegistry}
  {a : Address}

/-- What a quiet call makes of a collector. -/
inductive Touches (k : Call κ) (c : Collector κ TypeRegistry) :
    Collector κ TypeRegistry → Prop where
  | nothing : Touches k c c
  | fields {a : Address} {n : Nat} {bytes : ByteArray} {heap : Heap} (barrier : Barrier) :
    Heap.Stores a n bytes c.heap heap → Touches k c { c with heap, barrier }
  | roots (roots : HandleTable Address) : k.onRoots = true → Touches k c { c with roots }
  | weak (weak : WeakTable) : k.onWeak = true → Touches k c { c with weak }
  | providers (providers : HandleTable RootSlots) : Touches k c { c with providers }
  | host (host : TypeRegistry) : Touches k c { c with host }
  | shutDown : Touches k c { c with queue := c.queue.shutDown.2 }

theorem Sound.touches_writeRef (hc : c.Sound) (k : Call κ) (a : Address) (offset : Nat)
    (value : Option Address) : Touches k c ((Collector.writeRef a offset value).final c) := by
  refine hc.final_writeRef (P := Touches k c) .nothing fun ha _ hslot => ?_
  exact .fields (c.barrier.store a value)
    (Heap.stores_setWord hc.heap.wellFormed ha (Heap.slot_fits hslot) _)

theorem Sound.touches_writeData (hc : c.Sound) (k : Call κ) (a : Address) (offset : Nat)
    (bytes : ByteArray) : Touches k c ((Collector.writeData a offset bytes).final c) := by
  refine final_ask_bind (P := Touches k c) .nothing fun s hs => ?_
  refine final_ask_bind (P := Touches k c) .nothing fun _ hdata => ?_
  have ha := ((Heap.check_eq_ok_iff hc.heap.wellFormed hc.heap.tagged).1 hs).1
  exact .fields c.barrier
    (Heap.stores_setPayload hc.heap.wellFormed ha (apart_of_checkData hdata).1)

/-- A quiet call changes one part of the collector, or nothing. -/
theorem Sound.touches_after (hc : c.Sound) {k : Call κ} (hk : k.isQuiet = true) :
    Touches k c (Collector.after k c) := by
  have hnothing : Touches k c c := .nothing
  cases k with
  | allocate | collect | registerFinalizer | suppressFinalization =>
    exact absurd hk Bool.false_ne_true
  | readRef a offset =>
    exact ((keeps_ask _).bind fun _ => (keeps_ask _).bind fun _ => Action.keeps_get.bind fun _ =>
      Action.keeps_pure _) c hnothing
  | writeRef a offset value => exact hc.touches_writeRef _ a offset value
  | readData a offset length => exact ((keeps_ask _).bind fun _ => keeps_ask _) c hnothing
  | writeData a offset bytes => exact hc.touches_writeData _ a offset bytes
  | sizeOf a =>
    exact ((keeps_ask _).bind fun _ => Action.keeps_get.bind fun _ => Action.keeps_pure _) c
      hnothing
  | typeOf a =>
    exact ((keeps_ask _).bind fun _ => Action.keeps_get.bind fun _ => Action.keeps_pure _) c
      hnothing
  | spaceOf a => exact keeps_ask (fun c => c.heap.check a) c hnothing
  -- a call on handles asks about the object first, and may end there
  | addRoot a =>
    refine final_ask_bind (P := Touches (.addRoot a) c) hnothing fun _ _ => ?_
    rw [final_onRoots]
    exact .roots _ rfl
  | root id => exact keeps_ask _ c hnothing
  | setRoot id a =>
    refine final_ask_bind (P := Touches (.setRoot id a) c) hnothing fun _ _ => ?_
    rw [final_onRoots]
    exact .roots _ rfl
  | removeRoot id =>
    rw [Collector.after, Collector.removeRoot, Action.final_discard, final_onRoots]
    exact .roots _ rfl
  | createWeak a =>
    refine final_ask_bind (P := Touches (.createWeak a) c) hnothing fun _ _ => ?_
    rw [final_onWeak]
    exact .weak _ rfl
  | resolve id => exact keeps_ask _ c hnothing
  | freeWeak id =>
    rw [Collector.after, Collector.freeWeak, final_onWeak]
    exact .weak _ rfl
  | addProvider slots => exact .providers _
  | changeSlots id f => exact .providers _
  | removeProvider id =>
    rw [Collector.after, Collector.removeProvider, final_onProviders]
    exact .providers _
  | registerType t => exact .host _
  | shutDown => exact .shutDown

theorem Touches.roots_eq {k : Call κ} (h : Touches k c c') (hk : k.onRoots = false) :
    c'.roots = c.roots := by
  cases h with
  | roots _ hon => exact absurd (hk.symm.trans hon) Bool.false_ne_true
  | _ => rfl

theorem Touches.weak_eq {k : Call κ} (h : Touches k c c') (hk : k.onWeak = false) :
    c'.weak = c.weak := by
  cases h with
  | weak _ hon => exact absurd (hk.symm.trans hon) Bool.false_ne_true
  | _ => rfl

theorem Touches.quiet {k : Call κ} (hc : c.Sound) (h : Touches k c c') : Quiet c c' := by
  cases h with
  | fields _ hst =>
    exact ⟨hst.layout.objects hc.heap.wellFormed, hst.header, rfl, rfl, rfl, rfl, rfl⟩
  | _ => exact ⟨rfl, fun _ _ => rfl, rfl, rfl, rfl, rfl, rfl⟩

/-- Calls on fields, handles, providers and types are quiet, whether they fail or not. -/
theorem Sound.quiet_after (hc : c.Sound) {k : Call κ} (hk : k.isQuiet = true) :
    Quiet c (Collector.after k c) :=
  (hc.touches_after hk).quiet hc

/-! ### Finalizers -/

theorem Sound.checkObject_eq (hc : c.Sound) (ha : a ∈ c.heap.objects) :
    ∃ s, checkObject a c = .ok s c := by
  obtain ⟨s, hs, -⟩ := hc.heap.wellFormed.mem_objects_iff.1 ha
  exact ⟨s, ask_of_ok ((Heap.check_eq_ok_iff hc.heap.wellFormed hc.heap.tagged).2 ⟨ha, hs⟩)⟩

theorem Sound.check_eq_error (hc : c.Sound) (ha : a ∉ c.heap.objects) :
    c.heap.check a = .error (.invalidObject a) := by
  have hno : c.heap.isObject a = false := Bool.eq_false_iff.2 fun hobject =>
    ha ((Heap.isObject_iff hc.heap.wellFormed hc.heap.tagged).1 hobject)
  rw [Heap.check]
  split
  · rw [hno]
    rfl
  · rfl

theorem Sound.checkObject_eq_error (hc : c.Sound) (ha : a ∉ c.heap.objects) :
    checkObject a c = .error (.invalidObject a) c :=
  ask_of_error (hc.check_eq_error ha)

/-- The calls that begin with the check of an address change nothing if it names no object. -/
theorem Sound.checkObject_bind_eq {β : Type} (hc : c.Sound) (ha : a ∉ c.heap.objects)
    (rest : Space → Action (Collector κ TypeRegistry) β) :
    ∃ e, (checkObject a >>= rest) c = .error e c :=
  ⟨_, Action.bind_of_error (hc.checkObject_eq_error ha) rest⟩

/-- Registration fails, or it puts a callback in place of the one in the object's slot, or into
a new slot. -/
theorem Sound.registerFinalizer_cases (hc : c.Sound) (a : Address) (callback : κ) :
    (∃ e, Collector.registerFinalizer a callback c = .error e c) ∨
    ∃ slot callbacks, a ∈ c.heap.objects ∧
      Collector.registerFinalizer a callback c = .ok ()
        { c with
          callbacks
          heap := c.heap.setHeader a { (c.heap.header a).armed with slot } } ∧
      (slot = (c.heap.header a).slot ∧ slot ≠ 0 ∧ c.callbacks.contains slot.toNat = true ∧
        callbacks = c.callbacks.modify slot.toNat (fun _ => callback) ∨
      slot = UInt64.ofNat c.callbacks.next ∧ c.callbacks.next + 1 < UInt64.size ∧
        ¬((c.heap.header a).slot ≠ 0 ∧ c.callbacks.contains (c.heap.header a).slot.toNat = true) ∧
        callbacks = (c.callbacks.add callback).2) := by
  by_cases ha : a ∈ c.heap.objects
  · obtain ⟨s, hs⟩ := hc.checkObject_eq ha
    have hzero : (c.heap.header a).slot.toNat ≠ 0 ↔ (c.heap.header a).slot ≠ 0 :=
      not_congr ⟨fun h => UInt64.toNat_inj.1 h, fun h => congrArg UInt64.toNat h⟩
    rw [Collector.registerFinalizer, Action.bind_of_ok hs, Action.get_bind]
    dsimp only
    by_cases hin : (c.heap.header a).slot.toNat ≠ 0 ∧
        c.callbacks.contains (c.heap.header a).slot.toNat = true
    · -- the callback in the slot is replaced
      rw [if_pos hin]
      exact Or.inr ⟨(c.heap.header a).slot, _, ha, rfl,
        Or.inl ⟨rfl, hzero.1 hin.1, hin.2, rfl⟩⟩
    · rw [if_neg hin]
      by_cases hnext : c.callbacks.next + 1 < UInt64.size
      · rw [if_pos hnext]
        exact Or.inr ⟨_, _, ha, rfl,
          Or.inr ⟨rfl, hnext, fun h => hin ⟨hzero.2 h.1, h.2⟩, rfl⟩⟩
      · rw [if_neg hnext]
        exact Or.inl ⟨_, rfl⟩
  · exact Or.inl (hc.checkObject_bind_eq ha _)

/-- Suppression fails, or it drops the callback in the object's slot. -/
theorem Sound.suppressFinalization_cases (hc : c.Sound) (a : Address) :
    (∃ e, Collector.suppressFinalization a c = .error e c) ∨
    ∃ suppressed, a ∈ c.heap.objects ∧ Collector.suppressFinalization a c = .ok ()
      { c with
        statistics := { c.statistics with finalizersSuppressed := suppressed }
        callbacks :=
          if (c.heap.header a).slot ≠ 0 then c.callbacks.erase (c.heap.header a).slot.toNat
          else c.callbacks
        heap := c.heap.setHeader a (c.heap.header a).settled } := by
  by_cases ha : a ∈ c.heap.objects
  · obtain ⟨s, hs⟩ := hc.checkObject_eq ha
    rw [Collector.suppressFinalization, Action.bind_of_ok hs, Action.get_bind]
    dsimp only
    split
    · split
      · exact Or.inr ⟨_, ha, rfl⟩
      · exact Or.inr ⟨_, ha, rfl⟩
    · split
      · exact Or.inr ⟨_, ha, rfl⟩
      · exact Or.inr ⟨_, ha, rfl⟩
  · exact Or.inl (hc.checkObject_bind_eq ha _)

/-- What a call on a finalizer makes of a collector. An object gets other flags of finalization,
and perhaps another slot, unless nothing happens at all. -/
inductive Reflags (c : Collector κ TypeRegistry) : Collector κ TypeRegistry → Prop where
  | nothing : Reflags c c
  | header {a : Address} {new : Header} (callbacks : Callbacks κ) (suppressed : UInt64) :
      a ∈ c.heap.objects → new.size = (c.heap.header a).size →
      new.age = (c.heap.header a).age →
      Reflags c
        { c with
          callbacks
          statistics := { c.statistics with finalizersSuppressed := suppressed }
          heap := c.heap.setHeader a new }

theorem Sound.reflags_registerFinalizer (hc : c.Sound) (a : Address) (callback : κ) :
    Reflags c ((Collector.registerFinalizer a callback).final c) := by
  rcases hc.registerFinalizer_cases a callback with ⟨e, hrun⟩ | ⟨slot, callbacks, ha, hrun, -⟩
  · rw [Action.final_of_error hrun]
    exact .nothing
  · rw [Action.final_of_ok hrun]
    exact .header callbacks c.statistics.finalizersSuppressed ha rfl (Header.age_armed _)

theorem Sound.reflags_suppressFinalization (hc : c.Sound) (a : Address) :
    Reflags c ((Collector.suppressFinalization a).final c) := by
  rcases hc.suppressFinalization_cases a with ⟨e, hrun⟩ | ⟨suppressed, ha, hrun⟩
  · rw [Action.final_of_error hrun]
    exact .nothing
  · rw [Action.final_of_ok hrun]
    exact .header _ suppressed ha rfl (Header.age_settled _)

theorem Reflags.queue_eq (h : Reflags c c') : c'.queue = c.queue := by
  cases h <;> rfl

theorem Reflags.roots_eq (h : Reflags c c') : c'.roots = c.roots := by
  cases h <;> rfl

theorem Reflags.weak_eq (h : Reflags c c') : c'.weak = c.weak := by
  cases h <;> rfl

/-- Of the calls that are not quiet, those on finalizers run no collection. -/
theorem Sound.reflags_after (hc : c.Sound) {k : Call κ} (hquiet : k.isQuiet = false)
    (hk : k.mayCollect = false) : Reflags c (Collector.after k c) := by
  cases k with
  | registerFinalizer a callback => exact hc.reflags_registerFinalizer a callback
  | suppressFinalization a => exact hc.reflags_suppressFinalization a
  | allocate | collect => exact absurd hk.symm Bool.false_ne_true
  | _ => exact absurd hquiet (by simp [Call.isQuiet])

/-! ### Handles -/

/-- A root handle is the next one of the table. -/
theorem Sound.addRoot_cases (hc : c.Sound) (a : Address) :
    (∃ e, Collector.addRoot a c = .error e c) ∨ a ∈ c.heap.objects ∧
      Collector.addRoot a c = .ok c.roots.next { c with roots := (c.roots.add a).2 } := by
  by_cases ha : a ∈ c.heap.objects
  · obtain ⟨s, hs⟩ := hc.checkObject_eq ha
    rw [Collector.addRoot, Action.bind_of_ok hs]
    exact Or.inr ⟨ha, rfl⟩
  · exact Or.inl (hc.checkObject_bind_eq ha _)

/-- Only a handle in the table is given another object. -/
theorem Sound.setRoot_cases (hc : c.Sound) (id : Nat) (a : Address) :
    (∃ e, Collector.setRoot id a c = .error e c) ∨
      a ∈ c.heap.objects ∧ (∃ b, c.roots.get? id = some b) ∧
        Collector.setRoot id a c = .ok () { c with roots := c.roots.modify id fun _ => a } := by
  by_cases ha : a ∈ c.heap.objects
  · obtain ⟨s, hs⟩ := hc.checkObject_eq ha
    rw [Collector.setRoot, Action.bind_of_ok hs, onRoots, HandleTable.replace, HandleTable.get]
    dsimp only
    cases hid : c.roots.get? id with
    | none => exact Or.inl ⟨_, rfl⟩
    | some b => exact Or.inr ⟨ha, ⟨b, rfl⟩, rfl⟩
  · exact Or.inl (hc.checkObject_bind_eq ha _)

/-- Only a handle in the table is released. -/
theorem removeRoot_cases (id : Nat) (c : Collector κ TypeRegistry) :
    (∃ e, Collector.removeRoot id c = .error e c) ∨ (∃ b, c.roots.get? id = some b) ∧
      Collector.removeRoot id c = .ok () { c with roots := c.roots.erase id } := by
  have hdiscard : Collector.removeRoot id c =
      EStateM.map (fun _ => ()) (onRoots (HandleTable.remove id)) c := rfl
  rw [hdiscard, EStateM.map, onRoots, HandleTable.remove, HandleTable.get]
  dsimp only
  cases hid : c.roots.get? id with
  | none => exact Or.inl ⟨_, rfl⟩
  | some b => exact Or.inr ⟨⟨b, rfl⟩, rfl⟩

/-- A weak handle is the next one of the table. -/
theorem Sound.createWeak_cases (hc : c.Sound) (a : Address) :
    (∃ e, Collector.createWeak a c = .error e c) ∨ a ∈ c.heap.objects ∧
      Collector.createWeak a c =
        .ok c.weak.handles.next { c with weak := (c.weak.create a).2 } := by
  by_cases ha : a ∈ c.heap.objects
  · obtain ⟨s, hs⟩ := hc.checkObject_eq ha
    rw [Collector.createWeak, Action.bind_of_ok hs]
    exact Or.inr ⟨ha, rfl⟩
  · exact Or.inl (hc.checkObject_bind_eq ha _)

/-- Only a weak handle in the table is released. -/
theorem freeWeak_cases (id : Nat) (c : Collector κ TypeRegistry) :
    (∃ e, Collector.freeWeak id c = .error e c) ∨ (∃ p, c.weak.handles.get? id = some p) ∧
      Collector.freeWeak id c =
        .ok () { c with weak := { c.weak with handles := c.weak.handles.erase id } } := by
  rw [Collector.freeWeak, onWeak, WeakTable.free, HandleTable.remove, HandleTable.get]
  dsimp only
  cases hid : c.weak.handles.get? id with
  | none => exact Or.inl ⟨_, rfl⟩
  | some b => exact Or.inr ⟨⟨b, rfl⟩, rfl⟩

/-! ### Turns -/

/-- The turn of an object takes the callback out of its slot. -/
theorem Sound.beginTurn_eq (hc : c.Sound) :
    (c.beginTurn = (none, c) ∧ ∀ a, c.queue.inFlight = some a →
      (c.heap.header a).isFinalized = true ∨ (c.heap.header a).slot = 0) ∨
    ∃ a, c.queue.inFlight = some a ∧ a ∈ c.heap.objects ∧ (c.heap.header a).slot ≠ 0 ∧
      ∃ running : Bool, c.beginTurn =
        ((c.callbacks.get? (c.heap.header a).slot.toNat).map (a, ·),
          { c with
            callbacks := c.callbacks.erase (c.heap.header a).slot.toNat
            heap := c.heap.setHeader a { c.heap.header a with slot := 0 }
            queue := { c.queue with callbackRunning := running } }) := by
  rw [Collector.beginTurn]
  cases hflight : c.queue.inFlight with
  | none => exact Or.inl ⟨rfl, fun a ha => absurd ha (by simp)⟩
  | some a =>
    have ha : a ∈ c.heap.objects :=
      hc.queue a (FinalizationQueue.mem_objects_of_inFlight hflight)
    have hobject : c.heap.isObject a = true :=
      (Heap.isObject_iff hc.heap.wellFormed hc.heap.tagged).2 ha
    dsimp only
    rw [hobject, Bool.not_true, Bool.false_or]
    by_cases hskip : ((c.heap.header a).isFinalized || (c.heap.header a).slot == 0) = true
    · rw [if_pos hskip]
      refine Or.inl ⟨rfl, ?_⟩
      rintro b ⟨⟩
      simpa using hskip
    · rw [if_neg hskip]
      have hslot : (c.heap.header a).slot ≠ 0 := fun hz => hskip (by simp [hz])
      refine Or.inr ⟨a, rfl, ha, hslot, ?_⟩
      -- the slot is emptied, whether there was a callback in it or not
      cases hget : c.callbacks.get? (c.heap.header a).slot.toNat with
      | none =>
        refine ⟨c.queue.callbackRunning, ?_⟩
        simp only [onCallbacks, Callbacks.take, hget]
        rfl
      | some callback =>
        refine ⟨true, ?_⟩
        simp only [onCallbacks, Callbacks.take, hget]
        rfl

/-- The end of a turn says that the finalization is over, unless a finalizer was registered
meanwhile. -/
theorem Sound.endTurn_eq (hc : c.Sound) :
    c.endTurn = { c with
      heap := c.queue.inFlight.elim c.heap fun a =>
        if (c.heap.header a).slot = 0 then c.heap.setHeader a ((c.heap.header a).setFinalized true)
        else c.heap
      queue := c.queue.complete.2 } := by
  rw [Collector.endTurn]
  cases hflight : c.queue.inFlight with
  | none => rfl
  | some a =>
    have hobject : c.heap.isObject a = true :=
      (Heap.isObject_iff hc.heap.wellFormed hc.heap.tagged).2
        (hc.queue a (FinalizationQueue.mem_objects_of_inFlight hflight))
    dsimp only [Option.elim]
    rw [settle, if_pos hobject]
    dsimp only
    split
    · rfl
    · rfl

/-! ### Between calls -/

/-- No collection is under way. -/
structure AtRest {ω : Type} (c : Collector κ ω) : Prop where
  phase : c.phase = .idle
  collecting : c.queue.collecting = false

theorem Quiet.atRest (hq : Quiet c c') (h : c.AtRest) : c'.AtRest :=
  ⟨hq.phase.trans h.phase, hq.collecting.trans h.collecting⟩

theorem Reflags.atRest (hr : Reflags c c') (h : c.AtRest) : c'.AtRest := by
  cases hr with
  | nothing => exact h
  | header => exact ⟨h.phase, h.collecting⟩

/-- Whether it fails or not, a collection is over when it returns. -/
theorem atRest_collectFor {ω : Type} [Host ω] (target : Target) (reason : Reason)
    (c : Collector κ ω) : ((collectFor target reason).final c).AtRest := by
  rw [Action.final, collectFor]
  dsimp only
  cases runCycle target (beginCycle target reason c).2.cycles (beginCycle target reason c).2 with
  | error e d => exact ⟨rfl, rfl⟩
  | ok tally d =>
    dsimp only
    rw [foldl_emit]
    exact ⟨rfl, rfl⟩

theorem keeps_atRest (r : Request) (config : Config) :
    Action.Keeps (AtRest (κ := κ) (ω := TypeRegistry)) (allocate owner r config) := by
  have hheap : ∀ {α : Type} (act : Action Heap α) (d : Collector κ TypeRegistry), d.AtRest →
      (onHeap act).Ends d AtRest fun _ => AtRest := fun act d hd =>
    onHeap_ends (Action.ends_true act _) (fun _ _ => ⟨hd.phase, hd.collecting⟩)
      fun _ _ _ => ⟨hd.phase, hd.collecting⟩
  have ho : owner.Upholds r (AtRest (κ := κ) (ω := TypeRegistry)) fun _ => AtRest :=
    { place := fun d hd => (hheap r.place? d hd).imp (fun _ h => h) fun placed d' h => by
        cases placed <;> exact h
      grow := fun d hd => hheap _ d hd
      grown := fun _ _ _ hd => ⟨hd.phase, hd.collecting⟩
      collect := fun target reason d hd =>
        (Action.keeps_discard fun d _ => atRest_collectFor target reason d).ends hd }
  exact Action.keeps_of_ends fun d hd => ho.allocate config hd

theorem atRest_allocateObject (h : c.AtRest) (typeId : TypeId) (size : Nat)
    (hasFinalizer : Bool) (build : Build) :
    ((allocateObjectIn build typeId size hasFinalizer).final c).AtRest := by
  refine final_allocateObject h fun r _ _ _ _ => ?_
  have hkept := keeps_atRest r c.config c h
  exact ⟨hkept.phase, hkept.collecting⟩

theorem Sound.atRest_after (hc : c.Sound) (h : c.AtRest) (k : Call κ) :
    (Collector.after k c).AtRest := by
  cases hk : k.isQuiet with
  | true => exact (hc.quiet_after hk).atRest h
  | false =>
    cases k with
    | allocate typeId size hasFinalizer build =>
      exact atRest_allocateObject h typeId size hasFinalizer build
    | collect target reason => exact atRest_collectFor target reason c
    | registerFinalizer a callback => exact (hc.reflags_registerFinalizer a callback).atRest h
    | suppressFinalization a => exact (hc.reflags_suppressFinalization a).atRest h
    | _ => exact absurd hk (by simp [Call.isQuiet])

theorem eq_of_create {build : Build} (h : create config types build = .ok c) :
    c =
      { config
        heap := .empty config.gen0Size config.maxHeapSize
        log := { config := logConfig config }
        host := types } := by
  rw [create] at h
  split at h
  · exact absurd h (by simp)
  · exact (Except.ok.inj h).symm

theorem atRest_of_create {build : Build} (h : create config types build = .ok c) : c.AtRest := by
  rw [eq_of_create h]
  exact ⟨rfl, rfl⟩

theorem Step.atRest (hs : Step c c') (hc : c.Sound) (h : c.AtRest) : c'.AtRest := by
  cases hs with
  | call k => exact hc.atRest_after h k
  | takeNext patience =>
    refine ⟨h.phase, ?_⟩
    rcases FinalizationQueue.takeNext_cases c.queue patience with
      ⟨turn, hturn, -⟩ | ⟨a, rest, -, hidle, -, hturn⟩
    · rw [hturn]
      exact h.collecting
    · rw [hturn]
      exact hidle
  | beginTurn =>
    rcases hc.beginTurn_eq with ⟨hrun, -⟩ | ⟨a, -, -, -, running, hrun⟩
    · rw [hrun]
      exact h
    · rw [hrun]
      exact ⟨h.phase, h.collecting⟩
  | flag inside => exact ⟨h.phase, h.collecting⟩
  | noteOutcome a fault =>
    cases fault with
    | none => exact ⟨h.phase, h.collecting⟩
    | some message => exact ⟨h.phase, h.collecting⟩
  | endTurn =>
    rw [hc.endTurn_eq]
    exact ⟨h.phase, h.collecting⟩

/-- Between any two calls no collection is under way. -/
theorem Reachable.atRest (h : Reachable config types c) : c.AtRest := by
  induction h with
  | start build hcreate => exact atRest_of_create hcreate
  | step hprev hs ih => exact hs.atRest hprev.sound ih

end Collector

end GenerationalHeap
