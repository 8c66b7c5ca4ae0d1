/-
Rosters: runs of a collector that know what every handle stands for.

A roster stands beside the collector. It follows the objects by their numbers, as a chronicle
does, notes for each handle the number of the object that was stored under it, as the calls on
handles answer, and lists the collections that succeeded; nothing of it is seen by the collector.

* `Roster.after` — what a call adds to a roster. Collections that an allocation starts are listed
  one by one.
* `Roster.Recorded` — the roster of a run from a new collector.
* `Roster.exists_recorded` — every run that has a chronicle has a roster.
* `Roster.Faithful`, `Roster.Onward` — what holds of every roster, and what becomes of the handles
  in a step.
-/
import GenerationalHeap.Proofs.Standings

namespace GenerationalHeap

/-! ### Rosters -/

/-- A chronicle, and what is known of the handles. -/
structure Roster (κ : Type) where
  chronicle : Chronicle κ
  /-- What the root handles stand for. -/
  held : Nat → Standing := fun _ => .unknown
  /-- What the weak handles stand for. -/
  watched : Nat → Standing := fun _ => .unknown
  /-- The collections that succeeded, the latest first. -/
  turnovers : List (Turnover κ) := []

namespace Roster

open Function (update)

variable {κ : Type}

/-- The collector that a roster is about. -/
def collector (v : Roster κ) : Collector κ TypeRegistry := v.chronicle.collector

/-- Where an object is. -/
def place (v : Roster κ) (o : Nat) : Option Address := v.chronicle.place o

/-- The number of the object at an address. -/
def number (v : Roster κ) (a : Address) : Nat := v.chronicle.number a

/-- Another chronicle. -/
def withChronicle (v : Roster κ) (w : Chronicle κ) : Roster κ := { v with chronicle := w }

/-- What is known once an operation has answered, or what was known before if it fails. -/
def told {α β : Type} (act : Action (Collector κ TypeRegistry) α) (c : Collector κ TypeRegistry)
    (known : β) (tell : α → β) : β :=
  match act c with
  | .ok answer _ => tell answer
  | .error .. => known

/-- What the root handles stand for after a call. -/
def heldAfter (k : Call κ) (v : Roster κ) : Nat → Standing :=
  match k with
  | .addRoot a => told (Collector.addRoot a) v.collector v.held fun id =>
      update v.held id (.names (v.number a))
  | .setRoot id a => told (Collector.setRoot id a) v.collector v.held fun _ =>
      update v.held id (.names (v.number a))
  | .removeRoot id => told (Collector.removeRoot id) v.collector v.held fun _ =>
      update v.held id .released
  | _ => v.held

/-- What the weak handles stand for after a call. -/
def watchedAfter (k : Call κ) (v : Roster κ) : Nat → Standing :=
  match k with
  | .createWeak a => told (Collector.createWeak a) v.collector v.watched fun id =>
      update v.watched id (.names (v.number a))
  | .freeWeak id => told (Collector.freeWeak id) v.collector v.watched fun _ =>
      update v.watched id .released
  | _ => v.watched

/-- What a call leaves behind that starts no collection. -/
def answered (k : Call κ) (v : Roster κ) : Roster κ :=
  { v with
    chronicle := Chronicle.after k v.chronicle
    held := heldAfter k v
    watched := watchedAfter k v }

instance : HoldsHeap (Roster κ) where
  heap v := HoldsHeap.heap v.chronicle
  setHeap h v := { v with chronicle := HoldsHeap.setHeap h v.chronicle }

/-- Lists a collection. -/
def collectFor (target : Target) (reason : Reason) : Action (Roster κ) Report := fun v =>
  match Chronicle.collectFor target reason v.chronicle with
  | .ok report w =>
    .ok report
      { v with
        chronicle := w
        turnovers := ⟨target, report, v.watched, v.chronicle, w⟩ :: v.turnovers }
  | .error e w => .error e (v.withChronicle w)

/-- The roster as the owner of the heap. -/
def owner : Owner (Roster κ) where
  collect target reason := discard (collectFor target reason)
  nurseryGrown old new v := v.withChronicle (Chronicle.owner.nurseryGrown old new v.chronicle)

/-- A roster follows allocations, with the collections that they start. -/
def recorder : Recorder κ (Roster κ) where
  collector := collector
  owner := owner
  placed r hasFinalizer a v :=
    v.withChronicle (Chronicle.recorder.placed r hasFinalizer a v.chronicle)
  refused e v := v.withChronicle (Chronicle.recorder.refused e v.chronicle)

/-- What a call leaves behind, whether it fails or not. -/
def after : Call κ → Roster κ → Roster κ
  | .allocate typeId size hasFinalizer build, v =>
    (recorder.allocateObject typeId size hasFinalizer build).final v
  | .collect target reason, v => (collectFor target reason).final v
  | k, v => answered k v

/-- One step: a call, or a part of the turn of a finalizer. -/
inductive Step : Roster κ → Roster κ → Prop where
  | call (k : Call κ) (v : Roster κ) : Step v (after k v)
  | takeNext (patience : Patience) (v : Roster κ) :
    Step v (v.withChronicle (v.chronicle.takeNext patience))
  | beginTurn (v : Roster κ) : v.chronicle.stage = .taken →
    Step v (v.withChronicle v.chronicle.beginTurn)
  | flag (inside : Bool) (v : Roster κ) :
    Step v (v.withChronicle (v.chronicle.withCollector { v.collector with inFinalizer := inside }))
  | noteOutcome (a : Address) (fault : Option String) (v : Roster κ) :
    Step v (v.withChronicle
      (v.chronicle.withCollector (Collector.noteOutcome a fault v.collector)))
  | endTurn (v : Roster κ) : v.chronicle.stage.isBegun = true →
    Step v (v.withChronicle v.chronicle.endTurn)

/-- The roster of a run from a new collector. -/
inductive Recorded (config : Config) (types : TypeRegistry) : Roster κ → Prop where
  | start (build : Build) {c : Collector κ TypeRegistry} :
    Collector.create config types build = .ok c →
      Recorded config types { chronicle := { collector := c } }
  | step {v v' : Roster κ} : Recorded config types v → Step v v' → Recorded config types v'

variable {config : Config} {types : TypeRegistry} {v v' v'' : Roster κ} {w w' : Chronicle κ}
  {c : Collector κ TypeRegistry} {a : Address} {id : Nat}

/-! ### The chronicle of a roster -/

/-- A roster holds its chronicle as a part. -/
theorem beside : HoldsHeap.Beside (chronicle (κ := κ)) withChronicle :=
  ⟨fun _ _ => rfl, fun _ => rfl, fun _ _ => rfl⟩

theorem seenAs_collectFor (target : Target) (reason : Reason) :
    Action.SeenAs (chronicle (κ := κ)) (collectFor target reason)
      (Chronicle.collectFor target reason) := by
  intro v
  rw [collectFor]
  cases Chronicle.collectFor target reason v.chronicle <;> rfl

theorem seenAs_owner : Owner.SeenAs (chronicle (κ := κ)) owner Chronicle.owner where
  heap _ := rfl
  onHeap := beside.seenAs_onHeap
  collect target reason := Action.seenAs_discard (seenAs_collectFor target reason)
  grown _ _ _ := rfl

theorem seenAs_recorder : (recorder (κ := κ)).SeenAs chronicle Chronicle.recorder :=
  ⟨fun _ => rfl, seenAs_owner, fun _ _ _ _ => rfl, fun _ _ => rfl⟩

/-- A roster is about what the chronicle tells. -/
theorem chronicle_after (k : Call κ) (v : Roster κ) :
    (after k v).chronicle = Chronicle.after k v.chronicle := by
  cases k with
  | allocate typeId size hasFinalizer build =>
    show _ = (Chronicle.allocateObject typeId size hasFinalizer build).final v.chronicle
    rw [Chronicle.allocateObject_eq_recorder]
    exact ((seenAs_recorder.allocateObject typeId size hasFinalizer build).final v).symm
  | collect target reason => exact ((seenAs_collectFor target reason).final v).symm
  | _ => rfl

theorem Step.chronicle (h : Step v v') : Chronicle.Step v.chronicle v'.chronicle := by
  cases h with
  | call k =>
    rw [chronicle_after]
    exact .call k _
  | takeNext patience => exact .takeNext patience _
  | beginTurn _ hstage => exact .beginTurn _ hstage
  | flag inside => exact .flag inside _
  | noteOutcome a fault => exact .noteOutcome a fault _
  | endTurn _ hstage => exact .endTurn _ hstage

theorem Recorded.chronicle (h : Recorded config types v) :
    Chronicle.Recorded config types v.chronicle := by
  induction h with
  | start build hcreate => exact .start build hcreate
  | step _ hs ih => exact ih.step hs.chronicle

/-- Every run that has a chronicle has a roster. -/
theorem exists_recorded (h : Chronicle.Recorded config types w) :
    ∃ v, Recorded config types v ∧ v.chronicle = w := by
  induction h with
  | start build hcreate => exact ⟨_, .start build hcreate, rfl⟩
  | step _ hs ih =>
    obtain ⟨v, hv, rfl⟩ := ih
    cases hs with
    | call k => exact ⟨_, hv.step (.call k v), chronicle_after k v⟩
    | takeNext patience => exact ⟨_, hv.step (.takeNext patience v), rfl⟩
    | beginTurn _ hstage => exact ⟨_, hv.step (.beginTurn v hstage), rfl⟩
    | flag inside => exact ⟨_, hv.step (.flag inside v), rfl⟩
    | noteOutcome a fault => exact ⟨_, hv.step (.noteOutcome a fault v), rfl⟩
    | endTurn _ hstage => exact ⟨_, hv.step (.endTurn v hstage), rfl⟩

/-- Any finite sequence of calls. -/
theorem Recorded.calls (h : Recorded config types v) (ks : List (Call κ)) :
    Recorded config types (ks.foldl (fun v k => after k v) v) := by
  induction ks generalizing v with
  | nil => exact h
  | cons k rest ih => exact ih (h.step (.call k v))

/-! ### Faithful rosters -/

/-- Both tables lead the handles to the objects that they stand for. A root handle leads to an
object, a weak one perhaps nowhere. -/
structure Faithful (v : Roster κ) : Prop where
  chronicle : v.chronicle.Faithful
  roots : Leads v.held (fun id => (v.collector.roots.get? id).map some) v.collector.roots.next
    v.chronicle
  weak : Leads v.watched v.collector.weak.handles.get? v.collector.weak.handles.next v.chronicle
  turnovers : ∀ e ∈ v.turnovers, e.Faithful

theorem Faithful.steady (hv : v.Faithful) : v.collector.Steady := hv.chronicle.steady

theorem Faithful.number_lt (hv : v.Faithful) (ha : a ∈ v.collector.heap.objects) :
    v.number a < v.chronicle.places.length ∧ v.chronicle.place (v.number a) = some a :=
  ⟨hv.chronicle.number_lt ha, hv.chronicle.place_number ha⟩

/-! ### Calls on handles -/

theorem told_of_ok {α β : Type} {act : Action (Collector κ TypeRegistry) α}
    {c' : Collector κ TypeRegistry} {x : α} (h : act c = .ok x c') (known : β) (tell : α → β) :
    told act c known tell = tell x := by
  rw [told, h]

theorem told_of_error {α β : Type} {act : Action (Collector κ TypeRegistry) α}
    {c' : Collector κ TypeRegistry} {e : Error} (h : act c = .error e c') (known : β)
    (tell : α → β) : told act c known tell = known := by
  rw [told, h]

/-- What becomes of handles and objects in the course of a run. -/
structure Onward (v v' : Roster κ) : Prop where
  held : ∀ id, (v.held id).rank ≤ (v'.held id).rank
  watched : ∀ id, (v.watched id).rank ≤ (v'.watched id).rank
  /-- A weak handle stands for the object that it was made for. -/
  same : ∀ id o p, v.watched id = .names o → v'.watched id = .names p → p = o
  length_le : v.chronicle.places.length ≤ v'.chronicle.places.length
  /-- A reclaimed object stays reclaimed. -/
  reclaimed : ∀ o < v.chronicle.places.length, v.place o = none → v'.place o = none

namespace Onward

theorem of_same (hheld : v'.held = v.held) (hwatched : v'.watched = v.watched)
    (hcarries : v.chronicle.Carries v'.chronicle) : v.Onward v' where
  held id := Nat.le_of_eq (by rw [hheld])
  watched id := Nat.le_of_eq (by rw [hwatched])
  same id o p ho hp := by
    rw [hwatched, ho] at hp
    exact (Standing.names.inj hp).symm
  length_le := hcarries.length_le
  reclaimed _ := hcarries.place_eq_none

theorem refl (v : Roster κ) : v.Onward v := of_same rfl rfl (.refl _)

theorem trans (h : v.Onward v') (h' : v'.Onward v'') : v.Onward v'' where
  held id := Nat.le_trans (h.held id) (h'.held id)
  watched id := Nat.le_trans (h.watched id) (h'.watched id)
  same id o p ho hp := by
    -- between the two it stands for an object as well
    have hle := h.watched id
    have hle' := h'.watched id
    rw [ho] at hle
    rw [hp] at hle'
    cases hq : v'.watched id with
    | names q => rw [h'.same id q p hq hp, h.same id o q ho hq]
    | unknown => simp [hq, Standing.rank] at hle
    | released => simp [hq, Standing.rank] at hle'
  length_le := Nat.le_trans h.length_le h'.length_le
  reclaimed o ho hplace :=
    h'.reclaimed o (Nat.lt_of_lt_of_le ho h.length_le) (h.reclaimed o ho hplace)

end Onward

theorem rank_update_le {standing : Nat → Standing} {s : Standing} (h : (standing id).rank ≤ s.rank)
    (k : Nat) : (standing k).rank ≤ (update standing id s k).rank := by
  by_cases hk : k = id
  · rwa [hk, Function.update_self]
  · rw [Function.update_of_ne hk]

section Handles

variable {k : Call κ} {s : Standing}

/-- Another table of root handles, and what one of them stands for from now on. -/
def enterRoot (roots : HandleTable Address) (id : Nat) (s : Standing) (v : Roster κ) :
    Roster κ where
  chronicle := v.chronicle.withCollector { v.collector with roots }
  held := update v.held id s
  watched := v.watched
  turnovers := v.turnovers

/-- Another table of weak handles, and what one of them stands for from now on. -/
def enterWeak (weak : WeakTable) (id : Nat) (s : Standing) (v : Roster κ) : Roster κ where
  chronicle := v.chronicle.withCollector { v.collector with weak }
  held := v.held
  watched := update v.watched id s
  turnovers := v.turnovers

section Told

variable {α : Type} {act : Action (Collector κ TypeRegistry) α} {x : α}

theorem enterRoot_of_ok {roots : HandleTable Address}
    (hrun : act v.collector = .ok x { v.collector with roots }) (id : α → Nat) (s : Standing) :
    Roster.mk (v.chronicle.withCollector (act.final v.collector))
      (told act v.collector v.held fun x => update v.held (id x) s) v.watched v.turnovers =
        v.enterRoot roots (id x) s := by
  rw [Action.final_of_ok hrun, told_of_ok hrun]
  rfl

theorem enterWeak_of_ok {weak : WeakTable}
    (hrun : act v.collector = .ok x { v.collector with weak }) (id : α → Nat) (s : Standing) :
    Roster.mk (v.chronicle.withCollector (act.final v.collector)) v.held
      (told act v.collector v.watched fun x => update v.watched (id x) s) v.turnovers =
        v.enterWeak weak (id x) s := by
  rw [Action.final_of_ok hrun, told_of_ok hrun]
  rfl

end Told

variable (hv : v.Faithful)
include hv

theorem Faithful.of_enterRoot {roots : HandleTable Address}
    (hcall : answered k v = v.enterRoot roots id s) (hrank : (v.held id).rank ≤ s.rank)
    (hleads : Leads (update v.held id s) (fun k => (roots.get? k).map some) roots.next
      v.chronicle) : (answered k v).Faithful ∧ v.Onward (answered k v) := by
  have hchronicle : (v.enterRoot roots id s).chronicle.Faithful := hcall ▸ hv.chronicle.after k
  rw [hcall]
  refine ⟨⟨hchronicle, hleads.same rfl, hv.weak.same rfl, hv.turnovers⟩, rank_update_le hrank,
    fun _ => Nat.le_refl _, ?_, Nat.le_refl _, fun _ _ hplace => hplace⟩
  intro id o p ho hp
  exact (Standing.names.inj (ho.symm.trans hp)).symm

theorem Faithful.of_enterWeak {weak : WeakTable} (hcall : answered k v = v.enterWeak weak id s)
    (hrank : (v.watched id).rank ≤ s.rank) (hnew : ∀ o p, v.watched id = .names o → s ≠ .names p)
    (hleads : Leads (update v.watched id s) weak.handles.get? weak.handles.next v.chronicle) :
    (answered k v).Faithful ∧ v.Onward (answered k v) := by
  have hchronicle : (v.enterWeak weak id s).chronicle.Faithful := hcall ▸ hv.chronicle.after k
  rw [hcall]
  refine ⟨⟨hchronicle, hv.roots.same rfl, hleads.same rfl, hv.turnovers⟩, fun _ => Nat.le_refl _,
    rank_update_le hrank, ?_, Nat.le_refl _, fun _ _ hplace => hplace⟩
  intro k o p ho hp
  change update v.watched id s k = _ at hp
  by_cases hk : k = id
  · rw [hk, Function.update_self] at hp
    exact absurd hp (hnew o p (hk ▸ ho))
  · rw [Function.update_of_ne hk, ho] at hp
    exact (Standing.names.inj hp).symm

/-- A call that fails and leaves the collector as it was leaves the roster as it was. -/
theorem Faithful.of_error {α : Type} {act : Action (Collector κ TypeRegistry) α} {e : Error}
    (hrun : act v.collector = .error e v.collector)
    (hchronicle : Chronicle.after k v.chronicle = v.chronicle.withCollector (act.final v.collector))
    (hheld : heldAfter k v = v.held) (hwatched : watchedAfter k v = v.watched) :
    (answered k v).Faithful ∧ v.Onward (answered k v) := by
  have hsame : answered k v = v := by
    rw [answered, hchronicle, Action.final_of_error hrun, hheld, hwatched]
    rfl
  rw [hsame]
  exact ⟨hv, .refl v⟩

theorem Faithful.addRoot (a : Address) :
    (answered (.addRoot a) v).Faithful ∧ v.Onward (answered (.addRoot a) v) := by
  rcases hv.steady.addRoot_cases a with ⟨e, hrun⟩ | ⟨ha, hrun⟩
  · exact hv.of_error hrun rfl (told_of_error hrun _ _) rfl
  · obtain ⟨hlt, hplace⟩ := hv.number_lt ha
    have hcall : answered (.addRoot a) v = v.enterRoot (v.collector.roots.add a).2
        v.collector.roots.next (.names (v.number a)) := enterRoot_of_ok hrun (fun id => id) _
    have hnone : (v.collector.roots.get? v.collector.roots.next).map some = none := by
      rw [HandleTable.get?_next]
      rfl
    refine hv.of_enterRoot hcall ?_ (hv.roots.put hlt ?_ ?_)
    · rw [hv.roots.unknown_next hnone]
      exact Nat.zero_le _
    · intro k
      rw [HandleTable.get?_add, hplace]
      split <;> rfl
    · rw [HandleTable.next_add]
      exact Nat.le_succ _

theorem Faithful.setRoot (id : Nat) (a : Address) :
    (answered (.setRoot id a) v).Faithful ∧ v.Onward (answered (.setRoot id a) v) := by
  rcases hv.steady.setRoot_cases id a with ⟨e, hrun⟩ | ⟨ha, ⟨b, hid⟩, hrun⟩
  · exact hv.of_error hrun rfl (told_of_error hrun _ _) rfl
  · obtain ⟨hlt, hplace⟩ := hv.number_lt ha
    have hcall : answered (.setRoot id a) v = v.enterRoot
        (v.collector.roots.modify id fun _ => a) id (.names (v.number a)) :=
      enterRoot_of_ok hrun (fun _ => id) _
    obtain ⟨o, ho⟩ := hv.roots.exists_names (congrArg (Option.map some) hid)
    refine hv.of_enterRoot hcall ?_ (hv.roots.put hlt ?_ ?_)
    · rw [ho]
      exact Nat.le_refl _
    · intro k
      rw [HandleTable.get?_modify, hplace]
      split
      · rename_i hk
        rw [hk, hid]
        rfl
      · rfl
    · rw [HandleTable.next_modify]

theorem Faithful.removeRoot (id : Nat) :
    (answered (.removeRoot id) v).Faithful ∧ v.Onward (answered (.removeRoot id) v) := by
  rcases Collector.removeRoot_cases id v.collector with ⟨e, hrun⟩ | ⟨⟨b, hid⟩, hrun⟩
  · exact hv.of_error hrun rfl (told_of_error hrun _ _) rfl
  · have hcall : answered (.removeRoot id) v =
        v.enterRoot (v.collector.roots.erase id) id .released :=
      enterRoot_of_ok hrun (fun _ => id) _
    obtain ⟨o, ho⟩ := hv.roots.exists_names (congrArg (Option.map some) hid)
    refine hv.of_enterRoot hcall ?_ ?_
    · rw [ho]
      exact Nat.le_succ _
    · rw [HandleTable.next_erase]
      refine hv.roots.drop (HandleTable.lt_next hid) fun k => ?_
      rw [HandleTable.get?_erase]
      split <;> rfl

theorem Faithful.createWeak (a : Address) :
    (answered (.createWeak a) v).Faithful ∧ v.Onward (answered (.createWeak a) v) := by
  rcases hv.steady.createWeak_cases a with ⟨e, hrun⟩ | ⟨ha, hrun⟩
  · exact hv.of_error hrun rfl rfl (told_of_error hrun _ _)
  · obtain ⟨hlt, hplace⟩ := hv.number_lt ha
    have hcall : answered (.createWeak a) v = v.enterWeak (v.collector.weak.create a).2
        v.collector.weak.handles.next (.names (v.number a)) := enterWeak_of_ok hrun (fun id => id) _
    have hunknown := hv.weak.unknown_next (HandleTable.get?_next _)
    refine hv.of_enterWeak hcall ?_ ?_ (hv.weak.put hlt ?_ ?_)
    · rw [hunknown]
      exact Nat.zero_le _
    · intro o p ho
      rw [hunknown] at ho
      exact absurd ho (by simp)
    · intro k
      rw [hplace]
      exact HandleTable.get?_add _ _ _
    · show _ ≤ (v.collector.weak.handles.add (some a)).2.next
      rw [HandleTable.next_add]
      exact Nat.le_succ _

theorem Faithful.freeWeak (id : Nat) :
    (answered (.freeWeak id) v).Faithful ∧ v.Onward (answered (.freeWeak id) v) := by
  rcases Collector.freeWeak_cases id v.collector with ⟨e, hrun⟩ | ⟨⟨p, hid⟩, hrun⟩
  · exact hv.of_error hrun rfl rfl (told_of_error hrun _ _)
  · have hcall : answered (.freeWeak id) v = v.enterWeak
        { v.collector.weak with handles := v.collector.weak.handles.erase id } id .released :=
      enterWeak_of_ok hrun (fun _ => id) _
    obtain ⟨o, ho⟩ := hv.weak.exists_names hid
    refine hv.of_enterWeak hcall ?_ (fun _ _ _ => by simp) ?_
    · rw [ho]
      exact Nat.le_succ _
    · show Leads _ _ (v.collector.weak.handles.erase id).next _
      rw [HandleTable.next_erase]
      exact hv.weak.drop (HandleTable.lt_next hid) (HandleTable.get?_erase _ id)

end Handles

/-! ### Collections and allocations -/

/-- What the handles stand for stays as it is, and the list of the collections faithful. -/
structure Kept (v v' : Roster κ) : Prop where
  held : v'.held = v.held
  watched : v'.watched = v.watched
  turnovers : ∀ e ∈ v'.turnovers, e.Faithful

theorem Kept.trans (h : v.Kept v') (h' : v'.Kept v'') : v.Kept v'' :=
  ⟨h'.held.trans h.held, h'.watched.trans h.watched, h'.turnovers⟩

theorem Kept.withChronicle (h : v.Kept v') (w : Chronicle κ) : v.Kept (v'.withChronicle w) :=
  ⟨h.held, h.watched, h.turnovers⟩

theorem Faithful.kept (hv : v.Faithful) (w : Chronicle κ) : v.Kept (v.withChronicle w) :=
  ⟨rfl, rfl, hv.turnovers⟩

/-- What carries the handles along keeps a roster faithful. -/
theorem Faithful.of_carries (hv : v.Faithful) (hw : v'.chronicle.Faithful)
    (hcarries : v.chronicle.Carries v'.chronicle) (hkept : v.Kept v') :
    v'.Faithful ∧ v.Onward v' := by
  refine ⟨?_, .of_same hkept.held hkept.watched hcarries⟩
  obtain ⟨f, hf⟩ := hcarries
  refine ⟨hw, hkept.held ▸ hv.roots.carried hf ?_ hf.nextRoot,
    hkept.watched ▸ hv.weak.carried hf hf.weak hf.nextWeak, hkept.turnovers⟩
  intro id
  show (v'.chronicle.collector.roots.get? id).map some = _
  rw [hf.roots id, Option.map_map]
  rfl

/-- A collection is listed faithfully. -/
theorem Faithful.kept_collectFor (hv : v.Faithful) (target : Target) (reason : Reason) :
    v.Kept ((Roster.collectFor target reason).final v) := by
  rw [Action.final, Roster.collectFor]
  cases hrun : Chronicle.collectFor target reason v.chronicle with
  | ok report w =>
    refine ⟨rfl, rfl, fun e he => ?_⟩
    rcases List.mem_cons.1 he with rfl | he
    · exact hv.weak.turnover hv.chronicle hrun
    · exact hv.turnovers e he
  | error e w => exact hv.kept w

/-- What holds on every rung of the ladder of an allocation that starts from `v`. -/
structure Climbs (r : Request) (v v' : Roster κ) : Prop extends v.Kept v' where
  chronicle : Chronicle.Climbs r v.chronicle v'.chronicle
  carries : v.chronicle.Carries v'.chronicle

theorem upholds_owner (r : Request) (hv : v.Faithful) :
    owner.Upholds r (Climbs r v) fun _ => v.Kept where
  place u hu := by
    have hladder := Chronicle.upholds_owner_carries r v.chronicle
    refine (beside.ends_onHeap (hladder.place u.chronicle ⟨hu.chronicle, hu.carries⟩)).imp ?_ ?_
    · rintro _ ⟨w, rfl, hclimbs, hcarries⟩
      exact ⟨hu.toKept.withChronicle w, hclimbs, hcarries⟩
    · rintro (_ | a) _ ⟨w, rfl, hplaced⟩
      · exact ⟨hu.toKept.withChronicle w, hplaced.1, hplaced.2⟩
      · exact hu.toKept.withChronicle w
  grow u hu := by
    have hgrown := ((Chronicle.upholds_owner_carries r v.chronicle).grow u.chronicle
      ⟨hu.chronicle, hu.carries⟩).final
    exact beside.ends_of_final ⟨hu.toKept.withChronicle _, hgrown.1, hgrown.2⟩
  grown old new u hu := by
    have hgrown := (Chronicle.upholds_owner_carries r v.chronicle).grown old new u.chronicle
      ⟨hu.chronicle, hu.carries⟩
    exact ⟨hu.toKept.withChronicle _, hgrown.1, hgrown.2⟩
  collect target reason u hu := by
    -- the roster is faithful on every rung, so that the collection is listed faithfully
    have hfaithful := (hv.of_carries hu.chronicle.toFaithful hu.carries hu.toKept).1
    have hends := ((Chronicle.upholds_owner_carries r v.chronicle).collect target reason
      u.chronicle ⟨hu.chronicle, hu.carries⟩).final
    rw [Chronicle.owner, Action.final_discard, (seenAs_collectFor target reason).final u] at hends
    refine Action.ends_of_final ?_
    rw [owner, Action.final_discard]
    exact ⟨hu.toKept.trans (hfaithful.kept_collectFor target reason), hends.1, hends.2⟩

/-- The collections that an allocation starts are listed faithfully. -/
theorem Faithful.kept_allocateObject (hv : v.Faithful) (typeId : TypeId) (size : Nat)
    (hasFinalizer : Bool) (build : Build) :
    v.Kept ((recorder.allocateObject typeId size hasFinalizer build).final v) := by
  have hstart : v.Kept v := hv.kept v.chronicle
  refine Recorder.final_allocateObject hstart fun r hr => ?_
  have hclimbs : Climbs r v v :=
    ⟨hstart, ⟨hv.chronicle, .refl _, Request.prepare_spec hr⟩, .refl _⟩
  exact ((upholds_owner r hv).allocate v.collector.config hclimbs).imp
    (fun _ h _ => h.toKept.withChronicle _) fun _ _ h => h.withChronicle _

/-! ### Steps -/

/-- All calls but those on handles leave it as it is what the handles stand for. -/
theorem Faithful.kept_after (hv : v.Faithful) {k : Call κ} (hroots : k.onRoots = false)
    (hweak : k.onWeak = false) : v.Kept (after k v) := by
  cases k with
  | addRoot | setRoot | removeRoot => exact absurd hroots (by simp [Call.onRoots])
  | createWeak | freeWeak => exact absurd hweak (by simp [Call.onWeak])
  | allocate typeId size hasFinalizer build =>
    exact hv.kept_allocateObject typeId size hasFinalizer build
  | collect target reason => exact hv.kept_collectFor target reason
  | _ => exact hv.kept _

theorem Faithful.after (hv : v.Faithful) (k : Call κ) :
    (Roster.after k v).Faithful ∧ v.Onward (Roster.after k v) := by
  have hother : k.onRoots = false → k.onWeak = false →
      (Roster.after k v).Faithful ∧ v.Onward (Roster.after k v) := by
    intro hroots hweak
    have hchronicle := chronicle_after k v
    exact hv.of_carries (hchronicle ▸ hv.chronicle.after k)
      (hchronicle ▸ hv.chronicle.carries_after hroots hweak) (hv.kept_after hroots hweak)
  cases k with
  | addRoot a => exact hv.addRoot a
  | setRoot id a => exact hv.setRoot id a
  | removeRoot id => exact hv.removeRoot id
  | createWeak a => exact hv.createWeak a
  | freeWeak id => exact hv.freeWeak id
  | _ => exact hother rfl rfl

/-- Every step keeps a roster faithful, and no handle or object comes back. -/
theorem Faithful.of_step (hv : v.Faithful) (hs : Step v v') : v'.Faithful ∧ v.Onward v' := by
  have hw := hv.chronicle.of_step hs.chronicle
  cases hs with
  | call k => exact hv.after k
  | takeNext patience =>
    exact hv.of_carries hw (Chronicle.carries_takeNext patience _) (hv.kept _)
  | beginTurn => exact hv.of_carries hw hv.chronicle.carries_beginTurn (hv.kept _)
  | flag inside => exact hv.of_carries hw (.of_tables rfl rfl rfl) (hv.kept _)
  | noteOutcome a fault =>
    exact hv.of_carries hw (Chronicle.carries_noteOutcome a fault _) (hv.kept _)
  | endTurn => exact hv.of_carries hw hv.chronicle.carries_endTurn (hv.kept _)

/-- A roster is faithful along every run. -/
theorem Recorded.faithful (h : Recorded config types v) : v.Faithful := by
  induction h with
  | start build hcreate =>
    have hw := (Chronicle.Recorded.start (κ := κ) build hcreate).faithful
    obtain rfl := Collector.eq_of_create hcreate
    have hempty : ∀ {α : Type} (id : Nat), ({} : HandleTable α).get? id = none := by
      intro α id
      cases id <;> rfl
    refine ⟨hw, ⟨fun id => ?_, fun _ _ h => absurd h (by simp), fun _ h => absurd h (by simp)⟩,
      ⟨fun id => ?_, fun _ _ h => absurd h (by simp), fun _ h => absurd h (by simp)⟩,
      fun e he => absurd he List.not_mem_nil⟩
    · exact congrArg (Option.map some) (hempty id)
    · exact hempty id
  | step _ hs ih => exact (ih.of_step hs).1

open Relation (ReflTransGen)

theorem Recorded.onward (h : Recorded config types v) (hs : ReflTransGen Step v v') :
    Recorded config types v' ∧ v.Onward v' := by
  induction hs with
  | refl => exact ⟨h, .refl v⟩
  | tail _ hstep ih =>
    obtain ⟨hrec, honward⟩ := ih
    exact ⟨hrec.step hstep, honward.trans (hrec.faithful.of_step hstep).2⟩

end Roster

end GenerationalHeap
