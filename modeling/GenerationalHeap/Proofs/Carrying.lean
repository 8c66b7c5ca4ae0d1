/-
Steps that carry the handles along.

* `Chronicle.CarriesBy`, `Chronicle.Carries` — one function of the addresses tells what becomes of
  the places of the objects and of what the handles lead to. No handle is given out or taken
  back, and whoever is nowhere stays there.
* `Chronicle.Faithful.carries_collectFor`, `Chronicle.Faithful.carries_allocateObject` —
  collections and allocations carry the handles along.
* `Chronicle.Faithful.carries_after`, `Chronicle.Faithful.carries_beginTurn` and the like — so does
  everything but the calls on handles.
-/
import GenerationalHeap.Proofs.Passes
import GenerationalHeap.Proofs.Turns

namespace GenerationalHeap

namespace Chronicle

variable {κ : Type} {w w' w'' : Chronicle κ} {c : Collector κ TypeRegistry} {target : Target}
  {f g : Address → Option Address} {o : Nat} {a : Address}

/-! ### Carrying along -/

/-- The objects have gone where `f` tells, and so have the values of the handles. -/
structure CarriesBy (f : Address → Option Address) (w w' : Chronicle κ) : Prop where
  length_le : w.places.length ≤ w'.places.length
  place : ∀ o < w.places.length, w'.place o = (w.place o).bind f
  /-- What a root handle leads to is not lost. -/
  roots : ∀ id, (w'.collector.roots.get? id).map some = (w.collector.roots.get? id).map f
  weak : ∀ id, w'.collector.weak.handles.get? id =
    (w.collector.weak.handles.get? id).map (Option.bind · f)
  nextRoot : w'.collector.roots.next = w.collector.roots.next
  nextWeak : w'.collector.weak.handles.next = w.collector.weak.handles.next

/-- The objects have gone somewhere, and so have the values of the handles. -/
def Carries (w w' : Chronicle κ) : Prop := ∃ f, CarriesBy f w w'

theorem CarriesBy.trans (h : CarriesBy f w w') (h' : CarriesBy g w' w'') :
    CarriesBy (fun a => (f a).bind g) w w'' where
  length_le := Nat.le_trans h.length_le h'.length_le
  place o ho := by
    rw [h'.place o (Nat.lt_of_lt_of_le ho h.length_le), h.place o ho, Option.bind_assoc]
  roots id := by
    calc (w''.collector.roots.get? id).map some
        = (w'.collector.roots.get? id).map g := h'.roots id
      _ = ((w'.collector.roots.get? id).map some).map (Option.bind · g) := by
        rw [Option.map_map]
        rfl
      _ = (w.collector.roots.get? id).map fun a => (f a).bind g := by
        rw [h.roots id, Option.map_map]
        rfl
  weak id := by
    rw [h'.weak id, h.weak id, Option.map_map]
    refine congrArg (Option.map · _) (funext fun place => ?_)
    exact Option.bind_assoc place f g
  nextRoot := h'.nextRoot.trans h.nextRoot
  nextWeak := h'.nextWeak.trans h.nextWeak

namespace Carries

theorem trans (h : w.Carries w') (h' : w'.Carries w'') : w.Carries w'' := by
  obtain ⟨f, hf⟩ := h
  obtain ⟨g, hg⟩ := h'
  exact ⟨_, hf.trans hg⟩

/-- Nothing happens to places and handles. -/
theorem of_tables (hplaces : w'.places = w.places) (hroots : w'.collector.roots = w.collector.roots)
    (hweak : w'.collector.weak.handles = w.collector.weak.handles) : w.Carries w' := by
  refine ⟨some, Nat.le_of_eq (congrArg List.length hplaces.symm), ?_, ?_, ?_, ?_, ?_⟩
  · intro o _
    rw [place, place, hplaces, Option.bind_fun_some]
  · intro id
    rw [hroots]
  · intro id
    rw [hweak]
    simp only [Option.bind_fun_some, Option.map_id']
  · rw [hroots]
  · rw [hweak]

theorem refl (w : Chronicle κ) : w.Carries w := of_tables rfl rfl rfl

/-- A reclaimed object stays reclaimed. -/
theorem place_eq_none (h : w.Carries w') (ho : o < w.places.length) (hplace : w.place o = none) :
    w'.place o = none := by
  obtain ⟨f, hf⟩ := h
  rw [hf.place o ho, hplace]
  rfl

theorem length_le (h : w.Carries w') : w.places.length ≤ w'.places.length := by
  obtain ⟨f, hf⟩ := h
  exact hf.length_le

/-- A new object takes no other one's place. -/
theorem born (w : Chronicle κ) (a : Address) (hasFinalizer : Bool) :
    w.Carries (w.born a hasFinalizer) := by
  refine ⟨some, ?_, ?_, fun _ => rfl, ?_, rfl, rfl⟩
  · show w.places.length ≤ (w.places ++ [some a]).length
    rw [List.length_append]
    exact Nat.le_add_right _ _
  · intro o ho
    have hplace := place_born w w.collector a hasFinalizer o
    rw [if_neg (Nat.ne_of_lt ho)] at hplace
    rw [Option.bind_fun_some]
    exact hplace
  · intro id
    simp only [Option.bind_fun_some, Option.map_id']
    rfl

end Carries

/-! ### Collections -/

open Collector (Collected SameTables)

variable {F : Address → Address} {dying : List Address}

/-- A collection carries the handles to where it moves the objects. -/
theorem carriesBy_of_collected (hw : w.Faithful)
    (hall : ∀ a ∈ w.collector.rootObjects, a ∈ w.collector.heap.objects)
    (hcol : Collected target F dying w.collector c)
    (hnext : c.weak.handles.next = w.collector.weak.handles.next) (notes : Notes κ) :
    CarriesBy (w.collector.placeAfter target) w { w.follow target c with notes } where
  length_le := Nat.le_of_eq (List.length_map _).symm
  place o _ := place_follow w c o
  roots id := by
    show (c.roots.get? id).map some = _
    rw [hcol.roots, HandleTable.get?_map]
    cases hid : w.collector.roots.get? id with
    | none => rfl
    | some a =>
      -- what a root handle leads to survives
      have ha : a ∈ w.collector.rootObjects := List.mem_append_left _ (List.mem_append_left _
        (HandleTable.mem_values_iff.2 ⟨id, hid⟩))
      show some (some (F a)) = some (w.collector.placeAfter target a)
      rw [hcol.followed a (hall a ha), if_pos (Collector.survives_of_root hall ha)]
  weak id := by
    show c.weak.handles.get? id = _
    rw [hcol.weak id]
    cases hid : w.collector.weak.handles.get? id with
    | none => rfl
    | some place =>
      cases place with
      | none => rfl
      | some a =>
        have ha : a ∈ w.collector.heap.objects :=
          hw.steady.weak a (HandleTable.mem_values_iff.2 ⟨id, hid⟩)
        show some _ = some (w.collector.placeAfter target a)
        rw [hcol.followed a ha]
        rfl
  nextRoot := by
    show c.roots.next = _
    rw [hcol.roots, HandleTable.next_map]
  nextWeak := hnext

/-- A collection that succeeds carries the handles to where it moves the objects. -/
theorem Faithful.carriesBy_of_ok (hw : w.Faithful) {reason : Reason} {report : Report}
    (hrun : Collector.collectFor target reason w.collector = .ok report c) (notes : Notes κ) :
    CarriesBy (w.collector.placeAfter target) w { w.follow target c with notes } := by
  obtain ⟨F, dying, hall, hcol⟩ := hw.steady.collected_of_ok hrun
  exact carriesBy_of_collected hw hall hcol (hw.steady.reported_of_ok hrun).weak notes

/-- Whether it fails or not, a collection carries the handles along. -/
theorem Faithful.carries_collectFor (hw : w.Faithful) (target : Target) (reason : Reason) :
    w.Carries ((Chronicle.collectFor target reason).final w) := by
  rw [Action.final, Chronicle.collectFor]
  cases hrun : Collector.collectFor target reason w.collector with
  | ok report c => exact ⟨_, hw.carriesBy_of_ok hrun _⟩
  | error e c =>
    have huntouched := hw.steady.untouched_of_error hrun
    exact .of_tables rfl huntouched.roots (congrArg (·.handles) huntouched.weak)

/-! ### Allocations -/

section Allocate

variable {r : Request}

/-- What is done to the heap alone leaves places and handles as they are. -/
theorem Carries.final_onHeap {α : Type} (act : Action Heap α) (w : Chronicle κ) :
    w.Carries ((onHeap act : Action (Chronicle κ) α).final w) := by
  rw [Action.final, onHeap]
  cases act (HoldsHeap.heap w) <;> exact .of_tables rfl rfl rfl

theorem ends_onHeap_carries {α : Type} (act : Action Heap α) {v : Chronicle κ} (hv : w.Carries v) :
    (onHeap act : Action (Chronicle κ) α).Ends v w.Carries fun _ => w.Carries :=
  Action.ends_of_final (P := w.Carries) (hv.trans (.final_onHeap act v))

/-- All rungs of the ladder of an allocation carry the handles along. -/
theorem upholds_owner_carries (r : Request) (w : Chronicle κ) :
    owner.Upholds r (fun v => Climbs r w v ∧ w.Carries v)
      fun a v => Places r w a v ∧ w.Carries v where
  place v hv := by
    refine (((upholds_owner r w).place v hv.1).and (ends_onHeap_carries r.place? hv.2)).imp
      (fun _ h => h) ?_
    rintro (_ | a) v' ⟨hplaced, hcarries⟩
    · exact ⟨hplaced, hcarries⟩
    · exact ⟨hplaced, hcarries⟩
  grow v hv := ((upholds_owner r w).grow v hv.1).and (ends_onHeap_carries _ hv.2)
  grown old new v hv :=
    ⟨(upholds_owner r w).grown old new v hv.1, hv.2.trans (.of_tables rfl rfl rfl)⟩
  collect target reason v hv := by
    refine ((upholds_owner r w).collect target reason v hv.1).and
      (Action.ends_of_final (P := w.Carries) ?_)
    rw [owner, Action.final_discard]
    exact hv.2.trans (hv.1.toFaithful.carries_collectFor target reason)

/-- An allocation carries the handles along, with all the collections that it starts, whether it
fails or not. -/
theorem Faithful.carries_allocateObject (hw : w.Faithful) (typeId : TypeId) (size : Nat)
    (hasFinalizer : Bool) (build : Build) :
    w.Carries ((Chronicle.allocateObject typeId size hasFinalizer build).final w) := by
  rw [allocateObject_eq_recorder]
  refine Recorder.final_allocateObject (.refl w) fun r hr => ?_
  have hends := (upholds_owner_carries r w).allocate w.collector.config
    ⟨⟨hw, .refl w, Request.prepare_spec hr⟩, .refl w⟩
  refine hends.imp ?_ ?_
  · rintro w' ⟨-, hcarries⟩ e
    obtain ⟨statistics, log, processLog, heq⟩ := Collector.noteFailure_eq e w'.collector
    dsimp only [recorder]
    rw [heq]
    exact hcarries.trans (.of_tables rfl rfl rfl)
  · rintro a w' ⟨-, hcarries⟩
    have hcounted : w.Carries (w'.withCollector { w'.collector with
        statistics := w'.collector.statistics.recordAllocation r.blockSize }) :=
      hcarries.trans (.of_tables rfl rfl rfl)
    exact hcounted.trans (.born _ a hasFinalizer)

end Allocate

/-! ### Other steps -/

theorem Carries.final_noting {α : Type} {n : Note κ} {act : Action (Collector κ TypeRegistry) α}
    (hroots : (act.final w.collector).roots = w.collector.roots)
    (hweak : (act.final w.collector).weak.handles = w.collector.weak.handles) :
    w.Carries ((noting n act).final w) := by
  rw [Action.final] at hroots hweak ⊢
  rw [noting]
  cases hrun : act w.collector with
  | ok x c =>
    rw [hrun] at hroots hweak
    exact .of_tables rfl hroots hweak
  | error e c =>
    rw [hrun] at hroots hweak
    exact .of_tables rfl hroots hweak

/-- All calls but those on handles carry the handles along. -/
theorem Faithful.carries_after (hw : w.Faithful) {k : Call κ} (hroots : k.onRoots = false)
    (hweak : k.onWeak = false) : w.Carries (Chronicle.after k w) := by
  have hquiet : k.isQuiet = true → w.Carries (w.withCollector (Collector.after k w.collector)) := by
    intro hk
    have htouches := hw.steady.touches_after hk
    exact .of_tables rfl (htouches.roots_eq hroots) (congrArg (·.handles) (htouches.weak_eq hweak))
  cases k with
  | addRoot | setRoot | removeRoot => exact absurd hroots (by simp [Call.onRoots])
  | createWeak | freeWeak => exact absurd hweak (by simp [Call.onWeak])
  | allocate typeId size hasFinalizer build =>
    exact hw.carries_allocateObject typeId size hasFinalizer build
  | collect target reason => exact hw.carries_collectFor target reason
  | registerFinalizer a callback =>
    have hreflags := hw.steady.reflags_registerFinalizer a callback
    exact .final_noting hreflags.roots_eq (congrArg (·.handles) hreflags.weak_eq)
  | suppressFinalization a =>
    have hreflags := hw.steady.reflags_suppressFinalization a
    exact .final_noting hreflags.roots_eq (congrArg (·.handles) hreflags.weak_eq)
  | _ => exact hquiet rfl

/-! ### The turn of a finalizer -/

theorem carries_takeNext (patience : Patience) (w : Chronicle κ) :
    w.Carries (w.takeNext patience) := by
  rw [takeNext]
  split <;> exact .of_tables rfl rfl rfl

theorem Faithful.carries_beginTurn (hw : w.Faithful) : w.Carries w.beginTurn := by
  have hplaces : w.beginTurn.places = w.places := by
    rw [Chronicle.beginTurn]
    split <;> rfl
  refine .of_tables hplaces ?_ ?_
  all_goals
    rw [collector_beginTurn]
    rcases hw.steady.beginTurn_eq with ⟨hrun, -⟩ | ⟨a, -, -, -, running, hrun⟩ <;> rw [hrun]

theorem carries_noteOutcome (a : Address) (fault : Option String) (w : Chronicle κ) :
    w.Carries (w.withCollector (Collector.noteOutcome a fault w.collector)) := by
  cases fault <;> exact .of_tables rfl rfl rfl

theorem Faithful.carries_endTurn (hw : w.Faithful) : w.Carries w.endTurn := by
  have hend : w.endTurn.collector = w.collector.endTurn := rfl
  refine .of_tables rfl ?_ ?_ <;> rw [hend, hw.steady.endTurn_eq]

end Chronicle

end GenerationalHeap
