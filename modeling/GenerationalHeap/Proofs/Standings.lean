/-
What handles stand for, and what collections do to that.

* `Standing` — nothing yet, an object, or nothing any more.
* `Leads` — a table leads each handle to the place of the object that it stands for.
* `Turnover` — a collection between the chronicles before and after it.
* `Leads.turnover` — it takes the numbers of the objects along, and its report counts the weak
  handles whose objects it reclaims.
-/
import GenerationalHeap.Proofs.Carrying
import GenerationalHeap.Proofs.Guarantees

namespace GenerationalHeap

/-! ### Standings -/

/-- What a handle stands for. -/
inductive Standing where
  /-- It was not given out. -/
  | unknown
  /-- The object of that number. -/
  | names (o : Nat)
  /-- It was released. -/
  | released
  deriving DecidableEq

namespace Standing

/-- The object that a handle stands for. -/
def object? : Standing → Option Nat
  | names o => some o
  | _ => none

/-- A handle is given out, stands for objects, and is released. -/
def rank : Standing → Nat
  | unknown => 0
  | names _ => 1
  | released => 2

theorem names_or_released {s s' : Standing} {o : Nat} (h : s.rank ≤ s'.rank) (hs : s = .names o) :
    (∃ p, s' = .names p) ∨ s' = .released := by
  subst hs
  cases s' with
  | unknown => simp [rank] at h
  | names p => exact Or.inl ⟨p, rfl⟩
  | released => exact Or.inr rfl

theorem eq_released {s s' : Standing} (h : s.rank ≤ s'.rank) (hs : s = .released) :
    s' = .released := by
  subst hs
  cases s' with
  | released => rfl
  | _ => simp [rank] at h

end Standing

/-! ### Where handles lead -/

open Function (update)

variable {κ : Type} {w w' : Chronicle κ} {id : Nat}

/-- A table with the values `look` leads each handle to the place of the object that it stands
for, and will not give a released handle out again. -/
structure Leads (standing : Nat → Standing) (look : Nat → Option (Option Address)) (next : Nat)
    (w : Chronicle κ) : Prop where
  look_eq : ∀ id, look id = (standing id).object?.map w.place
  known : ∀ id o, standing id = .names o → o < w.places.length
  given : ∀ id, standing id = .released → id < next

namespace Leads

variable {standing : Nat → Standing} {look look' : Nat → Option (Option Address)} {next next' : Nat}
  {p : Option Address} {o : Nat}

theorem look_of_names (h : Leads standing look next w) (hid : standing id = .names o) :
    look id = some (w.place o) := by
  rw [h.look_eq, hid]
  rfl

/-- A handle leads nowhere exactly if it stands for nothing. -/
theorem look_eq_none_iff (h : Leads standing look next w) :
    look id = none ↔ ∀ o, standing id ≠ .names o := by
  rw [h.look_eq]
  cases standing id <;> simp [Standing.object?]

theorem exists_names (h : Leads standing look next w) (hid : look id = some p) :
    ∃ o, standing id = .names o := by
  by_contra hno
  rw [h.look_eq_none_iff.2 fun o ho => hno ⟨o, ho⟩] at hid
  exact absurd hid (by simp)

/-- A handle that leads nowhere and was not given out yet is unknown. -/
theorem unknown_next (h : Leads standing look next w) (hnone : look next = none) :
    standing next = .unknown := by
  cases hnext : standing next with
  | unknown => rfl
  | names o => exact absurd hnext (h.look_eq_none_iff.1 hnone o)
  | released => exact absurd (h.given next hnext) (Nat.lt_irrefl _)

theorem carried {f : Address → Option Address} (h : Leads standing look next w)
    (hw : Chronicle.CarriesBy f w w') (hlook : ∀ id, look' id = (look id).map (Option.bind · f))
    (hnext : next' = next) : Leads standing look' next' w' where
  look_eq id := by
    rw [hlook, h.look_eq]
    cases hid : standing id with
    | names o =>
      show some ((w.place o).bind f) = some (w'.place o)
      rw [hw.place o (h.known id o hid)]
    | _ => rfl
  known id o hid := Nat.lt_of_lt_of_le (h.known id o hid) hw.length_le
  given id hid := hnext ▸ h.given id hid

/-- The table of the other kind of handles stays as it is. -/
theorem same (h : Leads standing look next w) (hplaces : w'.places = w.places) :
    Leads standing look next w' where
  look_eq id := by
    rw [h.look_eq, funext fun o => (by rw [Chronicle.place, Chronicle.place, hplaces] :
      w'.place o = w.place o)]
  known id o hid := hplaces ▸ h.known id o hid
  given := h.given

/-- A handle stands for something else from now on. -/
theorem enter (h : Leads standing look next w) {s : Standing}
    (hlook : ∀ k, look' k = if k = id then s.object?.map w.place else look k)
    (hnext : next ≤ next') (hknown : ∀ o, s = .names o → o < w.places.length)
    (hgiven : s = .released → id < next') : Leads (update standing id s) look' next' w where
  look_eq k := by
    rw [hlook]
    by_cases hk : k = id
    · rw [if_pos hk, hk, Function.update_self]
    · rw [if_neg hk, Function.update_of_ne hk, h.look_eq]
  known k p hp := by
    by_cases hk : k = id
    · rw [hk, Function.update_self] at hp
      exact hknown p hp
    · rw [Function.update_of_ne hk] at hp
      exact h.known k p hp
  given k hgone := by
    by_cases hk : k = id
    · rw [hk, Function.update_self] at hgone
      exact hk ▸ hgiven hgone
    · rw [Function.update_of_ne hk] at hgone
      exact Nat.lt_of_lt_of_le (h.given k hgone) hnext

/-- An object is stored under a handle. -/
theorem put (h : Leads standing look next w) (ho : o < w.places.length)
    (hlook : ∀ k, look' k = if k = id then some (w.place o) else look k) (hnext : next ≤ next') :
    Leads (update standing id (.names o)) look' next' w :=
  h.enter hlook hnext (fun _ heq => Standing.names.inj heq ▸ ho) fun heq => absurd heq (by simp)

/-- A handle is released. -/
theorem drop (h : Leads standing look next w) (hid : id < next)
    (hlook : ∀ k, look' k = if k = id then none else look k) :
    Leads (update standing id .released) look' next w :=
  h.enter hlook (Nat.le_refl next) (fun _ heq => absurd heq (by simp)) fun _ => hid

end Leads

/-! ### Turnovers -/

/-- A collection that has succeeded, between the chronicles before and after it. -/
structure Turnover (κ : Type) where
  target : Target
  report : Report
  /-- What the weak handles stood for. -/
  watched : Nat → Standing
  before : Chronicle κ
  after : Chronicle κ

/-- What a collection does to the objects, and what its report tells of the weak handles. -/
structure Turnover.Faithful (e : Turnover κ) : Prop where
  located_before : e.before.Located
  located_after : e.after.Located
  /-- The numbers of the survivors are taken along to where they move. -/
  moved : ∃ F, Collector.Relocates e.target F e.before.collector e.after.collector ∧
    ∀ o b, e.after.place o = some b ↔ ∃ a, e.before.place o = some a ∧
      e.before.collector.heap.Survives e.before.collector.types e.target
        e.before.collector.rootObjects a ∧ F a = b
  /-- The report counts the handles of the objects that are reclaimed. -/
  cleared : ∃ ids : List Nat, ids.Nodup ∧ e.report.weakCleared = ids.length ∧
    ∀ id, id ∈ ids ↔ ∃ o, e.watched id = .names o ∧ (e.before.place o).isSome = true ∧
      e.after.place o = none

section Turnover

variable {standing : Nat → Standing} {target : Target} {reason : Reason} {report : Report}

/-- A report counts the weak handles whose objects its collection has reclaimed. -/
theorem Leads.weakCleared_eq (h : Leads standing w.collector.weak.handles.get?
      w.collector.weak.handles.next w) (hw : w.Faithful) {c : Collector κ TypeRegistry}
    (hrun : Collector.collectFor target reason w.collector = .ok report c)
    (hplace : ∀ o, w'.place o = (w.follow target c).place o) :
    report.weakCleared = (w.collector.weak.handles.ids.filter fun id =>
      (standing id).object?.any fun o => (w.place o).isSome && (w'.place o).isNone).length := by
  rw [(hw.steady.reported_of_ok hrun).weakCleared, HandleTable.values_eq_filterMap,
    List.countP_filterMap, ← List.countP_eq_length_filter]
  refine List.countP_congr fun id _ => ?_
  rw [h.look_eq]
  cases (standing id).object? with
  | none => rfl
  | some o =>
    show (w.place o).any _ = true ↔ ((w.place o).isSome && (w'.place o).isNone) = true
    rw [hplace, Chronicle.place_follow]
    cases w.place o <;> simp

/-- A chronicle records its collections faithfully. -/
theorem Leads.turnover (h : Leads standing w.collector.weak.handles.get?
      w.collector.weak.handles.next w) (hw : w.Faithful)
    (hrun : Chronicle.collectFor target reason w = .ok report w') :
    (Turnover.mk target report standing w w').Faithful := by
  -- only the places and the collector of `w'` matter, whatever it notes of the queue
  have hw' : w'.Faithful := Action.final_of_ok hrun ▸ (hw.collectFor target reason).1
  obtain ⟨hcollect, hplaces⟩ := Chronicle.places_of_collectFor hrun
  have hplace : ∀ o, w'.place o = (w.follow target w'.collector).place o := fun o =>
    congrArg (·[o]?.join) hplaces
  obtain ⟨F, dying, hall, hcol⟩ := hw.steady.collected_of_ok hcollect
  refine ⟨hw.toLocated, hw'.toLocated, ⟨F, hcol.relocates hw.steady.toSound hall, fun o b => ?_⟩,
    _, List.Nodup.filter _ (HandleTable.nodup_ids _), h.weakCleared_eq hw hcollect hplace, ?_⟩
  · rw [hplace]
    exact Chronicle.place_follow_iff hw hcol
  · intro id
    show _ ↔ ∃ o, standing id = .names o ∧ (w.place o).isSome = true ∧ w'.place o = none
    rw [List.mem_filter, HandleTable.mem_ids, h.look_eq]
    cases standing id <;> simp [Standing.object?]

end Turnover

end GenerationalHeap
